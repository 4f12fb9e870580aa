namespace LogosAccounts

/-- JSON syntax trees as `serde_json` reads them: members stay in order and
repeated names are kept. A number is its literal. -/
inductive Json where
  | null
  | bool (value : Bool)
  | number (literal : String)
  | str (text : String)
  | arr (items : List Json)
  | obj (members : List (String × Json))
  deriving Repr

end LogosAccounts
