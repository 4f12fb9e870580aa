import LogosAccounts.Account

namespace LogosAccounts
open BetterSign hiding mk
open Functional (FiniteMap)
variable [BetterSign]

/-- In-process multi-account cache keyed by the hash of the VLAD. -/
abbrev AccountCache := FiniteMap VladHash PlogAccount

namespace AccountCache

def keyFromMultibase (vladMultibase : String) : Except Error VladHash := do
  let vlad ← decodeVlad vladMultibase
  return vladHash vlad

omit [BetterSign] in
/-- Short hex prefix of a hash for error messages. -/
def hashHexShort (key : VladHash) : String := String.ofList ((encodeHex key.toList).toList.take 16)

def getByHash (cache : AccountCache) (key : VladHash) : Except Error PlogAccount :=
  match cache.lookup key with
  | some account => .ok account
  | none => .error (.accountNotCached (hashHexShort key))

/-- The account with the key it sits under: the shared handle of the source. -/
def get (cache : AccountCache) (vladMultibase : String) :
    Except Error (VladHash × PlogAccount) := do
  let key ← keyFromMultibase vladMultibase
  let account ← cache.getByHash key
  return (key, account)

def insert (cache : AccountCache) (vladMultibase : String) (account : PlogAccount) :
    Except Error AccountCache := do
  let key ← keyFromMultibase vladMultibase
  return FiniteMap.insert cache key account

def remove (cache : AccountCache) (vladMultibase : String) : Except Error AccountCache := do
  let key ← keyFromMultibase vladMultibase
  let _ ← cache.getByHash key
  return FiniteMap.erase cache key

end AccountCache
end LogosAccounts
