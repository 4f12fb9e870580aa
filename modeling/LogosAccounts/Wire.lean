import LogosAccounts.EntryUpdate
import LogosAccounts.Encoding

/-! The types of the JSON surface, with the rules serde derives from the
attributes written on them. A reader gives `none` where serde gives an error. -/

namespace LogosAccounts
open BetterSign hiding mk
open Functional (debugText)

def Json.asString : Json → Option String
  | .str text => some text
  | _ => none

/-- An `Option<String>` member: `null` is `None`. -/
def Json.asOptionalString : Json → Option (Option String)
  | .null => some none
  | .str text => some (some text)
  | _ => none

/-- The value of a member that may be missing; a repeated name is an error and
other names are skipped. -/
def Json.memberOr (missing : Option α) (read : Json → Option α)
    (members : List (String × Json)) (name : String) : Option α :=
  match members.filter (fun member => member.1 = name) with
  | [] => missing
  | [(_, value)] => read value
  | _ => none

def Json.member (read : Json → Option α) (members : List (String × Json)) (name : String) :
    Option α :=
  Json.memberOr none read members name

def Json.optionalString : Option String → Json
  | none => .null
  | some text => .str text

/-- The name of a variant without contents: a string, or an object with the name
and `null`. -/
def Json.asUnitVariant : Json → Option String
  | .str name => some name
  | .obj [(name, .null)] => some name
  | _ => none

def Json.listOf (read : Json → Option α) : Json → Option (List α)
  | .arr items => items.mapM read
  | _ => none

structure AccountSummary where
  vlad : String
  headCid : String
  pubkey : Option String
  deriving DecidableEq, Repr

def AccountSummary.toJson (summary : AccountSummary) : Json :=
  .obj [("vlad", .str summary.vlad), ("head_cid", .str summary.headCid),
    ("pubkey", Json.optionalString summary.pubkey)]

/-- An `Option` that is missing is `None`; the derived readers also take the fields
in order as a sequence. -/
def AccountSummary.fromJson : Json → Option AccountSummary
  | .obj members => do
    let vlad ← Json.member Json.asString members "vlad"
    let headCid ← Json.member Json.asString members "head_cid"
    let pubkey ← Json.memberOr (some none) Json.asOptionalString members "pubkey"
    return { vlad, headCid, pubkey }
  | .arr [vlad, headCid, pubkey] => do
    let vlad ← vlad.asString
    let headCid ← headCid.asString
    let pubkey ← pubkey.asOptionalString
    return { vlad, headCid, pubkey }
  | _ => none

inductive PlogPathValue where
  | str (text : String)
  | bin (multibase : String)
  deriving DecidableEq, Repr

/-- Adjacently tagged by `type` and `value`. -/
def PlogPathValue.toJson : PlogPathValue → Json
  | .str text => .obj [("type", .str "str"), ("value", .str text)]
  | .bin multibase => .obj [("type", .str "bin"), ("value", .str multibase)]

def PlogPathValue.ofContent (content : Json) : String → Option PlogPathValue
  | "str" => content.asString.map .str
  | "bin" => content.asString.map .bin
  | _ => none

/-- The tag and the content may stand in either order. -/
def PlogPathValue.fromJson : Json → Option PlogPathValue
  | .obj members => do
    let tag ← Json.member Json.asUnitVariant members "type"
    let content ← Json.member some members "value"
    PlogPathValue.ofContent content tag
  | .arr [tag, content] => do
    let tag ← tag.asString
    PlogPathValue.ofContent content tag
  | _ => none

structure PathDelegation where
  path : String
  pubkey : String
  deriving DecidableEq, Repr

def PathDelegation.toJson (delegation : PathDelegation) : Json :=
  .obj [("path", .str delegation.path), ("pubkey", .str delegation.pubkey)]

def PathDelegation.fromJson : Json → Option PathDelegation
  | .obj members => do
    let path ← Json.member Json.asString members "path"
    let pubkey ← Json.member Json.asString members "pubkey"
    return { path, pubkey }
  | .arr [path, pubkey] => do
    let path ← path.asString
    let pubkey ← pubkey.asString
    return { path, pubkey }
  | _ => none

inductive UpdateKind where
  | entry
  | delegate
  | revoke
  deriving DecidableEq, Repr

def UpdateKind.toJson : UpdateKind → Json
  | .entry => .str "entry"
  | .delegate => .str "delegate"
  | .revoke => .str "revoke"

def UpdateKind.ofName : String → Option UpdateKind
  | "entry" => some .entry
  | "delegate" => some .delegate
  | "revoke" => some .revoke
  | _ => none

def UpdateKind.fromJson (json : Json) : Option UpdateKind := json.asUnitVariant.bind UpdateKind.ofName

structure UpdateChallenge where
  challengeId : String
  vlad : String
  kind : UpdateKind
  path : Option String
  signingKeyPath : String
  headCid : String
  messageMultibase : String
  messageEncoding : String
  deriving DecidableEq, Repr

/-- A `path` of `None` is skipped. -/
def UpdateChallenge.toJson (challenge : UpdateChallenge) : Json :=
  .obj ([("challenge_id", .str challenge.challengeId), ("vlad", .str challenge.vlad),
      ("kind", challenge.kind.toJson)] ++
    (challenge.path.map fun path => ("path", Json.str path)).toList ++
    [("signing_key_path", .str challenge.signingKeyPath), ("head_cid", .str challenge.headCid),
      ("message_multibase", .str challenge.messageMultibase),
      ("message_encoding", .str challenge.messageEncoding)])

def UpdateChallenge.fromJson : Json → Option UpdateChallenge
  | .obj members => do
    let challengeId ← Json.member Json.asString members "challenge_id"
    let vlad ← Json.member Json.asString members "vlad"
    let kind ← Json.member UpdateKind.fromJson members "kind"
    let path ← Json.memberOr (some none) Json.asOptionalString members "path"
    let signingKeyPath ← Json.member Json.asString members "signing_key_path"
    let headCid ← Json.member Json.asString members "head_cid"
    let messageMultibase ← Json.member Json.asString members "message_multibase"
    let messageEncoding ← Json.member Json.asString members "message_encoding"
    return ⟨challengeId, vlad, kind, path, signingKeyPath, headCid, messageMultibase, messageEncoding⟩
  | .arr [challengeId, vlad, kind, path, signingKeyPath, headCid, messageMultibase,
      messageEncoding] => do
    let challengeId ← challengeId.asString
    let vlad ← vlad.asString
    let kind ← UpdateKind.fromJson kind
    let path ← path.asOptionalString
    let signingKeyPath ← signingKeyPath.asString
    let headCid ← headCid.asString
    let messageMultibase ← messageMultibase.asString
    let messageEncoding ← messageEncoding.asString
    return ⟨challengeId, vlad, kind, path, signingKeyPath, headCid, messageMultibase, messageEncoding⟩
  | _ => none

inductive PlogValue where
  | str (text : String)
  | data (multibase : String)
  deriving DecidableEq, Repr

inductive PlogOp where
  | noop (key : String)
  | delete (key : String)
  | update (key : String) (value : PlogValue)
  deriving DecidableEq, Repr

structure LockScriptJson where
  path : String
  code : String
  deriving DecidableEq, Repr

inductive LockSpec where
  | keyword (word : String)
  | replace (replace : List LockScriptJson)
  | upsert (upsert : LockScriptJson)
  | remove (remove : String)
  deriving DecidableEq, Repr

instance : Inhabited LockSpec := ⟨.keyword "inherit"⟩

structure EntryUpdateRequest where
  locks : LockSpec
  ops : List PlogOp
  signAs : Option String
  deriving DecidableEq, Repr

/-- Externally tagged: an object with exactly one member. -/
def PlogValue.toJson : PlogValue → Json
  | .str text => .obj [("str", .str text)]
  | .data multibase => .obj [("data", .str multibase)]

def PlogValue.fromJson : Json → Option PlogValue
  | .obj [("str", value)] => value.asString.map .str
  | .obj [("data", value)] => value.asString.map .data
  | _ => none

/-- Internally tagged by `op`. -/
def PlogOp.toJson : PlogOp → Json
  | .noop key => .obj [("op", .str "noop"), ("key", .str key)]
  | .delete key => .obj [("op", .str "delete"), ("key", .str key)]
  | .update key value =>
    .obj [("op", .str "update"), ("key", .str key), ("value", value.toJson)]

def PlogOp.ofMembers (members : List (String × Json)) : String → Option PlogOp
  | "noop" => (Json.member Json.asString members "key").map .noop
  | "delete" => (Json.member Json.asString members "key").map .delete
  | "update" => do
    let key ← Json.member Json.asString members "key"
    let value ← Json.member PlogValue.fromJson members "value"
    return .update key value
  | _ => none

/-- The derived reader also takes the tag and the fields of the variant as a
sequence. -/
def PlogOp.fromJson : Json → Option PlogOp
  | .obj members => do
    let tag ← Json.member Json.asString members "op"
    PlogOp.ofMembers (members.filter fun member => member.1 ≠ "op") tag
  | .arr [.str "noop", key] => key.asString.map .noop
  | .arr [.str "delete", key] => key.asString.map .delete
  | .arr [.str "update", key, value] => do
    let key ← key.asString
    let value ← PlogValue.fromJson value
    return .update key value
  | _ => none

def LockScriptJson.toJson (script : LockScriptJson) : Json :=
  .obj [("path", .str script.path), ("code", .str script.code)]

def LockScriptJson.fromJson : Json → Option LockScriptJson
  | .obj members => do
    let path ← Json.member Json.asString members "path"
    let code ← Json.member Json.asString members "code"
    return { path, code }
  | .arr [path, code] => do
    let path ← path.asString
    let code ← code.asString
    return { path, code }
  | _ => none

/-- Untagged: the fields of the variant alone. -/
def LockSpec.toJson : LockSpec → Json
  | .keyword word => .str word
  | .replace given => .obj [("replace", .arr (given.map LockScriptJson.toJson))]
  | .upsert given => .obj [("upsert", given.toJson)]
  | .remove path => .obj [("remove", .str path)]

/-- The variants are tried in declaration order. A struct variant
reads an object and skips the members it does not name. -/
def LockSpec.fromJson : Json → Option LockSpec
  | .str word => some (.keyword word)
  | .obj members =>
    (Json.member (Json.listOf LockScriptJson.fromJson) members "replace").map .replace <|>
    (Json.member LockScriptJson.fromJson members "upsert").map .upsert <|>
    (Json.member Json.asString members "remove").map .remove
  | _ => none

/-- No member is skipped: a `sign_as` of `None` is `null`. -/
def EntryUpdateRequest.toJson (request : EntryUpdateRequest) : Json :=
  .obj [("locks", request.locks.toJson), ("ops", .arr (request.ops.map PlogOp.toJson)),
    ("sign_as", Json.optionalString request.signAs)]

/-- Every field has a default; the derived reader also takes the fields in
order as a sequence. -/
def EntryUpdateRequest.fromJson : Json → Option EntryUpdateRequest
  | .obj members => do
    let locks ← Json.memberOr (some default) LockSpec.fromJson members "locks"
    let ops ← Json.memberOr (some []) (Json.listOf PlogOp.fromJson) members "ops"
    let signAs ← Json.memberOr (some none) Json.asOptionalString members "sign_as"
    return { locks, ops, signAs }
  | .arr items => do
    if items.length > 3 then none
    let locks ← (items[0]?).elim (some default) LockSpec.fromJson
    let ops ← (items[1]?).elim (some []) (Json.listOf PlogOp.fromJson)
    let signAs ← (items[2]?).elim (some none) Json.asOptionalString
    return { locks, ops, signAs }
  | _ => none

variable [BetterSign]

def PlogPathValue.toJsonString (value : PlogPathValue) : String := jsonToString value.toJson

/-- Parse raw `prepare_update` JSON. -/
def parseEntryUpdateRequest (s : String) : Except Error EntryUpdateRequest :=
  match jsonFromStr s with
  | .error e => .error (.encoding ("request_json: " ++ e))
  | .ok json =>
    match EntryUpdateRequest.fromJson json with
    | none => .error (.encoding ("request_json: " ++ serdeErrorText s))
    | some request => .ok request

def parseKey (s : String) : Except Error Key :=
  (keyTryFrom s).mapError fun e => .invalidOp ("invalid key path " ++ s ++ ": " ++ e)

/-- Convert to BetterSign op parameters. -/
def PlogOp.intoOpParams : PlogOp → Except Error OpParams
  | .noop key => return .noop (← parseKey key)
  | .delete key => return .delete (← parseKey key)
  | .update key value => do
    let key ← parseKey key
    match value with
    | .str s => return .useStr key s
    | .data dataMultibase => return .useBin key (← decodeBytesMultibase dataMultibase)

def plogOpsToParams (ops : List PlogOp) : Except Error (List OpParams) :=
  ops.mapM PlogOp.intoOpParams

def lockScriptFromJson (s : LockScriptJson) : Except Error Script := do
  let path ← parseKey s.path
  return .code path s.code

/-- The complete lock list for the next entry; `none` keeps the head's. -/
def lockSpecToScripts (head : Entry) : LockSpec → Except Error (Option (List Script))
  | .keyword k =>
    if k = "inherit" then .ok none
    else .error (.invalidOp
      ("unknown locks keyword " ++ debugText debugShows k ++ "; use \"inherit\" or an object"))
  | .replace replace => do
    let scripts ← replace.mapM lockScriptFromJson
    return some scripts
  | .upsert upsert => do
    let path ← parseKey upsert.path
    let script ← lockScriptFromJson upsert
    return some (locksReplacingPath head path (some script))
  | .remove remove => do
    let path ← parseKey remove
    return some (locksReplacingPath head path none)

end LogosAccounts
