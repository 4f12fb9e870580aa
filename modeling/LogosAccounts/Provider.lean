import LogosAccounts.Handles

/-! The provider between the host and an implementation of the module trait: the
statics it keeps, the C entry points, and what they do on the way. Entry points run
one at a time, and a C string stands for the text it decodes to. -/

namespace LogosAccounts
open BetterSign hiding mk
open Functional (Machine)

structure RustModuleContext where
  modulePath : String
  instanceId : String
  instancePersistencePath : String
  deriving DecidableEq, Repr

/-- The host's callback with the user data it is called with; both are addresses. -/
structure EmitCb where
  callback : Nat
  userData : Nat
  deriving DecidableEq, Repr

/-- What an entry point does besides changing the statics. -/
inductive HostEffect where
  /-- `logos_module_install` is called. -/
  | installed
  /-- The implementation is default-constructed. -/
  | constructed
  /-- `on_context_ready` of the implementation is called. -/
  | contextReady (context : RustModuleContext)
  /-- The host's callback is called with a name and a JSON payload. -/
  | emitted (sink : EmitCb) (name payload : String)
  | tokenSaved (moduleName token : String)
  deriving DecidableEq, Repr

/-- `CString::new`: a text with a NUL has no C string. -/
def cString (text : String) : Option String := if '\x00' ∈ text.toList then none else some text

/-- A C string argument; the null pointer stands for the empty text. -/
def textOr (pointer : Option String) : String := pointer.getD ""

variable [BetterSign]

def emitEvent (sink : Option EmitCb) (name : String) (payload : Json) : List HostEffect :=
  match sink with
  | none => []
  | some sink => [.emitted sink (textOr (cString name)) (textOr (cString (jsonToString payload)))]

def emitAccountCreated (sink : Option EmitCb) (vlad : String) : List HostEffect :=
  emitEvent sink "account_created" (.arr [.str vlad])

def emitAccountUpdated (sink : Option EmitCb) (headCid : String) : List HostEffect :=
  emitEvent sink "account_updated" (.arr [.str headCid])

def emitError (sink : Option EmitCb) (message : String) : List HostEffect :=
  emitEvent sink "error" (.arr [.str message])

def emitPathDelegated (sink : Option EmitCb) (vlad path : String) : List HostEffect :=
  emitEvent sink "path_delegated" (.arr [.str vlad, .str path])

def emitPathRevoked (sink : Option EmitCb) (vlad path : String) : List HostEffect :=
  emitEvent sink "path_revoked" (.arr [.str vlad, .str path])

def Event.emit (sink : Option EmitCb) : Event → List HostEffect
  | .accountCreated vlad => emitAccountCreated sink vlad
  | .accountUpdated headCid => emitAccountUpdated sink headCid
  | .pathDelegated vlad path => emitPathDelegated sink vlad path
  | .pathRevoked vlad path => emitPathRevoked sink vlad path
  | .error message => emitError sink message

/-- An implementation of the trait that can be default-constructed. A method may ask for
the context; it returns its string, and the events it has emitted. -/
structure LogosAccountsModule (T : Type) where
  default : T
  onContextReady : T → RustModuleContext → T
  call : T → Option RustModuleContext → Call → Ambient → T × String × List Event

omit [BetterSign] in
/-- A missing argument and one that is not a string are the empty string. -/
def argStr (args : List Json) (i : Nat) : String := ((args.getD i .null).asString).getD ""

omit [BetterSign] in
/-- The match on the method name, with the number of arguments each method needs. -/
def decodeCall (method : String) (args : List Json) : Option Call :=
  match method with
  | "create_account" => if args.isEmpty then none else some (.createAccount (argStr args 0))
  | "import_plog" => if args.isEmpty then none else some (.importPlog (argStr args 0))
  | "export_plog" => if args.isEmpty then none else some (.exportPlog (argStr args 0))
  | "remove_plog" => if args.isEmpty then none else some (.removePlog (argStr args 0))
  | "clear_cache" => some .clearCache
  | "get_value" =>
    if args.length < 2 then none else some (.getValue (argStr args 0) (argStr args 1))
  | "list_delegations" => if args.isEmpty then none else some (.listDelegations (argStr args 0))
  | "prepare_update" =>
    if args.length < 2 then none else some (.prepareUpdate (argStr args 0) (argStr args 1))
  | "prepare_delegate" =>
    if args.length < 3 then none
    else some (.prepareDelegate (argStr args 0) (argStr args 1) (argStr args 2))
  | "prepare_revoke" =>
    if args.length < 2 then none else some (.prepareRevoke (argStr args 0) (argStr args 1))
  | "commit_update" =>
    if args.length < 3 then none
    else some (.commitUpdate (argStr args 0) (argStr args 1) (argStr args 2))
  | "cancel_update" =>
    if args.length < 2 then none else some (.cancelUpdate (argStr args 0) (argStr args 1))
  | _ => none

structure Provider (T : Type) where
  context : Option RustModuleContext
  emit : Option EmitCb
  registered : Bool
  /-- The implementation in use (`INSTANCE`). -/
  held : Option T
  hookFired : Bool
  tokens : List (String × String)

namespace Provider
variable {T : Type} (module : LogosAccountsModule T)

omit [BetterSign] in
def loaded : Provider T where
  context := none
  emit := none
  registered := false
  held := none
  hookFired := false
  tokens := []

def imp (provider : Provider T) : T × List HostEffect :=
  match provider.held with
  | some imp => (imp, [])
  | none => (module.default, [.constructed])

def ensureImpl (provider : Provider T) (requireEmit : Bool) : Provider T × List HostEffect :=
  let (imp, built) := provider.imp module
  let provider := { provider with held := some imp }
  if provider.hookFired then (provider, built)
  else
    match provider.context with
    | none => (provider, built)
    | some ctx =>
      if requireEmit && provider.emit.isNone then (provider, built)
      else
        ({ provider with hookFired := true, held := some (module.onContextReady imp ctx) },
          built ++ [.contextReady ctx])

/-- What the method returns as JSON; `none` for an unknown method or too few arguments. -/
def dispatchImpl (provider : Provider T) (method : String) (args : List Json) (ambient : Ambient) :
    Provider T × Option Json × List HostEffect :=
  let (imp, built) := provider.imp module
  match decodeCall method args with
  | none => ({ provider with held := some imp }, none, built)
  | some call =>
    let (imp, result, events) := module.call imp provider.context call ambient
    ({ provider with held := some imp }, some (.str result),
      built ++ events.flatMap (Event.emit provider.emit))

def ensureReady (provider : Provider T) (requireEmit : Bool) : Provider T × List HostEffect :=
  let installed := if provider.registered then [] else [.installed]
  let (provider, effects) :=
    ensureImpl module { provider with registered := true } requireEmit
  (provider, installed ++ effects)

end Provider

inductive HostCall where
  | setContext (modulePath instanceId instancePersistencePath : Option String)
  | setEmitCallback (cb : Option EmitCb)
  | dispatch (method argsJson : Option String) (ambient : Ambient)
  | acceptToken (moduleName token : Option String)
  | getMethods
  | getProtocolVersion

inductive HostReply where
  | done
  /-- `none` is the null pointer. -/
  | text (pointer : Option String)
  | code (status : Int)
  deriving DecidableEq, Repr

structure Signature where
  name : String
  parameters : List String
  deriving DecidableEq, Repr

namespace Signature

omit [BetterSign] in
def parametersText (signature : Signature) : String :=
  "[" ++ ",".intercalate (signature.parameters.map fun name =>
    "\x7b\"name\":\"" ++ name ++ "\",\"type\":\"QString\"\x7d") ++ "]"

omit [BetterSign] in
def text (signature : Signature) : String :=
  signature.name ++ "(" ++ ",".intercalate (signature.parameters.map fun _ => "QString") ++ ")"

omit [BetterSign] in
def methodText (signature : Signature) : String :=
  "\x7b\"isInvokable\":true,\"name\":\"" ++ signature.name ++ "\",\"parameters\":" ++
    signature.parametersText ++ ",\"returnType\":\"QString\",\"signature\":\"" ++ signature.text ++
    "\"\x7d"

omit [BetterSign] in
def eventText (signature : Signature) : String :=
  "\x7b\"name\":\"" ++ signature.name ++ "\",\"parameters\":" ++ signature.parametersText ++
    ",\"signature\":\"" ++ signature.text ++ "\",\"type\":\"event\"\x7d"

end Signature

omit [BetterSign] in
/-- The methods that the contract lists. -/
def contractMethods : List Signature :=
  [⟨"create_account", ["pubkey_multibase"]⟩,
    ⟨"import_plog", ["plog_b64"]⟩,
    ⟨"export_plog", ["vlad"]⟩,
    ⟨"remove_plog", ["vlad"]⟩,
    ⟨"clear_cache", []⟩,
    ⟨"get_value", ["vlad", "path"]⟩,
    ⟨"list_delegations", ["vlad"]⟩,
    ⟨"prepare_update", ["vlad", "request_json"]⟩,
    ⟨"prepare_delegate", ["vlad", "path", "pubkey_multibase"]⟩,
    ⟨"prepare_revoke", ["vlad", "path"]⟩,
    ⟨"commit_update", ["vlad", "challenge_id", "signature_multibase"]⟩,
    ⟨"cancel_update", ["vlad", "challenge_id"]⟩]

omit [BetterSign] in
def contractEvents : List Signature :=
  [⟨"account_created", ["vlad"]⟩,
    ⟨"account_updated", ["head_cid"]⟩,
    ⟨"path_delegated", ["vlad", "path"]⟩,
    ⟨"path_revoked", ["vlad", "path"]⟩,
    ⟨"error", ["message"]⟩]

omit [BetterSign] in
/-- The contract in JSON, as the host reads it. -/
def methodsText : String :=
  "[" ++ ",".intercalate
    (contractMethods.map Signature.methodText ++ contractEvents.map Signature.eventText) ++ "]"

namespace Provider
variable {T : Type} (module : LogosAccountsModule T)

/-- The arguments of a call: no text is no arguments, and text must be a JSON array. -/
def readArgs : Option String → Option (List Json)
  | none => some []
  | some raw =>
    match jsonFromStr raw with
    | .ok (.arr args) => some args
    | _ => none

def dispatch (provider : Provider T) (method argsJson : Option String) (ambient : Ambient) :
    Provider T × Option String × List HostEffect :=
  match method with
  | none => (provider, none, [])
  | some method =>
    match readArgs argsJson with
    | none => (provider, none, [])
    | some args =>
      let (provider, readied) := provider.ensureReady module false
      let (provider, value, effects) := provider.dispatchImpl module method args ambient
      (provider, value.bind fun value => cString (jsonToString value), readied ++ effects)

def acceptToken (provider : Provider T) (moduleName token : Option String) :
    Provider T × Int × List HostEffect :=
  match moduleName, token with
  | some name, some tok =>
    ({ provider with tokens := provider.tokens ++ [(name, tok)] }, 0, [.tokenSaved name tok])
  | _, _ => (provider, -1, [])

/-- One entry point: the statics, the value it returns, and what it did. -/
def perform (provider : Provider T) : HostCall → Provider T × HostReply × List HostEffect
  | .setContext modulePath instanceId instancePersistencePath =>
    let context := {
      modulePath := textOr modulePath
      instanceId := textOr instanceId
      instancePersistencePath := textOr instancePersistencePath }
    let (provider, effects) := ensureReady module { provider with context := some context } true
    (provider, .done, effects)
  | .setEmitCallback cb =>
    let (provider, effects) := ensureReady module { provider with emit := cb } true
    (provider, .done, effects)
  | .dispatch method argsJson ambient =>
    let (provider, pointer, effects) := provider.dispatch module method argsJson ambient
    (provider, .text pointer, effects)
  | .acceptToken moduleName token =>
    let (provider, status, effects) := provider.acceptToken moduleName token
    (provider, .code status, effects)
  | .getMethods => (provider, .text (cString methodsText), [])
  | .getProtocolVersion => (provider, .text (some "0.1.0"), [])

end Provider

/-- The provider of an implementation as a machine. -/
def providerHost {T : Type} (module : LogosAccountsModule T) :
    Machine (Provider T) HostCall (HostReply × List HostEffect) where
  step provider call := provider.perform module call

/-- The implementation that the crate installs; its hook only writes a log line. -/
def accountsModuleImpl : LogosAccountsModule SharedCache where
  default := SharedCache.new
  onContextReady cache _ := cache
  call cache _ call ambient :=
    let (cache, reply) := SharedModule.dispatch cache call ambient
    (cache, reply.response.text, reply.events)

end LogosAccounts
