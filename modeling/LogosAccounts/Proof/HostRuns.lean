import LogosAccounts.Functional.LastWrite
import LogosAccounts.Functional.Latch
import LogosAccounts.Proof.SharedHandles
import LogosAccounts.Provider

/-! Runs of the provider under any host. Setting the module up happens once, at the first
call that can; what the host sees of the accounts is what the plain module does on the
calls that it understands. -/

namespace LogosAccounts
open BetterSign hiding mk
open Functional

section
variable [BetterSign]

namespace HostCall

def stamps : HostCall → Option (Option RustModuleContext)
  | .setContext modulePath instanceId instancePersistencePath =>
    some (some ⟨textOr modulePath, textOr instanceId, textOr instancePersistencePath⟩)
  | _ => none

def sinks : HostCall → Option (Option EmitCb)
  | .setEmitCallback cb => some cb
  | _ => none

/-- Whether the call sets the module up, and whether the hook then waits for a callback. -/
def readies : HostCall → Option Bool
  | .setContext _ _ _ | .setEmitCallback _ => some true
  | .dispatch (some _) argsJson _ => (Provider.readArgs argsJson).map fun _ => false
  | _ => none

def asked : HostCall → Option (Call × Ambient)
  | .dispatch (some method) argsJson ambient =>
    (Provider.readArgs argsJson).bind fun args =>
      (decodeCall method args).map fun call => (call, ambient)
  | _ => none

theorem asked_read {argsJson : Option String} {args : List Json}
    (read : Provider.readArgs argsJson = some args) (method : String) (ambient : Ambient) :
    (dispatch (some method) argsJson ambient).asked =
      (decodeCall method args).map fun call => (call, ambient) := by
  simp [asked, read]

def due (call : HostCall) (context : Option RustModuleContext) (sink : Option EmitCb) :
    Option RustModuleContext :=
  call.readies.bind fun requireEmit => if requireEmit && sink.isNone then none else context

end HostCall

/-- The contexts with which the hook could run in a run, in order. -/
def dueContexts : Option RustModuleContext → Option EmitCb → List HostCall → List RustModuleContext
  | _, _, [] => []
  | context, sink, call :: rest =>
    let context := call.stamps.getD context
    let sink := call.sinks.getD sink
    (call.due context sink).toList ++ dueContexts context sink rest

namespace Provider
variable {T : Type} (module : LogosAccountsModule T)

def impOr (provider : Provider T) : T := provider.held.getD module.default

theorem imp_eq (provider : Provider T) :
    provider.imp module =
      (provider.impOr module, if provider.held.isSome then [] else [.constructed]) := by
  unfold imp impOr
  cases provider.held <;> rfl

def hook (provider : Provider T) (requireEmit : Bool) : Option RustModuleContext :=
  if provider.hookFired || (requireEmit && provider.emit.isNone) then none else provider.context

theorem ensureReady_eq (provider : Provider T) (requireEmit : Bool) :
    provider.ensureReady module requireEmit =
      ({ provider with
          registered := true
          held := some ((provider.hook requireEmit).elim (provider.impOr module)
            (module.onContextReady (provider.impOr module)))
          hookFired := provider.hookFired || (provider.hook requireEmit).isSome },
        (if provider.registered then [] else [.installed]) ++
          ((if provider.held.isSome then [] else [.constructed]) ++
            (provider.hook requireEmit).toList.map .contextReady)) := by
  unfold ensureReady ensureImpl
  rw [imp_eq]
  obtain ⟨context, emit, registered, held, hookFired, tokens⟩ := provider
  cases hookFired <;> cases context <;> by_cases waits : (requireEmit && emit.isNone) = true <;>
    simp [hook, impOr, waits]

/-- The statics with what the call writes to them first. -/
def stamped (provider : Provider T) (call : HostCall) : Provider T :=
  { provider with
    context := call.stamps.getD provider.context
    emit := call.sinks.getD provider.emit }

/-- A call for a method returns null when it asks for none. -/
def NullIfAsked (call : HostCall) (reply : HostReply) : Prop :=
  ∀ method argsJson ambient, call = .dispatch method argsJson ambient → reply = .text none

/-- What an entry point can do. -/
inductive Step (provider : Provider T) :
    HostCall → Provider T × HostReply × List HostEffect → Prop where
  | idle (call : HostCall) (reply : HostReply) (unready : call.readies = none)
      (unasked : call.asked = none) (unwritten : provider.stamped call = provider)
      (null : NullIfAsked call reply) : Step provider call (provider, reply, [])
  | token (name tok : String) :
      Step provider (.acceptToken (some name) (some tok))
        ({ provider with tokens := provider.tokens ++ [(name, tok)] }, .code 0,
          [.tokenSaved name tok])
  | readied (call : HostCall) (reply : HostReply) (requireEmit : Bool)
      (readies : call.readies = some requireEmit) (unasked : call.asked = none)
      (null : NullIfAsked call reply) (ready : Provider T × List HostEffect)
      (setUp : (provider.stamped call).ensureReady module requireEmit = ready) :
      Step provider call (ready.1, reply, ready.2)
  | called (method argsJson : Option String) (ambient : Ambient) (call : Call)
      (readies : (HostCall.dispatch method argsJson ambient).readies = some false)
      (asked : (HostCall.dispatch method argsJson ambient).asked = some (call, ambient))
      (ready : Provider T × List HostEffect) (setUp : provider.ensureReady module false = ready)
      (result : T × String × List Event)
      (worked : module.call (ready.1.impOr module) ready.1.context call ambient = result) :
      Step provider (.dispatch method argsJson ambient)
        ({ ready.1 with held := some result.1 }, .text (cString (jsonToString (.str result.2.1))),
          ready.2 ++ result.2.2.flatMap (Event.emit ready.1.emit))

theorem perform_step (provider : Provider T) (call : HostCall) :
    Step module provider call (provider.perform module call) := by
  have other {call : HostCall} {reply : HostReply}
      (different : ∀ method argsJson ambient, call ≠ .dispatch method argsJson ambient) :
      NullIfAsked call reply := fun method argsJson ambient same =>
    absurd same (different method argsJson ambient)
  cases call with
  | setContext modulePath instanceId instancePersistencePath =>
    exact .readied _ .done true rfl rfl (other (by simp)) _ rfl
  | setEmitCallback cb => exact .readied _ .done true rfl rfl (other (by simp)) _ rfl
  | acceptToken moduleName token =>
    cases moduleName with
    | none => exact .idle _ (.code (-1)) rfl rfl rfl (other (by simp))
    | some name =>
      cases token with
      | none => exact .idle _ (.code (-1)) rfl rfl rfl (other (by simp))
      | some tok => exact .token name tok
  | getMethods => exact .idle _ _ rfl rfl rfl (other (by simp))
  | getProtocolVersion => exact .idle _ _ rfl rfl rfl (other (by simp))
  | dispatch method argsJson ambient =>
    cases method with
    | none => exact .idle _ (.text none) rfl rfl rfl fun _ _ _ _ => rfl
    | some method =>
      cases read : readArgs argsJson with
      | none =>
        have nothing : provider.perform module (.dispatch (some method) argsJson ambient) =
            (provider, .text none, []) := by
          simp [perform, dispatch, read]
        rw [nothing]
        have unready : (HostCall.dispatch (some method) argsJson ambient).readies = none := by
          simp [HostCall.readies, read]
        have unasked : (HostCall.dispatch (some method) argsJson ambient).asked = none := by
          simp [HostCall.asked, read]
        exact .idle _ (.text none) unready unasked rfl fun _ _ _ _ => rfl
      | some args =>
        have readies : (HostCall.dispatch (some method) argsJson ambient).readies = some false := by
          simp [HostCall.readies, read]
        cases decoded : decodeCall method args with
        | none =>
          have refused : provider.perform module (.dispatch (some method) argsJson ambient) =
              ((provider.ensureReady module false).1, .text none,
                (provider.ensureReady module false).2) := by
            simp [perform, dispatch, read, dispatchImpl, decoded, ensureReady_eq, imp_eq, impOr]
          rw [refused]
          have unasked := (HostCall.asked_read read method ambient).trans (congrArg _ decoded)
          exact .readied _ (.text none) false readies unasked (fun _ _ _ _ => rfl) _ rfl
        | some call =>
          obtain ⟨ready, setUp⟩ : ∃ ready, provider.ensureReady module false = ready := ⟨_, rfl⟩
          have held : ready.1.imp module = (ready.1.impOr module, []) := by
            rw [← setUp, ensureReady_eq]
            rfl
          obtain ⟨result, worked⟩ : ∃ result,
              module.call (ready.1.impOr module) ready.1.context call ambient = result := ⟨_, rfl⟩
          have answered : provider.perform module (.dispatch (some method) argsJson ambient) =
              ({ ready.1 with held := some result.1 },
                .text (cString (jsonToString (.str result.2.1))),
                ready.2 ++ result.2.2.flatMap (Event.emit ready.1.emit)) := by
            simp [perform, dispatch, read, setUp, dispatchImpl, held, decoded, worked]
          rw [answered]
          have asked := (HostCall.asked_read read method ambient).trans (congrArg _ decoded)
          exact .called _ _ ambient call readies asked ready setUp result worked

end Provider

namespace HostEffect

omit [BetterSign] in
def installed? : HostEffect → Option Unit
  | .installed => some ()
  | _ => none

omit [BetterSign] in
def constructed? : HostEffect → Option Unit
  | .constructed => some ()
  | _ => none

omit [BetterSign] in
def contextReady? : HostEffect → Option RustModuleContext
  | .contextReady context => some context
  | _ => none

omit [BetterSign] in
def emitted? : HostEffect → Option (EmitCb × String × String)
  | .emitted sink name payload => some (sink, name, payload)
  | _ => none

end HostEffect

theorem Event.emit_emitted (sink : Option EmitCb) (event : Event) :
    ∀ effect ∈ event.emit sink, ∃ cb name payload, effect = .emitted cb name payload := by
  intro effect member
  cases sink with
  | none => cases event <;> cases member
  | some cb =>
    cases event <;> obtain rfl := List.mem_singleton.mp member <;> exact ⟨_, _, _, rfl⟩

theorem Event.emit_silent {Picked : Type} {pick : HostEffect → Option Picked}
    (skips : ∀ cb name payload, pick (.emitted cb name payload) = none) (sink : Option EmitCb)
    (events : List Event) : (events.flatMap (Event.emit sink)).filterMap pick = [] := by
  rw [List.filterMap_eq_nil_iff]
  intro effect member
  obtain ⟨event, _, emitted⟩ := List.mem_flatMap.mp member
  obtain ⟨cb, name, payload, rfl⟩ := event.emit_emitted sink effect emitted
  exact skips cb name payload

section
variable {T : Type} (module : LogosAccountsModule T)

/-- What an entry point makes of the statics, up to the implementation itself, and the
part its effects have in setting the module up. -/
structure SetsUp (provider : Provider T) (call : HostCall)
    (after : Provider T × HostReply × List HostEffect) : Prop where
  context : after.1.context = call.stamps.getD provider.context
  emit : after.1.emit = call.sinks.getD provider.emit
  registered : after.1.registered = (provider.registered || call.readies.isSome)
  held : after.1.held.isSome = (provider.held.isSome || call.readies.isSome)
  hookFired : after.1.hookFired = (provider.hookFired ||
    (call.due (call.stamps.getD provider.context) (call.sinks.getD provider.emit)).isSome)
  installed : after.2.2.filterMap HostEffect.installed? =
    if provider.registered then [] else (call.readies.map fun _ => ()).toList
  constructed : after.2.2.filterMap HostEffect.constructed? =
    if provider.held.isSome then [] else (call.readies.map fun _ => ()).toList
  contextReady : after.2.2.filterMap HostEffect.contextReady? =
    if provider.hookFired then []
    else (call.due (call.stamps.getD provider.context) (call.sinks.getD provider.emit)).toList

theorem Provider.ensureReady_sets (provider : Provider T) {call : HostCall} {requireEmit : Bool}
    (readies : call.readies = some requireEmit) {ready : Provider T × List HostEffect}
    (setUp : (provider.stamped call).ensureReady module requireEmit = ready) (reply : HostReply) :
    SetsUp provider call (ready.1, reply, ready.2) := by
  rw [Provider.ensureReady_eq] at setUp
  subst setUp
  have due : call.due (call.stamps.getD provider.context) (call.sinks.getD provider.emit) =
      if requireEmit && (call.sinks.getD provider.emit).isNone then none
      else call.stamps.getD provider.context := by
    unfold HostCall.due
    rw [readies]
    rfl
  have hook : (provider.stamped call).hook requireEmit = if provider.hookFired then none
      else call.due (call.stamps.getD provider.context) (call.sinks.getD provider.emit) := by
    rw [due]
    unfold Provider.hook Provider.stamped
    cases provider.hookFired <;> rfl
  rw [hook]
  constructor
  case context => rfl
  case emit => rfl
  case registered => simp [readies]
  case held => simp [readies]
  case hookFired =>
    change (provider.hookFired || _) = _
    cases provider.hookFired <;> rfl
  -- what is left is one list of three parts, read in three ways
  all_goals
    change List.filterMap _ ((if provider.registered then [] else _) ++
      ((if provider.held.isSome then [] else _) ++ _)) = _
    generalize call.due (call.stamps.getD provider.context) (call.sinks.getD provider.emit) = context
  case contextReady =>
    cases provider.registered <;> cases provider.held.isSome <;> cases provider.hookFired <;>
      cases context <;> rfl
  all_goals
    rw [readies]
    cases provider.registered <;> cases provider.held.isSome <;> cases provider.hookFired <;>
      cases context <;> rfl

theorem Provider.perform_sets (provider : Provider T) (call : HostCall) :
    SetsUp provider call (provider.perform module call) := by
  have step := provider.perform_step module call
  generalize provider.perform module call = after at step
  cases step with
  | idle call reply unready unasked unwritten null =>
    constructor
    case context => exact (congrArg Provider.context unwritten).symm
    case emit => exact (congrArg Provider.emit unwritten).symm
    all_goals simp [unready, HostCall.due]
  | token name tok =>
    constructor <;> simp [HostCall.stamps, HostCall.sinks, HostCall.readies, HostCall.due,
      HostEffect.installed?, HostEffect.constructed?, HostEffect.contextReady?]
  | readied call reply requireEmit readies unasked null ready setUp =>
    exact provider.ensureReady_sets module readies setUp reply
  | called method argsJson ambient call readies asked ready setUp result worked =>
    have base := provider.ensureReady_sets module readies setUp (.text none)
    exact {
      context := base.context
      emit := base.emit
      registered := base.registered
      held := by
        rw [readies]
        simp
      hookFired := base.hookFired
      installed := by
        rw [List.filterMap_append, Event.emit_silent (fun _ _ _ => rfl), List.append_nil]
        exact base.installed
      constructed := by
        rw [List.filterMap_append, Event.emit_silent (fun _ _ _ => rfl), List.append_nil]
        exact base.constructed
      contextReady := by
        rw [List.filterMap_append, Event.emit_silent (fun _ _ _ => rfl), List.append_nil]
        exact base.contextReady }

def registerLatch : Latch (providerHost module) Unit where
  closed := Provider.registered
  due _ call := call.readies.map fun _ => ()
  shown reply := reply.2.filterMap HostEffect.installed?
  passes provider call := (provider.perform_sets module call).installed
  closes provider call := by
    rw [Option.isSome_map]
    exact (provider.perform_sets module call).registered

def instanceLatch : Latch (providerHost module) Unit where
  closed provider := provider.held.isSome
  due _ call := call.readies.map fun _ => ()
  shown reply := reply.2.filterMap HostEffect.constructed?
  passes provider call := (provider.perform_sets module call).constructed
  closes provider call := by
    rw [Option.isSome_map]
    exact (provider.perform_sets module call).held

def hookLatch : Latch (providerHost module) RustModuleContext where
  closed := Provider.hookFired
  due provider call := call.due (call.stamps.getD provider.context) (call.sinks.getD provider.emit)
  shown reply := reply.2.filterMap HostEffect.contextReady?
  passes provider call := (provider.perform_sets module call).contextReady
  closes provider call := (provider.perform_sets module call).hookFired

/-- What a run of the host does, in order. -/
def hostEffects (run : List HostCall) : List HostEffect :=
  (providerHost module).traced
    (fun provider call => ((providerHost module).reply provider call).2) Provider.loaded run

theorem hookLatch_dues (provider : Provider T) (run : List HostCall) :
    (hookLatch module).dues provider run = dueContexts provider.context provider.emit run := by
  induction run generalizing provider with
  | nil => rfl
  | cons call rest ih =>
    have sets := provider.perform_sets module call
    change _ ++ (hookLatch module).dues (provider.perform module call).1 rest = _
    rw [ih, sets.context, sets.emit]
    rfl

/-- The module is installed and constructed once, at the first call that sets it up, and
the hook runs once, with the first context it could run with. -/
structure SetUpOnce (run : List HostCall) (effects : List HostEffect) : Prop where
  installed : effects.filterMap HostEffect.installed? =
    ((run.filterMap HostCall.readies).take 1).map fun _ => ()
  constructed : effects.filterMap HostEffect.constructed? =
    ((run.filterMap HostCall.readies).take 1).map fun _ => ()
  contextReady : effects.filterMap HostEffect.contextReady? = (dueContexts none none run).take 1

theorem module_set_up_once (run : List HostCall) : SetUpOnce run (hostEffects module run) := by
  have once : ((providerHost module).traced
      (fun _ call => (call.readies.map fun _ => ()).toList) Provider.loaded run).take 1 =
        ((run.filterMap HostCall.readies).take 1).map fun _ => () := by
    rw [(providerHost module).traced_filterMap (fun _ _ => rfl), ← List.map_filterMap, List.map_take]
  constructor
  · unfold hostEffects
    rw [Machine.filterMap_traced]
    exact ((registerLatch module).passed_open rfl run).trans once
  · unfold hostEffects
    rw [Machine.filterMap_traced]
    exact ((instanceLatch module).passed_open rfl run).trans once
  · unfold hostEffects
    rw [Machine.filterMap_traced]
    have passed : (hookLatch module).passed Provider.loaded run =
        ((hookLatch module).dues Provider.loaded run).take 1 := (hookLatch module).passed_open rfl run
    rw [hookLatch_dues] at passed
    exact passed

end

/-- The hook of the accounts module changes no account. -/
theorem Provider.ready_imp (provider : Provider SharedCache) (requireEmit : Bool) :
    (provider.ensureReady accountsModuleImpl requireEmit).1.impOr accountsModuleImpl =
      provider.impOr accountsModuleImpl := by
  rw [Provider.ensureReady_eq]
  cases provider.hook requireEmit <;> rfl

def hostRefinement : Refinement (providerHost accountsModuleImpl) sharedModule where
  good _ := True
  view provider := provider.impOr accountsModuleImpl
  stands _ call := call.asked.toList
  kept _ _ _ := trivial
  simulated provider call _ := by
    change (provider.perform accountsModuleImpl call).1.impOr accountsModuleImpl = _
    have step := provider.perform_step accountsModuleImpl call
    generalize provider.perform accountsModuleImpl call = after at step
    cases step with
    | idle call reply unready unasked unwritten null =>
      rw [unasked]
      rfl
    | token name tok => rfl
    | readied call reply requireEmit readies unasked null ready setUp =>
      subst setUp
      rw [unasked, Provider.ready_imp]
      rfl
    | called method argsJson ambient call readies asked ready setUp result worked =>
      subst setUp worked
      rw [asked, Provider.ready_imp]
      rfl

omit [BetterSign] in
def Event.name : Event → String
  | .accountCreated _ => "account_created"
  | .accountUpdated _ => "account_updated"
  | .pathDelegated _ _ => "path_delegated"
  | .pathRevoked _ _ => "path_revoked"
  | .error _ => "error"

omit [BetterSign] in
def Event.fields : Event → List String
  | .accountCreated vlad => [vlad]
  | .accountUpdated headCid => [headCid]
  | .pathDelegated vlad path | .pathRevoked vlad path => [vlad, path]
  | .error message => [message]

def Event.delivery (event : Event) (cb : EmitCb) : EmitCb × String × String :=
  (cb, event.name, jsonToString (.arr (event.fields.map .str)))

theorem cString_json (law : JsonTextLaw) (tree : Json) :
    cString (jsonToString tree) = some (jsonToString tree) := if_neg (law tree)

theorem Event.emit_delivers (law : JsonTextLaw) (sink : Option EmitCb) (event : Event) :
    (event.emit sink).filterMap HostEffect.emitted? = (sink.map event.delivery).toList := by
  have payload (tree : Json) : textOr (cString (jsonToString tree)) = jsonToString tree := by
    rw [cString_json law]
    rfl
  cases sink with
  | none => cases event <;> rfl
  | some cb =>
    cases event <;> simp only [Event.emit, emitAccountCreated, emitAccountUpdated, emitPathDelegated,
      emitPathRevoked, emitError, emitEvent, payload] <;> rfl

theorem Event.emit_all (law : JsonTextLaw) (sink : Option EmitCb) (events : List Event) :
    (events.flatMap (Event.emit sink)).filterMap HostEffect.emitted? =
      events.filterMap fun event => sink.map event.delivery := by
  induction events with
  | nil => rfl
  | cons event rest ih =>
    rw [List.flatMap_cons, List.filterMap_append, ih, event.emit_delivers law, List.filterMap_cons]
    cases sink <;> rfl

theorem Provider.ready_silent (provider : Provider SharedCache) (requireEmit : Bool) :
    (provider.ensureReady accountsModuleImpl requireEmit).2.filterMap HostEffect.emitted? = [] := by
  rw [Provider.ensureReady_eq]
  cases provider.registered <;> cases provider.held.isSome <;> cases provider.hook requireEmit <;> rfl

/-- What the provider shows its host of the accounts in the plain cache. -/
structure Serves (provider : Provider SharedCache) (cache : AccountCache) (sink : Option EmitCb) :
    Prop where
  accounts : (provider.impOr accountsModuleImpl).view = cache
  emit : provider.emit = sink
  /-- A call for a method returns null when it asks for none, else the module's reply. -/
  replies : ∀ method argsJson ambient,
    ((providerHost accountsModuleImpl).reply provider (.dispatch method argsJson ambient)).1 =
      .text ((HostCall.dispatch method argsJson ambient).asked.map fun action =>
        jsonToString (.str (accountsModule.reply cache action).response.text))
  /-- The events of the method that is called go to the callback, and no others do. -/
  events : ∀ call, ((providerHost accountsModuleImpl).reply provider call).2.filterMap
    HostEffect.emitted? = call.asked.elim [] fun action =>
      (accountsModule.reply cache action).events.filterMap fun event => sink.map event.delivery

theorem Provider.serves (law : JsonTextLaw) (provider : Provider SharedCache) :
    Serves provider (provider.impOr accountsModuleImpl).view provider.emit := by
  have same (call : Call) (ambient : Ambient) :
      (SharedModule.dispatch (provider.impOr accountsModuleImpl) call ambient).2 =
        accountsModule.reply (provider.impOr accountsModuleImpl).view (call, ambient) :=
    congrArg Prod.snd (SharedModule.dispatch_view _ call ambient)
  constructor
  case accounts => rfl
  case emit => rfl
  case replies =>
    intro method argsJson ambient
    change (provider.perform accountsModuleImpl (.dispatch method argsJson ambient)).2.1 = _
    have step := provider.perform_step accountsModuleImpl (.dispatch method argsJson ambient)
    generalize provider.perform accountsModuleImpl (.dispatch method argsJson ambient) = after at step
    cases step with
    | idle call reply unready unasked unwritten null =>
      rw [unasked]
      exact null method argsJson ambient rfl
    | readied call reply requireEmit readies unasked null ready setUp =>
      rw [unasked]
      exact null method argsJson ambient rfl
    | called method argsJson ambient call readies asked ready setUp result worked =>
      subst setUp worked
      rw [asked, Provider.ready_imp, cString_json law, Option.map_some, ← same]
      rfl
  case events =>
    intro call
    change (provider.perform accountsModuleImpl call).2.2.filterMap _ = _
    have step := provider.perform_step accountsModuleImpl call
    generalize provider.perform accountsModuleImpl call = after at step
    cases step with
    | idle call reply unready unasked unwritten null =>
      rw [unasked]
      rfl
    | token name tok => rfl
    | readied call reply requireEmit readies unasked null ready setUp =>
      subst setUp
      rw [unasked]
      exact Provider.ready_silent _ requireEmit
    | called method argsJson ambient call readies asked ready setUp result worked =>
      subst setUp worked
      have sink : (provider.ensureReady accountsModuleImpl false).1.emit = provider.emit := by
        rw [Provider.ensureReady_eq]
      rw [asked, List.filterMap_append, Provider.ready_silent, Provider.ready_imp,
        Event.emit_all law, sink, List.nil_append, Option.elim_some, ← same]
      rfl

theorem Provider.emit_after (provider : Provider SharedCache) (run : List HostCall) :
    ((providerHost accountsModuleImpl).after provider run).emit =
      lastWrite HostCall.sinks run provider.emit :=
  foldl_lastWrite (fun state call => (state.perform_sets accountsModuleImpl call).emit) run provider

/-- Through the handles the provider refines the plain module. -/
def accountsRefinement : Refinement (providerHost accountsModuleImpl) accountsModule :=
  sharedRefinement.comp hostRefinement

theorem accountsRefinement_stands (provider : Provider SharedCache) (call : HostCall) :
    accountsRefinement.stands provider call = call.asked.toList := by
  change sharedModule.traced sharedRefinement.stands _ call.asked.toList = _
  cases call.asked <;> rfl

theorem Provider.accounts_after (run : List HostCall) :
    (((providerHost accountsModuleImpl).after loaded run).impOr accountsModuleImpl).view =
      accountsModule.after ∅ (run.filterMap HostCall.asked) := by
  have blank : accountsRefinement.view loaded = ∅ := FiniteMap.ext fun _ => rfl
  have seen : accountsRefinement.view ((providerHost accountsModuleImpl).after loaded run) =
      accountsModule.after (accountsRefinement.view loaded)
        ((providerHost accountsModuleImpl).traced accountsRefinement.stands loaded run) :=
    accountsRefinement.view_after ⟨trivial, trivial⟩ run
  rw [blank, (providerHost accountsModuleImpl).traced_filterMap accountsRefinement_stands] at seen
  exact seen

/-- The accounts are what the plain module makes of the calls the host has asked for, and
what the host sees is what the plain module answers. -/
theorem host_serves_module (law : JsonTextLaw) (run : List HostCall) :
    Serves ((providerHost accountsModuleImpl).after Provider.loaded run)
      (accountsModule.after ∅ (run.filterMap HostCall.asked)) (lastWrite HostCall.sinks run none) := by
  have served := ((providerHost accountsModuleImpl).after Provider.loaded run).serves law
  rw [Provider.accounts_after, Provider.emit_after] at served
  exact served

end

namespace HostReference
open Reference

def argsTree (args : List String) : Json := .arr (args.map .str)

def argsText (args : List String) : String := printJson (argsTree args)

def createArgs : List String := ["u5wEC"]

def delegateArgs : List String := ["uhwAA6eE", "/a/", "u5wkJ"]

def commitArgs : List String := ["uhwAA6eE", delegationChallenge.challengeId, "uAQL8CM0U"]

def callDocuments : List (String × Json) :=
  [createArgs, delegateArgs, commitArgs].map fun args => (argsText args, argsTree args)

scoped instance backend : BetterSign :=
  { Reference.backend with
    jsonFromStr := fun s =>
      match callDocuments.lookup s with
      | some tree => .ok tree
      | none => Reference.backend.jsonFromStr s
    jsonToString := fun tree => String.ofList ((printJson tree).toList.flatMap fun c =>
      if c = '\x00' then "\\u0000".toList else [c]) }

theorem jsonText : @JsonTextLaw backend := by
  intro tree
  change '\x00' ∉ (String.ofList _).toList
  rw [String.toList_ofList, List.mem_flatMap]
  rintro ⟨c, _, member⟩
  split at member
  · exact absurd member (by decide)
  · rename_i different
    exact different (List.mem_singleton.mp member).symm

end HostReference

section
open HostReference

def hostAmbient (now : Nat) (drawn : UInt8) : Ambient :=
  { now, issuedAt := now, challengeBytes := Vector.replicate 16 drawn, rng := ([7] : Bytes) }

def hostDispatch (method : String) (args : List String) (now : Nat) (drawn : UInt8) : HostCall :=
  .dispatch (some method) (some (argsText args)) (hostAmbient now drawn)

/-- The host loads the module, sets its callback late, and commits a delegation. -/
def hostRun : List HostCall :=
  [.getMethods, .setContext (some "/m") none (some "/p"), hostDispatch "create_account" createArgs 0 9,
    .dispatch (some "create_account") none (hostAmbient 0 9),
    hostDispatch "prepare_delegate" delegateArgs 1 0, .setEmitCallback (some ⟨1, 2⟩),
    hostDispatch "commit_update" commitArgs 2 9]

theorem host_serves_module_delegated :
    Serves ((providerHost accountsModuleImpl).after Provider.loaded hostRun)
      (accountsModule.after ∅ [(.createAccount "u5wEC", hostAmbient 0 9),
        (.prepareDelegate "uhwAA6eE" "/a/" "u5wkJ", hostAmbient 1 0),
        (.commitUpdate "uhwAA6eE" "uAAAAAAAAAAAAAAAAAAAAAA" "uAQL8CM0U", hostAmbient 2 9)])
      (some ⟨1, 2⟩) :=
  host_serves_module jsonText hostRun

end

end LogosAccounts
