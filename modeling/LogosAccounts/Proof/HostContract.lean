import LogosAccounts.Proof.HostRuns

/-! The contract that the host reads and the dispatcher it calls. -/

namespace LogosAccounts
open BetterSign hiding mk
open Functional

def Call.method : Call → String
  | .createAccount _ => "create_account"
  | .importPlog _ => "import_plog"
  | .exportPlog _ => "export_plog"
  | .removePlog _ => "remove_plog"
  | .clearCache => "clear_cache"
  | .getValue _ _ => "get_value"
  | .listDelegations _ => "list_delegations"
  | .prepareUpdate _ _ => "prepare_update"
  | .prepareDelegate _ _ _ => "prepare_delegate"
  | .prepareRevoke _ _ => "prepare_revoke"
  | .commitUpdate _ _ _ => "commit_update"
  | .cancelUpdate _ _ => "cancel_update"

def Call.args : Call → List String
  | .createAccount arg | .importPlog arg | .exportPlog arg | .removePlog arg
  | .listDelegations arg => [arg]
  | .clearCache => []
  | .getValue vlad arg | .prepareUpdate vlad arg | .prepareRevoke vlad arg
  | .cancelUpdate vlad arg => [vlad, arg]
  | .prepareDelegate vlad first second | .commitUpdate vlad first second => [vlad, first, second]

theorem isEmpty_iff_short {α : Type} {args : List α} : args.isEmpty = true ↔ args.length < 1 := by
  cases args <;> simp

/-- The dispatcher takes a method by its name and reads as many arguments as it has; what
comes after them does not matter. -/
theorem decodeCall_eq_some {method : String} {args : List Json} {call : Call} :
    decodeCall method args = some call ↔
      call.method = method ∧ call.args.length ≤ args.length ∧
        call.args = (List.range call.args.length).map (argStr args) := by
  unfold decodeCall
  simp only [isEmpty_iff_short]
  constructor
  · intro decoded
    split at decoded
    case h_5 =>
      obtain rfl := Option.some.inj decoded
      exact ⟨rfl, Nat.zero_le _, rfl⟩
    case h_13 => cases decoded
    all_goals
      rw [Option.ite_none_left_eq_some] at decoded
      obtain ⟨enough, same⟩ := decoded
      obtain rfl := Option.some.inj same
      exact ⟨rfl, Nat.not_lt.mp enough, rfl⟩
  · rintro ⟨rfl, enough, read⟩
    cases call
    case clearCache => rfl
    all_goals
      simp only [Call.args, List.length_cons, List.length_nil, List.range_succ, List.range_zero,
        List.nil_append, List.cons_append, List.map_cons, List.map_nil, List.cons.injEq,
        and_true] at enough read
      simp [Call.method, Nat.not_lt.mpr enough, read]

theorem Call.row (call : Call) :
    ∃ row ∈ contractMethods, row.name = call.method ∧ row.parameters.length = call.args.length := by
  cases call <;> simp [contractMethods, Call.method, Call.args]

theorem Event.row (event : Event) :
    ∃ row ∈ contractEvents, row.name = event.name ∧ row.parameters.length = event.fields.length := by
  cases event <;> simp [contractEvents, Event.name, Event.fields]

theorem decodeCall_isSome {method : String} {args : List Json} :
    (decodeCall method args).isSome = true ↔
      ∃ row ∈ contractMethods, row.name = method ∧ row.parameters.length ≤ args.length := by
  constructor
  · intro taken
    obtain ⟨call, decoded⟩ := Option.isSome_iff_exists.mp taken
    obtain ⟨named, enough, _⟩ := decodeCall_eq_some.mp decoded
    obtain ⟨row, listed, sameName, sameLength⟩ := call.row
    exact ⟨row, listed, sameName.trans named, sameLength ▸ enough⟩
  · rintro ⟨row, listed, rfl, enough⟩
    unfold decodeCall
    simp only [isEmpty_iff_short]
    simp only [contractMethods, List.mem_cons, List.not_mem_nil, or_false] at listed
    rcases listed with rfl | rfl | rfl | rfl | rfl | rfl | rfl | rfl | rfl | rfl | rfl | rfl
    all_goals
      simp only [List.length_cons, List.length_nil] at enough
      simp [Nat.not_lt.mpr enough]

theorem decodeCall_written (call : Call) (extra : List Json) :
    decodeCall call.method (call.args.map .str ++ extra) = some call := by
  refine decodeCall_eq_some.mpr ⟨rfl, ?_, ?_⟩
  · rw [List.length_append, List.length_map]
    exact Nat.le_add_right _ _
  · cases call <;> rfl

section
variable [BetterSign]

/-- Whoever reads the contract knows which calls the provider takes, that a call means
what is written, and what the events look like. -/
structure FollowsContract (provider : Provider SharedCache) : Prop where
  methods : ∀ method argsJson args ambient, Provider.readArgs argsJson = some args →
    (((providerHost accountsModuleImpl).reply provider
        (.dispatch (some method) argsJson ambient)).1 ≠ .text none ↔
      ∃ row ∈ contractMethods, row.name = method ∧ row.parameters.length ≤ args.length)
  written : ∀ (call : Call) extra argsJson ambient,
    Provider.readArgs argsJson = some (call.args.map .str ++ extra) →
    ((providerHost accountsModuleImpl).reply provider
        (.dispatch (some call.method) argsJson ambient)).1 =
      .text (some (jsonToString (.str (accountsModule.reply
        (provider.impOr accountsModuleImpl).view (call, ambient)).response.text)))
  events : ∀ call, ∀ delivered ∈ ((providerHost accountsModuleImpl).reply provider call).2.filterMap
      HostEffect.emitted?,
    ∃ row ∈ contractEvents, row.name = delivered.2.1 ∧
      ∃ fields : List String, fields.length = row.parameters.length ∧
        delivered.2.2 = jsonToString (.arr (fields.map .str))

theorem provider_follows_contract (law : JsonTextLaw) (provider : Provider SharedCache) :
    FollowsContract provider := by
  have serves := provider.serves law
  constructor
  case methods =>
    intro method argsJson args ambient read
    rw [serves.replies, HostCall.asked_read read, ← decodeCall_isSome]
    cases decodeCall method args <;> simp
  case written =>
    intro call extra argsJson ambient read
    rw [serves.replies, HostCall.asked_read read, decodeCall_written]
    rfl
  case events =>
    intro call delivered member
    rw [serves.events] at member
    cases asked : call.asked with
    | none => simp [asked] at member
    | some action =>
      rw [asked, Option.elim_some, List.mem_filterMap] at member
      obtain ⟨event, _, reached⟩ := member
      obtain ⟨cb, _, rfl⟩ := Option.map_eq_some_iff.mp reached
      obtain ⟨row, listed, sameName, sameLength⟩ := event.row
      exact ⟨row, listed, sameName, event.fields, sameLength.symm, rfl⟩

end

section
open HostReference

theorem provider_follows_contract_after :
    FollowsContract ((providerHost accountsModuleImpl).after Provider.loaded hostRun) :=
  provider_follows_contract jsonText _

end

end LogosAccounts
