import LogosAccounts.Functional.Machine

/-! Refinement of one machine by another under an abstraction function. A step of the
concrete machine stands for some steps of the abstract one, for none when the
abstract state does not show it; so does a run. -/

namespace LogosAccounts.Functional
universe u v w

section
variable {State : Type u} {Action : Type v} {Reply : Type w}

/-- What the actions of a run stand for, in order. -/
def Machine.traced {Meant : Type*} (machine : Machine State Action Reply)
    (stands : State → Action → List Meant) : State → List Action → List Meant
  | _, [] => []
  | state, action :: run =>
    stands state action ++ machine.traced stands (machine.next state action) run

theorem Machine.traced_filterMap {Meant : Type*} (machine : Machine State Action Reply)
    {stands : State → Action → List Meant} {meaning : Action → Option Meant}
    (means : ∀ state action, stands state action = (meaning action).toList) (start : State)
    (run : List Action) : machine.traced stands start run = run.filterMap meaning := by
  induction run generalizing start with
  | nil => rfl
  | cons action rest ih =>
    rw [Machine.traced, means, ih, List.filterMap_cons]
    cases meaning action <;> rfl

theorem Machine.filterMap_traced {Meant Picked : Type*} (machine : Machine State Action Reply)
    (stands : State → Action → List Meant) (pick : Meant → Option Picked) (start : State)
    (run : List Action) :
    (machine.traced stands start run).filterMap pick =
      machine.traced (fun state action => (stands state action).filterMap pick) start run := by
  induction run generalizing start with
  | nil => rfl
  | cons action rest ih => rw [Machine.traced, Machine.traced, List.filterMap_append, ih]

/-- Notes that grow by what each step stands for end as what the run stands for. -/
theorem Machine.traced_notes {Notes Meant : Type*} (machine : Machine State Action Reply)
    (observe : Notes → Action → Reply → Notes) (list : Notes → List Meant)
    (stands : State × Notes → Action → List Meant)
    (grows : ∀ state notes action, list (observe notes action (machine.reply state action)) =
      list notes ++ stands (state, notes) action)
    (state : State × Notes) (run : List Action) :
    list ((machine.watched observe).after state run).2 =
      list state.2 ++ (machine.watched observe).traced stands state run := by
  induction run generalizing state with
  | nil => simp [Machine.traced]
  | cons action rest ih =>
    obtain ⟨state, notes⟩ := state
    rw [Machine.after_cons, ih, Machine.traced, ← List.append_assoc]
    congr 1
    exact grows state notes action

end

variable {State State' State'' : Type*} {Action Action' Action'' : Type*}
  {Reply Reply' Reply'' : Type*}

/-- The concrete machine, seen through `view`, moves as the abstract one does by the
actions each of its own stands for, as long as its state is `good`. -/
structure Refinement (concrete : Machine State Action Reply)
    (abstract : Machine State' Action' Reply') where
  good : State → Prop
  view : State → State'
  stands : State → Action → List Action'
  kept : ∀ state action, good state → good (concrete.next state action)
  simulated : ∀ state action, good state →
    view (concrete.next state action) = abstract.after (view state) (stands state action)

namespace Refinement
variable {concrete : Machine State Action Reply} {middle : Machine State' Action' Reply'}
  {abstract : Machine State'' Action'' Reply''}

theorem good_after (refinement : Refinement concrete middle) {start : State}
    (initial : refinement.good start) (run : List Action) :
    refinement.good (concrete.after start run) :=
  concrete.after_preserves initial fun state action _ => refinement.kept state action

/-- The rule for runs. -/
theorem view_after (refinement : Refinement concrete middle) {start : State}
    (initial : refinement.good start) (run : List Action) :
    refinement.view (concrete.after start run) =
      middle.after (refinement.view start) (concrete.traced refinement.stands start run) := by
  induction run generalizing start with
  | nil => rfl
  | cons action rest ih =>
    rw [Machine.after_cons, ih (refinement.kept start action initial),
      refinement.simulated start action initial, Machine.traced, Machine.after_append]

/-- Refinements compose: a step stands for what the steps it stands for stand for. -/
def comp (upper : Refinement middle abstract) (lower : Refinement concrete middle) :
    Refinement concrete abstract where
  good state := lower.good state ∧ upper.good (lower.view state)
  view state := upper.view (lower.view state)
  stands state action := middle.traced upper.stands (lower.view state) (lower.stands state action)
  kept state action initial := by
    refine ⟨lower.kept state action initial.1, ?_⟩
    rw [lower.simulated state action initial.1]
    exact upper.good_after initial.2 _
  simulated state action initial := by
    rw [lower.simulated state action initial.1]
    exact upper.view_after initial.2 _

end Refinement
end LogosAccounts.Functional
