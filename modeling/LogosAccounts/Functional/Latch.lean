import LogosAccounts.Functional.Refinement

/-! Latches of a machine. An open latch lets through what is due at a step and closes
on it; a closed one lets nothing through. So a run lets through the first thing that
was due in it and no other, whatever became due later. -/

namespace LogosAccounts.Functional
universe u v w
variable {State : Type u} {Action : Type v} {Reply : Type w} {Value : Type*}

/-- A flag of the state, what is due at a step, and what of it the step's reply shows. -/
structure Latch (machine : Machine State Action Reply) (Value : Type*) where
  closed : State → Bool
  due : State → Action → Option Value
  shown : Reply → List Value
  passes : ∀ state action, shown (machine.reply state action) =
    if closed state then [] else (due state action).toList
  closes : ∀ state action,
    closed (machine.next state action) = (closed state || (due state action).isSome)

namespace Latch
variable {machine : Machine State Action Reply} (latch : Latch machine Value)

/-- What became due in a run, in order, let through or not. -/
def dues (start : State) (run : List Action) : List Value :=
  machine.traced (fun state action => (latch.due state action).toList) start run

def passed (start : State) (run : List Action) : List Value :=
  machine.traced (fun state action => latch.shown (machine.reply state action)) start run

theorem passed_closed {start : State} (closed : latch.closed start = true) (run : List Action) :
    latch.passed start run = [] := by
  induction run generalizing start with
  | nil => rfl
  | cons action rest ih =>
    have still : latch.closed (machine.next start action) = true := by
      rw [latch.closes, closed, Bool.true_or]
    have quiet : latch.shown (machine.reply start action) = [] := by
      rw [latch.passes, if_pos closed]
    change latch.shown (machine.reply start action) ++ latch.passed _ rest = []
    rw [quiet, ih still, List.append_nil]

theorem passed_open {start : State} (opened : latch.closed start = false) (run : List Action) :
    latch.passed start run = (latch.dues start run).take 1 := by
  induction run generalizing start with
  | nil => rfl
  | cons action rest ih =>
    have first : latch.shown (machine.reply start action) = (latch.due start action).toList := by
      rw [latch.passes, opened]
      rfl
    have after := latch.closes start action
    rw [opened, Bool.false_or] at after
    change latch.shown (machine.reply start action) ++ latch.passed _ rest =
      ((latch.due start action).toList ++ latch.dues _ rest).take 1
    rw [first]
    cases due : latch.due start action with
    | none =>
      rw [due] at after
      exact ih after
    | some value =>
      rw [due] at after
      rw [latch.passed_closed after]
      rfl

end Latch
end LogosAccounts.Functional
