import Mathlib.Data.List.Basic

/-! Deterministic machines that answer every action, their finite runs, the notes
an observer takes of a run, and the run rules the development rests on: an
invariant holds after every run, and an event that has happened is still in force
exactly when no later step has cancelled it. -/

namespace LogosAccounts.Functional
universe u v w
variable {State : Type u} {Action : Type v} {Reply : Type w}

/-- A total step function from a state and an action to the next state and a reply. -/
structure Machine (State : Type u) (Action : Type v) (Reply : Type w) where
  step : State → Action → State × Reply

namespace Machine
variable (machine : Machine State Action Reply)

def next (state : State) (action : Action) : State := (machine.step state action).1

def reply (state : State) (action : Action) : Reply := (machine.step state action).2

/-- The state reached from `start` by the actions of `run`, in order. -/
def after (start : State) (run : List Action) : State := run.foldl machine.next start

@[simp] theorem after_nil (start : State) : machine.after start [] = start := rfl

@[simp] theorem after_append (start : State) (first second : List Action) :
    machine.after start (first ++ second) = machine.after (machine.after start first) second := by
  simp [after]

theorem after_cons (start : State) (action : Action) (run : List Action) :
    machine.after start (action :: run) = machine.after (machine.next start action) run := rfl

@[simp] theorem after_snoc (start : State) (run : List Action) (action : Action) :
    machine.after start (run ++ [action]) = machine.next (machine.after start run) action := by
  simp [after]

/-- What every step of the run preserves holds at its end. -/
theorem after_preserves {good : State → Prop} {start : State} {run : List Action}
    (initial : good start)
    (preserved : ∀ state, ∀ action ∈ run, good state → good (machine.next state action)) :
    good (machine.after start run) := by
  induction run generalizing start with
  | nil => exact initial
  | cons action rest ih =>
    rw [after_cons]
    apply ih (preserved start action (by simp) initial)
    intro state later member
    exact preserved state later (by simp [member])

/-- The machine with the notes an observer takes of its actions and replies. -/
def watched {Notes : Type*} (observe : Notes → Action → Reply → Notes) :
    Machine (State × Notes) Action Reply where
  step state action :=
    ((machine.next state.1 action, observe state.2 action (machine.reply state.1 action)),
      machine.reply state.1 action)

theorem watched_after {Notes : Type*} (observe : Notes → Action → Reply → Notes)
    (state : State × Notes) (run : List Action) :
    ((machine.watched observe).after state run).1 = machine.after state.1 run := by
  induction run generalizing state with
  | nil => rfl
  | cons action rest ih =>
    rw [after_cons, after_cons, ih]
    rfl

/-- The notes taken in a run. -/
def notes {Notes : Type*} (observe : Notes → Action → Reply → Notes) (start : State)
    (blank : Notes) (run : List Action) : Notes :=
  ((machine.watched observe).after (start, blank) run).2

theorem notes_append {Notes : Type*} (observe : Notes → Action → Reply → Notes) (start : State)
    (blank : Notes) (first second : List Action) :
    machine.notes observe start blank (first ++ second) =
      machine.notes observe (machine.after start first) (machine.notes observe start blank first)
        second := by
  unfold notes
  rw [after_append, ← machine.watched_after observe (start, blank) first]

theorem notes_cons {Notes : Type*} (observe : Notes → Action → Reply → Notes) (start : State)
    (blank : Notes) (action : Action) (run : List Action) :
    machine.notes observe start blank (action :: run) = machine.notes observe
      (machine.next start action) (observe blank action (machine.reply start action)) run := rfl

/-- The state after a run and the notes taken in it keep what every watched step
preserves. -/
theorem notes_preserve {Notes : Type*} {observe : Notes → Action → Reply → Notes}
    {good : State → Notes → Prop} {start : State} {blank : Notes} (initial : good start blank)
    {run : List Action} (preserved : ∀ state notes, ∀ action ∈ run, good state notes →
      good (machine.next state action) (observe notes action (machine.reply state action))) :
    good (machine.after start run) (machine.notes observe start blank run) := by
  let holds (state : State × Notes) : Prop := good state.1 state.2
  have first : holds (start, blank) := initial
  have kept : holds ((machine.watched observe).after (start, blank) run) := by
    apply after_preserves _ first
    intro state action member stillGood
    exact preserved state.1 state.2 action member stillGood
  rw [← machine.watched_after observe (start, blank) run]
  exact kept

/-- `event` took place at some step of the run and `kept` has held at every
step after it. -/
def Since (start : State) (kept event : State → Action → Prop) (run : List Action) : Prop :=
  ∃ before action later, run = before ++ action :: later ∧
    event (machine.after start before) action ∧
    ∀ passed later' rest, later = passed ++ later' :: rest →
      kept (machine.after start (before ++ action :: passed)) later'

variable {machine} {start : State} {kept event : State → Action → Prop}

theorem not_since_nil : ¬ machine.Since start kept event [] := by
  rintro ⟨before, action, later, split, _⟩
  simp at split

/-- Past-time unfolding: the event is the last step, or it was in force before
the last step and that step kept it. -/
theorem since_snoc {run : List Action} {action : Action} :
    machine.Since start kept event (run ++ [action]) ↔
      event (machine.after start run) action ∨
        (machine.Since start kept event run ∧ kept (machine.after start run) action) := by
  constructor
  · rintro ⟨before, first, later, split, happened, stayed⟩
    rcases List.eq_nil_or_concat later with none | ⟨passed, last, snoc⟩
    · subst later
      obtain ⟨rfl, same⟩ := List.append_inj' split rfl
      obtain rfl : action = first := by simpa using same
      exact .inl happened
    · rw [List.concat_eq_append] at snoc
      subst later
      have split' : run ++ [action] = (before ++ first :: passed) ++ [last] := by simpa using split
      obtain ⟨rfl, same⟩ := List.append_inj' split' rfl
      obtain rfl : action = last := by simpa using same
      refine .inr ⟨⟨before, first, passed, rfl, happened, ?_⟩, stayed passed action [] (by simp)⟩
      intro earlier middle rest same
      exact stayed earlier middle (rest ++ [action]) (by simp [same])
  · rintro (happened | ⟨⟨before, first, later, rfl, happened, stayed⟩, last⟩)
    · refine ⟨run, action, [], rfl, happened, ?_⟩
      intro passed later rest impossible
      simp at impossible
    · refine ⟨before, first, later ++ [action], by simp, happened, ?_⟩
      intro passed middle rest same
      rcases List.eq_nil_or_concat rest with none | ⟨tail, final, snoc⟩
      · subst rest
        obtain ⟨rfl, same⟩ := List.append_inj' same rfl
        obtain rfl : action = middle := by simpa using same
        exact last
      · rw [List.concat_eq_append] at snoc
        subst rest
        have same' : later ++ [action] = (passed ++ middle :: tail) ++ [final] := by simpa using same
        exact stayed passed middle tail (List.append_inj' same' rfl).1

end Machine
end LogosAccounts.Functional
