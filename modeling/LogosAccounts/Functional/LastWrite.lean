import Mathlib.Data.List.Basic

/-! Slots that a sequence of edits overwrites or leaves alone: what is there in
the end is what the last edit that touches the slot has written. -/

namespace LogosAccounts.Functional
universe u v
variable {Edit : Type u} {Content : Type v}

/-- What the last edit that writes leaves in the slot. -/
def lastWrite (writes : Edit → Option Content) (edits : List Edit) (content : Content) : Content :=
  (edits.filterMap writes).getLast?.getD content

variable {writes : Edit → Option Content}

@[simp] theorem lastWrite_nil (content : Content) : lastWrite writes [] content = content := rfl

theorem lastWrite_cons (edit : Edit) (edits : List Edit) (content : Content) :
    lastWrite writes (edit :: edits) content =
      lastWrite writes edits ((writes edit).getD content) := by
  unfold lastWrite
  cases written : writes edit with
  | none => rw [List.filterMap_cons_none written, Option.getD_none]
  | some value =>
    rw [List.filterMap_cons_some written, List.getLast?_cons, Option.getD_some, Option.getD_some]

theorem lastWrite_snoc (edits : List Edit) (edit : Edit) (content : Content) :
    lastWrite writes (edits ++ [edit]) content =
      (writes edit).getD (lastWrite writes edits content) := by
  induction edits generalizing content with
  | nil => rw [List.nil_append, lastWrite_cons, lastWrite_nil, lastWrite_nil]
  | cons head rest ih => rw [List.cons_append, lastWrite_cons, lastWrite_cons, ih]

/-- The last write is the one after which nothing writes. -/
theorem lastWrite_of_last {edit : Edit} {later : List Edit} {value : Content}
    (written : writes edit = some value) (silent : ∀ other ∈ later, writes other = none)
    (before : List Edit) (content : Content) :
    lastWrite writes (before ++ edit :: later) content = value := by
  unfold lastWrite
  rw [List.filterMap_append, List.filterMap_cons_some written, List.filterMap_eq_nil_iff.mpr silent,
    List.getLast?_concat, Option.getD_some]

/-- A store whose edits write or leave a slot holds there what the last writer
left. -/
theorem foldl_lastWrite {Store : Type*} {apply : Store → Edit → Store} {slot : Store → Content}
    (step : ∀ store edit, slot (apply store edit) = (writes edit).getD (slot store))
    (edits : List Edit) (store : Store) :
    slot (edits.foldl apply store) = lastWrite writes edits (slot store) := by
  induction edits generalizing store with
  | nil => rfl
  | cons edit rest ih => rw [List.foldl_cons, ih, step, lastWrite_cons]

theorem lastWrite_congr {Other : Type u} {writes' : Other → Option Content} {edits : List Edit}
    {others : List Other}
    (paired : List.Forall₂ (fun edit other => writes edit = writes' other) edits others)
    (content : Content) : lastWrite writes edits content = lastWrite writes' others content := by
  induction paired generalizing content with
  | nil => rfl
  | cons same _ ih => rw [lastWrite_cons, lastWrite_cons, same, ih]

end LogosAccounts.Functional
