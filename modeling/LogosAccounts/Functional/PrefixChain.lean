import Mathlib.Data.List.MinMax

/-! The prefixes of one text are a chain, and their size tells them apart. So the
longest of some prefixes depends only on which prefixes there are, and not on the
order in which they are met. -/

namespace LogosAccounts.Functional
universe u v

theorem prefix_split {left right : String} (starts : left.toList <+: right.toList) :
    ∃ rest, right = left ++ rest := by
  obtain ⟨rest, same⟩ := starts
  refine ⟨String.ofList rest, String.toList_injective ?_⟩
  rw [String.toList_append, String.toList_ofList, same]

theorem prefix_eq_of_size {left right : String} (starts : left.toList <+: right.toList)
    (size : right.utf8ByteSize ≤ left.utf8ByteSize) : left = right := by
  obtain ⟨rest, rfl⟩ := prefix_split starts
  rw [String.utf8ByteSize_append] at size
  obtain rfl : rest = "" := String.utf8ByteSize_eq_zero_iff.mp (by omega)
  rw [String.append_empty]

/-- What ends with the separator and starts a path with a last name starts the path
without that name. -/
theorem prefix_of_named {α : Type u} {separator : α} {branch parent name : List α}
    (ends : branch.getLast? = some separator) (flat : separator ∉ name) :
    branch <+: parent ++ name ↔ branch <+: parent := by
  constructor
  · intro starts
    rcases List.prefix_or_prefix_of_prefix starts (List.prefix_append parent name) with within | beyond
    · exact within
    · obtain ⟨rest, rfl⟩ := beyond
      have ofName := (List.prefix_append_right_inj parent).mp starts
      cases rest with
      | nil => simp
      | cons first rest =>
        rw [List.getLast?_append_cons] at ends
        exact absurd (ofName.subset (List.mem_of_getLast? ends)) flat
  · exact fun starts => starts.trans (List.prefix_append parent name)

variable {left right whole : String} (starts : left.toList <+: whole.toList)
  (starts' : right.toList <+: whole.toList)
include starts starts'

theorem prefix_of_size_le (size : left.utf8ByteSize ≤ right.utf8ByteSize) :
    left.toList <+: right.toList := by
  rcases List.prefix_or_prefix_of_prefix starts starts' with lower | upper
  · exact lower
  · obtain rfl := prefix_eq_of_size upper size
    exact List.prefix_refl _

theorem prefix_unique (size : left.utf8ByteSize = right.utf8ByteSize) : left = right :=
  prefix_eq_of_size (prefix_of_size_le starts starts' size.le) size.ge

omit starts starts'

variable {α : Type u} {β : Type v} [LinearOrder β] {f : α → β}

/-- When the measure tells the items apart, the largest one depends only on which
items there are. -/
theorem argmax_congr {items others : List α}
    (faithful : ∀ a ∈ items, ∀ b ∈ items, f a = f b → a = b)
    (same : ∀ a, a ∈ items ↔ a ∈ others) : items.argmax f = others.argmax f := by
  cases found : items.argmax f with
  | none =>
    obtain rfl := List.argmax_eq_none.mp found
    have empty : others = [] := List.eq_nil_iff_forall_not_mem.mpr fun a member => by
      simpa using (same a).mpr member
    rw [empty, List.argmax_nil]
  | some best =>
    have member := List.argmax_mem found
    cases found' : others.argmax f with
    | none =>
      obtain rfl := List.argmax_eq_none.mp found'
      simpa using (same best).mp member
    | some best' =>
      have member' := (same best').mpr (List.argmax_mem found')
      have upper : f best ≤ f best' := List.le_of_mem_argmax ((same best).mp member) found'
      have lower : f best' ≤ f best := List.le_of_mem_argmax member' found
      rw [faithful best member best' member' (le_antisymm upper lower)]

end LogosAccounts.Functional
