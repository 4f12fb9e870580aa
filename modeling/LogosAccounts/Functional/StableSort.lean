import Mathlib.Data.List.Sort
import Mathlib.Order.Basic

/-! Stable sorting by a key. A sorted list is determined by its items of each
key in order, so selection commutes with sorting and sorting twice is sorting
once. -/

namespace LogosAccounts.Functional
universe u v
variable {α : Type u} {κ : Type v} [LinearOrder κ]

/-- The stable sort by a key. -/
def sortBy (key : α → κ) (items : List α) : List α :=
  items.insertionSort fun a b => key a ≤ key b

variable {key : α → κ}

theorem mem_sortBy {items : List α} {item : α} : item ∈ sortBy key items ↔ item ∈ items :=
  List.mem_insertionSort _

theorem sortBy_perm (items : List α) : (sortBy key items).Perm items :=
  List.perm_insertionSort _ items

theorem sortBy_sorted (items : List α) :
    (sortBy key items).Pairwise fun a b => key a ≤ key b := by
  have total : Std.Total fun a b : α => key a ≤ key b := ⟨fun a b => le_total (key a) (key b)⟩
  have trans : IsTrans α fun a b => key a ≤ key b := ⟨fun _ _ _ => le_trans⟩
  exact List.pairwise_insertionSort _ items

theorem sortBy_strict {items : List α} (distinct : items.Pairwise fun a b => key a ≠ key b) :
    (sortBy key items).Pairwise fun a b => key a < key b := by
  have stillDistinct : (sortBy key items).Pairwise fun a b => key a ≠ key b :=
    ((sortBy_perm items).pairwise_iff fun different => different.symm).mpr distinct
  have both := (sortBy_sorted items).and stillDistinct
  apply both.imp
  rintro a b ⟨atMost, different⟩
  exact lt_of_le_of_ne atMost different

/-- The sort is strict exactly when the items are of different keys. -/
theorem sortBy_strict_iff {items : List α} :
    (sortBy key items).Pairwise (fun a b => key a < key b) ↔
      items.Pairwise fun a b => key a ≠ key b := by
  constructor
  · intro strict
    have distinct : (sortBy key items).Pairwise fun a b => key a ≠ key b := strict.imp ne_of_lt
    exact ((sortBy_perm items).pairwise_iff fun different => different.symm).mp distinct
  · exact sortBy_strict

private theorem filter_orderedInsert (item : α) (value : κ) (items : List α) :
    (items.orderedInsert (fun a b => key a ≤ key b) item).filter (key · = value) =
      (item :: items).filter (key · = value) := by
  induction items with
  | nil => rfl
  | cons head rest ih =>
    rw [List.orderedInsert_cons]
    split
    · rfl
    · rename_i after
      rw [List.filter_cons, ih]
      by_cases isItem : key item = value
      · -- the head is smaller, so it has another key
        have other : key head ≠ value := by
          intro same
          rw [isItem, same] at after
          exact after le_rfl
        simp [isItem, other]
      · simp [List.filter_cons, isItem]

/-- The sort keeps the order of the items of one key. -/
theorem filter_sortBy (value : κ) (items : List α) :
    (sortBy key items).filter (key · = value) = items.filter (key · = value) := by
  unfold sortBy
  induction items with
  | nil => rfl
  | cons item rest ih =>
    rw [List.insertionSort_cons, filter_orderedInsert, List.filter_cons, List.filter_cons, ih]

theorem sorted_unique {left right : List α} (ordered : left.Pairwise fun a b => key a ≤ key b)
    (ordered' : right.Pairwise fun a b => key a ≤ key b)
    (same : ∀ value, left.filter (key · = value) = right.filter (key · = value)) : left = right := by
  have memberOf {a : α} {these those : List α}
      (same : ∀ value, these.filter (key · = value) = those.filter (key · = value))
      (member : a ∈ these) : a ∈ those := by
    have kept : a ∈ these.filter (key · = key a) := List.mem_filter.mpr ⟨member, by simp⟩
    rw [same] at kept
    exact (List.mem_filter.mp kept).1
  induction left generalizing right with
  | nil =>
    cases right with
    | nil => rfl
    | cons b right => cases memberOf (fun value => (same value).symm) (List.mem_cons_self (a := b))
  | cons a left ih =>
    cases right with
    | nil => cases memberOf same (List.mem_cons_self (a := a))
    | cons b right =>
      have lower : key a ≤ key b := by
        rcases List.mem_cons.mp (memberOf (fun value => (same value).symm) List.mem_cons_self) with
          isHead | later
        · rw [isHead]
        · exact (List.pairwise_cons.mp ordered).1 b later
      have upper : key b ≤ key a := by
        rcases List.mem_cons.mp (memberOf same List.mem_cons_self) with isHead | later
        · rw [isHead]
        · exact (List.pairwise_cons.mp ordered').1 a later
      have sameKey : key a = key b := le_antisymm lower upper
      have heads := same (key a)
      rw [List.filter_cons_of_pos (by simp), List.filter_cons_of_pos (by simp [sameKey])] at heads
      obtain ⟨rfl, _⟩ := List.cons.inj heads
      have tails : ∀ value, left.filter (key · = value) = right.filter (key · = value) := by
        intro value
        have whole := same value
        rw [List.filter_cons, List.filter_cons] at whole
        split at whole
        · exact (List.cons.inj whole).2
        · exact whole
      rw [ih (List.pairwise_cons.mp ordered).2 (List.pairwise_cons.mp ordered').2 tails]

theorem sortBy_of_sorted {items : List α} (ordered : items.Pairwise fun a b => key a ≤ key b) :
    sortBy key items = items :=
  sorted_unique (sortBy_sorted items) ordered fun value => filter_sortBy value items

theorem filter_sortBy_comm (keep : α → Bool) (items : List α) :
    (sortBy key items).filter keep = sortBy key (items.filter keep) := by
  apply sorted_unique ((sortBy_sorted items).filter _) (sortBy_sorted _)
  intro value
  have swap (list : List α) : (list.filter keep).filter (key · = value) =
      (list.filter (key · = value)).filter keep := by
    simp only [List.filter_filter, Bool.and_comm]
  rw [swap, filter_sortBy, filter_sortBy, swap]

theorem sortBy_sortBy_append (items more : List α) :
    sortBy key (sortBy key items ++ more) = sortBy key (items ++ more) := by
  apply sorted_unique (sortBy_sorted _) (sortBy_sorted _)
  intro value
  rw [filter_sortBy, filter_sortBy, List.filter_append, List.filter_append, filter_sortBy]

end LogosAccounts.Functional
