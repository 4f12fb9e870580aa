import Mathlib.Data.List.Chain
import Mathlib.Data.List.Range

/-! Lists numbered from zero in which every item follows the one before: the shape
of a hash-linked log. An item stands at its own number, and appending one that is
numbered next and follows the last keeps the shape. -/

namespace LogosAccounts.Functional
universe u
variable {α : Type u}

structure NumberedChain (number : α → Nat) (follows : α → α → Prop) (items : List α) : Prop where
  numbered : items.map number = List.range items.length
  linked : items.IsChain follows

namespace NumberedChain
variable {number : α → Nat} {follows : α → α → Prop} {items : List α} {item last : α}

theorem singleton (zero : number item = 0) : NumberedChain number follows [item] where
  numbered := by rw [List.map_singleton, zero]; rfl
  linked := List.isChain_singleton item

theorem number_at (chain : NumberedChain number follows items) {i : Nat}
    (found : items[i]? = some item) : number item = i := by
  have mapped : (items.map number)[i]? = some (number item) := by
    rw [List.getElem?_map, found, Option.map_some]
  rw [chain.numbered] at mapped
  obtain ⟨inside, same⟩ := List.getElem?_eq_some_iff.mp mapped
  rw [List.getElem_range] at same
  exact same.symm

theorem at_number (chain : NumberedChain number follows items) (member : item ∈ items) :
    items[number item]? = some item := by
  obtain ⟨i, found⟩ := List.mem_iff_getElem?.mp member
  rw [chain.number_at found]
  exact found

theorem last_number (chain : NumberedChain number follows items)
    (isLast : items.getLast? = some last) : items.length = number last + 1 := by
  rw [List.getLast?_eq_getElem?] at isLast
  have nonempty : items.length ≠ 0 := by
    intro empty
    simp [List.length_eq_zero_iff.mp empty] at isLast
  have position := chain.number_at isLast
  omega

theorem snoc (chain : NumberedChain number follows items) (isLast : items.getLast? = some last)
    (next : number item = number last + 1) (linked : follows last item) :
    NumberedChain number follows (items ++ [item]) where
  numbered := by
    rw [List.map_append, List.map_singleton, List.length_append, List.length_singleton,
      List.range_succ, chain.numbered, next, chain.last_number isLast]
  linked := by
    apply chain.linked.append (List.isChain_singleton item)
    intro earlier isEarlier later isLater
    obtain rfl := Option.some.inj (isLast.symm.trans isEarlier)
    obtain rfl : item = later := by simpa using isLater
    exact linked

end NumberedChain
end LogosAccounts.Functional
