import Mathlib.Data.Finset.Card
import Mathlib.Data.Finset.Insert

/-! Finite partial functions with extensional equality. A lookup function is
carried together with its finite domain, so that two maps with the same lookups
are equal, whatever the order of the operations that built them. -/

namespace LogosAccounts.Functional
universe u v
variable {Key : Type u} {Value : Type v}

/-- A lookup function and the finite set of keys on which it is defined. -/
structure FiniteMap (Key : Type u) (Value : Type v) where
  lookup : Key → Option Value
  keys : Finset Key
  mem_keys : ∀ key, key ∈ keys ↔ (lookup key).isSome = true

namespace FiniteMap

@[ext] theorem ext {left right : FiniteMap Key Value}
    (same : ∀ key, left.lookup key = right.lookup key) : left = right := by
  obtain ⟨lookup, keys, mem_keys⟩ := left
  obtain ⟨lookup', keys', mem_keys'⟩ := right
  obtain rfl : lookup = lookup' := funext same
  obtain rfl : keys = keys' := by
    apply Finset.ext
    intro key
    rw [mem_keys, mem_keys']
  rfl

theorem keys_eq {Other : Type v} {left : FiniteMap Key Value} {right : FiniteMap Key Other}
    (same : ∀ key, (left.lookup key).isSome = (right.lookup key).isSome) :
    left.keys = right.keys := by
  apply Finset.ext
  intro key
  rw [left.mem_keys, right.mem_keys, same]

def empty : FiniteMap Key Value where
  lookup _ := none
  keys := ∅
  mem_keys := by simp

instance : EmptyCollection (FiniteMap Key Value) := ⟨empty⟩

instance : Inhabited (FiniteMap Key Value) := ⟨∅⟩

@[simp] theorem lookup_empty (key : Key) :
    (∅ : FiniteMap Key Value).lookup key = none := rfl

def retain (map : FiniteMap Key Value) (keep : Key → Value → Bool) : FiniteMap Key Value where
  lookup key := (map.lookup key).filter (keep key)
  keys := map.keys.filter fun key => ((map.lookup key).filter (keep key)).isSome = true
  mem_keys key := by
    rw [Finset.mem_filter, map.mem_keys]
    constructor
    · exact fun member => member.2
    · intro kept
      refine ⟨?_, kept⟩
      cases found : map.lookup key with
      | none => simp [found] at kept
      | some value => rfl

@[simp] theorem lookup_retain (map : FiniteMap Key Value) (keep : Key → Value → Bool) (key : Key) :
    (map.retain keep).lookup key = (map.lookup key).filter (keep key) := rfl

def size (map : FiniteMap Key Value) : Nat := map.keys.card

theorem size_eq_zero {map : FiniteMap Key Value} : map.size = 0 ↔ map = ∅ := by
  unfold size
  rw [Finset.card_eq_zero]
  constructor
  · intro none
    ext1 key
    have outside : key ∉ map.keys := by simp [none]
    rw [map.mem_keys, Bool.not_eq_true, Option.isSome_eq_false_iff, Option.isNone_iff_eq_none] at outside
    exact outside
  · rintro rfl
    rfl

variable [DecidableEq Key]

def set (map : FiniteMap Key Value) (key : Key) : Option Value → FiniteMap Key Value
  | some value => {
      lookup := fun other => if other = key then some value else map.lookup other
      keys := insert key map.keys
      mem_keys := by
        intro other
        by_cases same : other = key
        · simp [same]
        · simp [same, map.mem_keys] }
  | none => {
      lookup := fun other => if other = key then none else map.lookup other
      keys := map.keys.erase key
      mem_keys := by
        intro other
        by_cases same : other = key
        · simp [same]
        · simp [same, map.mem_keys] }

def insert (map : FiniteMap Key Value) (key : Key) (value : Value) : FiniteMap Key Value :=
  map.set key (some value)

def erase (map : FiniteMap Key Value) (key : Key) : FiniteMap Key Value :=
  map.set key none

theorem lookup_set (map : FiniteMap Key Value) (key : Key) (entry : Option Value) (other : Key) :
    (map.set key entry).lookup other = if other = key then entry else map.lookup other := by
  cases entry <;> rfl

@[simp] theorem lookup_set_self (map : FiniteMap Key Value) (key : Key) (entry : Option Value) :
    (map.set key entry).lookup key = entry := by
  simp [lookup_set]

theorem lookup_set_of_ne (map : FiniteMap Key Value) (entry : Option Value) {key other : Key}
    (different : other ≠ key) : (map.set key entry).lookup other = map.lookup other := by
  simp [lookup_set, different]

theorem lookup_insert (map : FiniteMap Key Value) (key : Key) (value : Value) (other : Key) :
    (map.insert key value).lookup other = if other = key then some value else map.lookup other :=
  lookup_set map key (some value) other

theorem lookup_erase (map : FiniteMap Key Value) (key other : Key) :
    (map.erase key).lookup other = if other = key then none else map.lookup other :=
  lookup_set map key none other

@[simp] theorem set_lookup (map : FiniteMap Key Value) (key : Key) :
    map.set key (map.lookup key) = map := by
  ext1 other
  rw [lookup_set]
  split
  · rename_i same
    rw [same]
  · rfl

theorem set_comm (map : FiniteMap Key Value) {first second : Key} (different : first ≠ second)
    (entry other : Option Value) :
    (map.set first entry).set second other = (map.set second other).set first entry := by
  ext1 key
  simp only [lookup_set]
  by_cases isSecond : key = second
  · simp [isSecond, different.symm]
  · simp [isSecond]

/-- `part` holds nothing that `map` does not hold. -/
def Submap (part map : FiniteMap Key Value) : Prop :=
  ∀ key value, part.lookup key = some value → map.lookup key = some value

omit [DecidableEq Key] in
theorem Submap.refl (map : FiniteMap Key Value) : map.Submap map := fun _ _ found => found

omit [DecidableEq Key] in
theorem Submap.trans {first second third : FiniteMap Key Value}
    (lower : first.Submap second) (upper : second.Submap third) : first.Submap third :=
  fun key value found => upper key value (lower key value found)

omit [DecidableEq Key] in
theorem Submap.empty (map : FiniteMap Key Value) : (∅ : FiniteMap Key Value).Submap map := by
  intro key value found
  cases found

omit [DecidableEq Key] in
theorem Submap.absent {part map : FiniteMap Key Value} (included : part.Submap map) {key : Key}
    (missing : map.lookup key = none) : part.lookup key = none := by
  cases found : part.lookup key with
  | none => rfl
  | some value =>
    rw [included key value found] at missing
    cases missing

omit [DecidableEq Key] in
theorem Submap.size_le {part map : FiniteMap Key Value} (included : part.Submap map) :
    part.size ≤ map.size := by
  apply Finset.card_le_card
  intro key member
  obtain ⟨value, found⟩ := Option.isSome_iff_exists.mp ((part.mem_keys key).mp member)
  rw [map.mem_keys, included key value found]
  rfl

omit [DecidableEq Key] in
theorem Submap.retain {part map : FiniteMap Key Value} (included : part.Submap map)
    (keep : Key → Value → Bool) : (part.retain keep).Submap (map.retain keep) := by
  intro key value found
  rw [lookup_retain, Option.filter_eq_some_iff] at found ⊢
  exact ⟨included key value found.1, found.2⟩

omit [DecidableEq Key] in
theorem retain_submap (map : FiniteMap Key Value) (keep : Key → Value → Bool) :
    (map.retain keep).Submap map := by
  intro key value found
  rw [lookup_retain, Option.filter_eq_some_iff] at found
  exact found.1

theorem erase_submap (map : FiniteMap Key Value) (key : Key) : (map.erase key).Submap map := by
  intro other value found
  rw [lookup_erase] at found
  split at found
  · cases found
  · exact found

theorem size_insert_le (map : FiniteMap Key Value) (key : Key) (value : Value) :
    (map.insert key value).size ≤ map.size + 1 := Finset.card_insert_le key map.keys

/-- Of an insertion no more is kept than of the map, and the new entry if it passes. -/
theorem size_retain_insert_le (map : FiniteMap Key Value) (key : Key) (value : Value)
    (keep : Key → Value → Bool) : ((map.insert key value).retain keep).size ≤
      (map.retain keep).size + if keep key value then 1 else 0 := by
  have old {other : Key} {found : Value} (different : other ≠ key)
      (present : ((map.insert key value).retain keep).lookup other = some found) :
      (map.retain keep).lookup other = some found := by
    rw [lookup_retain, lookup_insert, if_neg different] at present
    exact present
  by_cases kept : keep key value = true
  · have part : ((map.insert key value).retain keep).Submap ((map.retain keep).insert key value) := by
      intro other found present
      rw [lookup_insert]
      by_cases same : other = key
      · rw [lookup_retain, lookup_insert, if_pos same, Option.filter_eq_some_iff] at present
        rw [if_pos same]
        exact present.1
      · rw [if_neg same]
        exact old same present
    rw [if_pos kept]
    exact part.size_le.trans (size_insert_le _ key value)
  · have part : ((map.insert key value).retain keep).Submap (map.retain keep) := by
      intro other found present
      by_cases same : other = key
      · subst other
        rw [lookup_retain, lookup_insert, if_pos rfl, Option.filter_eq_some_iff] at present
        obtain ⟨here, passes⟩ := present
        obtain rfl := Option.some.inj here
        exact absurd passes kept
      · exact old same present
    rw [if_neg kept]
    exact part.size_le

def Each (map : FiniteMap Key Value) (good : Key → Value → Prop) : Prop :=
  ∀ key value, map.lookup key = some value → good key value

section
variable {map part : FiniteMap Key Value} {good : Key → Value → Prop}

omit [DecidableEq Key] in
theorem Each.empty : Each (∅ : FiniteMap Key Value) good := by
  intro key value found
  cases found

omit [DecidableEq Key] in
theorem Each.submap (each : map.Each good) (included : part.Submap map) : part.Each good :=
  fun key value found => each key value (included key value found)

theorem Each.insert (each : map.Each good) {key : Key} {value : Value} (new : good key value) :
    (map.insert key value).Each good := by
  intro other found present
  rw [lookup_insert] at present
  by_cases same : other = key
  · rw [if_pos same] at present
    obtain rfl := Option.some.inj present
    rw [same]
    exact new
  · rw [if_neg same] at present
    exact each other found present

end

end FiniteMap
end LogosAccounts.Functional
