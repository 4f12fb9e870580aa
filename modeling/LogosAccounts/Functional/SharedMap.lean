import Mathlib.Data.List.Basic
import LogosAccounts.Functional.FiniteMap

/-! Finite maps whose values sit in shared cells. A lookup gives out a handle on the
cell, and the handle outlives the entry: it is current while a key shows its cell,
and stale afterwards. Every insertion takes a new cell, so no two keys share one and
a stale handle never becomes current again. -/

namespace LogosAccounts.Functional
universe u v
variable {Key : Type u} {Value : Type v}

/-- The cells given out so far, and for each key the one it shows. -/
structure SharedMap (Key : Type u) (Value : Type v) where
  entries : FiniteMap Key Nat
  cells : List Value
  allocated : ∀ key handle, entries.lookup key = some handle → handle < cells.length
  unshared : ∀ first second handle, entries.lookup first = some handle →
    entries.lookup second = some handle → first = second

namespace SharedMap

def empty : SharedMap Key Value where
  entries := ∅
  cells := []
  allocated _ _ found := by cases found
  unshared _ _ _ found := by cases found

instance : EmptyCollection (SharedMap Key Value) := ⟨empty⟩

def read (map : SharedMap Key Value) (handle : Nat) : Option Value := map.cells[handle]?

/-- Change what is in a cell, for everyone who has its handle. -/
def write (map : SharedMap Key Value) (handle : Nat) (value : Value) : SharedMap Key Value where
  entries := map.entries
  cells := map.cells.set handle value
  allocated key handle found := by
    rw [List.length_set]
    exact map.allocated key handle found
  unshared := map.unshared

def clear (map : SharedMap Key Value) : SharedMap Key Value where
  entries := ∅
  cells := map.cells
  allocated _ _ found := by cases found
  unshared _ _ _ found := by cases found

/-- No key shows the cell, though its handle was given out. -/
def Stale (map : SharedMap Key Value) (handle : Nat) : Prop :=
  handle < map.cells.length ∧ ∀ key, map.entries.lookup key ≠ some handle

theorem readable (map : SharedMap Key Value) {key : Key} {handle : Nat}
    (current : map.entries.lookup key = some handle) : ∃ value, map.read handle = some value :=
  ⟨_, List.getElem?_eq_getElem (map.allocated key handle current)⟩

/-- The plain map that the entries show. -/
def view (map : SharedMap Key Value) : FiniteMap Key Value where
  lookup key := (map.entries.lookup key).bind map.read
  keys := map.entries.keys
  mem_keys key := by
    rw [map.entries.mem_keys]
    cases current : map.entries.lookup key with
    | none => simp
    | some handle =>
      obtain ⟨value, found⟩ := map.readable current
      simp [found]

theorem lookup_view (map : SharedMap Key Value) (key : Key) :
    map.view.lookup key = (map.entries.lookup key).bind map.read := rfl

theorem view_some {map : SharedMap Key Value} {key : Key} {value : Value} :
    map.view.lookup key = some value ↔
      ∃ handle, map.entries.lookup key = some handle ∧ map.read handle = some value := by
  rw [lookup_view, Option.bind_eq_some_iff]

theorem size_view (map : SharedMap Key Value) : map.view.size = map.entries.size := rfl

@[simp] theorem view_clear (map : SharedMap Key Value) : map.clear.view = ∅ := by
  ext1 key
  rfl

theorem read_write (map : SharedMap Key Value) (handle other : Nat) (value : Value) :
    (map.write handle value).read other =
      if other = handle then (map.read handle).map fun _ => value else map.read other := by
  unfold read write
  rw [List.getElem?_set]
  by_cases same : other = handle
  · subst other
    by_cases inside : handle < map.cells.length
    · simp [inside]
    · simp [inside]
  · simp [same, Ne.symm same]

theorem Stale.write {map : SharedMap Key Value} {handle : Nat} (stale : map.Stale handle)
    (other : Nat) (value : Value) : (map.write other value).Stale handle :=
  ⟨by rw [SharedMap.write, List.length_set]; exact stale.1, stale.2⟩

theorem Stale.clear {map : SharedMap Key Value} {handle : Nat} (inside : handle < map.cells.length) :
    map.clear.Stale handle := ⟨inside, fun _ found => by cases found⟩

/-- Nobody sees what is written through a stale handle. -/
theorem view_write_stale {map : SharedMap Key Value} {handle : Nat}
    (unseen : ∀ key, map.entries.lookup key ≠ some handle) (value : Value) :
    (map.write handle value).view = map.view := by
  ext1 key
  rw [lookup_view, lookup_view]
  change (map.entries.lookup key).bind _ = _
  cases current : map.entries.lookup key with
  | none => rfl
  | some other =>
    have different : other ≠ handle := fun same => unseen key (same ▸ current)
    rw [Option.bind_some, Option.bind_some, read_write, if_neg different]

variable [DecidableEq Key]

def insert (map : SharedMap Key Value) (key : Key) (value : Value) : SharedMap Key Value where
  entries := map.entries.insert key map.cells.length
  cells := map.cells ++ [value]
  allocated other handle found := by
    rw [List.length_append, List.length_singleton]
    rw [FiniteMap.lookup_insert] at found
    split at found
    · obtain rfl := Option.some.inj found
      exact Nat.lt_succ_self _
    · exact Nat.lt_succ_of_lt (map.allocated other handle found)
  unshared first second handle found found' := by
    rw [FiniteMap.lookup_insert] at found found'
    by_cases isFirst : first = key <;> by_cases isSecond : second = key
    · rw [isFirst, isSecond]
    · rw [if_pos isFirst] at found
      rw [if_neg isSecond] at found'
      have old := map.allocated second handle found'
      exact absurd (Option.some.inj found) (Nat.ne_of_gt old)
    · rw [if_neg isFirst] at found
      rw [if_pos isSecond] at found'
      have old := map.allocated first handle found
      exact absurd (Option.some.inj found') (Nat.ne_of_gt old)
    · rw [if_neg isFirst] at found
      rw [if_neg isSecond] at found'
      exact map.unshared first second handle found found'

def erase (map : SharedMap Key Value) (key : Key) : SharedMap Key Value where
  entries := map.entries.erase key
  cells := map.cells
  allocated other handle found :=
    map.allocated other handle (FiniteMap.erase_submap map.entries key other handle found)
  unshared first second handle found found' :=
    map.unshared first second handle (FiniteMap.erase_submap map.entries key first handle found)
      (FiniteMap.erase_submap map.entries key second handle found')

theorem read_insert (map : SharedMap Key Value) (key : Key) (value : Value) {handle : Nat}
    (inside : handle < map.cells.length) : (map.insert key value).read handle = map.read handle :=
  List.getElem?_append_left inside

@[simp] theorem view_insert (map : SharedMap Key Value) (key : Key) (value : Value) :
    (map.insert key value).view = map.view.insert key value := by
  ext1 other
  rw [lookup_view, FiniteMap.lookup_insert]
  change ((map.entries.insert key map.cells.length).lookup other).bind _ = _
  rw [FiniteMap.lookup_insert]
  by_cases same : other = key
  · rw [if_pos same, if_pos same]
    simp [insert, read]
  · rw [if_neg same, if_neg same, lookup_view]
    cases current : map.entries.lookup other with
    | none => rfl
    | some handle => exact map.read_insert key value (map.allocated other handle current)

@[simp] theorem view_erase (map : SharedMap Key Value) (key : Key) :
    (map.erase key).view = map.view.erase key := by
  ext1 other
  rw [lookup_view, FiniteMap.lookup_erase]
  change ((map.entries.erase key).lookup other).bind _ = _
  rw [FiniteMap.lookup_erase]
  by_cases same : other = key
  · rw [if_pos same, if_pos same]
    rfl
  · rw [if_neg same, if_neg same]
    rfl

/-- Writing through a current handle changes what its key shows and nothing else. -/
theorem view_write {map : SharedMap Key Value} {key : Key} {handle : Nat}
    (current : map.entries.lookup key = some handle) (value : Value) :
    (map.write handle value).view = map.view.insert key value := by
  ext1 other
  rw [lookup_view, FiniteMap.lookup_insert]
  change (map.entries.lookup other).bind _ = _
  by_cases same : other = key
  · subst other
    obtain ⟨old, found⟩ := map.readable current
    rw [if_pos rfl, current, Option.bind_some, read_write, if_pos rfl, found]
    rfl
  · rw [if_neg same, lookup_view]
    cases shown : map.entries.lookup other with
    | none => rfl
    | some handle' =>
      have different : handle' ≠ handle :=
        fun equal => same (map.unshared other key handle (equal ▸ shown) current)
      rw [Option.bind_some, Option.bind_some, read_write, if_neg different]

theorem Stale.insert {map : SharedMap Key Value} {handle : Nat} (stale : map.Stale handle) (key : Key)
    (value : Value) : (map.insert key value).Stale handle := by
  refine ⟨?_, ?_⟩
  · rw [SharedMap.insert, List.length_append]
    exact Nat.lt_add_right _ stale.1
  · intro other found
    simp only [SharedMap.insert, FiniteMap.lookup_insert] at found
    split at found
    · exact absurd (Option.some.inj found) (Nat.ne_of_gt stale.1)
    · exact stale.2 other found

theorem Stale.erase {map : SharedMap Key Value} {handle : Nat} (stale : map.Stale handle) (key : Key) :
    (map.erase key).Stale handle :=
  ⟨stale.1, fun other found => stale.2 other (FiniteMap.erase_submap map.entries key other handle found)⟩

/-- A new entry at its key makes a current handle stale. -/
theorem stale_of_insert {map : SharedMap Key Value} {key : Key} {handle : Nat}
    (current : map.entries.lookup key = some handle) (value : Value) :
    (map.insert key value).Stale handle := by
  have inside := map.allocated key handle current
  refine ⟨?_, ?_⟩
  · rw [SharedMap.insert, List.length_append]
    exact Nat.lt_add_right _ inside
  · intro other found
    simp only [SharedMap.insert, FiniteMap.lookup_insert] at found
    by_cases same : other = key
    · rw [if_pos same] at found
      exact absurd (Option.some.inj found) (Nat.ne_of_gt inside)
    · rw [if_neg same] at found
      exact same (map.unshared other key handle found current)

theorem stale_of_erase {map : SharedMap Key Value} {key : Key} {handle : Nat}
    (current : map.entries.lookup key = some handle) : (map.erase key).Stale handle := by
  refine ⟨map.allocated key handle current, ?_⟩
  intro other found
  simp only [SharedMap.erase, FiniteMap.lookup_erase] at found
  by_cases same : other = key
  · rw [if_pos same] at found
    cases found
  · rw [if_neg same] at found
    exact same (map.unshared other key handle found current)

end SharedMap
end LogosAccounts.Functional
