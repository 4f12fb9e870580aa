import LogosAccounts.Functional.FiniteMap

/-! Steps on a finite map that look at one key only and write only there. Such a
step leaves every other key alone, answers from its own entry, and commutes with
every step at another key. -/

namespace LogosAccounts.Functional
universe u v w
variable {Key : Type u} {Value : Type v} {Reply : Type w} [DecidableEq Key]

/-- The step is an edit of the entry at `key`. -/
def LocalAt (key : Key) (step : FiniteMap Key Value → FiniteMap Key Value × Reply) : Prop :=
  ∃ edit : Option Value → Option Value × Reply, ∀ map,
    step map = (map.set key (edit (map.lookup key)).1, (edit (map.lookup key)).2)

namespace LocalAt
variable {key other : Key} {step second : FiniteMap Key Value → FiniteMap Key Value × Reply}

theorem of_reader (answer : Option Value → Reply)
    (reads : ∀ map, step map = (map, answer (map.lookup key))) : LocalAt key step := by
  refine ⟨fun entry => (entry, answer entry), ?_⟩
  intro map
  rw [reads, FiniteMap.set_lookup]

theorem frame (isLocal : LocalAt key step) (map : FiniteMap Key Value) (different : other ≠ key) :
    (step map).1.lookup other = map.lookup other := by
  obtain ⟨edit, edits⟩ := isLocal
  rw [edits]
  exact FiniteMap.lookup_set_of_ne map _ different

/-- Two maps with the same entry at the key get the same answer and the same new entry. -/
theorem reads_only (isLocal : LocalAt key step) {map map' : FiniteMap Key Value}
    (same : map.lookup key = map'.lookup key) :
    (step map).2 = (step map').2 ∧ (step map).1.lookup key = (step map').1.lookup key := by
  obtain ⟨edit, edits⟩ := isLocal
  have edits' := edits map'
  rw [← same] at edits'
  rw [edits, edits']
  simp

/-- Steps at two different keys give the same answers and the same map in either order. -/
theorem commute (isLocal : LocalAt key step) (isLocal' : LocalAt other second)
    (different : key ≠ other) (map : FiniteMap Key Value) :
    (second (step map).1).2 = (second map).2 ∧ (step (second map).1).2 = (step map).2 ∧
      (second (step map).1).1 = (step (second map).1).1 := by
  have undisturbed : (step map).1.lookup other = map.lookup other :=
    isLocal.frame map different.symm
  have undisturbed' : (second map).1.lookup key = map.lookup key :=
    isLocal'.frame map different
  refine ⟨(isLocal'.reads_only undisturbed).1, (isLocal.reads_only undisturbed').1, ?_⟩
  obtain ⟨edit, edits⟩ := isLocal
  obtain ⟨edit', edits'⟩ := isLocal'
  rw [edits', edits (second map).1, undisturbed, undisturbed', edits, edits']
  exact map.set_comm different _ _

end LocalAt
end LogosAccounts.Functional
