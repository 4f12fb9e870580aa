import Mathlib.Data.List.Basic

/-! Edits that an observer does not see. When an unseen edit leaves the store alike
and every edit takes alike stores to alike stores, the unseen edits of a sequence can
be left out without the observer noticing. -/

namespace LogosAccounts.Functional
universe u v
variable {Store : Type u} {Edit : Type v}

/-- Which stores an observer takes for the same, and which edits it does not see. -/
structure Observer (apply : Store → Edit → Option Store) where
  alike : Store → Store → Prop
  unseen : Edit → Bool
  equivalence : Equivalence alike
  quiet : ∀ {store edit store'}, unseen edit = true → apply store edit = some store' →
    alike store store'
  respects : ∀ {store other edit store'}, alike store other → apply store edit = some store' →
    ∃ other', apply other edit = some other' ∧ alike store' other'

namespace Observer
variable {apply : Store → Edit → Option Store} (observer : Observer apply)

/-- The edits that are seen can be made alone, and the outcome looks the same. -/
theorem purge {edits : List Edit} {store store' : Store} (edited : edits.foldlM apply store = some store') :
    ∃ other, (edits.filter fun edit => !observer.unseen edit).foldlM apply store = some other ∧
      observer.alike store' other := by
  suffices from_alike : ∀ start, observer.alike store start →
      ∃ other, (edits.filter fun edit => !observer.unseen edit).foldlM apply start = some other ∧
        observer.alike store' other from
    from_alike store (observer.equivalence.refl store)
  induction edits generalizing store with
  | nil =>
    obtain rfl := Option.some.inj edited
    exact fun start same => ⟨start, rfl, same⟩
  | cons edit rest ih =>
    intro start same
    rw [List.foldlM_cons] at edited
    obtain ⟨next, once, edited⟩ := Option.bind_eq_some_iff.mp edited
    cases hidden : observer.unseen edit with
    | true =>
      have still := observer.equivalence.trans
        (observer.equivalence.symm (observer.quiet hidden once)) same
      rw [List.filter_cons_of_neg (by simp [hidden])]
      exact ih edited start still
    | false =>
      obtain ⟨next', once', same'⟩ := observer.respects same once
      rw [List.filter_cons_of_pos (by simp [hidden]), List.foldlM_cons, once']
      exact ih edited next' same'

end Observer
end LogosAccounts.Functional
