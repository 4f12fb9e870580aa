import Mathlib.Data.List.Forall2

/-! Inversion of successful and failed `Except` computations. -/

namespace LogosAccounts.Functional
universe u v w
variable {ε : Type u} {α β : Type v}

theorem except_bind_ok {first : Except ε α} {next : α → Except ε β} {result : β} :
    (first >>= next) = .ok result ↔ ∃ value, first = .ok value ∧ next value = .ok result := by
  cases first with
  | error failure =>
    constructor
    · intro impossible
      cases impossible
    · rintro ⟨value, impossible, _⟩
      cases impossible
  | ok value =>
    constructor
    · intro success
      exact ⟨value, rfl, success⟩
    · rintro ⟨_, same, success⟩
      cases same
      exact success

@[simp] theorem except_ok_bind (value : α) (next : α → Except ε β) :
    ((Except.ok value : Except ε α) >>= next) = next value := rfl

@[simp] theorem except_error_bind (failure : ε) (next : α → Except ε β) :
    ((Except.error failure : Except ε α) >>= next) = .error failure := rfl

@[simp] theorem except_pure (value : α) : (pure value : Except ε α) = .ok value := rfl

@[simp] theorem except_throw (failure : ε) : (throw failure : Except ε α) = .error failure := rfl

@[simp] theorem mapError_ok {ε' : Type w} (wrap : ε → ε') (value : α) :
    (Except.ok value : Except ε α).mapError wrap = .ok value := rfl

@[simp] theorem mapError_error {ε' : Type w} (wrap : ε → ε') (failure : ε) :
    (Except.error failure : Except ε α).mapError wrap = .error (wrap failure) := rfl

theorem mapError_eq_ok {ε' : Type w} {wrap : ε → ε'} {result : Except ε α} {value : α} :
    result.mapError wrap = .ok value ↔ result = .ok value := by
  cases result with
  | error failure => simp
  | ok found => simp

theorem toOption_eq_some {result : Except ε α} {value : α} :
    result.toOption = some value ↔ result = .ok value := by
  cases result with
  | error failure => simp [Except.toOption]
  | ok found => simp [Except.toOption]

/-- A list is mapped without error exactly when every item is. -/
theorem mapM_ok_iff {f : α → Except ε β} {items : List α} {results : List β} :
    items.mapM f = .ok results ↔ List.Forall₂ (fun item result => f item = .ok result) items results := by
  induction items generalizing results with
  | nil =>
    constructor
    · intro success
      obtain rfl : [] = results := Except.ok.inj success
      exact .nil
    · intro paired
      cases paired
      rfl
  | cons item rest ih =>
    rw [List.mapM_cons]
    constructor
    · intro success
      obtain ⟨result, first, success⟩ := except_bind_ok.mp success
      obtain ⟨others, tail, success⟩ := except_bind_ok.mp success
      obtain rfl : result :: others = results := Except.ok.inj success
      exact .cons first (ih.mp tail)
    · intro paired
      cases paired with
      | cons first tail =>
        rw [first, except_ok_bind, ih.mpr tail]
        rfl

theorem mapM_total {f : α → Except ε β} {items : List α}
    (every : ∀ item ∈ items, ∃ result, f item = .ok result) : ∃ results, items.mapM f = .ok results := by
  induction items with
  | nil => exact ⟨[], rfl⟩
  | cons item rest ih =>
    obtain ⟨result, first⟩ := every item List.mem_cons_self
    obtain ⟨others, tail⟩ := ih fun other member => every other (List.mem_cons_of_mem item member)
    exact ⟨result :: others, mapM_ok_iff.mpr (.cons first (mapM_ok_iff.mp tail))⟩

theorem mapM_some_forall₂ {f : α → Option β} {items : List α} {results : List β}
    (made : items.mapM f = some results) :
    List.Forall₂ (fun item result => f item = some result) items results := by
  induction items generalizing results with
  | nil =>
    obtain rfl := Option.some.inj made
    exact .nil
  | cons item rest ih =>
    rw [List.mapM_cons] at made
    obtain ⟨result, first, made⟩ := Option.bind_eq_some_iff.mp made
    obtain ⟨others, tail, made⟩ := Option.bind_eq_some_iff.mp made
    obtain rfl := Option.some.inj made
    exact .cons first (ih tail)

theorem mapM_all {f : α → Option β} {holds : β → Bool} {items : List α} {results : List β}
    (made : items.mapM f = some results) (every : (items.all fun item => (f item).all holds) = true) :
    results.all holds = true := by
  have paired := mapM_some_forall₂ made
  clear made
  induction paired with
  | nil => rfl
  | cons first _ ih =>
    rw [List.all_cons, first, Bool.and_eq_true] at every
    rw [List.all_cons, Bool.and_eq_true]
    exact ⟨every.1, ih every.2⟩

/-- Two passes over a list, item by item. -/
theorem mapM_bind_ok {γ : Type v} {f : α → Except ε β} {g : β → Except ε γ} {items : List α}
    {middle : List β} {results : List γ} (first : items.mapM f = .ok middle)
    (second : middle.mapM g = .ok results) :
    List.Forall₂ (fun item result => (f item >>= g) = .ok result) items results := by
  have paired := mapM_ok_iff.mp first
  clear first
  induction paired generalizing results with
  | nil =>
    obtain rfl : [] = results := Except.ok.inj second
    exact .nil
  | cons head tail ih =>
    cases mapM_ok_iff.mp second with
    | cons head' tail' => exact .cons (except_bind_ok.mpr ⟨_, head, head'⟩) (ih (mapM_ok_iff.mpr tail'))

theorem forall₂_partner {γ : Type v} {related : α → γ → Prop} {items : List α} {results : List γ}
    (paired : List.Forall₂ related items results) {item : α} (member : item ∈ items) :
    ∃ result ∈ results, related item result := by
  induction paired with
  | nil => cases member
  | cons head _ ih =>
    rcases List.mem_cons.mp member with rfl | later
    · exact ⟨_, List.mem_cons_self, head⟩
    · obtain ⟨result, found, holds⟩ := ih later
      exact ⟨result, List.mem_cons_of_mem _ found, holds⟩

/-- Every error the computation can end in is `allowed`. -/
def ErrorsIn (allowed : ε → Prop) (result : Except ε α) : Prop :=
  ∀ failure, result = .error failure → allowed failure

variable {allowed : ε → Prop}

theorem ErrorsIn.ok (value : α) : ErrorsIn allowed (.ok value) := by
  intro failure impossible
  cases impossible

theorem ErrorsIn.error {failure : ε} (member : allowed failure) :
    ErrorsIn allowed (.error failure : Except ε α) := by
  intro other same
  cases same
  exact member

theorem ErrorsIn.bind {first : Except ε α} {next : α → Except ε β} (head : ErrorsIn allowed first)
    (tail : ∀ value, first = .ok value → ErrorsIn allowed (next value)) :
    ErrorsIn allowed (first >>= next) := by
  cases first with
  | error failure => exact .error (head failure rfl)
  | ok value => exact tail value rfl

theorem ErrorsIn.mapError {ε' : Type w} {wrap : ε' → ε} {result : Except ε' α}
    (every : ∀ failure, allowed (wrap failure)) : ErrorsIn allowed (result.mapError wrap) := by
  cases result with
  | error failure => exact .error (every failure)
  | ok value => exact .ok value

theorem ErrorsIn.map {first : Except ε α} {f : α → β} (head : ErrorsIn allowed first) :
    ErrorsIn allowed (first.map f) := by
  cases first with
  | error failure => exact .error (head failure rfl)
  | ok value => exact .ok (f value)

theorem ErrorsIn.mapM {f : α → Except ε β} {items : List α}
    (every : ∀ item, ErrorsIn allowed (f item)) : ErrorsIn allowed (items.mapM f) := by
  induction items with
  | nil => exact .ok []
  | cons item rest ih =>
    rw [List.mapM_cons]
    exact .bind (every item) fun _ _ => .bind ih fun _ _ => .ok _

end LogosAccounts.Functional
