import LogosAccounts.BetterSign.Laws
import LogosAccounts.Functional.Except
import LogosAccounts.Wire

/-! When the path validators accept, what they give, and how they refuse. -/

namespace LogosAccounts
open BetterSign hiding mk
open Functional
variable [BetterSign]

theorem parseKey_ok {path : String} {key : Key} :
    parseKey path = .ok key ↔ keyTryFrom path = .ok key :=
  mapError_eq_ok

theorem parseBranchPath_ok {path : String} {key : Key} :
    parseBranchPath path = .ok key ↔
      keyTryFrom path = .ok key ∧ keyIsBranch key = true ∧ keyAsStr key ≠ "/" := by
  unfold parseBranchPath
  cases keyTryFrom path with
  | error failure => simp
  | ok found =>
    cases branch : keyIsBranch found with
    | false =>
      simp only [branch, mapError_ok, except_ok_bind, Bool.not_false, if_true, except_throw,
        except_error_bind, reduceCtorEq, Except.ok.injEq, false_iff]
      rintro ⟨rfl, accepted, _⟩
      simp [branch] at accepted
    | true =>
      by_cases root : keyAsStr found = "/"
      · simp only [branch, root, mapError_ok, except_ok_bind, Bool.not_true, Bool.false_eq_true,
          if_false, beq_self_eq_true, if_true, except_throw, except_error_bind, reduceCtorEq,
          Except.ok.injEq, false_iff]
        rintro ⟨rfl, _, accepted⟩
        exact accepted root
      · simp only [branch, root, mapError_ok, except_ok_bind, Bool.not_true, Bool.false_eq_true,
          if_false, beq_iff_eq, except_pure, Except.ok.injEq]
        constructor
        · rintro rfl
          exact ⟨rfl, branch, root⟩
        · exact fun accepted => accepted.1

theorem parseBranchPath_error {path : String} {e : Error} (failed : parseBranchPath path = .error e) :
    ∃ detail, e = .invalidOp detail := by
  unfold parseBranchPath at failed
  cases parsed : keyTryFrom path with
  | error failure =>
    simp only [parsed, mapError_error, except_error_bind, Except.error.injEq] at failed
    exact ⟨_, failed.symm⟩
  | ok key =>
    cases branch : keyIsBranch key with
    | false =>
      simp only [parsed, branch, mapError_ok, except_ok_bind, Bool.not_false, if_true,
        except_throw, except_error_bind, Except.error.injEq] at failed
      exact ⟨_, failed.symm⟩
    | true =>
      by_cases root : keyAsStr key = "/"
      · simp only [parsed, branch, root, mapError_ok, except_ok_bind, Bool.not_true,
          Bool.false_eq_true, if_false, beq_self_eq_true, if_true, except_throw,
          except_error_bind, Except.error.injEq] at failed
        exact ⟨_, failed.symm⟩
      · simp [parsed, branch, root] at failed

theorem delegatePubkeyKey_ok {branch key : Key} :
    delegatePubkeyKey branch = .ok key ↔
      keyIsBranch branch = true ∧ keyTryFrom (keyAsStr branch ++ "pubkey") = .ok key := by
  unfold delegatePubkeyKey
  cases keyIsBranch branch with
  | false => simp
  | true => simpa using mapError_eq_ok

theorem delegatePubkeyKey_error {branch : Key} {e : Error}
    (failed : delegatePubkeyKey branch = .error e) : ∃ detail, e = .invalidOp detail := by
  unfold delegatePubkeyKey at failed
  split at failed
  · exact ⟨_, (Except.error.inj failed).symm⟩
  · cases result : keyTryFrom (keyAsStr branch ++ "pubkey") with
    | error failure =>
      rw [result] at failed
      exact ⟨_, (Except.error.inj failed).symm⟩
    | ok key =>
      rw [result] at failed
      cases failed

end LogosAccounts
