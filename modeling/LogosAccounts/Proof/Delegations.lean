import LogosAccounts.Proof.BranchPath
import LogosAccounts.Proof.VerifiedHead

/-! How a delegation is read back from a lock, and what the sugar builds for it. -/

namespace LogosAccounts
open BetterSign hiding mk
open Functional
variable [BetterSign]

/-- The delegate key the pairs hold at `pkKey`. -/
def pubkeyAt (pairs : Kvp) (pkKey : Key) : Option String :=
  pairs.findSome? fun pair => if pair.1 ≠ pkKey then none else delegatedPubkey pair.2

/-- When a lock counts as a delegation, and which. -/
theorem delegationOfLock_some {pairs : Kvp} {lock : Script} {d : PathDelegation} :
    delegationOfLock pairs lock = some d ↔
      keyIsBranch lock.path = true ∧ keyAsStr lock.path ≠ "/" ∧ isDelegated lock = true ∧
        ∃ pkKey pubkey, delegatePubkeyKey lock.path = .ok pkKey ∧
          pubkeyAt pairs pkKey = some pubkey ∧ d = ⟨keyToString lock.path, pubkey⟩ := by
  unfold delegationOfLock
  simp only
  cases branch : keyIsBranch lock.path with
  | false => simp
  | true =>
    by_cases root : keyAsStr lock.path = "/"
    · simp [root]
    · cases delegated : isDelegated lock with
      | false => simp
      | true =>
        simp only [Bool.not_true, root, Bool.false_eq_true, if_false, ne_eq, not_false_eq_true,
          true_and, beq_eq_false_iff_ne.mpr root, Bool.or_self]
        cases parsed : delegatePubkeyKey lock.path with
        | error e => simp
        | ok pkKey =>
          change (pubkeyAt pairs pkKey).map _ = some d ↔ _
          rw [Option.map_eq_some_iff]
          constructor
          · rintro ⟨pubkey, found, rfl⟩
            exact ⟨pkKey, pubkey, rfl, found, rfl⟩
          · rintro ⟨_, pubkey, same, found, rfl⟩
            obtain rfl := Except.ok.inj same
            exact ⟨pubkey, found, rfl⟩

theorem mem_delegationsOf {entry : Entry} {pairs : Kvp} {d : PathDelegation} :
    d ∈ delegationsOf entry pairs ↔ ∃ lock ∈ entry.locks, delegationOfLock pairs lock = some d := by
  unfold delegationsOf
  rw [List.mem_insertionSort, List.mem_filterMap]

omit [BetterSign] in
private theorem closestParent_origin [BetterSign] {target : Key} {delegations : List PathDelegation}
    {best : Option Key} {branch : Key}
    (found : delegations.foldl (closestParentStep target) best = some branch) :
    best = some branch ∨ ∃ d ∈ delegations, parseBranchPath d.path = .ok branch := by
  induction delegations generalizing best with
  | nil => exact .inl found
  | cons d rest ih =>
    rcases ih found with step | ⟨later, member, parsed⟩
    · unfold closestParentStep at step
      cases parsed : parseBranchPath d.path with
      | error e => exact .inl (by simpa [parsed] using step)
      | ok dKey =>
        have chosen : best = some branch ∨ some dKey = some branch := by
          simp only [parsed] at step
          grind
        rcases chosen with same | same
        · exact .inl same
        · exact .inr ⟨d, by simp, by rw [parsed, Option.some.inj same]⟩
    · exact .inr ⟨later, by simp [member], parsed⟩

/-- The closest parent of a target is found among the delegations an account
itself lists. -/
theorem resolve_ok (keys : KeyLaws) (target : Key) (entry : Entry) (pairs : Kvp) :
    ∃ signAs, resolveClosestParentSigningKey target (delegationsOf entry pairs) = .ok signAs := by
  unfold resolveClosestParentSigningKey
  cases found : (delegationsOf entry pairs).foldl (closestParentStep target) none with
  | none => exact ⟨_, rfl⟩
  | some branch =>
    rcases closestParent_origin found with impossible | ⟨d, member, parsed⟩
    · cases impossible
    · obtain ⟨lock, _, reads⟩ := mem_delegationsOf.mp member
      obtain ⟨_, _, _, pkKey, pubkey, valid, _, rfl⟩ := delegationOfLock_some.mp reads
      -- the listed path reads back as the lock's own path
      have own := keys.reparse lock.path
      obtain rfl := Except.ok.inj (own.symm.trans (parseBranchPath_ok.mp parsed).1)
      exact ⟨keyToString pkKey, by simp [valid]⟩

section
variable {account : PlogAccount} {entry : Entry} {pairs : Kvp} {path : String} {branch : Key}

theorem VerifiedHead.delegateSpec (head : VerifiedHead account.log entry pairs) (keys : KeyLaws)
    (accepted : parseBranchPath path = .ok branch) (pubkeyMultibase : String) :
    ∃ signAs, account.delegateSpec path pubkeyMultibase =
      (decodeMultikey pubkeyMultibase >>= fun multikey =>
        delegatePubkeyKey branch >>= fun pkKey => .ok {
          locks := .upsert ⟨keyToString branch, delegatedLockCode branch⟩
          ops := [.useKey pkKey multikey]
          signAs
          kind := .delegate
          path := some (keyToString branch) }) := by
  obtain ⟨signAs, resolved⟩ := resolve_ok keys branch entry pairs
  refine ⟨signAs, ?_⟩
  unfold PlogAccount.delegateSpec
  rw [accepted, head.listDelegations]
  simp only [except_ok_bind, delegatedBranchLockScript, resolved, except_pure, useKeyOp]

theorem VerifiedHead.revokeSpec (head : VerifiedHead account.log entry pairs) (keys : KeyLaws)
    (accepted : parseBranchPath path = .ok branch) :
    ∃ signAs, account.revokeSpec path =
      (delegatePubkeyKey branch >>= fun pkKey => .ok {
        locks := .remove (keyToString branch)
        ops := [.delete pkKey]
        signAs
        kind := .revoke
        path := some (keyToString branch) }) := by
  obtain ⟨signAs, resolved⟩ := resolve_ok keys branch entry pairs
  refine ⟨signAs, ?_⟩
  unfold PlogAccount.revokeSpec
  rw [accepted, head.listDelegations]
  simp only [except_ok_bind, resolved, except_pure]

theorem delegateSpec_ok {pubkeyMultibase : String} {input : PrepareEntrySpec}
    (given : account.delegateSpec path pubkeyMultibase = .ok input) :
    ∃ branch multikey delegations, parseBranchPath path = .ok branch ∧
      decodeMultikey pubkeyMultibase = .ok multikey ∧ account.listDelegations = .ok delegations ∧
      resolveClosestParentSigningKey branch delegations = .ok input.signAs ∧
      input.kind = .delegate ∧ input.path = some (keyToString branch) := by
  obtain ⟨branch, accepted, given⟩ := except_bind_ok.mp given
  obtain ⟨multikey, decoded, given⟩ := except_bind_ok.mp given
  obtain ⟨pkKey, _, given⟩ := except_bind_ok.mp given
  obtain ⟨lock, _, given⟩ := except_bind_ok.mp given
  obtain ⟨delegations, listed, given⟩ := except_bind_ok.mp given
  obtain ⟨signAs, resolved, given⟩ := except_bind_ok.mp given
  obtain rfl := Except.ok.inj given
  exact ⟨branch, multikey, delegations, accepted, decoded, listed, resolved, rfl, rfl⟩

/-- What the sugar edits: one lock replaced or removed, one delegate key stored or
deleted. -/
theorem delegateSpec_edit {pubkeyMultibase : String} {input : PrepareEntrySpec}
    (given : account.delegateSpec path pubkeyMultibase = .ok input) :
    ∃ lock pkKey multikey, input.locks = .upsert lock ∧ input.ops = [.useKey pkKey multikey] := by
  obtain ⟨branch, _, given⟩ := except_bind_ok.mp given
  obtain ⟨multikey, _, given⟩ := except_bind_ok.mp given
  obtain ⟨pkKey, _, given⟩ := except_bind_ok.mp given
  obtain ⟨lock, _, given⟩ := except_bind_ok.mp given
  obtain ⟨delegations, _, given⟩ := except_bind_ok.mp given
  obtain ⟨signAs, _, given⟩ := except_bind_ok.mp given
  obtain rfl := Except.ok.inj given
  exact ⟨_, pkKey, multikey, rfl, rfl⟩

theorem revokeSpec_edit {input : PrepareEntrySpec} (given : account.revokeSpec path = .ok input) :
    ∃ removed pkKey, input.locks = .remove removed ∧ input.ops = [.delete pkKey] := by
  obtain ⟨branch, _, given⟩ := except_bind_ok.mp given
  obtain ⟨pkKey, _, given⟩ := except_bind_ok.mp given
  obtain ⟨delegations, _, given⟩ := except_bind_ok.mp given
  obtain ⟨signAs, _, given⟩ := except_bind_ok.mp given
  obtain rfl := Except.ok.inj given
  exact ⟨_, pkKey, rfl, rfl⟩

theorem revokeSpec_ok {input : PrepareEntrySpec} (given : account.revokeSpec path = .ok input) :
    ∃ branch delegations, parseBranchPath path = .ok branch ∧
      account.listDelegations = .ok delegations ∧
      resolveClosestParentSigningKey branch delegations = .ok input.signAs ∧
      input.kind = .revoke ∧ input.path = some (keyToString branch) := by
  obtain ⟨branch, accepted, given⟩ := except_bind_ok.mp given
  obtain ⟨pkKey, _, given⟩ := except_bind_ok.mp given
  obtain ⟨delegations, listed, given⟩ := except_bind_ok.mp given
  obtain ⟨signAs, resolved, given⟩ := except_bind_ok.mp given
  obtain rfl := Except.ok.inj given
  exact ⟨branch, delegations, accepted, listed, resolved, rfl, rfl⟩

end

end LogosAccounts
