import LogosAccounts.Proof.GrantRun
import LogosAccounts.Proof.ReachedAccount

/-! The listing and the value reader see the same keys. One walk follows the head's
locks to the delegate keys, the other goes to a key by its path; both end at the
value the verified chain has stored there. -/

namespace LogosAccounts
open BetterSign hiding mk
open Functional

section
variable [BetterSign]

/-- The lock is at a branch other than the root and names the branch's delegate key. -/
structure Script.Grants (lock : Script) : Prop where
  isBranch : keyIsBranch lock.path = true
  notRoot : keyAsStr lock.path ≠ "/"
  delegated : isDelegated lock = true

def StoredFor (log : Log) (branch : Key) (value : Value) : Prop :=
  ∃ leaf, delegatePubkeyKey branch = .ok leaf ∧ pairsAfter log.entries leaf = some value

/-- A lock makes a grant when it names its delegate key and a key can be read there. -/
theorem VerifiedHead.granted (verify : VerifyLaws) {log : Log} {last : Entry} {pairs : Kvp}
    (head : VerifiedHead log last pairs) {lock : Script} {d : PathDelegation} :
    delegationOfLock pairs lock = some d ↔ lock.Grants ∧ d.path = keyToString lock.path ∧
      ∃ value, StoredFor log lock.path value ∧ delegatedPubkey value = some d.pubkey := by
  have reads := pubkeyAt_eq (head.keysOnce verify)
  rw [delegationOfLock_some]
  constructor
  · rintro ⟨isBranch, notRoot, delegated, leaf, pubkey, parsed, found, rfl⟩
    rw [reads, head.find_eq verify] at found
    obtain ⟨value, stored, read⟩ := Option.bind_eq_some_iff.mp found
    exact ⟨⟨isBranch, notRoot, delegated⟩, rfl, value, ⟨leaf, parsed, stored⟩, read⟩
  · rintro ⟨⟨isBranch, notRoot, delegated⟩, shown, value, ⟨leaf, parsed, stored⟩, read⟩
    refine ⟨isBranch, notRoot, delegated, leaf, d.pubkey, parsed, ?_, ?_⟩
    · rw [reads, head.find_eq verify, stored]
      exact read
    · rw [← shown]

theorem VerifiedHead.mem_listing (verify : VerifyLaws) {log : Log} {last : Entry} {pairs : Kvp}
    (head : VerifiedHead log last pairs) {d : PathDelegation} :
    d ∈ delegationsOf last pairs ↔ ∃ lock ∈ last.locks, lock.Grants ∧ d.path = keyToString lock.path ∧
      ∃ value, StoredFor log lock.path value ∧ delegatedPubkey value = some d.pubkey := by
  simp only [mem_delegationsOf, head.granted verify]

theorem VerifiedHead.getValue_leaf (keys : KeyLaws) (verify : VerifyLaws) {account : PlogAccount}
    {last : Entry} {pairs : Kvp} (head : VerifiedHead account.log last pairs) {branch leaf : Key}
    (parsed : delegatePubkeyKey branch = .ok leaf) :
    account.getValue (keyToString branch ++ "pubkey") =
      match pairsAfter account.log.entries leaf with
      | some value => .ok (pathValue value)
      | none => .error (.pathNotFound (keyToString branch ++ "pubkey")) := by
  have isKey : parseKey (keyToString branch ++ "pubkey") = .ok leaf := by
    rw [keys.display]
    exact parseKey_ok.mpr (delegatePubkeyKey_ok.mp parsed).2
  unfold PlogAccount.getValue
  cases stored : pairsAfter account.log.entries leaf with
  | none => simp only [head.getPlogValue, isKey, except_ok_bind, valueAt, head.find_eq verify, stored]
  | some value =>
    simp only [head.getPlogValue, isKey, except_ok_bind, valueAt, head.find_eq verify, stored]

theorem pathValue_of_delegated {value : Value} {pubkey : String}
    (read : delegatedPubkey value = some pubkey) :
    pathValue value = .bin pubkey ∨ pathValue value = .str pubkey := by
  cases value with
  | str text =>
    obtain rfl := Option.some.inj read
    exact .inr rfl
  | data bytes =>
    unfold delegatedPubkey at read
    cases parsed : multikeyTryFrom bytes with
    | error e => simp [parsed] at read
    | ok multikey =>
      simp only [parsed, Option.some.injEq] at read
      obtain rfl := read
      simp [pathValue, encodeBinValue, parsed]
  | nil => cases read

/-- What the value reader answers at a delegate key that holds no key. -/
inductive NoKeyAt (log : Log) (branch : Key) (path : String) : Except Error PlogPathValue → Prop where
  | missing : NoKeyAt log branch path (.error (.pathNotFound path))
  | nil (stored : StoredFor log branch .nil) :
      NoKeyAt log branch path (.ok (.bin (encodeBytesMultibase [])))
  | undecoded (bytes : Bytes) (stored : StoredFor log branch (.data bytes)) (e : String)
      (failed : multikeyTryFrom bytes = .error e) :
      NoKeyAt log branch path (.ok (.bin (encodeBytesMultibase bytes)))

theorem VerifiedHead.noKeyAt (keys : KeyLaws) (verify : VerifyLaws) {account : PlogAccount}
    {last : Entry} {pairs : Kvp} (head : VerifiedHead account.log last pairs) {branch leaf : Key}
    (parsed : delegatePubkeyKey branch = .ok leaf)
    (unread : ∀ value pubkey, StoredFor account.log branch value →
      delegatedPubkey value ≠ some pubkey) :
    NoKeyAt account.log branch (keyToString branch ++ "pubkey")
      (account.getValue (keyToString branch ++ "pubkey")) := by
  rw [head.getValue_leaf keys verify parsed]
  cases stored : pairsAfter account.log.entries leaf with
  | none => exact .missing
  | some value =>
    have storedFor : StoredFor account.log branch value := ⟨leaf, parsed, stored⟩
    cases value with
    | str text => exact absurd rfl (unread _ text storedFor)
    | nil => exact .nil storedFor
    | data bytes =>
      cases decoded : multikeyTryFrom bytes with
      | ok multikey =>
        have read : delegatedPubkey (.data bytes) = some (encodeMultikey multikey) := by
          simp [delegatedPubkey, decoded]
        exact absurd read (unread _ _ storedFor)
      | error e =>
        have shown : pathValue (.data bytes) = .bin (encodeBytesMultibase bytes) := by
          simp [pathValue, encodeBinValue, decoded]
        simp only [shown]
        exact .undecoded bytes storedFor e decoded

/-- On a fully verified log every listed key is what the value reader shows at its
path; and at a branch with a lock of the sugar that is not listed, the value reader
finds nothing, a nil value, or bytes that are no Multikey. -/
theorem delegation_view_agrees (keys : KeyLaws) (leaves : LeafLaw) (verify : VerifyLaws)
    (account : PlogAccount) (verified : FullyVerified account.log) :
    ∃ list, account.listDelegations = .ok list ∧
      (∀ d ∈ list, account.getValue (d.path ++ "pubkey") = .ok (.bin d.pubkey) ∨
        account.getValue (d.path ++ "pubkey") = .ok (.str d.pubkey)) ∧
      ∀ last branch, account.log.entries.getLast? = some last → keyIsBranch branch = true →
        keyAsStr branch ≠ "/" → delegatedBranchLockScript branch ∈ last.locks →
        (∀ d ∈ list, d.path ≠ keyToString branch) →
        NoKeyAt account.log branch (keyToString branch ++ "pubkey")
          (account.getValue (keyToString branch ++ "pubkey")) := by
  obtain ⟨last, pairs, head⟩ := verified.head
  refine ⟨_, head.listDelegations, ?_, ?_⟩
  · intro d member
    obtain ⟨lock, _, _, shown, value, ⟨leaf, parsed, stored⟩, read⟩ :=
      (head.mem_listing verify).mp member
    rw [shown, head.getValue_leaf keys verify parsed, stored]
    simpa using pathValue_of_delegated read
  · intro last' branch isLast isBranch notRoot locked unlisted
    obtain rfl := Option.some.inj ((head.last_entry verify).symm.trans isLast)
    obtain ⟨leaf, parses⟩ := leaves branch isBranch
    have parsed : delegatePubkeyKey branch = .ok leaf := delegatePubkeyKey_ok.mpr ⟨isBranch, parses⟩
    have grants : (delegatedBranchLockScript branch).Grants := ⟨isBranch, notRoot, isDelegated_own branch⟩
    apply head.noKeyAt keys verify parsed
    -- a key that could be read would be listed
    intro value pubkey stored read
    have listed : (⟨keyToString branch, pubkey⟩ : PathDelegation) ∈ delegationsOf last pairs :=
      (head.mem_listing verify).mpr ⟨_, locked, grants, rfl, value, stored, read⟩
    exact unlisted _ listed rfl

end

section
open Reference

/-- The sample delegation is listed and read; every other branch is as the theorem says. -/
theorem delegation_view_agrees_delegation :
    ((accountMachine.after openedAccount delegationOps).getValue ("/a/" ++ "pubkey") =
        .ok (.bin "u5wkJ") ∨
      (accountMachine.after openedAccount delegationOps).getValue ("/a/" ++ "pubkey") =
        .ok (.str "u5wkJ")) ∧
    ∀ last branch,
      (accountMachine.after openedAccount delegationOps).log.entries.getLast? = some last →
      keyIsBranch branch = true → keyAsStr branch ≠ "/" →
      delegatedBranchLockScript branch ∈ last.locks → "/a/" ≠ keyToString branch →
      NoKeyAt (accountMachine.after openedAccount delegationOps).log branch
        (keyToString branch ++ "pubkey")
        ((accountMachine.after openedAccount delegationOps).getValue
          (keyToString branch ++ "pubkey")) := by
  obtain ⟨list, listed, shown, others⟩ := delegation_view_agrees keyLaws leafLaw verifyLaws
    (accountMachine.after openedAccount delegationOps)
    ((openedAccount_opened.reached delegationOps).verified appendLaws)
  have computed : (accountMachine.after openedAccount delegationOps).listDelegations =
      .ok [⟨"/a/", "u5wkJ"⟩] := by decide +kernel
  obtain rfl := Except.ok.inj (computed.symm.trans listed)
  refine ⟨shown ⟨"/a/", "u5wkJ"⟩ List.mem_cons_self, ?_⟩
  intro last branch isLast isBranch notRoot locked other
  apply others last branch isLast isBranch notRoot locked
  intro d member
  obtain rfl := List.mem_singleton.mp member
  exact other

end

end LogosAccounts
