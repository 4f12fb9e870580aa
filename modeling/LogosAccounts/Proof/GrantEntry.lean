import LogosAccounts.Proof.GrantEdit

/-! The entry of a delegation or a revocation edits the listing at its own path,
whatever the path is made of. -/

namespace LogosAccounts
open BetterSign hiding mk
open Functional
variable [BetterSign]

/-- Appending any signed form of the unsigned entry edits the listing, and a
withdrawal also empties the delegate key. -/
def EditsListing (log : Log) (edit : GrantEdit) (unsigned : UnsignedUpdate) : Prop :=
  ∀ entry, entry.unsigned = unsigned.entry.unsigned → FullyVerified (log.push entry) →
    ∀ account account' : PlogAccount, account.log = log → account'.log = log.push entry →
      ∀ list, account.listDelegations = .ok list →
        account'.listDelegations = .ok (edit.apply list) ∧
        ∀ path, edit = .withdraw path →
          account'.getValue (path ++ "pubkey") = .error (.pathNotFound (path ++ "pubkey"))

omit [BetterSign] in
private theorem mapM_single {α β : Type} {f : α → Except Error β} {item : α} {results : List β}
    (success : [item].mapM f = .ok results) : ∃ result, f item = .ok result ∧ results = [result] := by
  cases mapM_ok_iff.mp success with
  | cons first rest =>
    cases rest
    exact ⟨_, first, rfl⟩

/-- What the two prepares have in common: one lock replaced and one delegate key
edited. What the edit makes of the listing is then a matter of the pairs alone. -/
private theorem edits_of_fields (keys : KeyLaws) (verify : VerifyLaws) {account : PlogAccount}
    {last : Entry} {pairs : Kvp} (head : VerifiedHead account.log last pairs) {branch pkKey : Key}
    {add : Option Script} (parsed : delegatePubkeyKey branch = .ok pkKey)
    {unsigned : UnsignedUpdate} (locks : unsigned.entry.locks = locksReplacingPath last branch add)
    {op : Op} (ops : unsigned.entry.ops = [op])
    (elsewhere : ∀ find key, key ≠ pkKey → applyOp find op key = find key) {edit : GrantEdit}
    (lists : ∀ pairs' : Kvp, (∀ key, pairs'.find key = applyOp pairs.find op key) →
      (∀ key, pubkeyAt pairs' key = (pairs'.find key).bind delegatedPubkey) →
      sortBy PathDelegation.path
        ((delegationsOf last pairs).filter (fun d => d.path ≠ keyAsStr branch) ++
          add.toList.filterMap (delegationOfLock pairs')) = edit.apply (delegationsOf last pairs))
    (empties : ∀ pairs' : Kvp, (∀ key, pairs'.find key = applyOp pairs.find op key) →
      ∀ path, edit = .withdraw path → (parseKey (path ++ "pubkey") >>= fun key =>
        valueAt pairs' key (path ++ "pubkey")) = .error (.pathNotFound (path ++ "pubkey"))) :
    EditsListing account.log edit unsigned := by
  intro entry sameEntry appended before after beforeLog afterLog list listed
  obtain ⟨sameOps, sameLocks, _⟩ := Entry.same_fields sameEntry
  have entryLocks : entry.locks = locksReplacingPath last branch add := sameLocks.trans locks
  have entryOps : entry.ops = [op] := sameOps.trans ops
  obtain ⟨pairs', head', found⟩ := head.push verify appended
  have edited : ∀ key, pairs'.find key = applyOp pairs.find op key := by
    intro key
    rw [found, entryOps]
    rfl
  have reads := pubkeyAt_eq (head'.keysOnce verify)
  have others : ∀ key, key ≠ pkKey → pubkeyAt pairs' key = pubkeyAt pairs key := by
    intro key other
    rw [reads, pubkeyAt_eq (head.keysOnce verify), edited, elsewhere _ key other]
  have replaced := delegationsOf_replaced keys parsed entryLocks others
  rw [← beforeLog] at head
  rw [← afterLog] at head'
  rw [head.listDelegations] at listed
  obtain rfl := Except.ok.inj listed
  constructor
  · rw [head'.listDelegations, replaced, lists pairs' edited reads]
  · intro path named
    unfold PlogAccount.getValue
    rw [head'.getPlogValue]
    exact empties pairs' edited path named

omit [BetterSign] in
theorem containsText_prefix (pattern rest : String) :
    containsText (pattern ++ rest) pattern = true := by
  unfold containsText
  rw [decide_eq_true_iff, String.toList_append]
  exact (List.prefix_append _ _).isInfix

theorem delegatedLockCode_split (branch : Key) :
    delegatedLockCode branch =
      ("check_signature(\"" ++ keyAsStr branch ++ "pubkey\"") ++ ", \"/entry/\")" := by
  have literal : "pubkey\", \"/entry/\")" = "pubkey\"" ++ ", \"/entry/\")" := by simp
  unfold delegatedLockCode
  rw [literal]
  simp only [String.append_assoc]

theorem isDelegated_own (branch : Key) : isDelegated (delegatedBranchLockScript branch) = true := by
  unfold isDelegated delegatedBranchLockScript
  dsimp only
  rw [delegatedLockCode_split, containsText_prefix, Bool.true_or]

theorem delegate_entry (keys : KeyLaws) (entries : EntryLaws) {account : PlogAccount} {last : Entry}
    {pairs : Kvp} (head : VerifiedHead account.log last pairs) {path key : String} {branch : Key}
    (accepted : parseBranchPath path = .ok branch) {multikey : Multikey}
    (decoded : decodeMultikey key = .ok multikey) {input : PrepareEntrySpec}
    (given : account.delegateSpec path key = .ok input) {unsigned : UnsignedUpdate}
    (built : account.unsignedEntry input = .ok unsigned) :
    ∃ pkKey op, delegatePubkeyKey branch = .ok pkKey ∧
      opTryBuild (.update pkKey (.data (multikeyToBytes multikey))) = .ok op ∧
      unsigned.entry.ops = [op] ∧
      unsigned.entry.locks = locksReplacingPath last branch (some (delegatedBranchLockScript branch)) := by
  obtain ⟨signAs, spec⟩ := head.delegateSpec keys accepted key
  rw [spec, decoded, except_ok_bind] at given
  obtain ⟨pkKey, parsed, given⟩ := except_bind_ok.mp given
  obtain rfl := Except.ok.inj given
  obtain ⟨locks, spelled, sameLocks, opened⟩ := unsignedEntry_fields entries head built
  have ownPath : parseKey (keyToString branch) = .ok branch := parseKey_ok.mpr (keys.reparse branch)
  simp only [lockSpecToScripts, lockScriptFromJson, ownPath, except_ok_bind, except_pure,
    Except.ok.injEq] at spelled
  obtain ⟨op, made, sameOps⟩ := mapM_single opened
  refine ⟨pkKey, op, parsed, mapError_eq_ok.mp made, sameOps, ?_⟩
  rw [sameLocks, ← spelled]
  rfl

theorem delegate_edits (keys : KeyLaws) (multikeys : MultikeyLaws) (entries : EntryLaws)
    (opLaw : OpLaw) (verify : VerifyLaws) {account : PlogAccount}
    (verified : FullyVerified account.log) {path key : String} {multikey : Multikey}
    (decoded : decodeMultikey key = .ok multikey) {input : PrepareEntrySpec}
    (given : account.delegateSpec path key = .ok input) {unsigned : UnsignedUpdate}
    (built : account.unsignedEntry input = .ok unsigned) :
    EditsListing account.log (.grant path (encodeMultikey multikey)) unsigned := by
  obtain ⟨last, pairs, head⟩ := verified.head
  obtain ⟨branch, accepted, _⟩ := except_bind_ok.mp given
  obtain ⟨isKey, isBranch, notRoot⟩ := parseBranchPath_ok.mp accepted
  have text : keyAsStr branch = path := keys.keeps path branch isKey
  obtain ⟨pkKey, op, parsed, made, ops, locks⟩ :=
    delegate_entry keys entries head accepted decoded given built
  obtain rfl := opLaw _ _ made
  apply edits_of_fields keys verify head parsed locks ops
  · intro find key other
    simp [applyOp, other]
  · intro pairs' edited reads
    have stored : pubkeyAt pairs' pkKey = some (encodeMultikey multikey) := by
      rw [reads, edited]
      simp [applyOp, delegatedPubkey, multikeys.bytes]
    have granted : delegationOfLock pairs' (delegatedBranchLockScript branch) =
        some ⟨keyToString branch, encodeMultikey multikey⟩ :=
      delegationOfLock_some.mpr ⟨isBranch, notRoot, isDelegated_own branch, pkKey, _, parsed, stored, rfl⟩
    simp only [GrantEdit.apply, Option.toList_some, List.filterMap_cons_some granted,
      List.filterMap_nil, text, keys.display]
  · intro pairs' edited other named
    cases named

theorem revoke_edits (keys : KeyLaws) (entries : EntryLaws) (opLaw : OpLaw) (verify : VerifyLaws)
    {account : PlogAccount} (verified : FullyVerified account.log) {path : String}
    {input : PrepareEntrySpec} (given : account.revokeSpec path = .ok input)
    {unsigned : UnsignedUpdate} (built : account.unsignedEntry input = .ok unsigned) :
    EditsListing account.log (.withdraw path) unsigned := by
  obtain ⟨last, pairs, head⟩ := verified.head
  obtain ⟨branch, accepted, _⟩ := except_bind_ok.mp given
  obtain ⟨signAs, spec⟩ := head.revokeSpec keys accepted
  obtain ⟨isKey, isBranch, notRoot⟩ := parseBranchPath_ok.mp accepted
  have text : keyAsStr branch = path := keys.keeps path branch isKey
  rw [spec] at given
  obtain ⟨pkKey, parsed, given⟩ := except_bind_ok.mp given
  obtain rfl := Except.ok.inj given
  obtain ⟨locks, spelled, sameLocks, opened⟩ := unsignedEntry_fields entries head built
  have ownPath : parseKey (keyToString branch) = .ok branch := parseKey_ok.mpr (keys.reparse branch)
  simp only [lockSpecToScripts, ownPath, except_ok_bind, except_pure, Except.ok.injEq] at spelled
  obtain ⟨op, made, ops⟩ := mapM_single opened
  obtain rfl := opLaw _ _ (mapError_eq_ok.mp made)
  have locks : unsigned.entry.locks = locksReplacingPath last branch none := by
    rw [sameLocks, ← spelled]
    rfl
  apply edits_of_fields keys verify head parsed locks ops
  · intro find key other
    simp [applyOp, other]
  · intro pairs' edited reads
    have ordered : ((delegationsOf last pairs).filter fun d => d.path ≠ path).Pairwise
        fun a b => a.path ≤ b.path := (sortBy_sorted _).filter _
    simp only [GrantEdit.apply, Option.toList_none, List.filterMap_nil, List.append_nil, text]
    rw [sortBy_of_sorted ordered]
  · intro pairs' edited other named
    obtain rfl := GrantEdit.withdraw.inj named
    have gone : pairs'.find pkKey = none := by
      rw [edited]
      simp [applyOp]
    have own : parseKey (path ++ "pubkey") = .ok pkKey := by
      rw [← text]
      exact parseKey_ok.mpr (delegatePubkeyKey_ok.mp parsed).2
    rw [own, except_ok_bind, valueAt, gone]

end LogosAccounts
