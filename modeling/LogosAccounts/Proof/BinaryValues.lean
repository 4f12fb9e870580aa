import LogosAccounts.Proof.RequestValues

/-! Binary values read back. The reader shows bytes that parse as a Multikey through
the parsed key, so they come back as they were stored exactly when that key has
the same bytes. -/

namespace LogosAccounts
open BetterSign hiding mk
open Functional

section
variable [BetterSign]

/-- Bytes that are those of the Multikey they parse as, if they parse as one. -/
def Canonical (d : Bytes) : Prop :=
  ∀ multikey, multikeyTryFrom d = .ok multikey → multikeyToBytes multikey = d

/-- The value read at the path is binary and decodes to `d`. -/
def PlogAccount.ReadsBack (account : PlogAccount) (q : String) (d : Bytes) : Prop :=
  ∃ m, account.getValue q = .ok (.bin m) ∧ decodeBytesMultibase m = .ok d

/-- The text of a binary value decodes to the bytes exactly when they are canonical. -/
theorem encodeBinValue_decodes (multibase : MultibaseLaw) (payload : MultikeyPayloadLaw) (d : Bytes) :
    decodeBytesMultibase (encodeBinValue d) = .ok d ↔ Canonical d := by
  unfold encodeBinValue Canonical
  cases parsed : multikeyTryFrom d with
  | error e =>
    simp only [reduceCtorEq, false_implies, implies_true, iff_true]
    exact decode_encodeBytesMultibase multibase d
  | ok multikey =>
    obtain ⟨base, decoded⟩ := payload multikey false
    have carried : decodeBytesMultibase (encodeMultikey multikey) = .ok (multikeyToBytes multikey) := by
      unfold decodeBytesMultibase encodeMultikey
      rw [decoded]
      rfl
    simp only [carried, Except.ok.injEq, forall_eq']

theorem readsBack_iff (multibase : MultibaseLaw) (payload : MultikeyPayloadLaw)
    {account : PlogAccount} {q : String} {d : Bytes}
    (shown : account.getValue q = .ok (.bin (encodeBinValue d))) :
    account.ReadsBack q d ↔ Canonical d := by
  rw [← encodeBinValue_decodes multibase payload]
  unfold PlogAccount.ReadsBack
  constructor
  · rintro ⟨m, read, decoded⟩
    obtain rfl := PlogPathValue.bin.inj (Except.ok.inj (shown.symm.trans read))
    exact decoded
  · intro decoded
    exact ⟨_, shown, decoded⟩

/-- In every reached account, data stored at a key reads back exactly when it is
canonical; so does, right after its commit, what a request stores by an update
that no later op of the request overwrites. -/
theorem binary_value_reads_back_iff (keys : KeyLaws) (laws : EntryLaws) (opLaw : OpLaw)
    (append : AppendLaws) (verify : VerifyLaws) (multibase : MultibaseLaw)
    (payload : MultikeyPayloadLaw) (account : PlogAccount) (reached : account.Reached) :
    (∀ q key d, keyTryFrom q = .ok key → pairsAfter account.log.entries key = some (.data d) →
      (account.ReadsBack q d ↔ Canonical d)) ∧
    ∀ requestJson request preparing between commit challenge,
      parseEntryUpdateRequest requestJson = .ok request →
      PreparedCommit account (.prepareUpdate requestJson, preparing) between commit challenge →
      ∀ before q text later d, request.ops = before ++ .update q (.data text) :: later →
        (∀ op ∈ later, op.writesAt q = none) → decodeBytesMultibase text = .ok d →
        ((accountMachine.after account
          ((.prepareUpdate requestJson, preparing) :: between ++ [commit])).ReadsBack q d ↔
            Canonical d) := by
  have verified := reached.verified append
  constructor
  · intro q key d isKey stored
    apply readsBack_iff multibase payload
    obtain ⟨last, pairs, head⟩ := verified.head
    have found : pairs.find key = some (.data d) := (head.find_eq verify key).trans stored
    unfold PlogAccount.getValue
    rw [head.getPlogValue, parseKey_ok.mpr isKey, except_ok_bind, valueAt, found]
    rfl
  · intro requestJson request preparing between commit challenge parsed commits before q text later d
      ops silent decoded
    apply readsBack_iff multibase payload
    obtain ⟨last, pairs, entry, locks, head, extended, _, after, _, _, made⟩ :=
      committed_request laws append verified parsed commits
    have written : PlogOp.writesAt q (.update q (.data text)) =
        some (.ok (.bin (encodeBinValue d))) := by
      simp [PlogOp.writesAt, decoded, Except.map]
    unfold PlogAccount.getValue
    rw [after, pushed_value keys opLaw verify verified extended made, ops]
    exact lastWrite_of_last written silent before _

end

section
open Reference

def leftoverRun : List (AccountOp × Ambient) :=
  [(.prepareUpdate (printJson leftoverTree), sampleAmbient 1 0),
    (.commitUpdate "uAAAAAAAAAAAAAAAAAAAAAA" "uAQInQD9m", sampleAmbient 2 9)]

/-- The bytes are stored as they were given, and what is read back is one byte short
and starts with another tag. -/
theorem leftover_bytes_lost :
    (accountMachine.after openedAccount leftoverRun).Reached ∧
    decodeBytesMultibase "u_gEJBQ" = .ok [0xfe, 1, 9, 5] ∧
    pairsAfter (accountMachine.after openedAccount leftoverRun).log.entries
      (⟨"/d", by decide⟩ : PathKey) = some (.data [0xfe, 1, 9, 5]) ∧
    (accountMachine.after openedAccount leftoverRun).getValue "/d" = .ok (.bin "u5wk") ∧
    decodeBytesMultibase "u5wk" = .ok [0xe7, 9] ∧
    ¬ (accountMachine.after openedAccount leftoverRun).ReadsBack "/d" [0xfe, 1, 9, 5] := by
  have read : (accountMachine.after openedAccount leftoverRun).getValue "/d" = .ok (.bin "u5wk") := by
    decide +kernel
  have shown : decodeBytesMultibase "u5wk" = .ok [0xe7, 9] := by decide +kernel
  refine ⟨openedAccount_opened.reached _, by decide +kernel, by decide +kernel, read, shown, ?_⟩
  rintro ⟨m, read', decoded⟩
  obtain rfl := PlogPathValue.bin.inj (Except.ok.inj (read.symm.trans read'))
  have short := Except.ok.inj (shown.symm.trans decoded)
  cases short

def leftoverMessage : String :=
  "uAQWHAADp4QR4MvmDAAEDAi9kBP4BCQUAAS8lY2hlY2tfc2lnbmF0dXJlKCIvcHVia2V5IiwgIi9lbnRyeS8iKQAB" ++
  "LyVwdXNoKCIvZW50cnkvIik7IHB1c2goIi9lbnRyeS9wcm9vZiIpAA"

theorem binary_value_reads_back_iff_leftover :
    (openedAccount.ReadsBack "/pubkey" [0xe7, 1, 2] ↔ Canonical [0xe7, 1, 2]) ∧
    ((accountMachine.after openedAccount leftoverRun).ReadsBack "/d" [0xfe, 1, 9, 5] ↔
      Canonical [0xfe, 1, 9, 5]) := by
  have read := binary_value_reads_back_iff keyLaws entryLaws opLaw appendLaws verifyLaws multibaseLaw
    multikeyPayloadLaw openedAccount (openedAccount_opened.reached [])
  constructor
  · exact read.1 "/pubkey" pubkeyPath _ rootKeyPath (by decide +kernel)
  · have commits : PreparedCommit openedAccount
        (.prepareUpdate (printJson leftoverTree), sampleAmbient 1 0) []
        (.commitUpdate delegationChallenge.challengeId "uAQInQD9m", sampleAmbient 2 9)
        (rawChallenge leftoverMessage) := by
      refine ⟨by decide +kernel, by decide, ⟨"uAQInQD9m", rfl⟩, ?_⟩
      exact ⟨({ vlad := "uhwAA6eE", headCid := "ubLLpGA", pubkey := some "u5wEC" }, .entry, none),
        by decide +kernel⟩
    exact read.2 (printJson leftoverTree) ⟨default, [.update "/d" (.data "u_gEJBQ")], none⟩ _ [] _ _
      (by decide +kernel) commits [] "/d" "u_gEJBQ" [] _ rfl (by simp) (by decide +kernel)

end

end LogosAccounts
