import LogosAccounts.Proof.ChallengeLife
import LogosAccounts.Proof.Delegations

/-! The sugar and the raw form. `prepare_delegate` and `prepare_revoke` build the
entry that `prepare_update` builds from the spelled-out request. -/

namespace LogosAccounts
open BetterSign hiding mk
open Functional

section
variable [BetterSign]

/-- The unsigned entry depends on a spec only through its lock scripts and ops. -/
theorem unsignedEntry_congr (account : PlogAccount) {spec spec' : PrepareEntrySpec}
    (locks : ∀ head, lockSpecToScripts head spec.locks = lockSpecToScripts head spec'.locks)
    (ops : spec.ops.mapM opFromParams = spec'.ops.mapM opFromParams) :
    account.unsignedEntry spec = account.unsignedEntry spec' := by
  unfold PlogAccount.unsignedEntry prepareNextEntry nextEntryAfter
  simp only [locks, ops, mutableEntry]

theorem commitUpdate_log (account : PlogAccount) {id signature : String} {ambient : Ambient}
    {p : PendingUpdate} (stored : account.pending.lookup id = some p)
    (young : ambient.now - p.createdAt < challengeTtl)
    (sameHead : p.headCid = account.currentHeadCid) :
    (account.commitUpdate id signature ambient).2.log =
      match decodeMultisig signature with
      | .error _ => account.log
      | .ok multisig => (commitWithMultisig account.log p.unsigned.entry multisig).2 := by
  have found := (account.purge_lookup_some ambient.now id p).mpr ⟨stored, young⟩
  have currentHead : (account.purgeExpiredChallenges ambient.now).currentHeadCid = p.headCid :=
    sameHead.symm
  unfold PlogAccount.commitUpdate
  simp only [found]
  split
  · rename_i moved
    exact absurd currentHead moved
  · cases decodeMultisig signature with
    | error e => rfl
    | ok multisig =>
      simp only [PlogAccount.purge_log]
      cases commitWithMultisig account.log p.unsigned.entry multisig with
      | mk result log =>
        cases result with
        | error e => rfl
        | ok entry =>
          simp only
          cases summaryFromVerifiedPlog log <;> rfl

/-- Two prepares on one account that agree: both fail and leave the log, or both
issue a challenge for the same message, and live commits of the two with one
signature leave the same log. -/
inductive SameEntry (account : PlogAccount) :
    Except Error UpdateChallenge × PlogAccount → Except Error UpdateChallenge × PlogAccount → Prop where
  | failed (e e' : Error) (left right : PlogAccount) (leftLog : left.log = account.log)
      (rightLog : right.log = account.log) : SameEntry account (.error e, left) (.error e', right)
  | issued (challenge challenge' : UpdateChallenge) (left right : PlogAccount)
      (vlad : challenge.vlad = challenge'.vlad) (headCid : challenge.headCid = challenge'.headCid)
      (message : challenge.messageMultibase = challenge'.messageMultibase)
      (encoding : challenge.messageEncoding = challenge'.messageEncoding)
      (commits : ∀ signature ambient ambient', left.Live challenge.challengeId ambient.now →
        right.Live challenge'.challengeId ambient'.now →
          (left.commitUpdate challenge.challengeId signature ambient).2.log =
            (right.commitUpdate challenge'.challengeId signature ambient').2.log) :
      SameEntry account (.ok challenge, left) (.ok challenge', right)

private theorem issued_commit (account : PlogAccount) (spec : PrepareEntrySpec)
    (unsigned : UnsignedUpdate) (ambient later : Ambient) (signature : String)
    (pending : FiniteMap String PendingUpdate) {issued : PlogAccount}
    (stored : issued = { account with
      pending := pending.insert (newChallengeId ambient.challengeBytes)
        (account.pendingUpdate spec unsigned ambient) })
    (live : issued.Live (newChallengeId ambient.challengeBytes) later.now) :
    (issued.commitUpdate (newChallengeId ambient.challengeBytes) signature later).2.log =
      match decodeMultisig signature with
      | .error _ => account.log
      | .ok multisig => (commitWithMultisig account.log unsigned.entry multisig).2 := by
  have present : issued.pending.lookup (newChallengeId ambient.challengeBytes) =
      some (account.pendingUpdate spec unsigned ambient) := by
    rw [stored]
    simp [FiniteMap.lookup_insert]
  obtain ⟨p, found, young⟩ := live
  obtain rfl := Option.some.inj (present.symm.trans found)
  have sameHead : (account.pendingUpdate spec unsigned ambient).headCid = issued.currentHeadCid := by
    rw [stored]
    rfl
  rw [commitUpdate_log issued present young sameHead, stored]
  rfl

/-- Prepares of two specs that build one entry agree, whatever each draws. -/
theorem prepareWith_sameEntry (account : PlogAccount) {spec spec' : Except Error PrepareEntrySpec}
    (sameSpec : (∃ e e', spec = .error e ∧ spec' = .error e') ∨
      ∃ input input', spec = .ok input ∧ spec' = .ok input' ∧
        account.unsignedEntry input = account.unsignedEntry input') (ambient ambient' : Ambient) :
    SameEntry account (account.prepareWith spec ambient) (account.prepareWith spec' ambient') := by
  rcases sameSpec with ⟨e, e', rfl, rfl⟩ | ⟨input, input', rfl, rfl, same⟩
  · exact .failed e e' account account rfl rfl
  · have outcome := account.prepareWith_outcome (.ok input) ambient
    have outcome' := account.prepareWith_outcome (.ok input') ambient'
    generalize account.prepareWith (.ok input) ambient = result at outcome ⊢
    generalize account.prepareWith (.ok input') ambient' = result' at outcome' ⊢
    cases outcome with
    | invalid e rejected => cases rejected
    | refused e found given rejected =>
      cases given
      rw [same] at rejected
      cases outcome' with
      | invalid e' rejected' => cases rejected'
      | refused e' found' given' rejected' => exact .failed e e' _ _ rfl rfl
      | issued found' given' unsigned' built' =>
        cases given'
        rw [rejected] at built'
        cases built'
    | issued found given unsigned built =>
      cases given
      rw [same] at built
      cases outcome' with
      | invalid e' rejected' => cases rejected'
      | refused e' found' given' rejected' =>
        cases given'
        rw [built] at rejected'
        cases rejected'
      | issued found' given' unsigned' built' =>
        cases given'
        obtain rfl := Except.ok.inj (built.symm.trans built')
        refine .issued _ _ _ _ rfl rfl rfl rfl ?_
        intro signature later later' live live'
        have left := issued_commit account input unsigned ambient later signature _ rfl live
        have right := issued_commit account input' unsigned ambient' later' signature _ rfl live'
        exact left.trans right.symm

def rawDelegate (path code pubkeyData : String) : EntryUpdateRequest where
  locks := .upsert ⟨path, code⟩
  ops := [.update (path ++ "pubkey") (.data pubkeyData)]
  signAs := none

def rawRevoke (path : String) : EntryUpdateRequest where
  locks := .remove path
  ops := [.delete (path ++ "pubkey")]
  signAs := none

omit [BetterSign] in
/-- `{locks: {upsert: {path, code}}, ops: [{op: update, key: {path}pubkey, value: {data}}]}`. -/
def rawDelegateJson (path code pubkeyData : String) : Json :=
  .obj [
    ("locks", .obj [("upsert", .obj [("path", .str path), ("code", .str code)])]),
    ("ops", .arr [.obj [("op", .str "update"), ("key", .str (path ++ "pubkey")),
      ("value", .obj [("data", .str pubkeyData)])]])]

omit [BetterSign] in
/-- `{locks: {remove: path}, ops: [{op: delete, key: {path}pubkey}]}`. -/
def rawRevokeJson (path : String) : Json :=
  .obj [
    ("locks", .obj [("remove", .str path)]),
    ("ops", .arr [.obj [("op", .str "delete"), ("key", .str (path ++ "pubkey"))]])]

theorem parse_rawDelegate {requestJson path code pubkeyData : String}
    (text : jsonFromStr requestJson = .ok (rawDelegateJson path code pubkeyData)) :
    parseEntryUpdateRequest requestJson = .ok (rawDelegate path code pubkeyData) := by
  unfold parseEntryUpdateRequest
  rw [text]
  rfl

theorem parse_rawRevoke {requestJson path : String}
    (text : jsonFromStr requestJson = .ok (rawRevokeJson path)) :
    parseEntryUpdateRequest requestJson = .ok (rawRevoke path) := by
  unfold parseEntryUpdateRequest
  rw [text]
  rfl

section
variable {account : PlogAccount} {entry : Entry} {pairs : Kvp} {path : String} {branch : Key}

theorem updateSpec_single (keys : KeyLaws) {requestJson : String} {locks : LockSpec} {op : PlogOp}
    (parsed : parseEntryUpdateRequest requestJson = .ok { locks, ops := [op], signAs := none }) :
    PlogAccount.updateSpec requestJson =
      (op.intoOpParams >>= fun params => .ok {
        locks
        ops := [params]
        signAs := keyToString pubkeyKeyPath
        kind := .entry
        path := none }) := by
  have signer : parseKey (keyToString pubkeyKeyPath) = .ok pubkeyKeyPath :=
    parseKey_ok.mpr (keys.reparse _)
  unfold PlogAccount.updateSpec
  rw [parsed]
  simp only [except_ok_bind, Option.getD_none, signer, plogOpsToParams, List.mapM_cons, List.mapM_nil]
  cases op.intoOpParams <;> rfl

/-- Reading the delegate key out of the path the peer gave and out of the parsed
branch fail together. -/
private theorem pubkey_parse (keys : KeyLaws) (accepted : parseBranchPath path = .ok branch) :
    (∃ pkKey, delegatePubkeyKey branch = .ok pkKey ∧ parseKey (path ++ "pubkey") = .ok pkKey) ∨
      ∃ e e', delegatePubkeyKey branch = .error e ∧ parseKey (path ++ "pubkey") = .error e' := by
  obtain ⟨parsed, isBranch, _⟩ := parseBranchPath_ok.mp accepted
  have text := keys.keeps path branch parsed
  unfold delegatePubkeyKey parseKey
  rw [isBranch, text]
  cases keyTryFrom (path ++ "pubkey") with
  | error e => exact .inr ⟨_, _, rfl, rfl⟩
  | ok pkKey => exact .inl ⟨pkKey, rfl, rfl⟩

theorem delegate_sameSpec (head : VerifiedHead account.log entry pairs) (keys : KeyLaws)
    (multibase : MultibaseLaw) (multikeys : MultikeyLaws)
    (accepted : parseBranchPath path = .ok branch) (multikey : Multikey) (base : Base)
    {requestJson : String}
    (parsed : parseEntryUpdateRequest requestJson = .ok (rawDelegate path (delegatedLockCode branch)
      (multibaseEncode base (multikeyToBytes multikey)))) :
    (∃ e e', account.delegateSpec path (encodeMultikey multikey) = .error e ∧
        PlogAccount.updateSpec requestJson = .error e') ∨
      ∃ input input', account.delegateSpec path (encodeMultikey multikey) = .ok input ∧
        PlogAccount.updateSpec requestJson = .ok input' ∧
        account.unsignedEntry input = account.unsignedEntry input' := by
  obtain ⟨signAs, sugar⟩ := head.delegateSpec keys accepted (encodeMultikey multikey)
  have raw := updateSpec_single keys parsed
  have decoded : decodeMultikey (encodeMultikey multikey) = .ok multikey := by
    rw [decodeMultikey, encodeMultikey, multikeys.encoded]
    rfl
  have bytes : decodeBytesMultibase (multibaseEncode base (multikeyToBytes multikey)) =
      .ok (multikeyToBytes multikey) := by
    rw [decodeBytesMultibase, multibase]
    rfl
  rw [sugar, raw, decoded]
  simp only [except_ok_bind, PlogOp.intoOpParams, bytes]
  rcases pubkey_parse keys accepted with ⟨pkKey, fromBranch, fromPath⟩ | ⟨e, e', failed, failed'⟩
  · rw [fromBranch, fromPath]
    refine .inr ⟨_, _, rfl, rfl, unsignedEntry_congr account ?_ rfl⟩
    intro last
    have own : parseKey (keyToString branch) = .ok branch := parseKey_ok.mpr (keys.reparse branch)
    have given : parseKey path = .ok branch := parseKey_ok.mpr (parseBranchPath_ok.mp accepted).1
    simp only [lockSpecToScripts, lockScriptFromJson, own, given]
  · rw [failed, failed']
    exact .inl ⟨e, e', rfl, rfl⟩

theorem revoke_sameSpec (head : VerifiedHead account.log entry pairs) (keys : KeyLaws)
    (accepted : parseBranchPath path = .ok branch) {requestJson : String}
    (parsed : parseEntryUpdateRequest requestJson = .ok (rawRevoke path)) :
    (∃ e e', account.revokeSpec path = .error e ∧ PlogAccount.updateSpec requestJson = .error e') ∨
      ∃ input input', account.revokeSpec path = .ok input ∧
        PlogAccount.updateSpec requestJson = .ok input' ∧
        account.unsignedEntry input = account.unsignedEntry input' := by
  obtain ⟨signAs, sugar⟩ := head.revokeSpec keys accepted
  have raw := updateSpec_single keys parsed
  rw [sugar, raw]
  simp only [PlogOp.intoOpParams]
  rcases pubkey_parse keys accepted with ⟨pkKey, fromBranch, fromPath⟩ | ⟨e, e', failed, failed'⟩
  · rw [fromBranch, fromPath]
    refine .inr ⟨_, _, rfl, rfl, unsignedEntry_congr account ?_ rfl⟩
    intro last
    have own : parseKey (keyToString branch) = .ok branch := parseKey_ok.mpr (keys.reparse branch)
    have given : parseKey path = .ok branch := parseKey_ok.mpr (parseBranchPath_ok.mp accepted).1
    simp only [lockSpecToScripts, own, given]
  · rw [failed, failed']
    exact .inl ⟨e, e', rfl, rfl⟩

end

/-- On a verified log and for every accepted path, `prepare_delegate` and
`prepare_revoke` agree with `prepare_update` on every text that reads as the
request they stand for; the plain JSON form is such a text. -/
theorem sugar_builds_raw_entry (keys : KeyLaws) (multibase : MultibaseLaw)
    (multikeys : MultikeyLaws) (account : PlogAccount) (verified : FullyVerified account.log)
    (path : String) (branch : Key) (accepted : parseBranchPath path = .ok branch)
    (ambient ambient' : Ambient) :
    (∀ multikey base requestJson,
      parseEntryUpdateRequest requestJson = .ok (rawDelegate path (delegatedLockCode branch)
        (multibaseEncode base (multikeyToBytes multikey))) →
      SameEntry account (account.prepareDelegate path (encodeMultikey multikey) ambient)
        (account.prepareUpdate requestJson ambient')) ∧
    (∀ requestJson, parseEntryUpdateRequest requestJson = .ok (rawRevoke path) →
      SameEntry account (account.prepareRevoke path ambient)
        (account.prepareUpdate requestJson ambient')) ∧
    (∀ code pubkeyData requestJson,
      jsonFromStr requestJson = .ok (rawDelegateJson path code pubkeyData) →
      parseEntryUpdateRequest requestJson = .ok (rawDelegate path code pubkeyData)) ∧
    (∀ requestJson, jsonFromStr requestJson = .ok (rawRevokeJson path) →
      parseEntryUpdateRequest requestJson = .ok (rawRevoke path)) := by
  obtain ⟨entry, pairs, head⟩ := verified.head
  refine ⟨?_, ?_, fun _ _ _ => parse_rawDelegate, fun _ => parse_rawRevoke⟩
  · intro multikey base requestJson parsed
    exact prepareWith_sameEntry account
      (delegate_sameSpec head keys multibase multikeys accepted multikey base parsed) ambient ambient'
  · intro requestJson parsed
    exact prepareWith_sameEntry account (revoke_sameSpec head keys accepted parsed) ambient ambient'

end

section
open Reference

theorem sugar_builds_raw_entry_delegation :
    SameEntry openedAccount
      (openedAccount.prepareDelegate "/a/" (encodeMultikey (⟨.secp256K1Pub, [9, 9]⟩ : PeerKey))
        (sampleAmbient 1 0))
      (openedAccount.prepareUpdate requestText (sampleAmbient 2 1)) := by
  have verified : FullyVerified openedAccount.log :=
    ensurePlogVerified_iff.mp (by decide +kernel)
  have branch : parseBranchPath "/a/" = .ok (⟨"/a/", by decide⟩ : PathKey) := by decide +kernel
  exact (sugar_builds_raw_entry keyLaws multibaseLaw multikeyLaws openedAccount verified "/a/" _
    branch (sampleAmbient 1 0) (sampleAmbient 2 1)).1 (⟨.secp256K1Pub, [9, 9]⟩ : PeerKey)
    TextBase.base64Url requestText (by decide +kernel)

end

end LogosAccounts
