import LogosAccounts.Proof.CommitLedger
import LogosAccounts.Proof.GrantEntry

/-! Delegations over whole runs. The listing is what a peer gets by noting, from
its calls and their replies alone, which challenges were committed and applying
their edits in order. -/

namespace LogosAccounts
open BetterSign hiding mk
open Functional

section
variable [BetterSign]

/-- The edit a prepare asks for, if it is a delegation or a revocation. -/
def AccountOp.edit : AccountOp → Option GrantEdit
  | .prepareDelegate path pubkeyMultibase =>
    match decodeMultikey pubkeyMultibase with
    | .ok multikey => some (.grant path (encodeMultikey multikey))
    | .error _ => none
  | .prepareRevoke path => some (.withdraw path)
  | .prepareUpdate _ | .commitUpdate _ _ | .cancelUpdate _ => none

/-- Whatever account has this log lists what the edits make of `list`. -/
def ListsAfter (list : List PathDelegation) (log : Log) (edits : List GrantEdit) : Prop :=
  ∀ account : PlogAccount, account.log = log →
    account.listDelegations = .ok (GrantEdit.replay edits list)

theorem edit_meaning (keys : KeyLaws) (multikeys : MultikeyLaws) (entries : EntryLaws)
    (opLaw : OpLaw) (verify : VerifyLaws) (list : List PathDelegation) :
    CommitLedger.Meaning AccountOp.edit EditsListing (ListsAfter list) where
  prepared account op edit input unsigned verified asked given built := by
    cases op with
    | prepareDelegate path pubkeyMultibase =>
      unfold AccountOp.edit at asked
      cases decoded : decodeMultikey pubkeyMultibase with
      | error e => simp [decoded] at asked
      | ok multikey =>
        obtain rfl : GrantEdit.grant path (encodeMultikey multikey) = edit := by
          simpa [decoded] using asked
        exact delegate_edits keys multikeys entries opLaw verify verified decoded
          (Option.some.inj given) built
    | prepareRevoke path =>
      obtain rfl : GrantEdit.withdraw path = edit := Option.some.inj asked
      exact revoke_edits keys entries opLaw verify verified (Option.some.inj given) built
    | prepareUpdate requestJson => cases asked
    | commitUpdate id signature => cases asked
    | cancelUpdate id => cases asked
  appended log edit unsigned entry edits _ means same verified lists account sameLog := by
    rw [GrantEdit.replay_snoc]
    have before : PlogAccount.listDelegations { log, pending := ∅ } = .ok (GrantEdit.replay edits list) :=
      lists _ rfl
    exact (means entry same verified _ account rfl sameLog _ before).1

theorem commit_edits {account : PlogAccount} {ledger : CommitLedger GrantEdit}
    {holds : Log → List GrantEdit → Prop}
    (agrees : CommitLedger.Agrees EditsListing holds account ledger) (entries : EntryLaws)
    (append : AppendLaws) {id signature : String} {ambient : Ambient} {edit : GrantEdit}
    (noted : ledger.issued id = some edit) {result : AccountSummary × UpdateKind × Option String}
    (success : (account.commitUpdate id signature ambient).1 = .ok result) :
    ∃ before, account.listDelegations = .ok before ∧
      (account.commitUpdate id signature ambient).2.listDelegations = .ok (edit.apply before) ∧
      ∀ path, edit = .withdraw path →
        (account.commitUpdate id signature ambient).2.getValue (path ++ "pubkey") =
          .error (.pathNotFound (path ++ "pubkey")) := by
  obtain ⟨p, proof, entry, stored, signed, verified, after, _⟩ := account.commitUpdate_ok append success
  obtain ⟨last, pairs, head⟩ := agrees.verified.head
  have edits := agrees.pending id p edit stored noted
  refine ⟨_, head.listDelegations, ?_⟩
  exact edits entry (entries.proofOnly _ _ _ signed) verified account _ rfl (by rw [after]) _
    head.listDelegations

/-- From an account just created or imported, a committed delegation or revocation
edits the listing at its path and nowhere else, and while only these are
committed the listing is the map they build, whatever else fails, expires or is
cancelled in between. -/
theorem list_delegations_refines_map (keys : KeyLaws) (multikeys : MultikeyLaws)
    (entries : EntryLaws) (opLaw : OpLaw) (append : AppendLaws) (verify : VerifyLaws)
    (root : RootKeyParses) {log : Log} {start : PlogAccount} {summary : AccountSummary}
    (opened : PlogAccount.ofLog log = .ok (start, summary)) (run : List (AccountOp × Ambient)) :
    (∀ before between prepare challenge edit signature ambient result,
      run = before ++ prepare :: between →
      prepare.1.edit = some edit →
      accountMachine.reply (accountMachine.after start before) prepare = .challenge (.ok challenge) →
      challenge.challengeId ∉ drawnIds between →
      accountMachine.reply (accountMachine.after start run)
        (.commitUpdate challenge.challengeId signature, ambient) = .committed (.ok result) →
      ∃ list, (accountMachine.after start run).listDelegations = .ok list ∧
        ∀ account, account = accountMachine.after start
            (run ++ [(.commitUpdate challenge.challengeId signature, ambient)]) →
          account.listDelegations = .ok (edit.apply list) ∧
          ∀ path, edit = .withdraw path →
            account.getValue (path ++ "pubkey") = .error (.pathNotFound (path ++ "pubkey"))) ∧
    (∀ edits, (CommitLedger.ofRun AccountOp.edit start run).committed = edits.map some →
      ∃ list, start.listDelegations = .ok list ∧
        (accountMachine.after start run).listDelegations = .ok (GrantEdit.replay edits list) ∧
        ∀ map, Lists map list → Lists (GrantEdit.replayMap edits map) (GrantEdit.replay edits list)) := by
  obtain ⟨found, summarised, opened⟩ := except_bind_ok.mp opened
  obtain ⟨rfl, rfl⟩ := Prod.mk.inj (Except.ok.inj opened)
  have verified := (summary_verified summarised).1
  obtain ⟨last, pairs, head⟩ := verified.head
  have initial : ListsAfter (delegationsOf last pairs) log [] := by
    rintro account rfl
    exact head.listDelegations
  have agrees : CommitLedger.Agrees EditsListing (ListsAfter (delegationsOf last pairs))
      (accountMachine.after { log, pending := ∅ } run)
      (CommitLedger.ofRun AccountOp.edit { log, pending := ∅ } run) :=
    CommitLedger.ofRun_agrees (edit_meaning keys multikeys entries opLaw verify _) entries append root
      verified initial run
  constructor
  · rintro before between prepare challenge edit signature ambient result rfl asked prepared later committed
    have noted := CommitLedger.ofRun_issued AccountOp.edit _ before between prepare challenge prepared later
    obtain ⟨list, listed, after, gone⟩ := commit_edits agrees entries append (noted.trans asked)
      (AccountReply.committed.inj committed)
    refine ⟨list, listed, ?_⟩
    rintro account rfl
    rw [Machine.after_snoc]
    exact ⟨after, gone⟩
  · intro edits committed
    exact ⟨_, initial _ rfl, agrees.log edits committed _ rfl, fun map lists => lists.replay edits⟩

end

section
open Reference

def delegationOps : List (AccountOp × Ambient) :=
  [(.prepareDelegate "/a/" "u5wkJ", sampleAmbient 1 0),
    (.commitUpdate delegationChallenge.challengeId "uAQL8CM0U", sampleAmbient 2 9)]

theorem list_delegations_refines_map_delegation :
    (∃ list, (accountMachine.after openedAccount (delegationOps.take 1)).listDelegations = .ok list ∧
      ∀ account, account = accountMachine.after openedAccount (delegationOps.take 1 ++
          [(.commitUpdate delegationChallenge.challengeId "uAQL8CM0U", sampleAmbient 2 9)]) →
        account.listDelegations = .ok ((GrantEdit.grant "/a/" "u5wkJ").apply list) ∧
        ∀ path, GrantEdit.grant "/a/" "u5wkJ" = .withdraw path →
          account.getValue (path ++ "pubkey") = .error (.pathNotFound (path ++ "pubkey"))) ∧
    ∃ list, openedAccount.listDelegations = .ok list ∧ Lists ∅ list ∧
      (accountMachine.after openedAccount delegationOps).listDelegations =
        .ok (GrantEdit.replay [.grant "/a/" "u5wkJ"] list) ∧
      Lists (GrantEdit.replayMap [.grant "/a/" "u5wkJ"] ∅)
        (GrantEdit.replay [.grant "/a/" "u5wkJ"] list) := by
  have opened : PlogAccount.ofLog (openedLog rootKey [7]) = .ok (openedAccount,
      { vlad := "uhwAA6eE", headCid := "ueDL5gw", pubkey := some "u5wEC" }) := by
    have summarised : summaryFromVerifiedPlog (openedLog rootKey [7]) =
        .ok { vlad := "uhwAA6eE", headCid := "ueDL5gw", pubkey := some "u5wEC" } := by decide +kernel
    unfold PlogAccount.ofLog
    rw [summarised]
    rfl
  constructor
  · exact (list_delegations_refines_map keyLaws multikeyLaws entryLaws opLaw appendLaws verifyLaws
      rootKeyParses opened (delegationOps.take 1)).1 [] []
      (.prepareDelegate "/a/" "u5wkJ", sampleAmbient 1 0) delegationChallenge
      (.grant "/a/" "u5wkJ") "uAQL8CM0U" (sampleAmbient 2 9)
      ({ vlad := "uhwAA6eE", headCid := "uoH0bJg", pubkey := some "u5wEC" }, .delegate, some "/a/")
      rfl (by decide +kernel) (by decide +kernel) (by decide) (by decide +kernel)
  · obtain ⟨list, initial, after, maps⟩ := (list_delegations_refines_map keyLaws multikeyLaws
      entryLaws opLaw appendLaws verifyLaws rootKeyParses opened delegationOps).2
      [.grant "/a/" "u5wkJ"] (by decide +kernel)
    have none : openedAccount.listDelegations = .ok [] := by decide +kernel
    obtain rfl := Except.ok.inj (initial.symm.trans none)
    exact ⟨[], initial, Lists.empty, after, maps ∅ Lists.empty⟩

end

end LogosAccounts
