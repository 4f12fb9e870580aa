import LogosAccounts.Proof.VerifiedHead

/-! What one operation on an account can do. Every invariant of an account, and
of the cache, is derived from the outcomes listed here. -/

namespace LogosAccounts
open BetterSign hiding mk
open Functional
variable [BetterSign]

omit [BetterSign] in
/-- The errors of a commit past the lookup that leave the log where it was. -/
def Error.refusesCommit : Error → Bool
  | .headMismatch _ _ | .encoding _ | .transparent _ => true
  | _ => false

namespace PlogAccount

@[simp] theorem purge_log (account : PlogAccount) (now : Nat) :
    (account.purgeExpiredChallenges now).log = account.log := rfl

@[simp] theorem purge_lookup (account : PlogAccount) (now : Nat) (id : String) :
    (account.purgeExpiredChallenges now).pending.lookup id =
      (account.pending.lookup id).filter fun p => now - p.createdAt < challengeTtl := rfl

theorem purge_submap (account : PlogAccount) (now : Nat) :
    (account.purgeExpiredChallenges now).pending.Submap account.pending :=
  FiniteMap.retain_submap _ _

/-- A challenge survives the purge exactly when it is younger than 15 minutes. -/
theorem purge_lookup_some (account : PlogAccount) (now : Nat) (id : String) (p : PendingUpdate) :
    (account.purgeExpiredChallenges now).pending.lookup id = some p ↔
      account.pending.lookup id = some p ∧ now - p.createdAt < challengeTtl := by
  rw [purge_lookup, Option.filter_eq_some_iff, decide_eq_true_iff]

inductive PrepareOutcome (account : PlogAccount) (spec : Except Error PrepareEntrySpec)
    (ambient : Ambient) : Except Error UpdateChallenge × PlogAccount → Prop where
  | invalid (e : Error) (failed : spec = .error e) :
      PrepareOutcome account spec ambient (.error e, account)
  | refused (e : Error) (input : PrepareEntrySpec) (given : spec = .ok input)
      (failed : account.unsignedEntry input = .error e) :
      PrepareOutcome account spec ambient (.error e, account.purgeExpiredChallenges ambient.now)
  | issued (input : PrepareEntrySpec) (given : spec = .ok input) (unsigned : UnsignedUpdate)
      (built : account.unsignedEntry input = .ok unsigned) :
      PrepareOutcome account spec ambient
        (.ok (account.updateChallenge input unsigned ambient),
          { account with
            pending := (account.purgeExpiredChallenges ambient.now).pending.insert
              (newChallengeId ambient.challengeBytes)
              (account.pendingUpdate input unsigned ambient) })

theorem prepareWith_outcome (account : PlogAccount) (spec : Except Error PrepareEntrySpec)
    (ambient : Ambient) : PrepareOutcome account spec ambient (account.prepareWith spec ambient) := by
  cases spec with
  | error e => exact .invalid e rfl
  | ok input =>
    cases built : account.unsignedEntry input with
    | error e =>
      have computed : account.prepareWith (.ok input) ambient =
          (.error e, account.purgeExpiredChallenges ambient.now) := by
        have built' : (account.purgeExpiredChallenges ambient.now).unsignedEntry input =
            .error e := built
        simp [prepareWith, prepareEntry, built']
      rw [computed]
      exact .refused e input rfl built
    | ok unsigned =>
      have computed : account.prepareWith (.ok input) ambient =
          (.ok (account.updateChallenge input unsigned ambient),
            { account with
              pending := (account.purgeExpiredChallenges ambient.now).pending.insert
                (newChallengeId ambient.challengeBytes)
                (account.pendingUpdate input unsigned ambient) }) := by
        have built' : (account.purgeExpiredChallenges ambient.now).unsignedEntry input =
            .ok unsigned := built
        simp only [prepareWith, prepareEntry, built']
        rfl
      rw [computed]
      exact .issued input rfl unsigned built

/-- A successful prepare answers with the challenge it stores. -/
theorem prepareWith_issued (account : PlogAccount) {spec : Except Error PrepareEntrySpec}
    {ambient : Ambient} {challenge : UpdateChallenge}
    (success : (account.prepareWith spec ambient).1 = .ok challenge) :
    ∃ input unsigned, spec = .ok input ∧ account.unsignedEntry input = .ok unsigned ∧
      challenge = account.updateChallenge input unsigned ambient ∧
      (account.prepareWith spec ambient).2.log = account.log ∧
      (account.prepareWith spec ambient).2.pending.lookup challenge.challengeId =
        some (account.pendingUpdate input unsigned ambient) := by
  have outcome := account.prepareWith_outcome spec ambient
  generalize account.prepareWith spec ambient = result at outcome success ⊢
  cases outcome with
  | invalid e failed => cases success
  | refused e input given failed => cases success
  | issued input given unsigned built =>
    obtain rfl := Except.ok.inj success
    refine ⟨input, unsigned, given, built, rfl, rfl, ?_⟩
    simp [FiniteMap.lookup_insert, updateChallenge]

/-- The prepare answers with an error, and stores no challenge and leaves the log. -/
def Refuses (account : PlogAccount) (result : Except Error UpdateChallenge × PlogAccount) : Prop :=
  (∃ e, result.1 = .error e) ∧ result.2.pending.Submap account.pending ∧ result.2.log = account.log

theorem prepareWith_refuses (account : PlogAccount) {spec : Except Error PrepareEntrySpec}
    {ambient : Ambient} (failed : ∀ challenge, (account.prepareWith spec ambient).1 ≠ .ok challenge) :
    account.Refuses (account.prepareWith spec ambient) := by
  have outcome := account.prepareWith_outcome spec ambient
  generalize account.prepareWith spec ambient = result at outcome failed ⊢
  cases outcome with
  | invalid e failed => exact ⟨⟨e, rfl⟩, .refl _, rfl⟩
  | refused e input given failed => exact ⟨⟨e, rfl⟩, account.purge_submap ambient.now, rfl⟩
  | issued input given unsigned built => exact absurd rfl (failed _)

/-- The outcomes of a commit, when `try_append` is atomic. -/
inductive CommitOutcome (account : PlogAccount) (challengeId signatureMultibase : String)
    (ambient : Ambient) :
    Except Error (AccountSummary × UpdateKind × Option String) × PlogAccount → Prop where
  | unknown (missing : (account.purgeExpiredChallenges ambient.now).pending.lookup challengeId = none) :
      CommitOutcome account challengeId signatureMultibase ambient
        (.error (.challengeNotFound challengeId), account.purgeExpiredChallenges ambient.now)
  | refused (e : Error) (p : PendingUpdate)
      (found : (account.purgeExpiredChallenges ambient.now).pending.lookup challengeId = some p)
      (kind : e.refusesCommit = true)
      (moved : ∀ expected current, e = .headMismatch expected current →
        account.currentHeadCid ≠ p.headCid) :
      CommitOutcome account challengeId signatureMultibase ambient
        (.error e, { account with
          pending := (account.purgeExpiredChallenges ambient.now).pending.erase challengeId })
  | appended (p : PendingUpdate)
      (found : (account.purgeExpiredChallenges ambient.now).pending.lookup challengeId = some p)
      (sameHead : account.currentHeadCid = p.headCid)
      (signature : Multisig) (decoded : decodeMultisig signatureMultibase = .ok signature)
      (entry : Entry)
      (built : tryBuildWithProof p.unsigned.entry (multisigToBytes signature) = .ok entry)
      (verified : FullyVerified (account.log.push entry)) :
      CommitOutcome account challengeId signatureMultibase ambient
        ((summaryFromVerifiedPlog (account.log.push entry)).map fun summary =>
            (summary, p.kind, p.path),
          { log := account.log.push entry, pending := ∅ })

theorem commitUpdate_outcome (append : AppendLaws) (account : PlogAccount)
    (challengeId signatureMultibase : String) (ambient : Ambient) :
    CommitOutcome account challengeId signatureMultibase ambient
      (account.commitUpdate challengeId signatureMultibase ambient) := by
  unfold commitUpdate
  simp only
  cases found : (account.purgeExpiredChallenges ambient.now).pending.lookup challengeId with
  | none => exact .unknown found
  | some p =>
    simp only
    split
    · rename_i moved
      exact .refused _ p found rfl fun _ _ _ => moved
    · rename_i sameHead
      cases decoded : decodeMultisig signatureMultibase with
      | error e =>
        obtain ⟨text, rfl⟩ : ∃ text, e = .encoding text := by
          unfold decodeMultisig at decoded
          cases result : multisigFromEncoded signatureMultibase with
          | error text => exact ⟨text, by simpa [result] using decoded.symm⟩
          | ok signature => simp [result] at decoded
        exact .refused _ p found rfl (by simp)
      | ok signature =>
        simp only [commitWithMultisig]
        cases built : tryBuildWithProof p.unsigned.entry (multisigToBytes signature) with
        | error text => exact .refused _ p found rfl (by simp)
        | ok entry =>
          simp only
          cases appended : logTryAppend account.log entry with
          | mk result log' =>
            cases result with
            | error text =>
              obtain rfl := append.atomic _ _ _ _ appended
              simp only [purge_log, appended]
              exact .refused _ p found rfl (by simp)
            | ok done =>
              have verified := append.verified _ _ _ appended
              obtain rfl := append.adds _ _ _ appended
              have outcome : CommitOutcome account challengeId signatureMultibase ambient _ :=
                .appended p found (not_not.mp sameHead) signature decoded entry built verified
              simp only [purge_log, appended]
              cases summarised : summaryFromVerifiedPlog (account.log.push entry) with
              | error e => simpa [summarised, Except.map] using outcome
              | ok summary => simpa [summarised, Except.map] using outcome

/-- When `/pubkey` parses, nothing fails after the log has moved. -/
theorem CommitOutcome.summary_ok (root : RootKeyParses) {entry : Entry} {log : Log}
    (verified : FullyVerified (log.push entry)) :
    ∃ summary, summaryFromVerifiedPlog (log.push entry) = .ok summary ∧
      summary.vlad = encodeVlad log.vlad ∧ summary.headCid = encodeCid (entryCid entry) := by
  obtain ⟨key, parses⟩ := root
  obtain ⟨last, kvp, head⟩ := verified.head
  exact ⟨_, head.summary parses, rfl, rfl⟩

/-- A successful commit appends the signed entry of the challenge it found, and
answers with the summary of the log after it. -/
theorem commitUpdate_ok (append : AppendLaws) (account : PlogAccount) {id signature : String}
    {ambient : Ambient} {result : AccountSummary × UpdateKind × Option String}
    (success : (account.commitUpdate id signature ambient).1 = .ok result) :
    ∃ p proof entry, account.pending.lookup id = some p ∧
      tryBuildWithProof p.unsigned.entry proof = .ok entry ∧
      FullyVerified (account.log.push entry) ∧
      (account.commitUpdate id signature ambient).2 =
        { log := account.log.push entry, pending := ∅ } ∧
      summaryFromVerifiedPlog (account.log.push entry) = .ok result.1 ∧ result.2 = (p.kind, p.path) := by
  have outcome := account.commitUpdate_outcome append id signature ambient
  generalize account.commitUpdate id signature ambient = commit at outcome success ⊢
  cases outcome with
  | unknown missing => cases success
  | refused e p found kind moved => cases success
  | appended p found sameHead decodedSignature decoded entry built verified =>
    have stored := ((account.purge_lookup_some ambient.now id p).mp found).1
    refine ⟨p, _, entry, stored, built, verified, rfl, ?_⟩
    cases summarised : summaryFromVerifiedPlog (account.log.push entry) with
    | error e =>
      rw [summarised] at success
      cases success
    | ok summary =>
      rw [summarised] at success
      obtain rfl := Except.ok.inj success
      exact ⟨rfl, rfl⟩

inductive CancelOutcome (account : PlogAccount) (challengeId : String) (ambient : Ambient) :
    Except Error Unit × PlogAccount → Prop where
  | unknown (missing : (account.purgeExpiredChallenges ambient.now).pending.lookup challengeId = none) :
      CancelOutcome account challengeId ambient
        (.error (.challengeNotFound challengeId), account.purgeExpiredChallenges ambient.now)
  | dropped (p : PendingUpdate)
      (found : (account.purgeExpiredChallenges ambient.now).pending.lookup challengeId = some p) :
      CancelOutcome account challengeId ambient
        (.ok (), { account with
          pending := (account.purgeExpiredChallenges ambient.now).pending.erase challengeId })

theorem cancelUpdate_outcome (account : PlogAccount) (challengeId : String) (ambient : Ambient) :
    CancelOutcome account challengeId ambient (account.cancelUpdate challengeId ambient) := by
  unfold cancelUpdate
  simp only
  cases found : (account.purgeExpiredChallenges ambient.now).pending.lookup challengeId with
  | none => exact .unknown found
  | some p => exact .dropped p found

/-- The ways an operation can change an account: it drops challenges, stores a
new one under the id it drew, next to some of the old ones, or appends one entry
and drops them all. -/
inductive Change (account : PlogAccount) (ambient : Ambient) (drawn : Option String) :
    PlogAccount → Prop where
  | dropped (pending : FiniteMap String PendingUpdate) (part : pending.Submap account.pending) :
      Change account ambient drawn { account with pending }
  | issued (pending : FiniteMap String PendingUpdate) (part : pending.Submap account.pending)
      (id : String) (fresh : drawn = some id) (input : PrepareEntrySpec) (unsigned : UnsignedUpdate)
      (built : account.unsignedEntry input = .ok unsigned) :
      Change account ambient drawn { account with
        pending := pending.insert id (account.pendingUpdate input unsigned ambient) }
  | appended (entry : Entry) (verified : FullyVerified (account.log.push entry)) :
      Change account ambient drawn { log := account.log.push entry, pending := ∅ }

end PlogAccount

def AccountOp.drawn (op : AccountOp) (ambient : Ambient) : Option String :=
  match op with
  | .prepareUpdate _ | .prepareDelegate _ _ | .prepareRevoke _ =>
    some (newChallengeId ambient.challengeBytes)
  | .commitUpdate _ _ | .cancelUpdate _ => none

/-- The challenge ids drawn in a run. -/
def drawnIds (run : List (AccountOp × Ambient)) : List String :=
  run.filterMap fun action => action.1.drawn action.2

def AccountOp.spec (account : PlogAccount) : AccountOp → Option (Except Error PrepareEntrySpec)
  | .prepareUpdate requestJson => some (PlogAccount.updateSpec requestJson)
  | .prepareDelegate path pubkeyMultibase => some (account.delegateSpec path pubkeyMultibase)
  | .prepareRevoke path => some (account.revokeSpec path)
  | .commitUpdate _ _ | .cancelUpdate _ => none

theorem AccountOp.spec_drawn {op : AccountOp} {account : PlogAccount}
    {spec : Except Error PrepareEntrySpec} (asked : op.spec account = some spec) (ambient : Ambient) :
    op.drawn ambient = some (newChallengeId ambient.challengeBytes) := by
  cases op <;> cases asked <;> rfl

namespace PlogAccount

theorem perform_prepared {account : PlogAccount} {op : AccountOp}
    {spec : Except Error PrepareEntrySpec} (asked : op.spec account = some spec) (ambient : Ambient) :
    account.perform op ambient =
      ((account.prepareWith spec ambient).2, .challenge (account.prepareWith spec ambient).1) := by
  cases op <;> cases asked <;> rfl

theorem perform_challenge {account : PlogAccount} {op : AccountOp} {ambient : Ambient}
    {result : Except Error UpdateChallenge}
    (answered : (account.perform op ambient).2 = .challenge result) :
    ∃ spec, op.spec account = some spec := by
  cases op with
  | prepareUpdate requestJson => exact ⟨_, rfl⟩
  | prepareDelegate path pubkeyMultibase => exact ⟨_, rfl⟩
  | prepareRevoke path => exact ⟨_, rfl⟩
  | commitUpdate id signature => cases answered
  | cancelUpdate id => cases answered

inductive PerformOutcome (account : PlogAccount) (op : AccountOp) (ambient : Ambient) :
    PlogAccount × AccountReply → Prop where
  | prepared (spec : Except Error PrepareEntrySpec) (asked : op.spec account = some spec)
      (result : Except Error UpdateChallenge × PlogAccount)
      (outcome : PrepareOutcome account spec ambient result) :
      PerformOutcome account op ambient (result.2, .challenge result.1)
  | committed (id signature : String) (named : op = .commitUpdate id signature)
      (result : Except Error (AccountSummary × UpdateKind × Option String) × PlogAccount)
      (outcome : CommitOutcome account id signature ambient result) :
      PerformOutcome account op ambient (result.2, .committed result.1)
  | cancelled (id : String) (named : op = .cancelUpdate id)
      (result : Except Error Unit × PlogAccount) (outcome : CancelOutcome account id ambient result) :
      PerformOutcome account op ambient (result.2, .cancelled result.1)

theorem perform_outcome (append : AppendLaws) (account : PlogAccount) (op : AccountOp)
    (ambient : Ambient) : PerformOutcome account op ambient (account.perform op ambient) := by
  cases op with
  | prepareUpdate requestJson => exact .prepared _ rfl _ (account.prepareWith_outcome _ ambient)
  | prepareDelegate path pubkeyMultibase =>
    exact .prepared _ rfl _ (account.prepareWith_outcome _ ambient)
  | prepareRevoke path => exact .prepared _ rfl _ (account.prepareWith_outcome _ ambient)
  | commitUpdate id signature =>
    exact .committed id signature rfl _ (account.commitUpdate_outcome append id signature ambient)
  | cancelUpdate id => exact .cancelled id rfl _ (account.cancelUpdate_outcome id ambient)

/-- What an operation does to an account, and from what: it drops challenges without
issuing or committing one, stores the entry built from its own spec, or appends a
signed form of the entry stored under the id it commits. -/
inductive Effect (account : PlogAccount) (op : AccountOp) (ambient : Ambient) :
    PlogAccount × AccountReply → Prop where
  | dropped (pending : FiniteMap String PendingUpdate) (part : pending.Submap account.pending)
      (reply : AccountReply) (unissued : ∀ challenge, reply ≠ .challenge (.ok challenge))
      (uncommitted : ∀ committed, reply ≠ .committed (.ok committed)) :
      Effect account op ambient ({ account with pending }, reply)
  | issued (input : PrepareEntrySpec) (asked : op.spec account = some (.ok input))
      (unsigned : UnsignedUpdate) (built : account.unsignedEntry input = .ok unsigned) :
      Effect account op ambient
        ({ account with
            pending := (account.purgeExpiredChallenges ambient.now).pending.insert
              (newChallengeId ambient.challengeBytes)
              (account.pendingUpdate input unsigned ambient) },
          .challenge (.ok (account.updateChallenge input unsigned ambient)))
  | appended (id signature : String) (named : op = .commitUpdate id signature) (p : PendingUpdate)
      (stored : account.pending.lookup id = some p) (proof : Bytes) (entry : Entry)
      (signed : tryBuildWithProof p.unsigned.entry proof = .ok entry)
      (verified : FullyVerified (account.log.push entry)) :
      Effect account op ambient
        ({ log := account.log.push entry, pending := ∅ },
          .committed ((summaryFromVerifiedPlog (account.log.push entry)).map fun summary =>
            (summary, p.kind, p.path)))

theorem perform_effect (append : AppendLaws) (account : PlogAccount) (op : AccountOp)
    (ambient : Ambient) : Effect account op ambient (account.perform op ambient) := by
  have purged := account.purge_submap ambient.now
  have erased (id : String) := (FiniteMap.erase_submap _ id).trans purged
  have outcome := account.perform_outcome append op ambient
  generalize account.perform op ambient = result at outcome ⊢
  cases outcome with
  | prepared spec asked result prepared =>
    cases prepared with
    | invalid e failed => exact .dropped account.pending (.refl _) _ (by simp) (by simp)
    | refused e input given failed => exact .dropped _ purged _ (by simp) (by simp)
    | issued input given unsigned built => exact .issued input (given ▸ asked) unsigned built
  | committed id signature named result commit =>
    cases commit with
    | unknown missing => exact .dropped _ purged _ (by simp) (by simp)
    | refused e p found kind moved => exact .dropped _ (erased id) _ (by simp) (by simp)
    | appended p found sameHead decodedSignature decoded entry signed verified =>
      have stored := ((account.purge_lookup_some ambient.now id p).mp found).1
      exact .appended id signature named p stored _ entry signed verified
  | cancelled id named result cancel =>
    cases cancel with
    | unknown missing => exact .dropped _ purged _ (by simp) (by simp)
    | dropped p found => exact .dropped _ (erased id) _ (by simp) (by simp)

theorem perform_change (append : AppendLaws) (account : PlogAccount) (op : AccountOp)
    (ambient : Ambient) :
    account.Change ambient (op.drawn ambient) (account.perform op ambient).1 := by
  have effect := account.perform_effect append op ambient
  generalize account.perform op ambient = result at effect ⊢
  cases effect with
  | dropped pending part reply unissued uncommitted => exact .dropped pending part
  | issued input asked unsigned built =>
    exact .issued _ (account.purge_submap ambient.now) _ (AccountOp.spec_drawn asked ambient) input
      unsigned built
  | appended id signature named p stored proof entry signed verified => exact .appended entry verified

end PlogAccount

end LogosAccounts
