import LogosAccounts.Proof.Journal

/-! The journal of a run is enough to do it again. On any account that holds the log
the run started from, preparing and committing the journalled operations one after
the other, each with the signature it was committed with, goes through and ends in
the same log. -/

namespace LogosAccounts
open BetterSign hiding mk
open Functional

section
variable [BetterSign]

/-- A journalled operation done again: prepared at one moment and committed at another,
under whatever challenge id is drawn. -/
structure Replayed where
  op : AccountOp
  signature : String
  preparing : Ambient
  committing : Ambient

namespace Replayed

def request (replayed : Replayed) : AccountOp × String := (replayed.op, replayed.signature)

def commit (replayed : Replayed) : AccountOp :=
  .commitUpdate (newChallengeId replayed.preparing.challengeBytes) replayed.signature

def actions (replayed : Replayed) : List (AccountOp × Ambient) :=
  [(replayed.op, replayed.preparing), (replayed.commit, replayed.committing)]

/-- The commit comes before the challenge expires. -/
def InTime (replayed : Replayed) : Prop :=
  replayed.committing.now - replayed.preparing.issuedAt < challengeTtl

end Replayed

theorem PlogAccount.perform_issues {account : PlogAccount} {op : AccountOp}
    {input : PrepareEntrySpec} (asked : op.spec account = some (.ok input)) {unsigned : UnsignedUpdate}
    (built : account.unsignedEntry input = .ok unsigned) (ambient : Ambient) :
    account.perform op ambient =
      ({ account with
          pending := (account.purgeExpiredChallenges ambient.now).pending.insert
            (newChallengeId ambient.challengeBytes) (account.pendingUpdate input unsigned ambient) },
        .challenge (.ok (account.updateChallenge input unsigned ambient))) := by
  rw [perform_prepared asked]
  have outcome := account.prepareWith_outcome (.ok input) ambient
  generalize account.prepareWith (.ok input) ambient = result at outcome ⊢
  cases outcome with
  | invalid e failed => cases failed
  | refused e input' given failed =>
    obtain rfl := Except.ok.inj given
    cases failed.symm.trans built
  | issued input' given unsigned' built' =>
    obtain rfl := Except.ok.inj given
    obtain rfl := Except.ok.inj (built.symm.trans built')
    rfl

theorem PlogAccount.perform_prepare_log (account : PlogAccount) {op : AccountOp}
    {spec : Except Error PrepareEntrySpec} (asked : op.spec account = some spec) (ambient : Ambient) :
    (accountMachine.next account (op, ambient)).log = account.log := by
  change (account.perform op ambient).1.log = account.log
  rw [perform_prepared asked]
  have outcome := account.prepareWith_outcome spec ambient
  generalize account.prepareWith spec ambient = result at outcome ⊢
  cases outcome with
  | invalid e failed => rfl
  | refused e input given failed => rfl
  | issued input given unsigned built => rfl

/-- A live challenge that is on the head goes through with a signature that appends. -/
theorem PlogAccount.commitUpdate_appends (account : PlogAccount) {id signature : String}
    {ambient : Ambient} {p : PendingUpdate} (stored : account.pending.lookup id = some p)
    (young : ambient.now - p.createdAt < challengeTtl) (sameHead : account.currentHeadCid = p.headCid)
    {multisig : Multisig} (decoded : decodeMultisig signature = .ok multisig) {entry : Entry}
    {log' : Log} (committed : commitWithMultisig account.log p.unsigned.entry multisig = (.ok entry, log'))
    {summary : AccountSummary} (summarised : summaryFromVerifiedPlog log' = .ok summary) :
    account.commitUpdate id signature ambient =
      (.ok (summary, p.kind, p.path), { log := log', pending := ∅ }) := by
  have found := (account.purge_lookup_some ambient.now id p).mpr ⟨stored, young⟩
  have here : ∀ pending, PlogAccount.currentHeadCid { log := account.log, pending } = p.headCid :=
    fun _ => sameHead
  unfold PlogAccount.commitUpdate
  simp only [found, purge_log, here, ne_eq, not_true_eq_false, if_false, decoded, committed, summarised]

theorem Replayed.step (append : AppendLaws) (root : RootKeyParses) {account : PlogAccount}
    {replayed : Replayed} (inTime : replayed.InTime) {log' : Log}
    (serial : atomicCommit account.log replayed.request = some log') (journal : Journal) :
    ((accountMachine.watched Journal.observe).after (account, journal) replayed.actions).1.log = log' ∧
      ((accountMachine.watched Journal.observe).after (account, journal) replayed.actions).2.committed =
        journal.committed ++ [replayed.request] := by
  obtain ⟨op, signature, preparing, committing⟩ := replayed
  obtain ⟨unsigned, multisig, entry, built, decoded, committed⟩ := atomicCommit_eq.mp serial
  obtain ⟨input, asked, built⟩ := AccountOp.entryOn_eq.mp built
  have prepared := PlogAccount.perform_issues asked built preparing
  have verified := atomicCommit_verified append serial
  obtain ⟨key, parses⟩ := root
  obtain ⟨last, pairs, head⟩ := verified.head
  have summarised := head.summary parses
  -- the challenge just issued is the one the commit finds
  have stored : (account.perform op preparing).1.pending.lookup
      (newChallengeId preparing.challengeBytes) = some (account.pendingUpdate input unsigned preparing) := by
    rw [prepared]
    simp [FiniteMap.lookup_insert]
  have done := (account.perform op preparing).1.commitUpdate_appends stored inTime
    (by rw [prepared]; rfl) decoded (by rw [prepared]; exact committed) summarised
  have step : accountMachine.step (account.perform op preparing).1
      (.commitUpdate (newChallengeId preparing.challengeBytes) signature, committing) =
        (((account.perform op preparing).1.commitUpdate (newChallengeId preparing.challengeBytes)
            signature committing).2,
          .committed ((account.perform op preparing).1.commitUpdate
            (newChallengeId preparing.challengeBytes) signature committing).1) := rfl
  have first : accountMachine.step account (op, preparing) = account.perform op preparing := rfl
  constructor
  · rw [accountMachine.watched_after]
    simp only [Replayed.actions, Replayed.commit, Machine.after_cons, Machine.after_nil, Machine.next,
      first, step, done]
  · simp only [Replayed.actions, Replayed.commit, Machine.after_cons, Machine.after_nil, Machine.next,
      Machine.watched, Machine.reply, first, step, done, Journal.observe]
    rw [prepared]
    simp [Journal.commits, PlogAccount.updateChallenge, Replayed.request]

theorem replay_serial (append : AppendLaws) (root : RootKeyParses) {replays : List Replayed}
    (inTime : ∀ replayed ∈ replays, replayed.InTime) {account : PlogAccount} {log' : Log}
    (serial : serialLog.after (some account.log) (replays.map Replayed.request) = some log')
    (journal : Journal) :
    ((accountMachine.watched Journal.observe).after (account, journal)
        (replays.flatMap Replayed.actions)).1.log = log' ∧
      ((accountMachine.watched Journal.observe).after (account, journal)
        (replays.flatMap Replayed.actions)).2.committed =
          journal.committed ++ replays.map Replayed.request := by
  induction replays generalizing account journal with
  | nil =>
    obtain rfl := Option.some.inj serial
    simp
  | cons replayed rest ih =>
    rw [List.map_cons, Machine.after_cons] at serial
    change serialLog.after (atomicCommit account.log replayed.request) _ = _ at serial
    cases once : atomicCommit account.log replayed.request with
    | none =>
      rw [once, serialLog_none] at serial
      cases serial
    | some log =>
      rw [once] at serial
      obtain ⟨moved, noted⟩ := Replayed.step append root (inTime replayed (by simp)) once journal
      rw [List.flatMap_cons, Machine.after_append]
      generalize (accountMachine.watched Journal.observe).after (account, journal) replayed.actions =
        state at moved noted ⊢
      rw [← moved] at serial
      obtain ⟨moved', noted'⟩ := ih (fun other member => inTime other (by simp [member])) serial state.2
      refine ⟨moved', ?_⟩
      rw [noted', noted, List.map_cons, List.append_assoc, List.singleton_append]

/-- On an account with the same first log, whatever its own challenges, the journal of
a run can be done again in time, under any challenge ids: every commit goes through
and the log ends as the run left it. -/
theorem journal_replays (append : AppendLaws) {start copy : PlogAccount} (opened : start.Opened)
    (copied : copy.log = start.log) (run : List (AccountOp × Ambient)) (replays : List Replayed)
    (journalled : replays.map Replayed.request = (Journal.ofRun start run).committed)
    (inTime : ∀ replayed ∈ replays, replayed.InTime) :
    (accountMachine.after copy (replays.flatMap Replayed.actions)).log =
        (accountMachine.after start run).log ∧
      (Journal.ofRun copy (replays.flatMap Replayed.actions)).committed =
        (Journal.ofRun start run).committed := by
  have serial := run_is_serial append opened run
  rw [← journalled, ← copied] at serial
  obtain ⟨log, committed⟩ := replay_serial append opened.rootKeyParses inTime serial Journal.blank
  rw [accountMachine.watched_after] at log
  exact ⟨log, by rw [← journalled]; exact committed⟩

end

section
open Reference

/-- The sample delegation, done again a minute later under another id. -/
def delegationReplay : Replayed where
  op := .prepareDelegate "/a/" "u5wkJ"
  signature := "uAQL8CM0U"
  preparing := sampleAmbient 60000000000 5
  committing := sampleAmbient 60000000001 9

/-- It goes through on a copy that has a challenge of its own outstanding. -/
theorem journal_replays_delegation :
    (accountMachine.after (accountMachine.after openedAccount [(.prepareRevoke "/b/", sampleAmbient 0 1)])
        delegationReplay.actions).log = (accountMachine.after openedAccount crowdedOps).log := by
  have asked : AccountOp.spec openedAccount (.prepareRevoke "/b/") =
      some (openedAccount.revokeSpec "/b/") := rfl
  have copied : (accountMachine.after openedAccount [(.prepareRevoke "/b/", sampleAmbient 0 1)]).log =
      openedAccount.log := by
    rw [Machine.after_cons, Machine.after_nil]
    exact openedAccount.perform_prepare_log asked (sampleAmbient 0 1)
  have journalled : [delegationReplay].map Replayed.request =
      (Journal.ofRun openedAccount crowdedOps).committed := by decide +kernel
  have inTime : ∀ replayed ∈ [delegationReplay], replayed.InTime := by
    intro replayed member
    obtain rfl := List.mem_singleton.mp member
    simp [Replayed.InTime, delegationReplay, sampleAmbient, challengeTtl]
  exact (journal_replays appendLaws openedAccount_opened copied crowdedOps [delegationReplay] journalled
    inTime).1

end

end LogosAccounts
