import LogosAccounts.Functional.Refinement
import LogosAccounts.Proof.ReachedAccount

/-! Prepare and commit take effect as one step. Whatever prepares, cancellations,
expiries and failed commits come between them, the log of an account is the one that
its committed operations make when each is prepared, signed and appended in one go,
in the order of the commits. -/

namespace LogosAccounts
open BetterSign hiding mk
open Functional

section
variable [BetterSign]

deriving instance DecidableEq for AccountOp

/-- What was asked for under each challenge id, and what was committed with which
signature, in order. -/
structure Journal where
  issued : String → Option AccountOp
  committed : List (AccountOp × String)

namespace Journal

omit [BetterSign] in
def blank : Journal := ⟨fun _ => none, []⟩

omit [BetterSign] in
def commits (journal : Journal) : AccountOp → AccountReply → List (AccountOp × String)
  | .commitUpdate id signature, .committed (.ok _) =>
    (journal.issued id).toList.map fun op => (op, signature)
  | _, _ => []

def observe (journal : Journal) (action : AccountOp × Ambient) (reply : AccountReply) : Journal where
  issued :=
    match reply with
    | .challenge (.ok challenge) =>
      Function.update journal.issued challenge.challengeId (some action.1)
    | _ => journal.issued
  committed := journal.committed ++ journal.commits action.1 reply

theorem observe_unissued (journal : Journal) (action : AccountOp × Ambient) {reply : AccountReply}
    (unissued : ∀ challenge, reply ≠ .challenge (.ok challenge)) :
    (journal.observe action reply).issued = journal.issued := by
  unfold observe
  dsimp only
  split
  · exact absurd rfl (unissued _)
  · rfl

omit [BetterSign] in
theorem commits_quiet (journal : Journal) (op : AccountOp) {reply : AccountReply}
    (uncommitted : ∀ committed, reply ≠ .committed (.ok committed)) :
    journal.commits op reply = [] := by
  unfold commits
  split
  · exact absurd rfl (uncommitted _)
  · rfl

/-- The journal of a run, starting from a blank one. -/
def ofRun (start : PlogAccount) (run : List (AccountOp × Ambient)) : Journal :=
  accountMachine.notes observe start blank run

end Journal

/-- The entry that the prepare of an operation builds on a log. -/
def AccountOp.entryOn (log : Log) (op : AccountOp) : Option UnsignedUpdate :=
  match op.spec { log, pending := ∅ } with
  | some (.ok input) => (PlogAccount.unsignedEntry { log, pending := ∅ } input).toOption
  | _ => none

/-- An operation prepared, signed and appended in one go. -/
def atomicCommit (log : Log) (request : AccountOp × String) : Option Log := do
  let unsigned ← request.1.entryOn log
  let signature ← (decodeMultisig request.2).toOption
  match commitWithMultisig log unsigned.entry signature with
  | (.ok _, log') => some log'
  | (.error _, _) => none

/-- Signed operations taken one at a time; none is left of the log once one fails. -/
def serialLog : Machine (Option Log) (AccountOp × String) Unit where
  step log request := (log.bind fun log => atomicCommit log request, ())

theorem AccountOp.entryOn_eq {account : PlogAccount} {op : AccountOp} {unsigned : UnsignedUpdate} :
    op.entryOn account.log = some unsigned ↔
      ∃ input, op.spec account = some (.ok input) ∧ account.unsignedEntry input = .ok unsigned := by
  -- neither the spec nor the entry looks at the pending challenges
  have sameSpec : op.spec { log := account.log, pending := ∅ } = op.spec account := by
    cases op <;> rfl
  unfold AccountOp.entryOn
  rw [sameSpec]
  constructor
  · intro built
    cases asked : op.spec account with
    | none => simp [asked] at built
    | some spec =>
      cases spec with
      | error e => simp [asked] at built
      | ok input =>
        simp only [asked] at built
        exact ⟨input, rfl, toOption_eq_some.mp built⟩
  · rintro ⟨input, asked, built⟩
    simp only [asked]
    exact toOption_eq_some.mpr built

@[simp] theorem serialLog_none (requests : List (AccountOp × String)) :
    serialLog.after none requests = none := by
  induction requests with
  | nil => rfl
  | cons request rest ih => exact ih

theorem atomicCommit_eq {log log' : Log} {op : AccountOp} {signature : String} :
    atomicCommit log (op, signature) = some log' ↔
      ∃ unsigned multisig entry, op.entryOn log = some unsigned ∧
        decodeMultisig signature = .ok multisig ∧
        commitWithMultisig log unsigned.entry multisig = (.ok entry, log') := by
  unfold atomicCommit
  constructor
  · intro success
    obtain ⟨unsigned, built, success⟩ := Option.bind_eq_some_iff.mp success
    obtain ⟨multisig, decoded, success⟩ := Option.bind_eq_some_iff.mp success
    cases committed : commitWithMultisig log unsigned.entry multisig with
    | mk result after =>
      cases result with
      | error e => simp [committed] at success
      | ok entry =>
        obtain rfl : after = log' := by simpa [committed] using success
        exact ⟨unsigned, multisig, entry, built, toOption_eq_some.mp decoded, committed⟩
  · rintro ⟨unsigned, multisig, entry, built, decoded, committed⟩
    simp only [Option.bind_eq_bind]
    rw [built, Option.bind_some, decoded]
    simp [Except.toOption, committed]

theorem atomicCommit_verified (append : AppendLaws) {log log' : Log} {request : AccountOp × String}
    (success : atomicCommit log request = some log') : FullyVerified log' := by
  obtain ⟨unsigned, multisig, entry, _, _, committed⟩ := atomicCommit_eq.mp success
  unfold commitWithMultisig at committed
  split at committed
  · cases committed
  · split at committed
    · cases committed
    · rename_i appended
      obtain ⟨_, rfl⟩ := Prod.mk.inj committed
      exact append.verified _ _ _ appended

theorem PlogAccount.commitUpdate_signs (account : PlogAccount) {id signature : String}
    {ambient : Ambient} {result : AccountSummary × UpdateKind × Option String}
    (success : (account.commitUpdate id signature ambient).1 = .ok result) :
    ∃ p multisig entry, account.pending.lookup id = some p ∧
      decodeMultisig signature = .ok multisig ∧
      commitWithMultisig account.log p.unsigned.entry multisig =
        (.ok entry, (account.commitUpdate id signature ambient).2.log) := by
  unfold PlogAccount.commitUpdate at success ⊢
  simp only at success ⊢
  cases found : (account.purgeExpiredChallenges ambient.now).pending.lookup id with
  | none =>
    rw [found] at success
    cases success
  | some p =>
    have stored := ((account.purge_lookup_some ambient.now id p).mp found).1
    simp only [found] at success ⊢
    split at success
    · cases success
    · rename_i sameHead
      rw [if_neg sameHead]
      cases decoded : decodeMultisig signature with
      | error e => simp [decoded] at success
      | ok multisig =>
        simp only [decoded, purge_log] at success ⊢
        cases committed : commitWithMultisig account.log p.unsigned.entry multisig with
        | mk appended log' =>
          cases appended with
          | error e => simp [committed] at success
          | ok entry =>
            refine ⟨p, multisig, entry, stored, rfl, ?_⟩
            simp only [committed]
            cases summaryFromVerifiedPlog log' <;> rfl

/-- Every pending entry is the one that the operation noted under its id builds on
the log as it is now. -/
structure JournalAgrees (account : PlogAccount) (journal : Journal) : Prop where
  verified : FullyVerified account.log
  pending : ∀ id p, account.pending.lookup id = some p →
    ∃ op, journal.issued id = some op ∧ op.entryOn account.log = some p.unsigned

theorem JournalAgrees.blank {account : PlogAccount} (opened : account.Opened) :
    JournalAgrees account Journal.blank where
  verified := opened.verified
  pending id p stored := by
    rw [opened.summary.2] at stored
    cases stored

theorem JournalAgrees.next {account : PlogAccount} {journal : Journal}
    (agrees : JournalAgrees account journal) (append : AppendLaws) (action : AccountOp × Ambient) :
    JournalAgrees (accountMachine.next account action)
      (journal.observe action (accountMachine.reply account action)) := by
  obtain ⟨op, ambient⟩ := action
  change JournalAgrees (account.perform op ambient).1
    (journal.observe (op, ambient) (account.perform op ambient).2)
  have effect := account.perform_effect append op ambient
  generalize account.perform op ambient = result at effect ⊢
  cases effect with
  | dropped pending part reply unissued uncommitted =>
    refine ⟨agrees.verified, ?_⟩
    intro id p stored
    obtain ⟨op', noted, built⟩ := agrees.pending id p (part id p stored)
    exact ⟨op', (journal.observe_unissued (op, ambient) unissued).symm ▸ noted, built⟩
  | issued input asked unsigned built =>
    refine ⟨agrees.verified, ?_⟩
    intro id p stored
    rw [FiniteMap.lookup_insert] at stored
    by_cases drawn : id = newChallengeId ambient.challengeBytes
    · subst id
      rw [if_pos rfl] at stored
      obtain rfl := Option.some.inj stored
      refine ⟨op, ?_, AccountOp.entryOn_eq.mpr ⟨input, asked, built⟩⟩
      simp [Journal.observe, PlogAccount.updateChallenge]
    · rw [if_neg drawn] at stored
      obtain ⟨op', noted, built'⟩ := agrees.pending id p (account.purge_submap ambient.now id p stored)
      refine ⟨op', ?_, built'⟩
      simpa [Journal.observe, PlogAccount.updateChallenge, drawn] using noted
  | appended id signature named p stored proof entry signed verified =>
    refine ⟨verified, ?_⟩
    intro other q impossible
    cases impossible

/-- A step makes of the log what the serial machine makes of it by what the step
adds to the journal. -/
theorem JournalAgrees.serial {account : PlogAccount} {journal : Journal}
    (agrees : JournalAgrees account journal) (append : AppendLaws) (root : RootKeyParses)
    (action : AccountOp × Ambient) :
    some (accountMachine.next account action).log =
      serialLog.after (some account.log)
        (journal.commits action.1 (accountMachine.reply account action)) := by
  obtain ⟨op, ambient⟩ := action
  change some (account.perform op ambient).1.log =
    serialLog.after (some account.log) (journal.commits op (account.perform op ambient).2)
  have effect := account.perform_effect append op ambient
  cases performed : account.perform op ambient with
  | mk account' reply =>
    rw [performed] at effect
    cases effect with
    | dropped pending part reply unissued uncommitted =>
      rw [journal.commits_quiet op uncommitted]
      rfl
    | issued input asked unsigned built => cases op <;> rfl
    | appended id signature named p stored proof entry signed verified =>
      subst named
      obtain ⟨summary, summarised, _⟩ := PlogAccount.CommitOutcome.summary_ok root verified
      have success : (account.commitUpdate id signature ambient).1 = .ok (summary, p.kind, p.path) := by
        have replied := AccountReply.committed.inj (congrArg Prod.snd performed)
        rw [summarised] at replied
        exact replied
      obtain ⟨p', multisig, signedEntry, stored', decoded, committed⟩ := account.commitUpdate_signs success
      obtain rfl := Option.some.inj (stored.symm.trans stored')
      obtain ⟨op, noted, built⟩ := agrees.pending id p stored
      have moved : (account.commitUpdate id signature ambient).2.log = account.log.push entry :=
        congrArg (fun result => result.1.log) performed
      rw [moved] at committed
      have serial := atomicCommit_eq.mpr ⟨p.unsigned, multisig, signedEntry, built, decoded, committed⟩
      rw [summarised]
      simp [Journal.commits, Except.map, noted, Machine.after, Machine.next, serialLog, serial]

/-- The account, watched by a keeper of the journal, is the serial machine. -/
def serialRefinement (append : AppendLaws) (root : RootKeyParses) :
    Refinement (accountMachine.watched Journal.observe) serialLog where
  good state := JournalAgrees state.1 state.2
  view state := some state.1.log
  stands state action := state.2.commits action.1 (accountMachine.reply state.1 action)
  kept _ action agrees := agrees.next append action
  simulated _ action agrees := agrees.serial append root action

theorem serialRefinement_traced (append : AppendLaws) (root : RootKeyParses) (start : PlogAccount)
    (run : List (AccountOp × Ambient)) :
    (accountMachine.watched Journal.observe).traced (serialRefinement append root).stands
      (start, Journal.blank) run = (Journal.ofRun start run).committed := by
  have grown := accountMachine.traced_notes Journal.observe Journal.committed
    (serialRefinement append root).stands (fun _ _ _ => rfl) (start, Journal.blank) run
  exact grown.symm

/-- Serializability: after any run on an opened account the log is what the committed
operations make of it one after the other, and none of them fails. -/
theorem run_is_serial (append : AppendLaws) {start : PlogAccount} (opened : start.Opened)
    (run : List (AccountOp × Ambient)) :
    serialLog.after (some start.log) (Journal.ofRun start run).committed =
      some (accountMachine.after start run).log := by
  have initial : (serialRefinement append opened.rootKeyParses).good (start, Journal.blank) :=
    JournalAgrees.blank opened
  have refines := (serialRefinement append opened.rootKeyParses).view_after initial run
  rw [serialRefinement_traced] at refines
  rw [← accountMachine.watched_after Journal.observe (start, Journal.blank) run]
  exact refines.symm

end

section
open Reference

/-- The sample delegation, committed while a revocation is outstanding and after a
commit of an unknown challenge. -/
def crowdedOps : List (AccountOp × Ambient) :=
  [(.prepareRevoke "/b/", sampleAmbient 0 1), (.prepareDelegate "/a/" "u5wkJ", sampleAmbient 1 0),
    (.commitUpdate "u" "uAQL8CM0U", sampleAmbient 2 9),
    (.commitUpdate delegationChallenge.challengeId "uAQL8CM0U", sampleAmbient 3 9)]

example : (Journal.ofRun openedAccount crowdedOps).committed =
    [(.prepareDelegate "/a/" "u5wkJ", "uAQL8CM0U")] := by decide +kernel

end

end LogosAccounts
