import LogosAccounts.Proof.VerifiedCache

/-! A ledger of committed challenges, kept from the calls and their replies alone,
and the rule for runs that it gives: what every single committed challenge makes
of a log, a run makes of it in the order of the ledger. -/

namespace LogosAccounts
open BetterSign hiding mk
open Functional
variable [BetterSign]

/-- What was last asked for under a challenge id, and what was committed, in order;
`none` stands for what is not noted. -/
structure CommitLedger (Note : Type) where
  issued : String → Option Note
  committed : List (Option Note)

namespace CommitLedger
variable {Note : Type}

omit [BetterSign] in
def blank : CommitLedger Note := ⟨fun _ => none, []⟩

omit [BetterSign] in
def record (note : AccountOp → Option Note) (ledger : CommitLedger Note)
    (action : AccountOp × Ambient) (reply : AccountReply) : CommitLedger Note :=
  match action.1, reply with
  | op, .challenge (.ok challenge) =>
    { ledger with issued := Function.update ledger.issued challenge.challengeId (note op) }
  | .commitUpdate id _, .committed (.ok _) =>
    { ledger with committed := ledger.committed ++ [ledger.issued id] }
  | _, _ => ledger

/-- The ledger of a run, starting from a blank one. -/
def ofRun (note : AccountOp → Option Note) (start : PlogAccount)
    (run : List (AccountOp × Ambient)) : CommitLedger Note :=
  accountMachine.notes (record note) start blank run

/-- What the notes mean: a prepare that is noted builds an entry that means its note
on the log, and appending that entry makes of the log what the note says. -/
structure Meaning (note : AccountOp → Option Note) (means : Log → Note → UnsignedUpdate → Prop)
    (holds : Log → List Note → Prop) : Prop where
  prepared : ∀ account op n input unsigned, FullyVerified (PlogAccount.log account) →
    note op = some n → op.spec account = some (.ok input) →
    account.unsignedEntry input = .ok unsigned → means account.log n unsigned
  appended : ∀ log n unsigned entry notes, FullyVerified log → means log n unsigned →
    entry.unsigned = unsigned.entry.unsigned → FullyVerified (log.push entry) →
    holds log notes → holds (log.push entry) (notes ++ [n])

/-- The account and its ledger agree. -/
structure Agrees (means : Log → Note → UnsignedUpdate → Prop) (holds : Log → List Note → Prop)
    (account : PlogAccount) (ledger : CommitLedger Note) : Prop where
  verified : FullyVerified account.log
  pending : ∀ id p n, account.pending.lookup id = some p → ledger.issued id = some n →
    means account.log n p.unsigned
  log : ∀ notes, ledger.committed = notes.map some → holds account.log notes

variable {note : AccountOp → Option Note} {means : Log → Note → UnsignedUpdate → Prop}
  {holds : Log → List Note → Prop} {account : PlogAccount} {ledger : CommitLedger Note}

theorem Agrees.drop (agrees : Agrees means holds account ledger)
    {pending : FiniteMap String PendingUpdate} (part : pending.Submap account.pending) :
    Agrees means holds { account with pending } ledger where
  verified := agrees.verified
  pending id p n stored noted := agrees.pending id p n (part id p stored) noted
  log := agrees.log

theorem Agrees.issued (agrees : Agrees means holds account ledger)
    (meaning : Meaning note means holds) {op : AccountOp} {input : PrepareEntrySpec}
    (asked : op.spec account = some (.ok input)) {unsigned : UnsignedUpdate}
    (built : account.unsignedEntry input = .ok unsigned) (ambient : Ambient) :
    Agrees means holds
      { account with
        pending := (account.purgeExpiredChallenges ambient.now).pending.insert
          (newChallengeId ambient.challengeBytes) (account.pendingUpdate input unsigned ambient) }
      (ledger.record note (op, ambient)
        (.challenge (.ok (account.updateChallenge input unsigned ambient)))) := by
  refine ⟨agrees.verified, ?_, agrees.log⟩
  intro id p n stored noted
  rw [FiniteMap.lookup_insert] at stored
  by_cases drawn : id = newChallengeId ambient.challengeBytes
  · subst id
    rw [if_pos rfl] at stored
    obtain rfl := Option.some.inj stored
    have own : note op = some n := by
      simpa [record, PlogAccount.updateChallenge] using noted
    exact meaning.prepared account op n input unsigned agrees.verified own asked built
  · rw [if_neg drawn] at stored
    apply agrees.pending id p n (account.purge_submap ambient.now id p stored)
    simpa [record, PlogAccount.updateChallenge, drawn] using noted

theorem Agrees.appended (agrees : Agrees means holds account ledger)
    (meaning : Meaning note means holds) (entries : EntryLaws) {id signature : String}
    {p : PendingUpdate} (stored : account.pending.lookup id = some p) {proof : Bytes} {entry : Entry}
    (signed : tryBuildWithProof p.unsigned.entry proof = .ok entry)
    (verified : FullyVerified (account.log.push entry)) (ambient : Ambient)
    (result : AccountSummary × UpdateKind × Option String) :
    Agrees means holds { log := account.log.push entry, pending := ∅ }
      (ledger.record note (.commitUpdate id signature, ambient) (.committed (.ok result))) := by
  refine ⟨verified, ?_, ?_⟩
  · intro other q n stored
    cases stored
  · intro notes all
    -- the last of the committed notes is the one issued under `id`
    obtain ⟨earlier, last, rfl, past, isLast⟩ := List.map_eq_append_iff.mp all.symm
    obtain ⟨n, rfl, noted⟩ := List.map_eq_singleton_iff.mp isLast
    exact meaning.appended account.log n p.unsigned entry earlier agrees.verified
      (agrees.pending id p n stored noted.symm) (entries.proofOnly _ _ _ signed) verified
      (agrees.log earlier past.symm)

theorem record_dropped (note : AccountOp → Option Note) (ledger : CommitLedger Note)
    (action : AccountOp × Ambient) {reply : AccountReply}
    (unissued : ∀ challenge, reply ≠ .challenge (.ok challenge))
    (uncommitted : ∀ committed, reply ≠ .committed (.ok committed)) :
    ledger.record note action reply = ledger := by
  unfold record
  split
  · exact absurd rfl (unissued _)
  · exact absurd rfl (uncommitted _)
  · rfl

theorem Agrees.next (agrees : Agrees means holds account ledger) (meaning : Meaning note means holds)
    (entries : EntryLaws) (append : AppendLaws) (root : RootKeyParses)
    (action : AccountOp × Ambient) :
    Agrees means holds (accountMachine.next account action)
      (ledger.record note action (accountMachine.reply account action)) := by
  obtain ⟨op, ambient⟩ := action
  change Agrees means holds (account.perform op ambient).1
    (ledger.record note (op, ambient) (account.perform op ambient).2)
  have effect := account.perform_effect append op ambient
  generalize account.perform op ambient = result at effect ⊢
  cases effect with
  | dropped pending part reply unissued uncommitted =>
    rw [record_dropped note ledger _ unissued uncommitted]
    exact agrees.drop part
  | issued input asked unsigned built => exact agrees.issued meaning asked built ambient
  | appended id signature named p stored proof entry signed verified =>
    subst named
    obtain ⟨summary, summarised, _⟩ := PlogAccount.CommitOutcome.summary_ok root verified
    rw [summarised]
    exact agrees.appended meaning entries stored signed verified ambient _

/-- Only a prepare answered with the same challenge id changes what is noted under it. -/
theorem record_issued (note : AccountOp → Option Note) (ledger : CommitLedger Note)
    (action : AccountOp × Ambient) (reply : AccountReply) (id : String) :
    (ledger.record note action reply).issued id = ledger.issued id ∨
      ∃ challenge, reply = .challenge (.ok challenge) ∧ challenge.challengeId = id := by
  unfold record
  split
  · rename_i challenge
    by_cases same : challenge.challengeId = id
    · exact .inr ⟨challenge, rfl, same⟩
    · exact .inl (Function.update_of_ne (Ne.symm same) _ _)
  · exact .inl rfl
  · exact .inl rfl

theorem ofRun_issued (note : AccountOp → Option Note) (start : PlogAccount)
    (before between : List (AccountOp × Ambient)) (prepare : AccountOp × Ambient)
    (challenge : UpdateChallenge)
    (prepared : accountMachine.reply (accountMachine.after start before) prepare =
      .challenge (.ok challenge))
    (later : challenge.challengeId ∉ drawnIds between) :
    (ofRun note start (before ++ prepare :: between)).issued challenge.challengeId =
      note prepare.1 := by
  unfold ofRun
  rw [accountMachine.notes_append, accountMachine.notes_cons]
  let noted (_ : PlogAccount) (ledger : CommitLedger Note) : Prop :=
    ledger.issued challenge.challengeId = note prepare.1
  generalize accountMachine.notes (record note) start blank before = ledger
  have first : noted (accountMachine.next (accountMachine.after start before) prepare)
      (ledger.record note prepare
        (accountMachine.reply (accountMachine.after start before) prepare)) := by
    unfold noted
    rw [prepared]
    simp [record]
  apply accountMachine.notes_preserve first
  intro state ledger action member stillNoted
  rcases ledger.record_issued note action (accountMachine.reply state action)
    challenge.challengeId with same | ⟨again, answered, isId⟩
  · exact same.trans stillNoted
  · have drawn := (prepared_held state action answered).1
    rw [isId] at drawn
    exact absurd (List.mem_filterMap.mpr ⟨action, member, drawn⟩) later

theorem ofRun_agrees (meaning : Meaning note means holds) (entries : EntryLaws)
    (append : AppendLaws) (root : RootKeyParses) {start : PlogAccount}
    (verified : FullyVerified start.log) (initial : holds start.log [])
    (run : List (AccountOp × Ambient)) :
    Agrees means holds (accountMachine.after start run) (ofRun note start run) := by
  have first : Agrees means holds start (blank : CommitLedger Note) := by
    refine ⟨verified, ?_, ?_⟩
    · intro id p n stored noted
      cases noted
    · intro notes none
      obtain rfl := List.map_eq_nil_iff.mp none.symm
      exact initial
  exact accountMachine.notes_preserve first
    fun _ _ action _ agrees => agrees.next meaning entries append root action

/-- The rule: after a run whose commits are all noted, the log is what the notes, in
order, make of it. -/
theorem run (meaning : Meaning note means holds) (entries : EntryLaws) (append : AppendLaws)
    (root : RootKeyParses) {start : PlogAccount} (verified : FullyVerified start.log)
    (initial : holds start.log []) (run : List (AccountOp × Ambient)) {notes : List Note}
    (all : (ofRun note start run).committed = notes.map some) :
    holds (accountMachine.after start run).log notes :=
  (ofRun_agrees meaning entries append root verified initial run).log notes all

end CommitLedger

end LogosAccounts
