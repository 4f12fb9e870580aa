import LogosAccounts.Proof.ReachedAccount

/-! Pending challenges match the head. Each was prepared on the log as it is now,
so the head comparison of a commit never fails. -/

namespace LogosAccounts
open BetterSign hiding mk
open Functional

section
variable [BetterSign]

/-- The challenge names the head of the log, and its entry is the next one after
the last verified entry. -/
structure MatchesHead (log : Log) (p : PendingUpdate) : Prop where
  headCid : p.headCid = encodeCid log.head
  next : ∃ last pairs, VerifiedHead log last pairs ∧ p.unsigned.entry.prev = entryCid last ∧
    p.unsigned.entry.seqno = last.seqno + 1 ∧ p.unsigned.entry.vlad = last.vlad

def PlogAccount.PendingMatch (account : PlogAccount) : Prop :=
  ∀ id p, account.pending.lookup id = some p → MatchesHead account.log p

theorem prepared_matches (entries : EntryLaws) {account : PlogAccount}
    (verified : FullyVerified account.log) {input : PrepareEntrySpec} {unsigned : UnsignedUpdate}
    (built : account.unsignedEntry input = .ok unsigned) (ambient : Ambient) :
    MatchesHead account.log (account.pendingUpdate input unsigned ambient) := by
  obtain ⟨last, pairs, head⟩ := verified.head
  obtain ⟨locks, _, next⟩ := (unsignedEntry_built head).mp built
  obtain ⟨ops, link, _, _, same, _⟩ := nextEntryAfter_ok entries next
  refine ⟨rfl, last, pairs, head, ?_⟩
  simp only [PlogAccount.pendingUpdate, same]
  exact ⟨rfl, rfl, rfl⟩

/-- The log moves only when all challenges go. -/
theorem PlogAccount.Change.pendingMatch (entries : EntryLaws) {account account' : PlogAccount}
    {ambient : Ambient} {drawn : Option String} (change : account.Change ambient drawn account')
    (verified : FullyVerified account.log) (matching : account.PendingMatch) :
    account'.PendingMatch := by
  cases change with
  | dropped pending part => exact fun id p stored => matching id p (part id p stored)
  | issued pending part id fresh input unsigned built =>
    intro other p stored
    rw [FiniteMap.lookup_insert] at stored
    split at stored
    · cases stored
      exact prepared_matches entries verified built ambient
    · exact matching other p (part other p stored)
  | appended entry extended =>
    intro id p impossible
    cases impossible

theorem PlogAccount.Reached.pendingMatch (append : AppendLaws) (entries : EntryLaws) {account : PlogAccount}
    (reached : account.Reached) : account.PendingMatch := by
  obtain ⟨start, run, opened, rfl⟩ := reached
  let good (account : PlogAccount) : Prop := FullyVerified account.log ∧ account.PendingMatch
  have first : good start := by
    refine ⟨opened.verified, ?_⟩
    intro id p impossible
    rw [opened.summary.2] at impossible
    cases impossible
  have kept : good (accountMachine.after start run) := by
    apply accountMachine.after_preserves first
    rintro state action _ ⟨verified, matching⟩
    have change := state.perform_change append action.1 action.2
    exact ⟨change.verified verified, change.pendingMatch entries verified matching⟩
  exact kept.2

theorem PlogAccount.PendingMatch.no_mismatch (append : AppendLaws) (root : RootKeyParses)
    {account : PlogAccount} (matching : account.PendingMatch) (id signature : String)
    (ambient : Ambient) (expected current : String) :
    (account.commitUpdate id signature ambient).1 ≠ .error (.headMismatch expected current) := by
  have outcome := account.commitUpdate_outcome append id signature ambient
  generalize account.commitUpdate id signature ambient = result at outcome
  intro failed
  cases outcome with
  | unknown missing => cases failed
  | refused e p found kind moved =>
    have stored := ((account.purge_lookup_some ambient.now id p).mp found).1
    exact moved expected current (Except.error.inj failed) (matching id p stored).headCid.symm
  | appended p found sameHead decodedSignature decoded entry built verified =>
    obtain ⟨summary, summarised, _⟩ := PlogAccount.CommitOutcome.summary_ok root verified
    rw [summarised] at failed
    cases failed

/-- In every reached account, whatever was prepared, committed, cancelled or has
expired before, every pending challenge names the current head and carries the
next entry after the last verified one; so no commit answers that the head has
moved. -/
theorem pending_matches_head (append : AppendLaws) (entries : EntryLaws) (account : PlogAccount)
    (reached : account.Reached) :
    (∀ id p, account.pending.lookup id = some p → MatchesHead account.log p) ∧
    ∀ id signature ambient expected current,
      (account.commitUpdate id signature ambient).1 ≠ .error (.headMismatch expected current) := by
  have matching := reached.pendingMatch append entries
  exact ⟨matching, matching.no_mismatch append reached.rootKeyParses⟩

end

section
open Reference

/-- The sample delegation, prepared and not yet committed. -/
theorem pending_matches_head_delegation :
    (∀ id p, (accountMachine.after openedAccount
        [(.prepareDelegate "/a/" "u5wkJ", sampleAmbient 1 0)]).pending.lookup id = some p →
      MatchesHead (accountMachine.after openedAccount
        [(.prepareDelegate "/a/" "u5wkJ", sampleAmbient 1 0)]).log p) ∧
    ∀ id signature ambient expected current,
      ((accountMachine.after openedAccount
        [(.prepareDelegate "/a/" "u5wkJ", sampleAmbient 1 0)]).commitUpdate id signature ambient).1 ≠
        .error (.headMismatch expected current) :=
  pending_matches_head appendLaws entryLaws _ (openedAccount_opened.reached _)

end

end LogosAccounts
