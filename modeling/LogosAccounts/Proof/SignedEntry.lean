import LogosAccounts.BetterSign.Reference
import LogosAccounts.Proof.AccountStep

/-! What the peer signs is what is appended. A challenge stays in the pending map
exactly as it was stored, and only as long as the log does not move. -/

namespace LogosAccounts
open BetterSign hiding mk
open Functional

section
variable [BetterSign] {id : String} {p : PendingUpdate}

/-- The challenge `id` is gone, or still the one stored on `log`. -/
def Held (log : Log) (id : String) (p : PendingUpdate) (account : PlogAccount) : Prop :=
  account.pending.lookup id = none ∨ (account.pending.lookup id = some p ∧ account.log = log)

theorem Held.change {log : Log} {account account' : PlogAccount} {ambient : Ambient}
    {drawn : Option String} (held : Held log id p account)
    (change : account.Change ambient drawn account') (other : drawn ≠ some id) :
    Held log id p account' := by
  have part_held (pending : FiniteMap String PendingUpdate)
      (part : pending.Submap account.pending) :
      pending.lookup id = none ∨ (pending.lookup id = some p ∧ account.log = log) := by
    cases found : pending.lookup id with
    | none => exact .inl rfl
    | some q =>
      have stored := part id q found
      rcases held with missing | ⟨present, same⟩
      · rw [missing] at stored
        cases stored
      · obtain rfl : p = q := Option.some.inj (present.symm.trans stored)
        exact .inr ⟨rfl, same⟩
  cases change with
  | dropped pending part => exact part_held pending part
  | issued pending part id' fresh input unsigned built =>
    have different : id ≠ id' := fun same => other (by rw [fresh, same])
    simpa only [Held, FiniteMap.lookup_insert, different, if_false] using part_held pending part
  | appended entry verified => exact .inl rfl

/-- No run that does not draw `id` again replaces the challenge or moves the log
under it. -/
theorem Held.after {log : Log} {account : PlogAccount} (append : AppendLaws)
    (held : Held log id p account) {run : List (AccountOp × Ambient)} (fresh : id ∉ drawnIds run) :
    Held log id p (accountMachine.after account run) := by
  apply accountMachine.after_preserves held
  intro state action member stillHeld
  apply stillHeld.change (state.perform_change append action.1 action.2)
  intro drawn
  exact fresh (List.mem_filterMap.mpr ⟨action, member, drawn⟩)

/-- Right after a successful prepare, its challenge is pending on the log it was built
on, and the message is the stored entry's. -/
theorem prepared_held (state : PlogAccount) (action : AccountOp × Ambient)
    (prepared : accountMachine.reply state action = .challenge (.ok challenge)) :
    action.1.drawn action.2 = some challenge.challengeId ∧
      ∃ input unsigned, action.1.spec state = some (.ok input) ∧
        state.unsignedEntry input = .ok unsigned ∧
        challenge = state.updateChallenge input unsigned action.2 ∧
        Held state.log challenge.challengeId (state.pendingUpdate input unsigned action.2)
          (accountMachine.next state action) := by
  obtain ⟨op, ambient⟩ := action
  change (state.perform op ambient).2 = _ at prepared
  change _ ∧ ∃ input unsigned, _ ∧ _ ∧ _ ∧ Held state.log challenge.challengeId _ (state.perform op ambient).1
  obtain ⟨spec, asked⟩ := PlogAccount.perform_challenge prepared
  rw [PlogAccount.perform_prepared asked] at prepared ⊢
  obtain ⟨input, unsigned, rfl, built, rfl, log, stored⟩ :=
    state.prepareWith_issued (AccountReply.challenge.inj prepared)
  exact ⟨AccountOp.spec_drawn asked ambient, input, unsigned, asked, built, rfl, .inr ⟨stored, log⟩⟩

theorem nextEntryAfter_ok (laws : EntryLaws) {log : Log} {last : Entry} {spec : NextEntrySpec}
    {unsigned : UnsignedUpdate} (built : nextEntryAfter log last spec = .ok unsigned) :
    ∃ ops link, spec.ops.mapM opFromParams = .ok ops ∧
      longHop log (last.seqno + 1) = .ok link ∧
      unsigned.entry = mutableEntry last spec ops link ∧
      unsigned.message = entryToBytes unsigned.entry := by
  obtain ⟨ops, opened, built⟩ := except_bind_ok.mp built
  obtain ⟨link, linked, built⟩ := except_bind_ok.mp built
  obtain ⟨entry, prepared, built⟩ := except_bind_ok.mp built
  obtain rfl := Except.ok.inj built
  exact ⟨ops, link, opened, linked, laws.builds _ _ (mapError_eq_ok.mp prepared), rfl⟩

theorem unsignedEntry_message (laws : EntryLaws) {account : PlogAccount} {input : PrepareEntrySpec}
    {unsigned : UnsignedUpdate} (built : account.unsignedEntry input = .ok unsigned) :
    unsigned.message = entryToBytes unsigned.entry ∧ unsigned.entry.unsigned = unsigned.entry := by
  obtain ⟨head, _, built⟩ := except_bind_ok.mp built
  obtain ⟨locks, _, built⟩ := except_bind_ok.mp built
  obtain ⟨⟨n, last, kvp⟩, _, built⟩ := except_bind_ok.mp built
  obtain ⟨ops, link, _, _, same, message⟩ := nextEntryAfter_ok laws built
  exact ⟨message, by rw [same]; rfl⟩

/-- On a verified log the unsigned entry is the next entry for the locks the spec
stands for at the head. -/
theorem unsignedEntry_built {account : PlogAccount} {last : Entry} {pairs : Kvp}
    (head : VerifiedHead account.log last pairs) {input : PrepareEntrySpec} {unsigned : UnsignedUpdate} :
    account.unsignedEntry input = .ok unsigned ↔
      ∃ locks, lockSpecToScripts last input.locks = .ok locks ∧
        nextEntryAfter account.log last
          { unlock := defaultUnlockScript, locks, ops := input.ops } = .ok unsigned := by
  unfold PlogAccount.unsignedEntry
  rw [head.headEntry, except_ok_bind, except_bind_ok]
  simp only [head.prepareNextEntry]

/-- The locks and ops a built entry carries. -/
theorem unsignedEntry_fields (entries : EntryLaws) {account : PlogAccount} {last : Entry}
    {pairs : Kvp} (head : VerifiedHead account.log last pairs) {input : PrepareEntrySpec}
    {unsigned : UnsignedUpdate} (built : account.unsignedEntry input = .ok unsigned) :
    ∃ locks, lockSpecToScripts last input.locks = .ok locks ∧
      unsigned.entry.locks = locks.getD last.locks ∧
      input.ops.mapM opFromParams = .ok unsigned.entry.ops := by
  obtain ⟨locks, spelled, built⟩ := (unsignedEntry_built head).mp built
  obtain ⟨ops, link, opened, _, same, _⟩ := nextEntryAfter_ok entries built
  rw [same]
  exact ⟨locks, spelled, rfl, opened⟩

theorem decode_encodeBytesMultibase (multibase : MultibaseLaw) (bytes : Bytes) :
    decodeBytesMultibase (encodeBytesMultibase bytes) = .ok bytes := by
  unfold decodeBytesMultibase encodeBytesMultibase
  rw [multibase]
  rfl

/-- `prepare` issues the challenge, nothing draws its id again, and then `commit`
commits it. -/
structure PreparedCommit (account : PlogAccount) (prepare : AccountOp × Ambient)
    (between : List (AccountOp × Ambient)) (commit : AccountOp × Ambient)
    (challenge : UpdateChallenge) : Prop where
  prepared : accountMachine.reply account prepare = .challenge (.ok challenge)
  later : challenge.challengeId ∉ drawnIds between
  named : ∃ signature, commit.1 = .commitUpdate challenge.challengeId signature
  committed : ∃ result,
    accountMachine.reply (accountMachine.after account (prepare :: between)) commit =
      .committed (.ok result)

/-- The commit appends the signed form of the entry built by the prepare, to the
log it was built on. -/
theorem committed_entry (laws : EntryLaws) (append : AppendLaws) {account : PlogAccount}
    {prepare commit : AccountOp × Ambient} {between : List (AccountOp × Ambient)}
    {challenge : UpdateChallenge} (commits : PreparedCommit account prepare between commit challenge) :
    ∃ input unsigned entry, prepare.1.spec account = some (.ok input) ∧
      account.unsignedEntry input = .ok unsigned ∧
      challenge = account.updateChallenge input unsigned prepare.2 ∧
      (accountMachine.after account (prepare :: between)).log = account.log ∧
      entry.unsigned = unsigned.entry.unsigned ∧
      FullyVerified (account.log.push entry) ∧
      accountMachine.after account (prepare :: between ++ [commit]) =
        { log := account.log.push entry, pending := ∅ } := by
  obtain ⟨prepared, later, ⟨signature, named⟩, result, committed⟩ := commits
  obtain ⟨op, ambient⟩ := commit
  subst named
  obtain ⟨_, input, unsigned, asked, built, issued, held⟩ := prepared_held _ _ prepared
  have held := held.after append later
  rw [← Machine.after_cons] at held
  rw [Machine.after_snoc]
  generalize accountMachine.after account (prepare :: between) = state at held committed ⊢
  have success : (state.commitUpdate challenge.challengeId signature ambient).1 = .ok result :=
    AccountReply.committed.inj committed
  have moved : accountMachine.next state (.commitUpdate challenge.challengeId signature, ambient) =
      (state.commitUpdate challenge.challengeId signature ambient).2 := rfl
  obtain ⟨p, proof, entry, stored, signed, verified, after, _⟩ := state.commitUpdate_ok append success
  rw [moved, after]
  -- the challenge is still there, so the log has not moved since it was prepared
  rcases held with missing | ⟨present, sameLog⟩
  · rw [missing] at stored
    cases stored
  · obtain rfl := Option.some.inj (present.symm.trans stored)
    rw [sameLog] at verified
    exact ⟨input, unsigned, entry, asked, built, issued, sameLog, laws.proofOnly _ _ _ signed,
      verified, by simp only [sameLog]⟩

/-- In any run, a challenge that is later committed appends exactly one entry to
the log it was prepared on, and that entry without its proof serializes to the
message the peer was given. -/
theorem commit_appends_signed_entry (laws : EntryLaws) (append : AppendLaws)
    (multibase : MultibaseLaw) (start : PlogAccount) (before between : List (AccountOp × Ambient))
    (prepare : AccountOp × Ambient) (challenge : UpdateChallenge) (signature : String)
    (ambient : Ambient) (result : AccountSummary × UpdateKind × Option String)
    (fresh : (drawnIds (before ++ prepare :: between)).Nodup)
    (prepared : accountMachine.reply (accountMachine.after start before) prepare =
      .challenge (.ok challenge))
    (committed : accountMachine.reply
        (accountMachine.after start (before ++ prepare :: between))
        (.commitUpdate challenge.challengeId signature, ambient) = .committed (.ok result)) :
    ∃ entry,
      (accountMachine.after start (before ++ prepare :: between ++
        [(.commitUpdate challenge.challengeId signature, ambient)])).log =
          (accountMachine.after start before).log.push entry ∧
      decodeBytesMultibase challenge.messageMultibase = .ok (entryToBytes entry.unsigned) := by
  have later : challenge.challengeId ∉ drawnIds between := by
    have split : drawnIds (before ++ prepare :: between) =
        drawnIds before ++ challenge.challengeId :: drawnIds between := by
      simp [drawnIds, (prepared_held _ _ prepared).1]
    rw [split] at fresh
    exact (List.nodup_cons.mp (List.nodup_append.mp fresh).2.1).1
  rw [Machine.after_append] at committed
  obtain ⟨input, unsigned, entry, _, built, issued, _, same, _, after⟩ :=
    committed_entry laws append ⟨prepared, later, ⟨signature, rfl⟩, result, committed⟩
  obtain ⟨message, noProof⟩ := unsignedEntry_message laws built
  refine ⟨entry, by rw [List.append_assoc, Machine.after_append, after], ?_⟩
  rw [same, noProof, ← message, issued]
  exact decode_encodeBytesMultibase multibase unsigned.message

end

section
open Reference

/-- A call at `now` that draws a challenge id of sixteen times `drawn`. -/
def sampleAmbient (now : Nat) (drawn : UInt8) : Ambient :=
  { now, issuedAt := now, challengeBytes := Vector.replicate 16 drawn, rng := ([7] : Bytes) }

def openedAccount : PlogAccount := { log := openedLog rootKey [7], pending := ∅ }

def delegationChallenge : UpdateChallenge where
  challengeId := "uAAAAAAAAAAAAAAAAAAAAAA"
  vlad := "uhwAA6eE"
  kind := .delegate
  path := some "/a/"
  signingKeyPath := "/pubkey"
  headCid := "ueDL5gw"
  messageMultibase := "uAQWHAADp4QR4MvmDAAEDCS9hL3B1YmtleQPnCQkAAS8lY2hlY2tfc2lnbmF0dXJlKCIvcHVia" ++
    "2V5IiwgIi9lbnRyeS8iKQADL2EvJ2NoZWNrX3NpZ25hdHVyZSgiL2EvcHVia2V5IiwgIi9lbnRyeS8iKQABLyVwd" ++
    "XNoKCIvZW50cnkvIik7IHB1c2goIi9lbnRyeS9wcm9vZiIpAA"
  messageEncoding := "entry-bytes"

theorem commit_appends_signed_entry_delegation :
    ∃ entry,
      (accountMachine.after openedAccount ([(.cancelUpdate "u", sampleAmbient 0 9)] ++
        (.prepareDelegate "/a/" "u5wkJ", sampleAmbient 1 0) ::
          [(.prepareRevoke "/b/", sampleAmbient 2 1)] ++
        [(.commitUpdate delegationChallenge.challengeId "uAQL8CM0U", sampleAmbient 3 9)])).log =
          (accountMachine.after openedAccount [(.cancelUpdate "u", sampleAmbient 0 9)]).log.push entry ∧
      decodeBytesMultibase delegationChallenge.messageMultibase = .ok (entryToBytes entry.unsigned) :=
  commit_appends_signed_entry entryLaws appendLaws multibaseLaw openedAccount _ _ _ _ _ _
    ({ vlad := "uhwAA6eE", headCid := "uoH0bJg", pubkey := some "u5wEC" }, .delegate, some "/a/")
    (by decide +kernel) (by decide +kernel) (by decide +kernel)

end

end LogosAccounts
