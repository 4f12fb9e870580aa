import LogosAccounts.Proof.GrantRun
import LogosAccounts.Proof.Isolation

/-! That responses and events tell the truth. An error is announced once, in the
words of the response; the events of a commit follow from what was asked for under
its challenge id, and the cache bears them out when the call returns. -/

namespace LogosAccounts
open BetterSign hiding mk
open Functional

def Response.tree : Response → Option Json
  | .error e => some (.obj [("error", .str e.text)])
  | .summary account => some account.toJson
  | .plog _ => none
  | .removed => some (.obj [("removed", .bool true)])
  | .cleared count => some (.obj [("cleared", .number (toString count))])
  | .value found => some found.toJson
  | .delegations list => some (.arr (list.map PathDelegation.toJson))
  | .challenge issued => some issued.toJson
  | .cancelled => some (.obj [("cancelled", .bool true)])

theorem Response.text_tree [BetterSign] {response : Response} {json : Json}
    (written : response.tree = some json) : response.text = jsonToString json := by
  cases response with
  | plog encoded => cases written
  | _ =>
    obtain rfl := Option.some.inj written
    rfl

/-- The `error` member of a response that is an object. -/
def Response.errorMember (response : Response) : Option Json :=
  match response.tree with
  | some (.obj members) => members.lookup "error"
  | _ => none

/-- Only an error response has the member, and it is the error's text. -/
theorem Response.errorMember_eq (response : Response) :
    response.errorMember = match response with
      | .error e => some (.str e.text)
      | _ => none := by
  cases response with
  | value found => cases found <;> rfl
  | challenge issued =>
    obtain ⟨challengeId, vlad, kind, path, signingKeyPath, headCid, message, encoding⟩ := issued
    cases path <;> rfl
  | _ => rfl

def Event.errorMessage : Event → Option String
  | .error message => some message
  | _ => none

def Event.newHead : Event → Option String
  | .accountUpdated headCid => some headCid
  | _ => none

def Reply.errorMessages (reply : Reply) : List String := reply.events.filterMap Event.errorMessage

def Reply.newHeads (reply : Reply) : List String := reply.events.filterMap Event.newHead

/-- The call is a commit that succeeds. -/
def Call.Commits (call : Call) (reply : Reply) : Prop :=
  (∃ vlad id signature, call = .commitUpdate vlad id signature) ∧ reply.response.isError = false

section
variable [BetterSign]

/-- What was last asked for under a challenge id on the account at a cache key. -/
abbrev ChallengeNotes : Type := VladHash → String → Option AccountOp

def noteCall (notes : ChallengeNotes) (action : Call × Ambient) (reply : Reply) : ChallengeNotes :=
  match action.1.accountOp, reply.response with
  | some (vlad, op), .challenge challenge =>
    match AccountCache.keyFromMultibase vlad with
    | .ok key =>
      Function.update notes key (Function.update (notes key) challenge.challengeId (some op))
    | .error _ => notes
  | _, _ => notes

/-- The notes of a run, taken from the calls and their replies alone. -/
def challengeNotes (run : List (Call × Ambient)) : ChallengeNotes :=
  accountsModule.notes noteCall ∅ (fun _ _ => none) run

def ListedAt (cache : AccountCache) (vlad : String) (list : List PathDelegation) : Prop :=
  ∀ ambient, (AccountsModule.dispatch cache (.listDelegations vlad) ambient).2.response =
    .delegations list

/-- What the response and the events of a call say is so, given the notes taken
before the call and the cache it leaves. -/
structure TellsTruth (notes : ChallengeNotes) (call : Call) (after : AccountCache) (reply : Reply) :
    Prop where
  error : ∀ member, reply.response.errorMember = some member ↔
    ∃ message, member = .str message ∧ reply.errorMessages = [message]
  noError : reply.response.errorMember = none → reply.errorMessages = []
  created : ∀ v, .accountCreated v ∈ reply.events ↔ ∃ pubkeyMultibase summary,
    call = .createAccount pubkeyMultibase ∧ reply.response = .summary summary ∧ summary.vlad = v
  cached : ∀ v, .accountCreated v ∈ reply.events →
    ∃ key account, after.get v = .ok (key, account) ∧ account.vlad = v
  committed : ∀ vlad id signature, call = .commitUpdate vlad id signature →
    reply.response.isError = false → ∃ key account, after.get vlad = .ok (key, account) ∧
      reply.newHeads = [account.currentHeadCid] ∧
      (∀ v p, .pathDelegated v p ∈ reply.events ↔ v = account.vlad ∧
        ∃ pubkeyMultibase, notes key id = some (.prepareDelegate p pubkeyMultibase)) ∧
      ∀ v p, .pathRevoked v p ∈ reply.events ↔ v = account.vlad ∧ notes key id = some (.prepareRevoke p)
  delegated : ∀ v p, .pathDelegated v p ∈ reply.events →
    ∃ list, ListedAt after v list ∧ p ∈ list.map PathDelegation.path
  revoked : ∀ v p, .pathRevoked v p ∈ reply.events →
    ∃ list, ListedAt after v list ∧ p ∉ list.map PathDelegation.path
  otherwise : ¬ call.Commits reply → reply.newHeads = [] ∧
    ∀ v p, .pathDelegated v p ∉ reply.events ∧ .pathRevoked v p ∉ reply.events

/-- The events a commit adds for what was asked for. -/
def AccountOp.announces (vlad : String) : AccountOp → List Event
  | .prepareDelegate path _ => [.pathDelegated vlad path]
  | .prepareRevoke path => [.pathRevoked vlad path]
  | .prepareUpdate _ | .commitUpdate _ _ | .cancelUpdate _ => []

/-- The challenge is one prepared for `op` on this log. -/
structure PreparedFor (log : Log) (op : AccountOp) (p : PendingUpdate) : Prop where
  announced : ∀ summary, commitEvents summary p.kind p.path =
    .accountUpdated summary.headCid :: op.announces summary.vlad
  grants : ∀ path pubkeyMultibase, op = .prepareDelegate path pubkeyMultibase →
    ∃ pubkey, EditsListing log (.grant path pubkey) p.unsigned
  withdraws : ∀ path, op = .prepareRevoke path → EditsListing log (.withdraw path) p.unsigned

/-- Every pending challenge is one prepared for what is noted under its id. -/
def NotedPending (noted : String → Option AccountOp) (account : PlogAccount) : Prop :=
  ∀ id p, account.pending.lookup id = some p →
    ∃ op, noted id = some op ∧ PreparedFor account.log op p

def noteOp (noted : String → Option AccountOp) (op : AccountOp) (reply : AccountReply) :
    String → Option AccountOp :=
  match reply with
  | .challenge (.ok challenge) => Function.update noted challenge.challengeId (some op)
  | _ => noted

omit [BetterSign] in
theorem noteOp_dropped (noted : String → Option AccountOp) (op : AccountOp) {reply : AccountReply}
    (unissued : ∀ challenge, reply ≠ .challenge (.ok challenge)) : noteOp noted op reply = noted := by
  unfold noteOp
  split
  · exact absurd rfl (unissued _)
  · rfl

theorem preparedFor_built (keys : KeyLaws) (multikeys : MultikeyLaws) (entries : EntryLaws)
    (opLaw : OpLaw) (verify : VerifyLaws) {account : PlogAccount}
    (verified : FullyVerified account.log) {op : AccountOp} {input : PrepareEntrySpec}
    (asked : op.spec account = some (.ok input)) {unsigned : UnsignedUpdate}
    (built : account.unsignedEntry input = .ok unsigned) (ambient : Ambient) :
    PreparedFor account.log op (account.pendingUpdate input unsigned ambient) := by
  have named {path : String} {branch : Key} (accepted : parseBranchPath path = .ok branch) :
      keyToString branch = path :=
    (keys.display branch).trans (keys.keeps path branch (parseBranchPath_ok.mp accepted).1)
  cases op with
  | prepareUpdate requestJson =>
    obtain ⟨request, _, given⟩ := except_bind_ok.mp (Option.some.inj asked)
    obtain ⟨signer, _, given⟩ := except_bind_ok.mp given
    obtain ⟨ops, _, given⟩ := except_bind_ok.mp given
    obtain rfl := Except.ok.inj given
    exact ⟨fun _ => rfl, nofun, nofun⟩
  | prepareDelegate path pubkeyMultibase =>
    have given := Option.some.inj asked
    obtain ⟨branch, multikey, _, accepted, decoded, _, _, kind, isPath⟩ := delegateSpec_ok given
    refine ⟨?_, ?_, nofun⟩
    · intro summary
      simp only [PlogAccount.pendingUpdate, kind, isPath, named accepted, commitEvents,
        AccountOp.announces]
    · intro path' pubkeyMultibase' same
      obtain ⟨rfl, rfl⟩ := AccountOp.prepareDelegate.inj same
      exact ⟨_, delegate_edits keys multikeys entries opLaw verify verified decoded given built⟩
  | prepareRevoke path =>
    have given := Option.some.inj asked
    obtain ⟨branch, _, accepted, _, _, kind, isPath⟩ := revokeSpec_ok given
    refine ⟨?_, nofun, ?_⟩
    · intro summary
      simp only [PlogAccount.pendingUpdate, kind, isPath, named accepted, commitEvents,
        AccountOp.announces]
    · intro path' same
      obtain rfl := AccountOp.prepareRevoke.inj same
      exact revoke_edits keys entries opLaw verify verified given built
  | commitUpdate id signature => cases asked
  | cancelUpdate id => cases asked

theorem NotedPending.drop {noted : String → Option AccountOp} {account : PlogAccount}
    (isNoted : NotedPending noted account) {pending : FiniteMap String PendingUpdate}
    (part : pending.Submap account.pending) : NotedPending noted { account with pending } :=
  fun id p stored => isNoted id p (part id p stored)

theorem NotedPending.empty {noted : String → Option AccountOp} {account : PlogAccount}
    (none : account.pending = ∅) : NotedPending noted account := by
  intro id p stored
  rw [none] at stored
  cases stored

theorem NotedPending.perform (keys : KeyLaws) (multikeys : MultikeyLaws) (entries : EntryLaws)
    (opLaw : OpLaw) (append : AppendLaws) (verify : VerifyLaws)
    {noted : String → Option AccountOp} {account : PlogAccount}
    (verified : FullyVerified account.log) (isNoted : NotedPending noted account) (op : AccountOp)
    (ambient : Ambient) :
    NotedPending (noteOp noted op (account.perform op ambient).2) (account.perform op ambient).1 := by
  have effect := account.perform_effect append op ambient
  generalize account.perform op ambient = result at effect ⊢
  cases effect with
  | dropped pending part reply unissued uncommitted =>
    rw [noteOp_dropped noted op unissued]
    exact isNoted.drop part
  | issued input asked unsigned built =>
    have own := preparedFor_built keys multikeys entries opLaw verify verified asked built ambient
    intro id p stored
    rw [FiniteMap.lookup_insert] at stored
    by_cases drawn : id = newChallengeId ambient.challengeBytes
    · subst id
      rw [if_pos rfl] at stored
      obtain rfl := Option.some.inj stored
      exact ⟨op, by simp [noteOp, PlogAccount.updateChallenge], own⟩
    · rw [if_neg drawn] at stored
      obtain ⟨op', isNoted, prepared⟩ :=
        isNoted id p (account.purge_submap ambient.now id p stored)
      exact ⟨op', by simpa [noteOp, PlogAccount.updateChallenge, drawn] using isNoted, prepared⟩
  | appended id signature named p stored proof entry signed verified => exact .empty rfl

theorem noteCall_quiet {notes : ChallengeNotes} {action : Call × Ambient} {reply : Reply}
    (quiet : action.1.accountOp = none ∨ ∀ challenge, reply.response ≠ .challenge challenge) :
    noteCall notes action reply = notes := by
  unfold noteCall
  split
  · rename_i acts issued
    rcases quiet with none | noChallenge
    · rw [none] at acts
      cases acts
    · exact absurd issued (noChallenge _)
  · rfl

theorem noteCall_acted {notes : ChallengeNotes} {call : Call} {ambient : Ambient} {vlad : String}
    {op : AccountOp} (acts : call.accountOp = some (vlad, op)) {key : VladHash}
    (keyed : AccountCache.keyFromMultibase vlad = .ok key) (reply : AccountReply) :
    noteCall notes (call, ambient) reply.toReply =
      Function.update notes key (noteOp (notes key) op reply) := by
  by_cases issued : ∃ challenge, reply = .challenge (.ok challenge)
  · obtain ⟨challenge, rfl⟩ := issued
    simp only [noteCall, acts, AccountReply.toReply, silent, keyed, noteOp]
  · have noChallenge (challenge : UpdateChallenge) : reply.toReply.response ≠ .challenge challenge :=
      fun answered => issued ⟨challenge, AccountReply.toReply_challenge.mp answered⟩
    have same : noteOp (notes key) op reply = notes key := by
      unfold noteOp
      split
      · exact absurd ⟨_, rfl⟩ issued
      · rfl
    rw [noteCall_quiet (.inr noChallenge), same, Function.update_eq_self]

/-- Every cached account is verified, and its challenges are noted. -/
def NotedCache (cache : AccountCache) (notes : ChallengeNotes) : Prop :=
  FiniteMap.Each cache fun key account => FullyVerified account.log ∧ NotedPending (notes key) account

theorem NotedCache.step (keys : KeyLaws) (multikeys : MultikeyLaws) (entries : EntryLaws)
    (opLaw : OpLaw) (append : AppendLaws) (verify : VerifyLaws) {cache : AccountCache}
    {notes : ChallengeNotes} (isNoted : NotedCache cache notes) (action : Call × Ambient) :
    NotedCache (accountsModule.next cache action)
      (noteCall notes action (accountsModule.reply cache action)) := by
  obtain ⟨call, ambient⟩ := action
  change NotedCache (AccountsModule.dispatch cache call ambient).1
    (noteCall notes (call, ambient) (AccountsModule.dispatch cache call ambient).2)
  cases acts : call.accountOp with
  | none =>
    rw [noteCall_quiet (.inl acts)]
    apply dispatch_each isNoted
    · intro account summary key installs _
      exact ⟨(summary_verified (installs_ok installs).1).1, .empty (installs_ok installs).2⟩
    · intro vlad op key account impossible
      rw [acts] at impossible
      cases impossible
  | some names =>
    obtain ⟨vlad, op⟩ := names
    rw [dispatch_accountOp acts]
    unfold AccountsModule.withAccountMut
    cases found : cache.get vlad with
    | error e =>
      rw [noteCall_quiet (.inr (by simp [errJson]))]
      exact isNoted
    | ok named =>
      obtain ⟨key, account⟩ := named
      obtain ⟨decoded, isVlad, rfl, present⟩ := AccountCache.get_ok.mp found
      obtain ⟨verified, pending⟩ := isNoted _ account present
      simp only
      rw [noteCall_acted acts (AccountCache.keyFromMultibase_ok.mpr ⟨decoded, isVlad, rfl⟩)]
      intro other survivor stored
      rw [FiniteMap.lookup_insert] at stored
      by_cases same : other = vladHash decoded
      · subst other
        rw [if_pos rfl] at stored
        obtain rfl := Option.some.inj stored
        rw [Function.update_self]
        exact ⟨(account.perform_change append op ambient).verified verified,
          pending.perform keys multikeys entries opLaw append verify verified op ambient⟩
      · rw [if_neg same] at stored
        rw [Function.update_of_ne same]
        exact isNoted other survivor stored

theorem challengeNotes_noted (keys : KeyLaws) (multikeys : MultikeyLaws) (entries : EntryLaws)
    (opLaw : OpLaw) (append : AppendLaws) (verify : VerifyLaws) (run : List (Call × Ambient)) :
    NotedCache (accountsModule.after ∅ run) (challengeNotes run) := by
  have first : NotedCache ∅ fun _ _ => none := .empty
  exact accountsModule.notes_preserve first
    fun _ _ action _ isNoted => isNoted.step keys multikeys entries opLaw append verify action

section
variable {notes : ChallengeNotes} {call : Call} {after : AccountCache}

omit [BetterSign] in
theorem errors_agree {reply : Reply} (noMember : reply.response.errorMember = none)
    (noMessages : reply.errorMessages = []) (member : Json) :
    reply.response.errorMember = some member ↔
      ∃ message, member = .str message ∧ reply.errorMessages = [message] := by
  simp [noMember, noMessages]

theorem tellsTruth_error (e : Error) : TellsTruth notes call after (errJson e) where
  error member := by
    rw [Response.errorMember_eq]
    simp [errJson, Reply.errorMessages, Event.errorMessage, eq_comm]
  noError none := by
    rw [Response.errorMember_eq] at none
    cases none
  created := by simp [errJson]
  cached := by simp [errJson]
  committed _ _ _ _ done := by cases done
  delegated := by simp [errJson]
  revoked := by simp [errJson]
  otherwise _ := by simp [errJson, Reply.newHeads, Event.newHead]

theorem tellsTruth_silent {response : Response} (noError : ∀ e, response ≠ .error e)
    (noCreate : ∀ pubkeyMultibase summary, call = .createAccount pubkeyMultibase →
      response ≠ .summary summary)
    (noCommit : ∀ vlad id signature, call ≠ .commitUpdate vlad id signature) :
    TellsTruth notes call after (silent response) := by
  have noMember : response.errorMember = none := by
    rw [Response.errorMember_eq]
    cases response with
    | error e => exact absurd rfl (noError e)
    | _ => rfl
  constructor
  · exact errors_agree noMember rfl
  · exact fun _ => rfl
  · intro v
    constructor
    · intro impossible
      cases impossible
    · rintro ⟨pubkeyMultibase, summary, created, same, _⟩
      exact absurd same (noCreate pubkeyMultibase summary created)
  · simp [silent]
  · exact fun vlad id signature same => absurd same (noCommit vlad id signature)
  · simp [silent]
  · simp [silent]
  · simp [silent, Reply.newHeads]

theorem tellsTruth_created {pubkeyMultibase : String} {summary : AccountSummary} {key : VladHash}
    {account : PlogAccount} (cached : after.get summary.vlad = .ok (key, account))
    (own : account.vlad = summary.vlad) :
    TellsTruth notes (.createAccount pubkeyMultibase) after
      ⟨.summary summary, [.accountCreated summary.vlad]⟩ where
  error := errors_agree rfl rfl
  noError _ := rfl
  created v := by simp [eq_comm]
  cached v created := by
    obtain rfl : v = summary.vlad := by simpa using created
    exact ⟨key, account, cached, own⟩
  committed _ _ _ impossible := by cases impossible
  delegated := by simp
  revoked := by simp
  otherwise _ := by simp [Reply.newHeads, Event.newHead]

omit [BetterSign] in
theorem AccountOp.announces_delegated {op : AccountOp} {vlad v p : String} :
    .pathDelegated v p ∈ op.announces vlad ↔
      v = vlad ∧ ∃ pubkeyMultibase, op = .prepareDelegate p pubkeyMultibase := by
  cases op <;> simp [announces, eq_comm]

omit [BetterSign] in
theorem AccountOp.announces_revoked {op : AccountOp} {vlad v p : String} :
    .pathRevoked v p ∈ op.announces vlad ↔ v = vlad ∧ op = .prepareRevoke p := by
  cases op <;> simp [announces, eq_comm]

theorem tellsTruth_committed {vlad id signature : String} {summary : AccountSummary} {key : VladHash}
    {account : PlogAccount} {op : AccountOp} (noted : notes key id = some op)
    (cached : after.get vlad = .ok (key, account)) (own : account.vlad = summary.vlad)
    (head : account.currentHeadCid = summary.headCid)
    (granted : ∀ path pubkeyMultibase, op = .prepareDelegate path pubkeyMultibase →
      ∃ list, ListedAt after summary.vlad list ∧ path ∈ list.map PathDelegation.path)
    (withdrawn : ∀ path, op = .prepareRevoke path →
      ∃ list, ListedAt after summary.vlad list ∧ path ∉ list.map PathDelegation.path) :
    TellsTruth notes (.commitUpdate vlad id signature) after
      ⟨.summary summary, .accountUpdated summary.headCid :: op.announces summary.vlad⟩ := by
  have noMessages : Reply.errorMessages
      ⟨.summary summary, .accountUpdated summary.headCid :: op.announces summary.vlad⟩ = [] := by
    cases op <;> rfl
  have newHeads : Reply.newHeads
      ⟨.summary summary, .accountUpdated summary.headCid :: op.announces summary.vlad⟩ =
        [summary.headCid] := by
    cases op <;> rfl
  have noCreated (v : String) : .accountCreated v ∉ op.announces summary.vlad := by
    cases op <;> simp [AccountOp.announces]
  constructor
  · exact errors_agree rfl noMessages
  · exact fun _ => noMessages
  · intro v
    simp [noCreated]
  · intro v created
    simp [noCreated] at created
  · intro vlad' id' signature' same _
    obtain ⟨rfl, rfl, rfl⟩ := Call.commitUpdate.inj same
    refine ⟨key, account, cached, by rw [newHeads, head], ?_, ?_⟩
    · intro v p
      simp [AccountOp.announces_delegated, noted, own]
    · intro v p
      simp [AccountOp.announces_revoked, noted, own]
  · intro v p delegated
    obtain ⟨rfl, pubkeyMultibase, asked⟩ := AccountOp.announces_delegated.mp
      (by simpa using delegated)
    exact granted p pubkeyMultibase asked
  · intro v p revoked
    obtain ⟨rfl, asked⟩ := AccountOp.announces_revoked.mp (by simpa using revoked)
    exact withdrawn p asked
  · intro notDone
    exact absurd ⟨⟨vlad, id, signature, rfl⟩, rfl⟩ notDone

end

theorem prepared_tellsTruth {notes : ChallengeNotes} {call : Call} {after : AccountCache}
    {vlad : String} {op : AccountOp} (acts : call.accountOp = some (vlad, op)) (account : PlogAccount)
    {spec : Except Error PrepareEntrySpec} (asked : op.spec account = some spec)
    (result : Except Error UpdateChallenge) :
    TellsTruth notes call after (AccountReply.challenge result).toReply := by
  cases result with
  | error e => exact tellsTruth_error e
  | ok challenge =>
    apply tellsTruth_silent (by simp) (by simp)
    rintro vlad' id signature rfl
    cases acts
    cases asked

theorem listedAt_cached (law : VladLaw) {cache : AccountCache} (account : PlogAccount)
    (present : cache.lookup (vladHash account.log.vlad) = some account)
    {list : List PathDelegation} (listed : account.listDelegations = .ok list) :
    ListedAt cache account.vlad list := by
  intro ambient
  have found : cache.get account.vlad = .ok (vladHash account.log.vlad, account) :=
    AccountCache.get_ok.mpr ⟨_, decode_encodeVlad law _, rfl, present⟩
  simp only [AccountsModule.dispatch, AccountsModule.listDelegations, AccountsModule.withAccount,
    found, listed, silent]

theorem commit_tellsTruth (law : VladLaw) (entries : EntryLaws) (append : AppendLaws)
    {cache : AccountCache} {notes : ChallengeNotes} {vlad : String} {key : VladHash}
    {account : PlogAccount} (found : cache.get vlad = .ok (key, account))
    (keyed : key = vladHash account.log.vlad) (verified : FullyVerified account.log)
    (isNoted : NotedPending (notes key) account) {id signature : String} {ambient : Ambient}
    {result : AccountSummary × UpdateKind × Option String}
    (success : (account.commitUpdate id signature ambient).1 = .ok result) :
    TellsTruth notes (.commitUpdate vlad id signature)
      (FiniteMap.insert cache key (account.commitUpdate id signature ambient).2)
      (AccountReply.committed (.ok result)).toReply := by
  obtain ⟨p, proof, entry, stored, built, extended, moved, summarised, asPending⟩ :=
    account.commitUpdate_ok append success
  obtain ⟨summary, kind, path⟩ := result
  obtain ⟨rfl, rfl⟩ := Prod.mk.inj asPending
  obtain ⟨op, noted, prepared⟩ := isNoted id p stored
  obtain ⟨_, sameVlad, sameHead⟩ := summary_verified summarised
  obtain ⟨decoded, isVlad, rfl, _⟩ := AccountCache.get_ok.mp found
  rw [moved]
  -- the account after the commit, and what its listing says
  have placed : (FiniteMap.insert cache (vladHash decoded)
      { log := account.log.push entry, pending := ∅ }).lookup (vladHash decoded) =
        some { log := account.log.push entry, pending := ∅ } := by
    rw [FiniteMap.lookup_insert, if_pos rfl]
  obtain ⟨last, pairs, head⟩ := verified.head
  have edited {edit : GrantEdit} (edits : EditsListing account.log edit p.unsigned) :
      ListedAt (FiniteMap.insert cache (vladHash decoded) { log := account.log.push entry, pending := ∅ })
        summary.vlad (edit.apply (delegationsOf last pairs)) := by
    have listed := (edits entry (entries.proofOnly _ _ _ built) extended account
      { log := account.log.push entry, pending := ∅ } rfl rfl _ head.listDelegations).1
    rw [sameVlad]
    apply listedAt_cached law { log := account.log.push entry, pending := ∅ } _ listed
    rw [← placed, keyed]
    rfl
  have events : (AccountReply.committed (.ok (summary, p.kind, p.path))).toReply =
      ⟨.summary summary, .accountUpdated summary.headCid :: op.announces summary.vlad⟩ :=
    congrArg (Reply.mk (.summary summary)) (prepared.announced summary)
  rw [events]
  apply tellsTruth_committed noted (AccountCache.get_ok.mpr ⟨decoded, isVlad, rfl, placed⟩)
    sameVlad.symm sameHead.symm
  · intro path pubkeyMultibase asked
    obtain ⟨pubkey, edits⟩ := prepared.grants path pubkeyMultibase asked
    refine ⟨_, edited edits, List.mem_map.mpr ⟨⟨path, pubkey⟩, ?_, rfl⟩⟩
    simp [GrantEdit.apply, mem_sortBy]
  · intro path asked
    refine ⟨_, edited (prepared.withdraws path asked), ?_⟩
    simp [GrantEdit.apply]

/-- In every reachable state and for every call: a response has an `error` member
exactly when the call emitted one `error` event with that message, and otherwise it
emitted none; `account_created` comes from a successful creation alone, and the
account is then cached; and a successful commit, and nothing else, emits one
`account_updated` with the new head, and the grant event of the prepare that its
challenge came from, which the listing then bears out. -/
theorem call_tells_truth (keys : KeyLaws) (multikeys : MultikeyLaws) (entries : EntryLaws)
    (opLaw : OpLaw) (append : AppendLaws) (verify : VerifyLaws) (law : VladLaw)
    (run : List (Call × Ambient)) (call : Call) (ambient : Ambient) :
    TellsTruth (challengeNotes run) call
      (AccountsModule.dispatch (accountsModule.after ∅ run) call ambient).1
      (AccountsModule.dispatch (accountsModule.after ∅ run) call ambient).2 := by
  have wellKeyed : WellKeyed (accountsModule.after ∅ run) :=
    reachable_wellKeyed append.keepsVlad law ⟨run, rfl⟩
  have isNoted := challengeNotes_noted keys multikeys entries opLaw append verify run
  generalize accountsModule.after ∅ run = cache at wellKeyed isNoted ⊢
  have outcome := dispatch_outcome cache call ambient
  generalize AccountsModule.dispatch cache call ambient = result at outcome ⊢
  cases outcome with
  | unaddressed vlad addressed e failed => exact tellsTruth_error e
  | rejected e failed => exact tellsTruth_error e
  | unplaced account summary installs e unkeyed =>
    -- a created account announces itself first, but its VLAD always decodes
    rw [installed_key law (installs_ok installs).1] at unkeyed
    cases unkeyed
  | installed account summary installs key keyed =>
    cases call with
    | createAccount pubkeyMultibase =>
      obtain ⟨_, sameVlad, _⟩ := summary_verified (installs_ok installs).1
      obtain ⟨vlad, decoded, rfl⟩ := AccountCache.keyFromMultibase_ok.mp keyed
      refine tellsTruth_created (AccountCache.get_ok.mpr ⟨vlad, decoded, rfl, ?_⟩) sameVlad.symm
      rw [FiniteMap.lookup_insert, if_pos rfl]
    | importPlog plogB64 => exact tellsTruth_silent nofun nofun nofun
    | _ => cases installs
  | removed vlad named key account found =>
    subst named
    exact tellsTruth_silent nofun nofun nofun
  | cleared named =>
    subst named
    exact tellsTruth_silent nofun nofun nofun
  | read vlad read reads key account found =>
    cases call with
    | exportPlog vlad =>
      cases reads
      exact tellsTruth_silent nofun nofun nofun
    | getValue vlad path =>
      cases reads
      simp only
      cases account.getValue path with
      | error e => exact tellsTruth_error e
      | ok value => exact tellsTruth_silent nofun nofun nofun
    | listDelegations vlad =>
      cases reads
      simp only
      cases account.listDelegations with
      | error e => exact tellsTruth_error e
      | ok list => exact tellsTruth_silent nofun nofun nofun
    | _ => cases reads
  | acted vlad op acts key account found =>
    obtain ⟨_, _, _, present⟩ := AccountCache.get_ok.mp found
    cases op with
    | prepareUpdate requestJson => exact prepared_tellsTruth acts account rfl _
    | prepareDelegate path pubkeyMultibase => exact prepared_tellsTruth acts account rfl _
    | prepareRevoke path => exact prepared_tellsTruth acts account rfl _
    | commitUpdate id signature =>
      have named : call = .commitUpdate vlad id signature := by
        cases call <;> cases acts
        rfl
      subst named
      simp only [PlogAccount.perform]
      cases answer : (account.commitUpdate id signature ambient).1 with
      | error e => exact tellsTruth_error e
      | ok result =>
        obtain ⟨verified, pending⟩ := isNoted key account present
        exact commit_tellsTruth law entries append found (wellKeyed key account present) verified
          pending answer
    | cancelUpdate id =>
      simp only [PlogAccount.perform]
      cases (account.cancelUpdate id ambient).1 with
      | error e => exact tellsTruth_error e
      | ok done =>
        apply tellsTruth_silent (by simp) (by simp)
        rintro vlad' id signature rfl
        cases acts

end

section
open Reference

def delegatingCalls : List (Call × Ambient) :=
  [(.createAccount "u5wEC", sampleAmbient 0 9),
    (.prepareDelegate "uhwAA6eE" "/a/" "u5wkJ", sampleAmbient 1 0)]

def committingCall : Call := .commitUpdate "uhwAA6eE" delegationChallenge.challengeId "uAQL8CM0U"

/-- Its commit announces the new head and the grant. -/
theorem call_tells_truth_delegation :
    (AccountsModule.dispatch (accountsModule.after ∅ delegatingCalls) committingCall
        (sampleAmbient 2 9)).2.events =
      [.accountUpdated "uoH0bJg", .pathDelegated "uhwAA6eE" "/a/"] ∧
    TellsTruth (challengeNotes delegatingCalls) committingCall
      (AccountsModule.dispatch (accountsModule.after ∅ delegatingCalls) committingCall
        (sampleAmbient 2 9)).1
      (AccountsModule.dispatch (accountsModule.after ∅ delegatingCalls) committingCall
        (sampleAmbient 2 9)).2 := by
  have truth := call_tells_truth keyLaws multikeyLaws entryLaws opLaw appendLaws verifyLaws vladLaw
    delegatingCalls committingCall (sampleAmbient 2 9)
  refine ⟨?_, truth⟩
  decide +kernel

end

end LogosAccounts
