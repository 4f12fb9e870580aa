import LogosAccounts.Proof.PendingLife

/-! The exact life of a challenge over whole runs: a commit finds it exactly from
its issue until it expires or something ends it. -/

namespace LogosAccounts
open BetterSign hiding mk
open Functional

section
variable [BetterSign] {id : String} {t : Nat} {vlad : Vlad}

omit [BetterSign] in
/-- The clock readings of the run, two for each call, do not decrease. -/
structure Chronological [BetterSign] (run : List (Call × Ambient)) : Prop where
  within : ∀ action ∈ run, action.2.now ≤ action.2.issuedAt
  between : run.Pairwise fun earlier later => earlier.2.issuedAt ≤ later.2.now

theorem Chronological.init {run : List (Call × Ambient)} {action : Call × Ambient}
    (ordered : Chronological (run ++ [action])) :
    Chronological run ∧ ∀ earlier ∈ run, earlier.2.issuedAt ≤ action.2.now := by
  obtain ⟨within, between⟩ := ordered
  rw [List.pairwise_append] at between
  refine ⟨⟨fun earlier member => within earlier (by simp [member]), between.1⟩, ?_⟩
  intro earlier member
  exact between.2.2 earlier member action (by simp)

/-- Every pending challenge was stored at a clock reading of the run. -/
def Dated (run : List (Call × Ambient)) (cache : AccountCache) : Prop :=
  ∀ key account id p, cache.lookup key = some account → account.pending.lookup id = some p →
    ∃ action ∈ run, p.createdAt = action.2.issuedAt

theorem run_dated (append : AppendLaws) (run : List (Call × Ambient)) :
    Dated run (accountsModule.after ∅ run) := by
  have each : FiniteMap.Each (accountsModule.after ∅ run) fun _ account =>
      FiniteMap.Each account.pending fun _ p => ∃ action ∈ run, p.createdAt = action.2.issuedAt := by
    apply run_each
    · intro call ambient _ account summary key installs _
      rw [(installs_ok installs).2]
      exact .empty
    · intro call ambient member vlad op key account _ dated
      have change := account.perform_change append op ambient
      generalize (account.perform op ambient).1 = after at change ⊢
      cases change with
      | dropped pending part => exact dated.submap part
      | issued pending part id fresh input unsigned built =>
        exact (dated.submap part).insert ⟨(call, ambient), member, rfl⟩
      | appended entry verified => exact .empty
  exact fun key account id p cached => each key account cached id p

/-- No VLAD in use in the run shares the hash of `vlad`. -/
def Unshared (vlad : Vlad) (run : List (Call × Ambient)) : Prop :=
  ∀ action ∈ run, ∀ vlad', Call.names action = some vlad' →
    vladHash vlad' = vladHash vlad → vlad' = vlad

/-- A prepare on the account of `vlad` issues `id` less than 15 minutes before `t`. -/
def IssuesFor (vlad : Vlad) (id : String) (t : Nat) (cache : AccountCache)
    (action : Call × Ambient) : Prop :=
  (∃ challenge, Issues vlad challenge cache action ∧ challenge.challengeId = id) ∧
    t - action.2.issuedAt < challengeTtl

/-- The challenge is live at the end of a run exactly when it was issued for `t`
and nothing has ended it since. -/
theorem live_iff_since (append : AppendLaws) (root : RootKeyParses) (law : VladLaw)
    {run : List (Call × Ambient)} (ordered : Chronological run)
    (bound : ∀ action ∈ run, action.2.now ≤ t) (unshared : Unshared vlad run) :
    Live (accountsModule.after ∅ run) vlad id t ↔
      accountsModule.Since ∅ (fun cache action => ¬ Ends vlad id cache action)
        (IssuesFor vlad id t) run := by
  induction run using List.reverseRecOn with
  | nil =>
    constructor
    · rintro ⟨account, cached, _⟩
      cases cached
    · exact fun since => absurd since Machine.not_since_nil
  | append_singleton run action ih =>
    obtain ⟨earlier, times⟩ := ordered.init
    have reading : action.2.now ≤ action.2.issuedAt := ordered.within action (by simp)
    have dated : ∀ account p, (accountsModule.after ∅ run).lookup (vladHash vlad) = some account →
        account.pending.lookup id = some p → p.createdAt ≤ action.2.issuedAt := by
      intro account p cached stored
      obtain ⟨origin, member, created⟩ := run_dated append run _ account id p cached stored
      have past := times origin member
      omega
    have ih := ih earlier (fun other member => bound other (by simp [member]))
      (fun other member => unshared other (by simp [member]))
    rw [Machine.after_snoc, Machine.since_snoc, ← ih]
    exact step_live append root law (bound action (by simp)) dated (unshared action (by simp))

/-- The commit's answer is none of the three that end before or at the lookup. -/
def GetsPastLookup (s : String) (response : Response) : Prop :=
  (∃ vlad, decodeVlad s = .ok vlad) ∧ (∀ hash, response ≠ .error (.accountNotCached hash)) ∧
    ∀ id, response ≠ .error (.challengeNotFound id)

theorem past_lookup_iff_live (append : AppendLaws) (root : RootKeyParses) {s : String}
    (decoded : decodeVlad s = .ok vlad) (cache : AccountCache) (signature : String)
    (ambient : Ambient) :
    GetsPastLookup s
        (accountsModule.reply cache (.commitUpdate s id signature, ambient)).response ↔
      Live cache vlad id ambient.now := by
  have acts : (Call.commitUpdate s id signature).accountOp = some (s, .commitUpdate id signature) := rfl
  have step : accountsModule.reply cache (.commitUpdate s id signature, ambient) =
      (AccountsModule.withAccountMut cache s fun account =>
        ((account.perform (.commitUpdate id signature) ambient).1,
          (account.perform (.commitUpdate id signature) ambient).2.toReply)).2 :=
    congrArg Prod.snd (dispatch_accountOp acts cache ambient)
  rw [step]
  simp only [AccountsModule.withAccountMut, AccountCache.get_eq decoded]
  cases cached : cache.lookup (vladHash vlad) with
  | none =>
    simp [GetsPastLookup, errJson, Live, cached]
  | some account =>
    have live : Live cache vlad id ambient.now ↔ account.Live id ambient.now := by
      simp [Live, cached]
    rw [live, ← account.live_purge id (Nat.le_refl ambient.now)]
    have outcome := account.commitUpdate_outcome append id signature ambient
    simp only [PlogAccount.perform]
    generalize account.commitUpdate id signature ambient = result at outcome ⊢
    have youngest {p : PendingUpdate}
        (found : (account.purgeExpiredChallenges ambient.now).pending.lookup id = some p) :
        (account.purgeExpiredChallenges ambient.now).Live id ambient.now :=
      ⟨p, found, ((account.purge_lookup_some _ _ _).mp found).2⟩
    cases outcome with
    | unknown missing =>
      have dead : ¬ (account.purgeExpiredChallenges ambient.now).Live id ambient.now := by
        rintro ⟨p, found, _⟩
        rw [missing] at found
        cases found
      simp [GetsPastLookup, AccountReply.toReply, errJson, dead]
    | refused e p found kind =>
      simp only [youngest found, iff_true]
      refine ⟨⟨vlad, decoded⟩, ?_, ?_⟩
      · rintro hash ⟨⟩
        cases kind
      · rintro other ⟨⟩
        cases kind
    | appended p found sameHead decodedSignature decodes entry built verified =>
      obtain ⟨summary, summarised, _⟩ := PlogAccount.CommitOutcome.summary_ok root verified
      simp only [youngest found, iff_true]
      rw [summarised]
      exact ⟨⟨vlad, decoded⟩, fun hash => by simp [Except.map, AccountReply.toReply],
        fun other => by simp [Except.map, AccountReply.toReply]⟩

def Call.drawn (action : Call × Ambient) : Option String :=
  action.1.accountOp.bind fun named => named.2.drawn action.2

theorem Issues.acted {challenge : UpdateChallenge} {cache : AccountCache}
    {action : Call × Ambient} (issues : Issues vlad challenge cache action) :
    ∃ s op account, action.1.accountOp = some (s, op) ∧
      cache.lookup (vladHash vlad) = some account ∧
      (account.perform op action.2).2 = .challenge (.ok challenge) ∧
      (accountsModule.next cache action).lookup (vladHash vlad) =
        some (account.perform op action.2).1 := by
  obtain ⟨call, ambient⟩ := action
  obtain ⟨on, issued⟩ := issues
  have outcome : OnOutcome cache vlad call ambient
      (accountsModule.next cache (call, ambient), accountsModule.reply cache (call, ambient)) :=
    dispatch_on on cache ambient
  generalize accountsModule.next cache (call, ambient) = cache' at outcome ⊢
  generalize accountsModule.reply cache (call, ambient) = reply at outcome issued
  cases outcome with
  | absent missing e => cases issued
  | removed s decoded isRemove account present => cases issued
  | read s read reads account present =>
    exact absurd issued (Call.reader_not_challenge reads account challenge)
  | acted s decoded op acts account present =>
    refine ⟨s, op, account, acts, present, AccountReply.toReply_challenge.mp issued, ?_⟩
    simp [FiniteMap.lookup_insert]

theorem Issues.drawn {challenge : UpdateChallenge} {cache : AccountCache}
    {action : Call × Ambient} (issues : Issues vlad challenge cache action) :
    Call.drawn action = some challenge.challengeId := by
  obtain ⟨s, op, account, acts, _, issued, _⟩ := issues.acted
  have prepared : accountMachine.reply account (op, action.2) = .challenge (.ok challenge) := issued
  rw [Call.drawn, acts]
  exact (prepared_held account (op, action.2) prepared).1

omit [BetterSign] in
private theorem drawn_once {α β : Type} {draw : α → Option β} {items before before' later later' : List α}
    {first second : α} {drawn : β} (fresh : (items.filterMap draw).Nodup)
    (split : items = before ++ first :: later) (split' : items = before' ++ second :: later')
    (draws : draw first = some drawn) (draws' : draw second = some drawn) : first = second := by
  have apart {before middle later : List α} {first second : α}
      (fresh : ((before ++ first :: (middle ++ second :: later)).filterMap draw).Nodup)
      (draws : draw first = some drawn) (draws' : draw second = some drawn) : False := by
    simp [draws, draws', List.nodup_append] at fresh
  rw [split] at fresh split'
  rcases List.append_eq_append_iff.mp split' with ⟨middle, rfl, rest⟩ | ⟨middle, rfl, rest⟩
  · cases middle with
    | nil => exact (List.cons.inj rest).1
    | cons head middle =>
      obtain ⟨rfl, rfl⟩ := List.cons.inj rest
      exact (apart fresh draws draws').elim
  · cases middle with
    | nil => exact (List.cons.inj rest).1.symm
    | cons head middle =>
      obtain ⟨rfl, rfl⟩ := List.cons.inj rest
      rw [List.append_assoc, List.cons_append] at fresh
      exact (apart fresh draws' draws).elim

theorem log_persists (append : AppendLaws) (root : RootKeyParses) (law : VladLaw)
    {cache : AccountCache} {action : Call × Ambient} {account : PlogAccount}
    (unshared : ∀ vlad', Call.names action = some vlad' → vladHash vlad' = vladHash vlad → vlad' = vlad)
    (present : cache.lookup (vladHash vlad) = some account) (kept : ¬ Ends vlad id cache action) :
    ∃ account', (accountsModule.next cache action).lookup (vladHash vlad) = some account' ∧
      account'.log = account.log := by
  by_cases foreign : ¬ (action.1.On vlad ∨ action.1 = .clearCache ∨ Call.Installs action vlad)
  · exact ⟨account, (lookup_elsewhere law unshared foreign).trans present, rfl⟩
  · have on : action.1.On vlad := by
      rcases not_not.mp foreign with isNamed | isClear | installs
      · exact isNamed
      · exact absurd (.cleared isClear) kept
      · exact absurd (.replaced installs) kept
    obtain ⟨call, ambient⟩ := action
    have outcome : OnOutcome cache vlad call ambient
        (accountsModule.next cache (call, ambient), accountsModule.reply cache (call, ambient)) :=
      dispatch_on on cache ambient
    generalize accountsModule.next cache (call, ambient) = cache' at outcome ⊢
    generalize answer : accountsModule.reply cache (call, ambient) = reply at outcome
    cases outcome with
    | absent missing e => exact ⟨account, present, rfl⟩
    | removed s decoded isRemove account' present' =>
      exact absurd (.removed s decoded isRemove (by rw [answer]; rfl)) kept
    | read s read reads account' present' => exact ⟨account, present, rfl⟩
    | acted s decoded op acts account' present' =>
      obtain rfl := Option.some.inj (present.symm.trans present')
      refine ⟨(account.perform op ambient).1, by simp [FiniteMap.lookup_insert], ?_⟩
      rcases account.perform_log append root op ambient with same | ⟨other, signature, entry, rfl, done, _⟩
      · exact same
      · have isCommit : call = .commitUpdate s other signature := by
          cases call <;> cases acts
          rfl
        exact absurd (.committed s other signature decoded isCommit (by rw [answer]; exact done)) kept

/-- The issue of the challenge while the account's log is `log`. -/
def IssuesOn (vlad : Vlad) (challenge : UpdateChallenge) (log : Log) (cache : AccountCache)
    (action : Call × Ambient) : Prop :=
  Issues vlad challenge cache action ∧
    ∃ account, cache.lookup (vladHash vlad) = some account ∧ account.log = log

/-- While a challenge lives, the account's log is the one it was prepared on. -/
theorem since_log (append : AppendLaws) (root : RootKeyParses) (law : VladLaw)
    {challenge : UpdateChallenge} {log : Log} {run : List (Call × Ambient)}
    (unshared : Unshared vlad run)
    (since : accountsModule.Since ∅ (fun cache action => ¬ Ends vlad id cache action)
      (IssuesOn vlad challenge log) run) :
    ∃ account, (accountsModule.after ∅ run).lookup (vladHash vlad) = some account ∧
      account.log = log := by
  induction run using List.reverseRecOn with
  | nil => exact absurd since Machine.not_since_nil
  | append_singleton run action ih =>
    rw [Machine.after_snoc]
    rcases Machine.since_snoc.mp since with ⟨issues, account, present, sameLog⟩ | ⟨earlier, kept⟩
    · obtain ⟨s, op, account', _, present', issued, next⟩ := issues.acted
      obtain rfl := Option.some.inj (present.symm.trans present')
      refine ⟨_, next, ?_⟩
      rcases account.perform_log append root op action.2 with same | ⟨other, signature, entry, rfl, _⟩
      · rw [same, sameLog]
      · cases issued
    · obtain ⟨account, present, sameLog⟩ :=
        ih (fun other member => unshared other (by simp [member])) earlier
      obtain ⟨account', present', same⟩ :=
        log_persists append root law (unshared action (by simp)) present kept
      exact ⟨account', present', same.trans sameLog⟩

/-- At the end of the run, the call commits the challenge, which was prepared on
`log` and has lived since. -/
structure CommitsOn (vlad : Vlad) (log : Log) (challenge : UpdateChallenge)
    (run : List (Call × Ambient)) (action : Call × Ambient) : Prop where
  named : ∃ s signature, action.1 = .commitUpdate s challenge.challengeId signature ∧
    decodeVlad s = .ok vlad
  done : (accountsModule.reply (accountsModule.after ∅ run) action).response.isError = false
  since : accountsModule.Since ∅ (fun cache action => ¬ Ends vlad challenge.challengeId cache action)
    (IssuesOn vlad challenge log) run

def LongEnough (vlad : Vlad) (n : Nat) (cache : AccountCache) : Prop :=
  ∀ account, cache.lookup (vladHash vlad) = some account → n ≤ account.log.entries.length

/-- Unless an account is installed for the VLAD, its log only grows. -/
theorem log_grows (append : AppendLaws) (root : RootKeyParses) (law : VladLaw) {n : Nat}
    {cache : AccountCache} {run : List (Call × Ambient)} (unshared : Unshared vlad run)
    (noInstall : ∀ action ∈ run, ¬ Call.Installs action vlad) (enough : LongEnough vlad n cache) :
    LongEnough vlad n (accountsModule.after cache run) := by
  apply accountsModule.after_preserves enough
  intro cache action member enough account' cached
  have origin := dispatch_log_origin append root law cache action.1 action.2 cached
  cases origin with
  | kept account present same =>
    rw [same]
    exact enough account present
  | committed account present s id signature named addressed succeeded entry extended =>
    have shorter := enough account present
    rw [extended]
    simp only [Log.push, List.length_append]
    omega
  | installed summary installs answered own =>
    have names : Call.names action = some account'.log.vlad := by simp [Call.names, installs]
    exact absurd ⟨account', summary, installs, unshared action member _ names own.symm⟩
      (noInstall action member)

/-- A successful commit leaves a log one entry longer. -/
theorem commit_lengthens (append : AppendLaws) {cache : AccountCache}
    {action : Call × Ambient} {s signature : String} (named : action.1 = .commitUpdate s id signature)
    (decoded : decodeVlad s = .ok vlad)
    (done : (accountsModule.reply cache action).response.isError = false) {account : PlogAccount}
    (present : cache.lookup (vladHash vlad) = some account) :
    LongEnough vlad (account.log.entries.length + 1) (accountsModule.next cache action) := by
  obtain ⟨call, ambient⟩ := action
  subst named
  have acts : (Call.commitUpdate s id signature).accountOp = some (s, .commitUpdate id signature) := rfl
  have step : AccountsModule.dispatch cache (.commitUpdate s id signature) ambient =
      (FiniteMap.insert cache (vladHash vlad) (account.perform (.commitUpdate id signature) ambient).1,
        (account.perform (.commitUpdate id signature) ambient).2.toReply) := by
    rw [dispatch_accountOp acts]
    simp only [AccountsModule.withAccountMut, AccountCache.get_eq decoded, present]
  change (AccountsModule.dispatch cache (.commitUpdate s id signature) ambient).2.response.isError =
    false at done
  intro account' cached
  change (AccountsModule.dispatch cache (.commitUpdate s id signature) ambient).1.lookup _ = _ at cached
  rw [step] at done cached
  simp only [FiniteMap.lookup_insert, if_true, Option.some.injEq] at cached
  obtain ⟨result, success⟩ := AccountReply.toReply_committed.mp done
  obtain ⟨_, _, entry, _, _, _, after, _⟩ := account.commitUpdate_ok append success
  change (account.commitUpdate id signature ambient).2 = account' at cached
  rw [← cached, after]
  simp [Log.push]

/-- Of the challenges prepared on one log, at most one is committed before an
account is installed for the VLAD again. -/
theorem one_commit_per_log (append : AppendLaws) (root : RootKeyParses) (law : VladLaw) {log : Log}
    {before between : List (Call × Ambient)} {first second : Call × Ambient}
    {challenge challenge' : UpdateChallenge}
    (unshared : Unshared vlad (before ++ first :: between))
    (commits : CommitsOn vlad log challenge before first)
    (commits' : CommitsOn vlad log challenge' (before ++ first :: between) second) :
    ∃ action ∈ between, Call.Installs action vlad := by
  by_contra noInstall
  simp only [not_exists, not_and] at noInstall
  obtain ⟨s, signature, named, decoded⟩ := commits.named
  obtain ⟨account, present, sameLog⟩ := since_log append root law
    (fun action member => unshared action (by simp [member])) commits.since
  have longer := commit_lengthens append named decoded commits.done present
  have grown := log_grows append root law (fun action member => unshared action (by simp [member]))
    noInstall longer
  obtain ⟨account', present', sameLog'⟩ := since_log append root law unshared commits'.since
  rw [Machine.after_append, Machine.after_cons] at present'
  have bound := grown account' present'
  rw [sameLog, sameLog'] at bound
  omega

theorem unshared_of_noCollision {run : List (Call × Ambient)} {action : Call × Ambient}
    (distinct : NoCollision { vlad | vlad ∈ vladsInUse (run ++ [action]) })
    (names : Call.names action = some vlad) : Unshared vlad run := by
  intro other member vlad' names' same
  have inUse' : vlad' ∈ vladsInUse (run ++ [action]) :=
    List.mem_filterMap.mpr ⟨other, by simp [member], names'⟩
  have inUse : vlad ∈ vladsInUse (run ++ [action]) :=
    List.mem_filterMap.mpr ⟨action, by simp, names⟩
  exact distinct inUse' inUse same

/-- In any run at non-decreasing times a commit gets past the lookup exactly when
its id was issued on the account of its VLAD less than 15 minutes before and
nothing has ended the challenge since; an id issued on one account never works
on another; and of the challenges prepared on one log at most one is committed
unless an account is installed for the VLAD again. -/
theorem challenge_life (append : AppendLaws) (root : RootKeyParses) (law : VladLaw)
    (run : List (Call × Ambient)) (s id signature : String) (ambient : Ambient)
    (ordered : Chronological (run ++ [(.commitUpdate s id signature, ambient)]))
    (distinct : NoCollision
      { vlad | vlad ∈ vladsInUse (run ++ [(.commitUpdate s id signature, ambient)]) })
    (fresh : (run.filterMap Call.drawn).Nodup) :
    (GetsPastLookup s (accountsModule.reply (accountsModule.after ∅ run)
        (.commitUpdate s id signature, ambient)).response ↔
      ∃ vlad, decodeVlad s = .ok vlad ∧
        accountsModule.Since ∅ (fun cache action => ¬ Ends vlad id cache action)
          (IssuesFor vlad id ambient.now) run) ∧
    (∀ before prepare later vlad challenge, run = before ++ prepare :: later →
      Issues vlad challenge (accountsModule.after ∅ before) prepare → challenge.challengeId = id →
        decodeVlad s ≠ .ok vlad →
          ¬ GetsPastLookup s (accountsModule.reply (accountsModule.after ∅ run)
            (.commitUpdate s id signature, ambient)).response) ∧
    (∀ before first between vlad log challenge challenge', run = before ++ first :: between →
      CommitsOn vlad log challenge before first →
        CommitsOn vlad log challenge' run (.commitUpdate s id signature, ambient) →
          ∃ action ∈ between, Call.Installs action vlad) := by
  have names {vlad : Vlad} (decoded : decodeVlad s = .ok vlad) :
      Call.names (.commitUpdate s id signature, ambient) = some vlad := by
    simp [Call.names, Call.installs, Call.vladArgument, decoded, Except.toOption]
  obtain ⟨earlier, times⟩ := ordered.init
  have bound : ∀ action ∈ run, action.2.now ≤ ambient.now := by
    intro action member
    have reading := earlier.within action member
    have past := times action member
    exact Nat.le_trans reading past
  have exact_life : GetsPastLookup s (accountsModule.reply (accountsModule.after ∅ run)
        (.commitUpdate s id signature, ambient)).response ↔
      ∃ vlad, decodeVlad s = .ok vlad ∧
        accountsModule.Since ∅ (fun cache action => ¬ Ends vlad id cache action)
          (IssuesFor vlad id ambient.now) run := by
    constructor
    · intro past
      obtain ⟨vlad, decoded⟩ := past.1
      have live := (past_lookup_iff_live append root decoded _ signature ambient).mp past
      have unshared := unshared_of_noCollision distinct (names decoded)
      exact ⟨vlad, decoded, (live_iff_since append root law earlier bound unshared).mp live⟩
    · rintro ⟨vlad, decoded, since⟩
      have unshared := unshared_of_noCollision distinct (names decoded)
      have live := (live_iff_since append root law earlier bound unshared).mpr since
      exact (past_lookup_iff_live append root decoded _ signature ambient).mpr live
  refine ⟨exact_life, ?_, ?_⟩
  · intro before prepare later vlad challenge split issues isId elsewhere past
    obtain ⟨vlad', decoded, before', prepare', later', split', ⟨⟨challenge', issues', isId'⟩, _⟩, _⟩ :=
      exact_life.mp past
    have draws := issues.drawn
    have draws' := issues'.drawn
    rw [isId] at draws
    rw [isId'] at draws'
    obtain rfl := drawn_once fresh split split' draws draws'
    obtain ⟨⟨s', named, decoded'⟩, _⟩ := issues
    obtain ⟨⟨s'', named', decoded''⟩, _⟩ := issues'
    obtain rfl := Option.some.inj (named.symm.trans named')
    obtain rfl := Except.ok.inj (decoded'.symm.trans decoded'')
    exact elsewhere decoded
  · intro before first between vlad log challenge challenge' split commits commits'
    subst split
    obtain ⟨s', signature', named, decoded⟩ := commits'.named
    obtain ⟨rfl, _, _⟩ := Call.commitUpdate.inj named
    have unshared := unshared_of_noCollision distinct (names decoded)
    exact one_commit_per_log append root law unshared commits commits'

end

section
open Reference

def secondChallenge : UpdateChallenge :=
  { delegationChallenge with challengeId := "uAQEBAQEBAQEBAQEBAQEBAQ" }

/-- The account is imported again from its first export, and the delegation
prepared again. -/
def reimportCalls : List (Call × Ambient) :=
  [(.importPlog "uBYcAAOnhBHgy-YN4MvmD", sampleAmbient 4 9),
    (.prepareDelegate "uhwAA6eE" "/a/" "u5wkJ", sampleAmbient 5 1)]

def secondCommit : Call × Ambient :=
  (.commitUpdate "uhwAA6eE" "uAQEBAQEBAQEBAQEBAQEBAQ" "uAQL8CM0U", sampleAmbient 6 9)

private theorem commitsOn_snoc {vlad : Vlad} {log : Log} {challenge : UpdateChallenge}
    (run : List (Call × Ambient)) {prepare action : Call × Ambient}
    (named : ∃ s signature, action.1 = .commitUpdate s challenge.challengeId signature ∧
      decodeVlad s = .ok vlad)
    (done : (accountsModule.reply (accountsModule.after ∅ (run ++ [prepare])) action).response.isError
      = false)
    (on : prepare.1.On vlad)
    (issued : (accountsModule.reply (accountsModule.after ∅ run) prepare).response =
      .challenge challenge)
    (head : ((accountsModule.after ∅ run).lookup (vladHash vlad)).map PlogAccount.log = some log) :
    CommitsOn vlad log challenge (run ++ [prepare]) action where
  named := named
  done := done
  since := Machine.since_snoc.mpr (.inl ⟨⟨on, issued⟩, Option.map_eq_some_iff.mp head⟩)

/-- Two challenges prepared on one head, both committed: the first export is
imported again in between. -/
theorem reimport_commits_twice_on_one_head :
    Chronological (delegationCalls ++ reimportCalls ++ [secondCommit]) ∧
    ((delegationCalls ++ reimportCalls).filterMap Call.drawn).Nodup ∧
    delegationChallenge.headCid = secondChallenge.headCid ∧
    ∃ first, delegationCalls = delegationCalls.take 2 ++ [first] ∧
      CommitsOn ([0x87, 0, 0, 0xe9, 0xe1] : Bytes) (openedLog rootKey [7]) delegationChallenge
        (delegationCalls.take 2) first ∧
      CommitsOn ([0x87, 0, 0, 0xe9, 0xe1] : Bytes) (openedLog rootKey [7]) secondChallenge
        (delegationCalls.take 2 ++ first :: reimportCalls) secondCommit := by
  have decoded : decodeVlad "uhwAA6eE" = .ok ([0x87, 0, 0, 0xe9, 0xe1] : Bytes) := by decide +kernel
  refine ⟨⟨by decide, by decide⟩, by decide +kernel, rfl, _, rfl, ?_, ?_⟩
  · exact commitsOn_snoc (delegationCalls.take 1) ⟨_, _, rfl, decoded⟩ (by decide +kernel)
      ⟨_, rfl, decoded⟩ (by decide +kernel) (by decide +kernel)
  · exact commitsOn_snoc (delegationCalls ++ reimportCalls.take 1) ⟨_, _, rfl, decoded⟩
      (by decide +kernel) ⟨_, rfl, decoded⟩ (by decide +kernel) (by decide +kernel)

/-- The commit of the sample delegation. -/
theorem challenge_life_delegation :
    GetsPastLookup "uhwAA6eE" (accountsModule.reply (accountsModule.after ∅ (delegationCalls.take 2))
        (.commitUpdate "uhwAA6eE" "uAAAAAAAAAAAAAAAAAAAAAA" "uAQL8CM0U", sampleAmbient 3 9)).response ↔
      ∃ vlad, decodeVlad "uhwAA6eE" = .ok vlad ∧
        accountsModule.Since ∅
          (fun cache action => ¬ Ends vlad "uAAAAAAAAAAAAAAAAAAAAAA" cache action)
          (IssuesFor vlad "uAAAAAAAAAAAAAAAAAAAAAA" 3) (delegationCalls.take 2) := by
  have inUse : vladsInUse (delegationCalls.take 2 ++
      [(.commitUpdate "uhwAA6eE" "uAAAAAAAAAAAAAAAAAAAAAA" "uAQL8CM0U", sampleAmbient 3 9)]) =
        List.replicate 3 ([0x87, 0, 0, 0xe9, 0xe1] : Bytes) := by decide +kernel
  refine (challenge_life appendLaws rootKeyParses vladLaw (delegationCalls.take 2) "uhwAA6eE"
    "uAAAAAAAAAAAAAAAAAAAAAA" "uAQL8CM0U" (sampleAmbient 3 9) ⟨by decide, by decide⟩ ?_
    (by decide +kernel)).1
  rw [inUse]
  intro left isLeft right isRight _
  rw [List.eq_of_mem_replicate isLeft, List.eq_of_mem_replicate isRight]

end

end LogosAccounts
