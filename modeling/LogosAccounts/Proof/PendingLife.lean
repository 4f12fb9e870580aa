import LogosAccounts.Proof.Isolation

/-! What one step does to the life of a challenge: which steps issue it, which
end it, and that no other step changes whether a commit can still use it. -/

namespace LogosAccounts
open BetterSign hiding mk
open Functional
variable [BetterSign] {id : String} {t : Nat}

/-- The challenge is pending, and at `t` it is younger than 15 minutes. -/
def PlogAccount.Live (account : PlogAccount) (id : String) (t : Nat) : Prop :=
  ∃ p, account.pending.lookup id = some p ∧ t - p.createdAt < challengeTtl

omit [BetterSign] in
def AccountReply.Issues (reply : AccountReply) (id : String) : Prop :=
  ∃ challenge, reply = .challenge (.ok challenge) ∧ challenge.challengeId = id

omit [BetterSign] in
/-- A successful cancel of `id`, any commit of `id`, or a successful commit. -/
inductive AccountOp.Ends (op : AccountOp) (reply : AccountReply) (id : String) : Prop where
  | cancelled (named : op = .cancelUpdate id) (done : reply = .cancelled (.ok ()))
  | attempted (signature : String) (named : op = .commitUpdate id signature)
  | committed (other signature : String) (named : op = .commitUpdate other signature)
      (result : AccountSummary × UpdateKind × Option String) (done : reply = .committed (.ok result))

theorem PlogAccount.live_purge (account : PlogAccount) (id : String) {now : Nat} (before : now ≤ t) :
    (account.purgeExpiredChallenges now).Live id t ↔ account.Live id t := by
  constructor
  · rintro ⟨p, found, young⟩
    exact ⟨p, ((account.purge_lookup_some now id p).mp found).1, young⟩
  · rintro ⟨p, found, young⟩
    have younger : now - p.createdAt < challengeTtl := by omega
    exact ⟨p, (account.purge_lookup_some now id p).mpr ⟨found, younger⟩, young⟩

private theorem live_erase {log : Log} {pending : FiniteMap String PendingUpdate} {other : String}
    (different : id ≠ other) :
    (PlogAccount.mk log (pending.erase other)).Live id t ↔ (PlogAccount.mk log pending).Live id t := by
  simp only [PlogAccount.Live, FiniteMap.lookup_erase, different, if_false]

private theorem not_live_absent {account : PlogAccount} (absent : account.pending.lookup id = none) :
    ¬ account.Live id t := by
  rintro ⟨p, found, _⟩
  rw [absent] at found
  cases found

private theorem prepare_live {account : PlogAccount} {spec : Except Error PrepareEntrySpec}
    {ambient : Ambient} {result : Except Error UpdateChallenge × PlogAccount}
    (outcome : account.PrepareOutcome spec ambient result) (before : ambient.now ≤ t)
    (dated : ∀ p, account.pending.lookup id = some p → p.createdAt ≤ ambient.issuedAt) :
    result.2.Live id t ↔
      ((AccountReply.challenge result.1).Issues id ∧ t - ambient.issuedAt < challengeTtl) ∨
        account.Live id t := by
  have silent (e : Error) : ¬ (AccountReply.challenge (.error e)).Issues id := by
    rintro ⟨challenge, impossible, _⟩
    cases impossible
  cases outcome with
  | invalid e rejected => simp only [silent, false_and, false_or]
  | refused e input given rejected =>
    simp only [silent, false_and, false_or, account.live_purge id before]
  | issued input given unsigned built =>
    by_cases same : id = newChallengeId ambient.challengeBytes
    · have issues : (AccountReply.challenge (.ok (account.updateChallenge input unsigned ambient))).Issues
          id := ⟨_, rfl, same.symm⟩
      have stored : (PlogAccount.mk account.log
          ((account.purgeExpiredChallenges ambient.now).pending.insert
            (newChallengeId ambient.challengeBytes)
            (account.pendingUpdate input unsigned ambient))).Live id t ↔
          t - ambient.issuedAt < challengeTtl := by
        simp [PlogAccount.Live, FiniteMap.lookup_insert, same, PlogAccount.pendingUpdate]
      rw [stored]
      simp only [issues, true_and]
      constructor
      · exact .inl
      · rintro (young | ⟨p, found, young⟩)
        · exact young
        · -- an older challenge under the same id is no younger than the new one
          have earlier := dated p found
          omega
    · have other : ¬ (AccountReply.challenge (.ok (account.updateChallenge input unsigned ambient))).Issues
          id := by
        rintro ⟨challenge, issued, named⟩
        cases issued
        exact same named.symm
      simp only [other, false_and, false_or]
      rw [← account.live_purge id before]
      simp only [PlogAccount.Live, FiniteMap.lookup_insert, same, if_false]

private theorem commit_live (root : RootKeyParses) {account : PlogAccount} {other signature : String}
    {ambient : Ambient} {result : Except Error (AccountSummary × UpdateKind × Option String) × PlogAccount}
    (outcome : account.CommitOutcome other signature ambient result) (before : ambient.now ≤ t) :
    result.2.Live id t ↔
      account.Live id t ∧ ¬ (AccountOp.commitUpdate other signature).Ends (.committed result.1) id := by
  have purged := account.live_purge id before
  have survives {e : Error} (different : id ≠ other) :
      ¬ (AccountOp.commitUpdate other signature).Ends (.committed (.error e)) id := by
    rintro (⟨⟨⟩⟩ | ⟨_, same⟩ | ⟨_, _, _, _, ⟨⟩⟩)
    exact different (AccountOp.commitUpdate.inj same).1.symm
  cases outcome with
  | unknown missing =>
    rw [purged]
    by_cases same : id = other
    · subst other
      have dead : ¬ account.Live id t := fun live => not_live_absent missing (purged.mpr live)
      simp only [dead, false_and]
    · simp only [survives same, not_false_eq_true, and_true]
  | refused e p found kind =>
    by_cases same : id = other
    · subst other
      have ended : (AccountOp.commitUpdate id signature).Ends (.committed (.error e)) id :=
        .attempted signature rfl
      have gone : ¬ (PlogAccount.mk account.log
          ((account.purgeExpiredChallenges ambient.now).pending.erase id)).Live id t :=
        not_live_absent (by simp [FiniteMap.lookup_erase])
      simp only [gone, ended, not_true_eq_false, and_false]
    · simp only [survives same, not_false_eq_true, and_true]
      rw [← purged]
      exact live_erase same
  | appended p found sameHead decodedSignature decoded entry built verified =>
    obtain ⟨summary, summarised, _⟩ := PlogAccount.CommitOutcome.summary_ok root verified
    have ended : (AccountOp.commitUpdate other signature).Ends
        (.committed ((summaryFromVerifiedPlog (account.log.push entry)).map fun summary =>
          (summary, p.kind, p.path))) id :=
      .committed other signature rfl (summary, p.kind, p.path) (by rw [summarised]; rfl)
    have gone : ¬ (PlogAccount.mk (account.log.push entry) ∅).Live id t := not_live_absent rfl
    simp only [gone, ended, not_true_eq_false, and_false]

private theorem cancel_live {account : PlogAccount} {other : String} {ambient : Ambient}
    {result : Except Error Unit × PlogAccount} (outcome : account.CancelOutcome other ambient result)
    (before : ambient.now ≤ t) :
    result.2.Live id t ↔
      account.Live id t ∧ ¬ (AccountOp.cancelUpdate other).Ends (.cancelled result.1) id := by
  have purged := account.live_purge id before
  cases outcome with
  | unknown missing =>
    have survives : ¬ (AccountOp.cancelUpdate other).Ends
        (.cancelled (.error (.challengeNotFound other))) id := by
      rintro (⟨_, ⟨⟩⟩ | ⟨_, ⟨⟩⟩ | ⟨_, _, ⟨⟩⟩)
    simp only [survives, not_false_eq_true, and_true]
    exact purged
  | dropped p found =>
    by_cases same : id = other
    · subst other
      have ended : (AccountOp.cancelUpdate id).Ends (.cancelled (.ok ())) id := .cancelled rfl rfl
      have gone : ¬ (PlogAccount.mk account.log
          ((account.purgeExpiredChallenges ambient.now).pending.erase id)).Live id t :=
        not_live_absent (by simp [FiniteMap.lookup_erase])
      simp only [gone, ended, not_true_eq_false, and_false]
    · have survives : ¬ (AccountOp.cancelUpdate other).Ends (.cancelled (.ok ())) id := by
        rintro (⟨named⟩ | ⟨_, ⟨⟩⟩ | ⟨_, _, ⟨⟩⟩)
        exact same (AccountOp.cancelUpdate.inj named).symm
      simp only [survives, not_false_eq_true, and_true]
      rw [← purged]
      exact live_erase same

/-- After an operation a challenge is live exactly when the operation issued it,
or it was live and the operation does not end it. -/
theorem PlogAccount.perform_live (append : AppendLaws) (root : RootKeyParses)
    (account : PlogAccount) (op : AccountOp) (ambient : Ambient) (before : ambient.now ≤ t)
    (dated : ∀ p, account.pending.lookup id = some p → p.createdAt ≤ ambient.issuedAt) :
    (account.perform op ambient).1.Live id t ↔
      ((account.perform op ambient).2.Issues id ∧ t - ambient.issuedAt < challengeTtl) ∨
        (account.Live id t ∧ ¬ op.Ends (account.perform op ambient).2 id) := by
  have outcome := account.perform_outcome append op ambient
  generalize account.perform op ambient = result at outcome ⊢
  cases outcome with
  | prepared spec asked result prepared =>
    have kept : ¬ op.Ends (.challenge result.1) id := by
      intro ends
      cases ends with
      | cancelled named done => cases done
      | attempted signature named =>
        subst named
        cases asked
      | committed other signature named result done => cases done
    simp only [prepare_live prepared before dated, kept, not_false_eq_true, and_true]
  | committed other signature named result commit =>
    subst named
    have quiet : ¬ (AccountReply.committed result.1).Issues id := by
      rintro ⟨challenge, impossible, _⟩
      cases impossible
    simp only [quiet, false_and, false_or]
    exact commit_live root commit before
  | cancelled other named result cancel =>
    subst named
    have quiet : ¬ (AccountReply.cancelled result.1).Issues id := by
      rintro ⟨challenge, impossible, _⟩
      cases impossible
    simp only [quiet, false_and, false_or]
    exact cancel_live cancel before

/-- The call's VLAD argument decodes to `vlad`. -/
def Call.On (call : Call) (vlad : Vlad) : Prop :=
  ∃ s, call.vladArgument = some s ∧ decodeVlad s = .ok vlad

theorem Call.installs_none {call : Call} {s : String}
    (named : call.vladArgument = some s) (ambient : Ambient) : call.installs ambient = none := by
  cases call <;> first | rfl | cases named

inductive OnOutcome (cache : AccountCache) (vlad : Vlad) (call : Call) (ambient : Ambient) :
    AccountCache × Reply → Prop where
  | absent (missing : cache.lookup (vladHash vlad) = none) (e : Error) :
      OnOutcome cache vlad call ambient (cache, errJson e)
  | removed (s : String) (decoded : decodeVlad s = .ok vlad) (named : call = .removePlog s)
      (account : PlogAccount) (present : cache.lookup (vladHash vlad) = some account) :
      OnOutcome cache vlad call ambient (FiniteMap.erase cache (vladHash vlad), silent .removed)
  | read (s : String) (read : PlogAccount → Reply) (reads : call.reader = some (s, read))
      (account : PlogAccount) (present : cache.lookup (vladHash vlad) = some account) :
      OnOutcome cache vlad call ambient (cache, read account)
  | acted (s : String) (decoded : decodeVlad s = .ok vlad) (op : AccountOp)
      (acts : call.accountOp = some (s, op)) (account : PlogAccount)
      (present : cache.lookup (vladHash vlad) = some account) :
      OnOutcome cache vlad call ambient
        (FiniteMap.insert cache (vladHash vlad) (account.perform op ambient).1,
          (account.perform op ambient).2.toReply)

theorem dispatch_on {call : Call} {vlad : Vlad} (on : call.On vlad) (cache : AccountCache)
    (ambient : Ambient) :
    OnOutcome cache vlad call ambient (AccountsModule.dispatch cache call ambient) := by
  obtain ⟨s, named, decoded⟩ := on
  have noInstall := Call.installs_none named ambient
  have own {s' : String} (same : call.vladArgument = some s') : decodeVlad s' = .ok vlad := by
    rw [← Option.some.inj (named.symm.trans same)]
    exact decoded
  have entry {s' : String} {key : VladHash} {account : PlogAccount}
      (same : call.vladArgument = some s') (found : cache.get s' = .ok (key, account)) :
      key = vladHash vlad ∧ cache.lookup (vladHash vlad) = some account := by
    obtain ⟨vlad', decoded', rfl, present⟩ := AccountCache.get_ok.mp found
    obtain rfl := Except.ok.inj ((own same).symm.trans decoded')
    exact ⟨rfl, present⟩
  have outcome := dispatch_outcome cache call ambient
  generalize AccountsModule.dispatch cache call ambient = result at outcome ⊢
  cases outcome with
  | unaddressed s' addressed e failed =>
    have same : call.vladArgument = some s' := by
      rcases addressed with ⟨op, acts⟩ | ⟨read, reads⟩ | rfl
      · exact (Call.accountOp_names acts).1
      · cases call <;> cases reads <;> rfl
      · rfl
    rcases AccountCache.get_error failed with undecoded | ⟨vlad', decoded', missing, _⟩
    · rw [own same] at undecoded
      cases undecoded
    · obtain rfl := Except.ok.inj ((own same).symm.trans decoded')
      exact .absent missing e
  | rejected e failed => simp [noInstall] at failed
  | unplaced account summary installs e unkeyed => simp [noInstall] at installs
  | installed account summary installs key keyed => simp [noInstall] at installs
  | removed s' isRemove key account found =>
    subst isRemove
    obtain ⟨rfl, present⟩ := entry rfl found
    exact .removed s' (own rfl) rfl account present
  | cleared isClear =>
    subst isClear
    cases named
  | read s' read reads key account found =>
    have same : call.vladArgument = some s' := by
      cases call <;> cases reads <;> rfl
    exact .read s' read reads account (entry same found).2
  | acted s' op acts key account found =>
    have same := (Call.accountOp_names acts).1
    obtain ⟨rfl, present⟩ := entry same found
    exact .acted s' (own same) op acts account present

/-- A create or an import that puts in an account with this VLAD. -/
def Call.Installs (action : Call × Ambient) (vlad : Vlad) : Prop :=
  ∃ account summary, action.1.installs action.2 = some (.ok (account, summary)) ∧
    account.log.vlad = vlad

def Call.names (action : Call × Ambient) : Option Vlad :=
  match action.1.installs action.2 with
  | some (.ok (account, _)) => some account.log.vlad
  | some (.error _) => none
  | none => action.1.vladArgument.bind fun s => (decodeVlad s).toOption

def vladsInUse (run : List (Call × Ambient)) : List Vlad := run.filterMap Call.names

/-- The account of `vlad` is cached and can still commit the challenge at `t`. -/
def Live (cache : AccountCache) (vlad : Vlad) (id : String) (t : Nat) : Prop :=
  ∃ account, cache.lookup (vladHash vlad) = some account ∧ account.Live id t

/-- A prepare on the account of `vlad` returns the challenge. -/
def Issues (vlad : Vlad) (challenge : UpdateChallenge) (cache : AccountCache)
    (action : Call × Ambient) : Prop :=
  action.1.On vlad ∧ (accountsModule.reply cache action).response = .challenge challenge

/-- What ends the life of a challenge: a successful cancel, any commit of it that
reaches the lookup, any successful commit, and the removal or replacement of the
account. -/
inductive Ends (vlad : Vlad) (id : String) (cache : AccountCache) (action : Call × Ambient) :
    Prop where
  | cancelled (s : String) (decoded : decodeVlad s = .ok vlad)
      (named : action.1 = .cancelUpdate s id)
      (done : (accountsModule.reply cache action).response = .cancelled)
  | attempted (s signature : String) (decoded : decodeVlad s = .ok vlad)
      (named : action.1 = .commitUpdate s id signature)
      (reached : (cache.lookup (vladHash vlad)).isSome = true)
  | committed (s other signature : String) (decoded : decodeVlad s = .ok vlad)
      (named : action.1 = .commitUpdate s other signature)
      (done : (accountsModule.reply cache action).response.isError = false)
  | removed (s : String) (decoded : decodeVlad s = .ok vlad) (named : action.1 = .removePlog s)
      (done : (accountsModule.reply cache action).response = .removed)
  | cleared (named : action.1 = .clearCache)
  | replaced (installs : Call.Installs action vlad)

theorem Ends.concerns {vlad : Vlad} {cache : AccountCache} {action : Call × Ambient}
    (ends : Ends vlad id cache action) :
    action.1.On vlad ∨ action.1 = .clearCache ∨ Call.Installs action vlad := by
  cases ends with
  | cancelled s decoded named done => exact .inl ⟨s, by rw [named]; rfl, decoded⟩
  | attempted s signature decoded named reached => exact .inl ⟨s, by rw [named]; rfl, decoded⟩
  | committed s other signature decoded named done => exact .inl ⟨s, by rw [named]; rfl, decoded⟩
  | removed s decoded named done => exact .inl ⟨s, by rw [named]; rfl, decoded⟩
  | cleared named => exact .inr (.inl named)
  | replaced installs => exact .inr (.inr installs)

/-- A call that does not concern `vlad`, and whose own VLAD does not collide with
it, leaves the entry alone. -/
theorem lookup_elsewhere (law : VladLaw) {vlad : Vlad} {cache : AccountCache}
    {action : Call × Ambient}
    (distinct : ∀ vlad', Call.names action = some vlad' → vladHash vlad' = vladHash vlad → vlad' = vlad)
    (foreign : ¬ (action.1.On vlad ∨ action.1 = .clearCache ∨ Call.Installs action vlad)) :
    (accountsModule.next cache action).lookup (vladHash vlad) = cache.lookup (vladHash vlad) := by
  obtain ⟨call, ambient⟩ := action
  have aside {s : String} (named : call.vladArgument = some s) {key : VladHash}
      {account : PlogAccount} (found : cache.get s = .ok (key, account))
      (noInstall : call.installs ambient = none) : vladHash vlad ≠ key := by
    obtain ⟨vlad', decoded, rfl, _⟩ := AccountCache.get_ok.mp found
    intro same
    have names : Call.names (call, ambient) = some vlad' := by
      simp [Call.names, noInstall, named, decoded, Except.toOption]
    obtain rfl := distinct vlad' names same.symm
    exact foreign (.inl ⟨s, named, decoded⟩)
  have outcome := dispatch_outcome cache call ambient
  change (AccountsModule.dispatch cache call ambient).1.lookup (vladHash vlad) = _
  generalize AccountsModule.dispatch cache call ambient = result at outcome ⊢
  cases outcome with
  | unaddressed vlad addressed e failed => rfl
  | rejected e failed => rfl
  | unplaced account summary installs e unkeyed => rfl
  | installed account summary installs key keyed =>
    have own := installed_key law (installs_ok installs).1
    obtain rfl := Except.ok.inj (keyed.symm.trans own)
    have elsewhere : vladHash vlad ≠ vladHash account.log.vlad := by
      intro same
      have names : Call.names (call, ambient) = some account.log.vlad := by
        simp [Call.names, installs]
      exact foreign (.inr (.inr ⟨account, summary, installs, distinct _ names same.symm⟩))
    rw [FiniteMap.lookup_insert, if_neg elsewhere]
  | removed s named key account found =>
    subst named
    rw [FiniteMap.lookup_erase, if_neg (aside rfl found rfl)]
  | cleared named => exact absurd (.inr (.inl named)) foreign
  | read s read reads key account found => rfl
  | acted s op acts key account found =>
    have noInstall : call.installs ambient = none := by
      cases call <;> first | rfl | cases acts
    rw [FiniteMap.lookup_insert,
      if_neg (aside (Call.accountOp_names acts).1 found noInstall)]

private theorem acted_ends {vlad : Vlad} {cache : AccountCache} {call : Call} {ambient : Ambient}
    {s : String} {op : AccountOp} (acts : call.accountOp = some (s, op))
    (decoded : decodeVlad s = .ok vlad) {account : PlogAccount}
    (present : cache.lookup (vladHash vlad) = some account)
    (answer : accountsModule.reply cache (call, ambient) = (account.perform op ambient).2.toReply) :
    Ends vlad id cache (call, ambient) ↔ op.Ends (account.perform op ambient).2 id := by
  constructor
  · intro ends
    cases ends with
    | cancelled s' decoded' named done =>
      cases named
      cases acts
      rw [answer, AccountReply.toReply_cancelled] at done
      exact .cancelled rfl done
    | attempted s' signature decoded' named reached =>
      cases named
      cases acts
      exact .attempted signature rfl
    | committed s' other signature decoded' named done =>
      cases named
      cases acts
      rw [answer] at done
      obtain ⟨result, success⟩ := AccountReply.toReply_committed.mp done
      exact .committed other signature rfl result (congrArg AccountReply.committed success)
    | removed s' decoded' named done =>
      cases named
      cases acts
    | cleared named =>
      cases named
      cases acts
    | replaced installs =>
      obtain ⟨new, summary, installs, _⟩ := installs
      cases call <;> first | cases acts; done | cases installs
  · intro ends
    cases ends with
    | cancelled named done =>
      subst named
      have same : call = .cancelUpdate s id := by
        cases call <;> cases acts
        rfl
      exact .cancelled s decoded same (by rw [answer, AccountReply.toReply_cancelled, done])
    | attempted signature named =>
      subst named
      have same : call = .commitUpdate s id signature := by
        cases call <;> cases acts
        rfl
      exact .attempted s signature decoded same (by rw [present]; rfl)
    | committed other signature named result done =>
      subst named
      have same : call = .commitUpdate s other signature := by
        cases call <;> cases acts
        rfl
      exact .committed s other signature decoded same
        (by rw [answer, done, AccountReply.toReply_committed.mpr ⟨result, rfl⟩])

theorem Call.reader_not_challenge {call : Call} {s : String} {read : PlogAccount → Reply}
    (reads : call.reader = some (s, read)) (account : PlogAccount) (challenge : UpdateChallenge) :
    (read account).response ≠ .challenge challenge := by
  cases call with
  | exportPlog vlad =>
    cases reads
    simp [silent]
  | getValue vlad path =>
    cases reads
    cases found : account.getValue path <;> simp [found, silent, errJson]
  | listDelegations vlad =>
    cases reads
    cases found : account.listDelegations <;> simp [found, silent, errJson]
  | _ => cases reads

private theorem on_live (append : AppendLaws) (root : RootKeyParses) {vlad : Vlad}
    {cache : AccountCache} {action : Call × Ambient} (before : action.2.now ≤ t)
    (dated : ∀ account p, cache.lookup (vladHash vlad) = some account →
      account.pending.lookup id = some p → p.createdAt ≤ action.2.issuedAt)
    (named : action.1.On vlad) :
    Live (accountsModule.next cache action) vlad id t ↔
      ((∃ challenge, Issues vlad challenge cache action ∧ challenge.challengeId = id) ∧
        t - action.2.issuedAt < challengeTtl) ∨
      (Live cache vlad id t ∧ ¬ Ends vlad id cache action) := by
  obtain ⟨call, ambient⟩ := action
  have quiet (noChallenge : ∀ challenge,
      (accountsModule.reply cache (call, ambient)).response ≠ .challenge challenge) :
      ¬ ∃ challenge, Issues vlad challenge cache (call, ambient) ∧ challenge.challengeId = id := by
    rintro ⟨challenge, ⟨_, issued⟩, _⟩
    exact noChallenge challenge issued
  have outcome : OnOutcome cache vlad call ambient
      (accountsModule.next cache (call, ambient), accountsModule.reply cache (call, ambient)) :=
    dispatch_on named cache ambient
  generalize next : accountsModule.next cache (call, ambient) = cache' at outcome ⊢
  generalize answer : accountsModule.reply cache (call, ambient) = reply at outcome quiet
  cases outcome with
  | absent missing e =>
    have dead : ¬ Live cache vlad id t := by
      rintro ⟨account, present, _⟩
      rw [missing] at present
      cases present
    simp only [dead, quiet (by simp [errJson]), false_and, or_self]
  | removed s decoded isRemove account present =>
    have ended : Ends vlad id cache (call, ambient) :=
      .removed s decoded isRemove (by rw [answer]; rfl)
    have dead : ¬ Live (FiniteMap.erase cache (vladHash vlad)) vlad id t := by
      rintro ⟨account, impossible, _⟩
      simp [FiniteMap.lookup_erase] at impossible
    simp only [dead, ended, quiet (by simp [silent]), false_and, not_true_eq_false, and_false,
      or_self]
  | read s read reads account present =>
    have survives : ¬ Ends vlad id cache (call, ambient) := by
      intro ends
      cases ends with
      | cancelled s decoded named done => cases named; cases reads
      | attempted s signature decoded named reached => cases named; cases reads
      | committed s other signature decoded named done => cases named; cases reads
      | removed s decoded named done => cases named; cases reads
      | cleared named => cases named; cases reads
      | replaced installs =>
        obtain ⟨_, argument, _⟩ := named
        obtain ⟨_, _, installs, _⟩ := installs
        simp [Call.installs_none argument] at installs
    simp only [survives, quiet (Call.reader_not_challenge reads account), false_and, false_or,
      not_false_eq_true, and_true]
  | acted s decoded op acts account present =>
    have after : Live (FiniteMap.insert cache (vladHash vlad) (account.perform op ambient).1) vlad id t ↔
        (account.perform op ambient).1.Live id t := by
      simp [Live, FiniteMap.lookup_insert]
    have earlier : Live cache vlad id t ↔ account.Live id t := by
      simp [Live, present]
    have issues : (∃ challenge, Issues vlad challenge cache (call, ambient) ∧
        challenge.challengeId = id) ↔ (account.perform op ambient).2.Issues id := by
      constructor
      · rintro ⟨challenge, ⟨_, issued⟩, isId⟩
        rw [answer, AccountReply.toReply_challenge] at issued
        exact ⟨challenge, issued, isId⟩
      · rintro ⟨challenge, issued, isId⟩
        refine ⟨challenge, ⟨named, ?_⟩, isId⟩
        rw [answer, AccountReply.toReply_challenge, issued]
    rw [after, earlier, issues, acted_ends acts decoded present answer]
    exact account.perform_live append root op ambient before fun p stored =>
      dated account p present stored

/-- A challenge is live after a call exactly when the call issued it less than 15
minutes before `t`, or it was live and the call does not end it. -/
theorem step_live (append : AppendLaws) (root : RootKeyParses) (law : VladLaw) {vlad : Vlad}
    {cache : AccountCache} {action : Call × Ambient} (before : action.2.now ≤ t)
    (dated : ∀ account p, cache.lookup (vladHash vlad) = some account →
      account.pending.lookup id = some p → p.createdAt ≤ action.2.issuedAt)
    (distinct : ∀ vlad', Call.names action = some vlad' → vladHash vlad' = vladHash vlad →
      vlad' = vlad) :
    Live (accountsModule.next cache action) vlad id t ↔
      ((∃ challenge, Issues vlad challenge cache action ∧ challenge.challengeId = id) ∧
        t - action.2.issuedAt < challengeTtl) ∨
      (Live cache vlad id t ∧ ¬ Ends vlad id cache action) := by
  by_cases named : action.1.On vlad
  · exact on_live append root before dated named
  · have quiet : ¬ ∃ challenge, Issues vlad challenge cache action ∧ challenge.challengeId = id :=
      fun ⟨_, issued, _⟩ => named issued.1
    simp only [quiet, false_and, false_or]
    by_cases foreign : action.1 = .clearCache ∨ Call.Installs action vlad
    · have ended : Ends vlad id cache action := by
        rcases foreign with isClear | installs
        · exact .cleared isClear
        · exact .replaced installs
      simp only [ended, not_true_eq_false, and_false, iff_false]
      rintro ⟨account, present, p, stored, _⟩
      obtain ⟨call, ambient⟩ := action
      rcases foreign with rfl | ⟨account', summary, installs, own⟩
      · cases present
      · have placed := congrArg Prod.fst (dispatch_installs law cache installs)
        change (accountsModule.next cache (call, ambient)) = _ at placed
        rw [placed, FiniteMap.lookup_insert, own, if_pos rfl] at present
        obtain rfl := Option.some.inj present
        rw [(installs_ok installs).2] at stored
        cases stored
    · have survives : ¬ Ends vlad id cache action := by
        intro ends
        rcases ends.concerns with isNamed | concerns
        · exact named isNamed
        · exact foreign concerns
      have aside : (accountsModule.next cache action).lookup (vladHash vlad) =
          cache.lookup (vladHash vlad) :=
        lookup_elsewhere law distinct fun concerns => concerns.elim named foreign
      simp only [survives, not_false_eq_true, and_true]
      simp only [Live, aside]

end LogosAccounts
