import LogosAccounts.Module
import LogosAccounts.Proof.AccountStep

/-! What one call of the module can do to the cache. -/

namespace LogosAccounts
open BetterSign hiding mk
open Functional
variable [BetterSign]

theorem AccountCache.keyFromMultibase_ok {vladMultibase : String} {key : VladHash} :
    keyFromMultibase vladMultibase = .ok key ↔
      ∃ vlad, decodeVlad vladMultibase = .ok vlad ∧ key = vladHash vlad := by
  unfold keyFromMultibase
  rw [except_bind_ok]
  constructor
  · rintro ⟨vlad, decoded, same⟩
    exact ⟨vlad, decoded, (Except.ok.inj same).symm⟩
  · rintro ⟨vlad, decoded, rfl⟩
    exact ⟨vlad, decoded, rfl⟩

theorem AccountCache.get_ok {cache : AccountCache} {vladMultibase : String} {key : VladHash}
    {account : PlogAccount} :
    cache.get vladMultibase = .ok (key, account) ↔
      ∃ vlad, decodeVlad vladMultibase = .ok vlad ∧ key = vladHash vlad ∧
        cache.lookup key = some account := by
  unfold get getByHash
  rw [except_bind_ok]
  constructor
  · rintro ⟨found, keyed, rest⟩
    obtain ⟨vlad, decoded, rfl⟩ := keyFromMultibase_ok.mp keyed
    cases present : cache.lookup (vladHash vlad) with
    | none => simp [present] at rest
    | some other =>
      simp only [present, except_ok_bind, except_pure, Except.ok.injEq, Prod.mk.injEq] at rest
      obtain ⟨rfl, rfl⟩ := rest
      exact ⟨vlad, decoded, rfl, present⟩
  · rintro ⟨vlad, decoded, rfl, present⟩
    exact ⟨vladHash vlad, keyFromMultibase_ok.mpr ⟨vlad, decoded, rfl⟩, by simp [present]⟩

theorem AccountCache.get_error {cache : AccountCache} {vladMultibase : String} {e : Error}
    (failed : cache.get vladMultibase = .error e) :
    decodeVlad vladMultibase = .error e ∨
      ∃ vlad, decodeVlad vladMultibase = .ok vlad ∧ cache.lookup (vladHash vlad) = none ∧
        e = .accountNotCached (hashHexShort (vladHash vlad)) := by
  unfold get keyFromMultibase getByHash at failed
  cases decoded : decodeVlad vladMultibase with
  | error failure =>
    simp only [decoded, except_error_bind, Except.error.injEq] at failed
    exact .inl (by rw [failed])
  | ok vlad =>
    simp only [decoded, except_ok_bind, except_pure] at failed
    cases present : cache.lookup (vladHash vlad) with
    | none =>
      simp only [present, except_error_bind, Except.error.injEq] at failed
      exact .inr ⟨vlad, rfl, present, failed.symm⟩
    | some account => simp [present] at failed

theorem AccountCache.remove_eq (cache : AccountCache) (vladMultibase : String) :
    cache.remove vladMultibase =
      (cache.get vladMultibase).map fun entry => FiniteMap.erase cache entry.1 := by
  unfold remove get
  cases keyFromMultibase vladMultibase with
  | error failure => rfl
  | ok key =>
    simp only [except_ok_bind]
    cases cache.getByHash key <;> rfl

theorem decode_encodeVlad (law : VladLaw) (vlad : Vlad) :
    decodeVlad (encodeVlad vlad) = .ok vlad := by
  unfold decodeVlad encodeVlad
  rw [law]
  rfl

/-- The VLAD argument and the account operation of a call, if it is one. -/
def Call.accountOp : Call → Option (String × AccountOp)
  | .prepareUpdate vlad requestJson => some (vlad, .prepareUpdate requestJson)
  | .prepareDelegate vlad path pubkeyMultibase =>
    some (vlad, .prepareDelegate path pubkeyMultibase)
  | .prepareRevoke vlad path => some (vlad, .prepareRevoke path)
  | .commitUpdate vlad challengeId signature => some (vlad, .commitUpdate challengeId signature)
  | .cancelUpdate vlad challengeId => some (vlad, .cancelUpdate challengeId)
  | _ => none

def AccountReply.toReply : AccountReply → Reply
  | .challenge (.error e) => errJson e
  | .challenge (.ok issued) => silent (.challenge issued)
  | .committed (.error e) => errJson e
  | .committed (.ok (summary, kind, path)) => ⟨.summary summary, commitEvents summary kind path⟩
  | .cancelled (.error e) => errJson e
  | .cancelled (.ok ()) => silent .cancelled

omit [BetterSign] in
theorem AccountReply.toReply_challenge {reply : AccountReply} {challenge : UpdateChallenge} :
    reply.toReply.response = .challenge challenge ↔ reply = .challenge (.ok challenge) := by
  cases reply with
  | challenge result => cases result <;> simp [AccountReply.toReply, errJson, silent]
  | committed result =>
    rcases result with e | ⟨summary, kind, path⟩ <;> simp [AccountReply.toReply, errJson]
  | cancelled result => cases result <;> simp [AccountReply.toReply, errJson, silent]

omit [BetterSign] in
theorem AccountReply.toReply_cancelled {reply : AccountReply} :
    reply.toReply.response = .cancelled ↔ reply = .cancelled (.ok ()) := by
  cases reply with
  | challenge result => cases result <;> simp [AccountReply.toReply, errJson, silent]
  | committed result =>
    rcases result with e | ⟨summary, kind, path⟩ <;> simp [AccountReply.toReply, errJson]
  | cancelled result => cases result <;> simp [AccountReply.toReply, errJson, silent]

omit [BetterSign] in
theorem AccountReply.toReply_committed
    {result : Except Error (AccountSummary × UpdateKind × Option String)} :
    (AccountReply.committed result).toReply.response.isError = false ↔
      ∃ committed, result = .ok committed := by
  rcases result with e | ⟨summary, kind, path⟩ <;>
    simp [AccountReply.toReply, errJson, Response.isError]

theorem dispatch_accountOp {call : Call} {vlad : String} {op : AccountOp}
    (acts : call.accountOp = some (vlad, op)) (cache : AccountCache) (ambient : Ambient) :
    AccountsModule.dispatch cache call ambient =
      AccountsModule.withAccountMut cache vlad fun account =>
        ((account.perform op ambient).1, (account.perform op ambient).2.toReply) := by
  have reply (result : Except Error UpdateChallenge) :
      AccountsModule.challengeReply result = (AccountReply.challenge result).toReply := by
    cases result <;> rfl
  cases call <;> simp only [Call.accountOp, Option.some.injEq, Prod.mk.injEq, reduceCtorEq] at acts
  all_goals obtain ⟨rfl, rfl⟩ := acts
  all_goals unfold AccountsModule.dispatch
  case prepareUpdate requestJson =>
    simp only [AccountsModule.prepareUpdate, reply, PlogAccount.perform]
  case prepareDelegate path pubkeyMultibase =>
    simp only [AccountsModule.prepareDelegate, reply, PlogAccount.perform]
  case prepareRevoke path =>
    simp only [AccountsModule.prepareRevoke, reply, PlogAccount.perform]
  case commitUpdate challengeId signature =>
    simp only [AccountsModule.commitUpdate, PlogAccount.perform]
    congr 1
    funext account
    cases (account.commitUpdate challengeId signature ambient).1 <;> rfl
  case cancelUpdate challengeId =>
    simp only [AccountsModule.cancelUpdate, PlogAccount.perform]
    congr 1
    funext account
    cases (account.cancelUpdate challengeId ambient).1 <;> rfl

def Call.reader : Call → Option (String × (PlogAccount → Reply))
  | .exportPlog vlad => some (vlad, fun account => silent (.plog account.exportPlog))
  | .getValue vlad path => some (vlad, fun account =>
    match account.getValue path with
    | .error e => errJson e
    | .ok value => silent (.value value))
  | .listDelegations vlad => some (vlad, fun account =>
    match account.listDelegations with
    | .error e => errJson e
    | .ok list => silent (.delegations list))
  | _ => none

theorem dispatch_reader {call : Call} {vlad : String} {read : PlogAccount → Reply}
    (reads : call.reader = some (vlad, read)) (cache : AccountCache) (ambient : Ambient) :
    AccountsModule.dispatch cache call ambient = AccountsModule.withAccount cache vlad read := by
  cases call <;> simp only [Call.reader, Option.some.injEq, Prod.mk.injEq, reduceCtorEq] at reads
  all_goals
    obtain ⟨rfl, rfl⟩ := reads
    rfl

/-- The account a create or an import would install. -/
def Call.installs : Call → Ambient → Option (Except Error (PlogAccount × AccountSummary))
  | .createAccount pubkeyMultibase, ambient => some (PlogAccount.create pubkeyMultibase ambient)
  | .importPlog plogB64, _ => some (PlogAccount.import plogB64)
  | _, _ => none

/-- Whatever the source of its log, a new account is verified, carries the
summary of its log and has no challenges. -/
theorem installs_ok {call : Call} {ambient : Ambient} {account : PlogAccount}
    {summary : AccountSummary} (installs : call.installs ambient = some (.ok (account, summary))) :
    summaryFromVerifiedPlog account.log = .ok summary ∧ account.pending = ∅ := by
  have ofLog {log : Log} (success : PlogAccount.ofLog log = .ok (account, summary)) :
      summaryFromVerifiedPlog account.log = .ok summary ∧ account.pending = ∅ := by
    obtain ⟨_, summarised, success⟩ := except_bind_ok.mp success
    cases success
    exact ⟨summarised, rfl⟩
  cases call with
  | createAccount pubkeyMultibase =>
    obtain ⟨multikey, _, success⟩ := except_bind_ok.mp (Option.some.inj installs)
    obtain ⟨log, _, success⟩ := except_bind_ok.mp success
    exact ofLog success
  | importPlog plogB64 =>
    obtain ⟨log, _, success⟩ := except_bind_ok.mp (Option.some.inj installs)
    exact ofLog success
  | _ => cases installs

def Call.installEvents (call : Call) (summary : AccountSummary) : List Event :=
  match call with
  | .createAccount _ => [.accountCreated summary.vlad]
  | _ => []

/-- What a call can do. -/
inductive CallOutcome (cache : AccountCache) (call : Call) (ambient : Ambient) :
    AccountCache × Reply → Prop where
  | unaddressed (vlad : String)
      (addressed : (∃ op, call.accountOp = some (vlad, op)) ∨
        (∃ read, call.reader = some (vlad, read)) ∨ call = .removePlog vlad)
      (e : Error) (failed : cache.get vlad = .error e) : CallOutcome cache call ambient (cache, errJson e)
  | rejected (e : Error) (failed : call.installs ambient = some (.error e)) :
      CallOutcome cache call ambient (cache, errJson e)
  | unplaced (account : PlogAccount) (summary : AccountSummary)
      (installs : call.installs ambient = some (.ok (account, summary))) (e : Error)
      (unkeyed : AccountCache.keyFromMultibase summary.vlad = .error e) :
      CallOutcome cache call ambient
        (cache, ⟨.error e, call.installEvents summary ++ [.error e.text]⟩)
  | installed (account : PlogAccount) (summary : AccountSummary)
      (installs : call.installs ambient = some (.ok (account, summary))) (key : VladHash)
      (keyed : AccountCache.keyFromMultibase summary.vlad = .ok key) :
      CallOutcome cache call ambient
        (FiniteMap.insert cache key account, ⟨.summary summary, call.installEvents summary⟩)
  | removed (vlad : String) (named : call = .removePlog vlad) (key : VladHash)
      (account : PlogAccount) (found : cache.get vlad = .ok (key, account)) :
      CallOutcome cache call ambient (FiniteMap.erase cache key, silent .removed)
  | cleared (named : call = .clearCache) :
      CallOutcome cache call ambient (∅, silent (.cleared cache.size))
  | read (vlad : String) (read : PlogAccount → Reply) (reads : call.reader = some (vlad, read))
      (key : VladHash) (account : PlogAccount) (found : cache.get vlad = .ok (key, account)) :
      CallOutcome cache call ambient (cache, read account)
  | acted (vlad : String) (op : AccountOp) (acts : call.accountOp = some (vlad, op))
      (key : VladHash) (account : PlogAccount) (found : cache.get vlad = .ok (key, account)) :
      CallOutcome cache call ambient
        (FiniteMap.insert cache key (account.perform op ambient).1,
          (account.perform op ambient).2.toReply)

private theorem acted_outcome {cache : AccountCache} {call : Call} {vlad : String} {op : AccountOp}
    (acts : call.accountOp = some (vlad, op)) (ambient : Ambient) :
    CallOutcome cache call ambient (AccountsModule.dispatch cache call ambient) := by
  rw [dispatch_accountOp acts]
  unfold AccountsModule.withAccountMut
  cases found : cache.get vlad with
  | error e => exact .unaddressed vlad (.inl ⟨op, acts⟩) e found
  | ok entry => exact .acted vlad op acts entry.1 entry.2 found

private theorem read_outcome {cache : AccountCache} {call : Call} {vlad : String}
    {read : PlogAccount → Reply} (reads : call.reader = some (vlad, read)) (ambient : Ambient) :
    CallOutcome cache call ambient (AccountsModule.dispatch cache call ambient) := by
  rw [dispatch_reader reads]
  unfold AccountsModule.withAccount
  cases found : cache.get vlad with
  | error e => exact .unaddressed vlad (.inr (.inl ⟨read, reads⟩)) e found
  | ok entry => exact .read vlad read reads entry.1 entry.2 found

theorem dispatch_outcome (cache : AccountCache) (call : Call) (ambient : Ambient) :
    CallOutcome cache call ambient (AccountsModule.dispatch cache call ambient) := by
  cases call with
  | createAccount pubkeyMultibase =>
    simp only [AccountsModule.dispatch, AccountsModule.createAccount, AccountCache.insert]
    cases created : PlogAccount.create pubkeyMultibase ambient with
    | error e => exact .rejected e (congrArg some created)
    | ok result =>
      obtain ⟨account, summary⟩ := result
      have installs : (Call.createAccount pubkeyMultibase).installs ambient = some (.ok (account, summary)) :=
        congrArg some created
      simp only
      cases keyed : AccountCache.keyFromMultibase summary.vlad with
      | error e => exact .unplaced account summary installs e keyed
      | ok key => exact .installed account summary installs key keyed
  | importPlog plogB64 =>
    simp only [AccountsModule.dispatch, AccountsModule.importPlog, AccountCache.insert]
    cases imported : PlogAccount.import plogB64 with
    | error e => exact .rejected e (congrArg some imported)
    | ok result =>
      obtain ⟨account, summary⟩ := result
      have installs : (Call.importPlog plogB64).installs ambient = some (.ok (account, summary)) :=
        congrArg some imported
      simp only
      cases keyed : AccountCache.keyFromMultibase summary.vlad with
      | error e => exact .unplaced account summary installs e keyed
      | ok key => exact .installed account summary installs key keyed
  | removePlog vlad =>
    simp only [AccountsModule.dispatch, AccountsModule.removePlog, AccountCache.remove_eq]
    cases found : cache.get vlad with
    | error e => exact .unaddressed vlad (.inr (.inr rfl)) e found
    | ok entry => exact .removed vlad rfl entry.1 entry.2 found
  | clearCache => exact .cleared rfl
  | exportPlog vlad => exact read_outcome rfl ambient
  | getValue vlad path => exact read_outcome rfl ambient
  | listDelegations vlad => exact read_outcome rfl ambient
  | prepareUpdate vlad requestJson => exact acted_outcome rfl ambient
  | prepareDelegate vlad path pubkeyMultibase => exact acted_outcome rfl ambient
  | prepareRevoke vlad path => exact acted_outcome rfl ambient
  | commitUpdate vlad challengeId signature => exact acted_outcome rfl ambient
  | cancelUpdate vlad challengeId => exact acted_outcome rfl ambient

section
variable {good : VladHash → PlogAccount → Prop}

/-- What holds of the accounts that a call installs, and is kept by its operation,
holds of every account it leaves in the cache. -/
theorem dispatch_each {cache : AccountCache} {call : Call} {ambient : Ambient}
    (each : FiniteMap.Each cache good)
    (installed : ∀ account summary key, call.installs ambient = some (.ok (account, summary)) →
      AccountCache.keyFromMultibase summary.vlad = .ok key → good key account)
    (acted : ∀ vlad op key account, call.accountOp = some (vlad, op) → good key account →
      good key (account.perform op ambient).1) :
    FiniteMap.Each (AccountsModule.dispatch cache call ambient).1 good := by
  have outcome := dispatch_outcome cache call ambient
  generalize AccountsModule.dispatch cache call ambient = result at outcome ⊢
  cases outcome with
  | unaddressed vlad addressed e failed => exact each
  | rejected e failed => exact each
  | unplaced account summary installs e unkeyed => exact each
  | installed account summary installs key keyed =>
    exact each.insert (installed account summary key installs keyed)
  | removed vlad named key account found => exact each.submap (FiniteMap.erase_submap _ _)
  | cleared named => exact .empty
  | read vlad read reads key account found => exact each
  | acted vlad op acts key account found =>
    obtain ⟨_, _, _, present⟩ := AccountCache.get_ok.mp found
    exact each.insert (acted vlad op key account acts (each key account present))

theorem run_each {run : List (Call × Ambient)}
    (installed : ∀ call ambient, (call, ambient) ∈ run → ∀ account summary key,
      call.installs ambient = some (.ok (account, summary)) →
      AccountCache.keyFromMultibase summary.vlad = .ok key → good key account)
    (acted : ∀ call ambient, (call, ambient) ∈ run → ∀ vlad op key account,
      call.accountOp = some (vlad, op) → good key account →
      good key (account.perform op ambient).1) :
    FiniteMap.Each (accountsModule.after ∅ run) good := by
  let all (cache : AccountCache) : Prop := FiniteMap.Each cache good
  have first : all ∅ := .empty
  apply accountsModule.after_preserves first
  rintro cache ⟨call, ambient⟩ member each
  exact dispatch_each each (installed call ambient member) (acted call ambient member)

end

/-- A create or an import answers with the summary of the account it has put in the cache. -/
theorem installs_answered {cache : AccountCache} {call : Call} {ambient : Ambient}
    {made : Except Error (PlogAccount × AccountSummary)} {summary : AccountSummary}
    (installs : call.installs ambient = some made)
    (answered : (AccountsModule.dispatch cache call ambient).2.response = .summary summary) :
    ∃ account key, made = .ok (account, summary) ∧
      AccountCache.keyFromMultibase summary.vlad = .ok key ∧
      (AccountsModule.dispatch cache call ambient).1 = FiniteMap.insert cache key account := by
  have outcome := dispatch_outcome cache call ambient
  generalize AccountsModule.dispatch cache call ambient = result at outcome answered ⊢
  cases outcome with
  | unaddressed vlad addressed e failed => cases answered
  | rejected e failed => cases answered
  | unplaced account found made' e unkeyed => cases answered
  | installed account found made' key keyed =>
    obtain rfl := Option.some.inj (made'.symm.trans installs)
    obtain rfl := Response.summary.inj answered
    exact ⟨account, key, rfl, keyed, rfl⟩
  | removed vlad named key account found => cases answered
  | cleared named => cases answered
  | read vlad read reads key account found => cases call <;> cases reads <;> cases installs
  | acted vlad op acts key account found => cases call <;> cases acts <;> cases installs

theorem challenge_answered {cache : AccountCache} {call : Call} {vlad : String} {op : AccountOp}
    {ambient : Ambient} {challenge : UpdateChallenge} (acts : call.accountOp = some (vlad, op))
    (answered : (AccountsModule.dispatch cache call ambient).2.response = .challenge challenge) :
    ∃ key account, cache.get vlad = .ok (key, account) ∧
      (account.perform op ambient).2 = .challenge (.ok challenge) ∧
      (AccountsModule.dispatch cache call ambient).1 =
        FiniteMap.insert cache key (account.perform op ambient).1 := by
  rw [dispatch_accountOp acts] at answered ⊢
  unfold AccountsModule.withAccountMut at answered ⊢
  cases found : cache.get vlad with
  | error e =>
    rw [found] at answered
    cases answered
  | ok entry =>
    obtain ⟨key, account⟩ := entry
    rw [found] at answered
    exact ⟨key, account, rfl, AccountReply.toReply_challenge.mp answered, rfl⟩

theorem installed_key (law : VladLaw) {log : Log} {summary : AccountSummary}
    (summarised : summaryFromVerifiedPlog log = .ok summary) :
    AccountCache.keyFromMultibase summary.vlad = .ok (vladHash log.vlad) := by
  obtain ⟨_, vlad, _⟩ := summary_verified summarised
  rw [vlad]
  exact AccountCache.keyFromMultibase_ok.mpr ⟨_, decode_encodeVlad law _, rfl⟩

theorem dispatch_installs (law : VladLaw) (cache : AccountCache) {call : Call} {ambient : Ambient}
    {account : PlogAccount} {summary : AccountSummary}
    (installs : call.installs ambient = some (.ok (account, summary))) :
    AccountsModule.dispatch cache call ambient =
      (FiniteMap.insert cache (vladHash account.log.vlad) account,
        ⟨.summary summary, call.installEvents summary⟩) := by
  have keyed := installed_key law (installs_ok installs).1
  cases call with
  | createAccount pubkeyMultibase =>
    have created := Option.some.inj installs
    simp only [AccountsModule.dispatch, AccountsModule.createAccount, AccountCache.insert, created,
      keyed]
    rfl
  | importPlog plogB64 =>
    have imported := Option.some.inj installs
    simp only [AccountsModule.dispatch, AccountsModule.importPlog, AccountCache.insert, imported,
      keyed]
    rfl
  | _ => cases installs

end LogosAccounts
