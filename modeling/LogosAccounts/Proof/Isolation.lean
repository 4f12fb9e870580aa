import LogosAccounts.Functional.LocalStep
import LogosAccounts.Proof.FailedCalls

/-! Cache addressing. Every account sits under the hash of its own VLAD, every
call works on the entry of the VLAD it names, and calls on different VLADs
commute. -/

namespace LogosAccounts
open BetterSign hiding mk
open Functional

section
variable [BetterSign]

/-- Each account is under the hash of the canonical text of its log's VLAD. -/
def WellKeyed (cache : AccountCache) : Prop :=
  ∀ key account, cache.lookup key = some account → key = vladHash account.log.vlad

theorem PlogAccount.commitUpdate_vlad (keeps : AppendKeepsVlad) (account : PlogAccount)
    (id signature : String) (ambient : Ambient) :
    (account.commitUpdate id signature ambient).2.log.vlad = account.log.vlad := by
  have appended (unsigned : Entry) (sig : Multisig) :
      (commitWithMultisig account.log unsigned sig).2.vlad = account.log.vlad := by
    unfold commitWithMultisig
    cases tryBuildWithProof unsigned (multisigToBytes sig) with
    | error e => rfl
    | ok entry =>
      simp only
      split
      · rename_i result
        exact keeps _ _ _ _ result
      · rename_i result
        exact keeps _ _ _ _ result
  unfold commitUpdate
  simp only
  cases (account.purgeExpiredChallenges ambient.now).pending.lookup id with
  | none => rfl
  | some p =>
    simp only
    split
    · rfl
    · cases decodeMultisig signature with
      | error e => rfl
      | ok sig =>
        have kept := appended p.unsigned.entry sig
        simp only [purge_log]
        cases result : commitWithMultisig account.log p.unsigned.entry sig with
        | mk outcome log =>
          rw [result] at kept
          cases outcome with
          | error e => exact kept
          | ok entry =>
            simp only
            cases summaryFromVerifiedPlog log with
            | error e => exact kept
            | ok summary => exact kept

theorem PlogAccount.perform_vlad (keeps : AppendKeepsVlad) (account : PlogAccount) (op : AccountOp)
    (ambient : Ambient) : (account.perform op ambient).1.log.vlad = account.log.vlad := by
  have prepare (spec : Except Error PrepareEntrySpec) :
      (account.prepareWith spec ambient).2.log.vlad = account.log.vlad := by
    have outcome := account.prepareWith_outcome spec ambient
    generalize account.prepareWith spec ambient = result at outcome ⊢
    cases outcome <;> rfl
  cases op with
  | prepareUpdate requestJson => exact prepare _
  | prepareDelegate path pubkeyMultibase => exact prepare _
  | prepareRevoke path => exact prepare _
  | commitUpdate id signature => exact account.commitUpdate_vlad keeps id signature ambient
  | cancelUpdate id =>
    have outcome := account.cancelUpdate_outcome id ambient
    simp only [perform]
    generalize account.cancelUpdate id ambient = result at outcome ⊢
    cases outcome <;> rfl

theorem reachable_wellKeyed (keeps : AppendKeepsVlad) (law : VladLaw) {cache : AccountCache}
    (reachable : Reachable cache) : WellKeyed cache := by
  obtain ⟨run, rfl⟩ := reachable
  apply run_each
  · intro call ambient _ account summary key installs keyed
    exact Except.ok.inj (keyed.symm.trans (installed_key law (installs_ok installs).1))
  · intro call ambient _ vlad op key account _ keyed
    rw [account.perform_vlad keeps]
    exact keyed

/-- What its VLAD argument decodes to; for an import, the VLAD of its p-log. -/
def Call.subject (call : Call) : Option Vlad :=
  match call with
  | .importPlog plogB64 =>
    match decodePlog plogB64 with
    | .ok log => some log.vlad
    | .error _ => none
  | call =>
    match call.vladArgument with
    | some s =>
      match decodeVlad s with
      | .ok vlad => some vlad
      | .error _ => none
    | none => none

/-- A lookup by any text of the VLAD finds the entry under its hash. -/
theorem AccountCache.get_eq {s : String} {vlad : Vlad} (decoded : decodeVlad s = .ok vlad)
    (cache : AccountCache) :
    cache.get s = match cache.lookup (vladHash vlad) with
      | some account => .ok (vladHash vlad, account)
      | none => .error (.accountNotCached (hashHexShort (vladHash vlad))) := by
  unfold get keyFromMultibase getByHash
  rw [decoded]
  simp only [except_ok_bind, except_pure]
  cases cache.lookup (vladHash vlad) <;> rfl

theorem withAccountMut_local {s : String} {vlad : Vlad} (decoded : decodeVlad s = .ok vlad)
    (f : PlogAccount → PlogAccount × Reply) :
    LocalAt (vladHash vlad) fun cache => AccountsModule.withAccountMut cache s f := by
  refine ⟨fun entry => match entry with
    | some account => (some (f account).1, (f account).2)
    | none => (none, errJson (.accountNotCached (AccountCache.hashHexShort (vladHash vlad)))), ?_⟩
  intro cache
  simp only [AccountsModule.withAccountMut, AccountCache.get_eq decoded]
  cases present : cache.lookup (vladHash vlad) with
  | none =>
    have same := cache.set_lookup (vladHash vlad)
    rw [present] at same
    simp only [same]
  | some account => rfl

theorem withAccount_local {s : String} {vlad : Vlad} (decoded : decodeVlad s = .ok vlad)
    (f : PlogAccount → Reply) :
    LocalAt (vladHash vlad) fun cache => AccountsModule.withAccount cache s f := by
  apply LocalAt.of_reader fun entry => match entry with
    | some account => f account
    | none => errJson (.accountNotCached (AccountCache.hashHexShort (vladHash vlad)))
  intro cache
  simp only [AccountsModule.withAccount, AccountCache.get_eq decoded]
  cases cache.lookup (vladHash vlad) <;> rfl

theorem removePlog_local {s : String} {vlad : Vlad} (decoded : decodeVlad s = .ok vlad) :
    LocalAt (vladHash vlad) fun cache => AccountsModule.removePlog cache s := by
  refine ⟨fun entry => match entry with
    | some _ => (none, silent .removed)
    | none => (none, errJson (.accountNotCached (AccountCache.hashHexShort (vladHash vlad)))), ?_⟩
  intro cache
  simp only [AccountsModule.removePlog, AccountCache.remove_eq, AccountCache.get_eq decoded]
  cases present : cache.lookup (vladHash vlad) with
  | none =>
    have same := cache.set_lookup (vladHash vlad)
    rw [present] at same
    simp only [Except.map, same]
  | some account => rfl

theorem importPlog_local (law : VladLaw) {plogB64 : String} {log : Log}
    (decoded : decodePlog plogB64 = .ok log) :
    LocalAt (vladHash log.vlad) fun cache => AccountsModule.importPlog cache plogB64 := by
  have imported : PlogAccount.import plogB64 = PlogAccount.ofLog log := by
    unfold PlogAccount.import
    rw [decoded, except_ok_bind]
  unfold AccountsModule.importPlog
  rw [imported]
  cases result : PlogAccount.ofLog log with
  | error e => exact .of_reader (fun _ => errJson e) fun _ => rfl
  | ok pair =>
    obtain ⟨account, summary⟩ := pair
    obtain ⟨_, summarised, made⟩ := except_bind_ok.mp result
    cases made
    have keyed := installed_key law summarised
    refine ⟨fun _ => (some ⟨log, ∅⟩, silent (.summary summary)), ?_⟩
    intro cache
    simp only [AccountCache.insert, keyed, except_ok_bind, except_pure]
    rfl

private theorem acts_local {call : Call} {s : String} {op : AccountOp} {vlad : Vlad}
    (acts : call.accountOp = some (s, op)) (decoded : decodeVlad s = .ok vlad) (ambient : Ambient) :
    LocalAt (vladHash vlad) fun cache => AccountsModule.dispatch cache call ambient := by
  simp only [dispatch_accountOp acts]
  exact withAccountMut_local decoded _

/-- Every call with a subject is an edit of the subject's entry. -/
theorem dispatch_local (law : VladLaw) {call : Call} {vlad : Vlad}
    (about : call.subject = some vlad) (ambient : Ambient) :
    LocalAt (vladHash vlad) fun cache => AccountsModule.dispatch cache call ambient := by
  have decodes {s : String} (about : (match decodeVlad s with
      | .ok vlad => some vlad
      | .error _ => none) = some vlad) : decodeVlad s = .ok vlad := by
    cases decoded : decodeVlad s with
    | error e => simp [decoded] at about
    | ok found => simpa [decoded] using about
  cases call with
  | createAccount pubkeyMultibase => cases about
  | clearCache => cases about
  | importPlog plogB64 =>
    simp only [Call.subject] at about
    cases decoded : decodePlog plogB64 with
    | error e => simp [decoded] at about
    | ok log =>
      obtain rfl : log.vlad = vlad := by simpa [decoded] using about
      exact importPlog_local law decoded
  | removePlog s => exact removePlog_local (decodes about)
  | exportPlog s => exact withAccount_local (decodes about) _
  | getValue s path => exact withAccount_local (decodes about) _
  | listDelegations s => exact withAccount_local (decodes about) _
  | prepareUpdate s requestJson => exact acts_local rfl (decodes about) ambient
  | prepareDelegate s path pubkeyMultibase => exact acts_local rfl (decodes about) ambient
  | prepareRevoke s path => exact acts_local rfl (decodes about) ambient
  | commitUpdate s id signature => exact acts_local rfl (decodes about) ambient
  | cancelUpdate s id => exact acts_local rfl (decodes about) ambient

omit [BetterSign] in
def Call.respelled (call : Call) (s : String) : Call :=
  match call with
  | .exportPlog _ => .exportPlog s
  | .removePlog _ => .removePlog s
  | .getValue _ path => .getValue s path
  | .listDelegations _ => .listDelegations s
  | .prepareUpdate _ requestJson => .prepareUpdate s requestJson
  | .prepareDelegate _ path pubkeyMultibase => .prepareDelegate s path pubkeyMultibase
  | .prepareRevoke _ path => .prepareRevoke s path
  | .commitUpdate _ id signature => .commitUpdate s id signature
  | .cancelUpdate _ id => .cancelUpdate s id
  | call => call

theorem AccountCache.get_respelled {s s' : String} (same : decodeVlad s' = decodeVlad s)
    (cache : AccountCache) : cache.get s' = cache.get s := by
  unfold get keyFromMultibase
  rw [same]

theorem dispatch_respelled {call : Call} {s s' : String} (named : call.vladArgument = some s)
    (same : decodeVlad s' = decodeVlad s) (cache : AccountCache) (ambient : Ambient) :
    AccountsModule.dispatch cache (call.respelled s') ambient =
      AccountsModule.dispatch cache call ambient := by
  have lookup := AccountCache.get_respelled same cache
  have acts {first second : Call} {op : AccountOp} (acts : first.accountOp = some (s', op))
      (acts' : second.accountOp = some (s, op)) :
      AccountsModule.dispatch cache first ambient = AccountsModule.dispatch cache second ambient := by
    rw [dispatch_accountOp acts, dispatch_accountOp acts']
    unfold AccountsModule.withAccountMut
    rw [lookup]
  have reads (f : PlogAccount → Reply) :
      AccountsModule.withAccount cache s' f = AccountsModule.withAccount cache s f := by
    unfold AccountsModule.withAccount
    rw [lookup]
  cases call with
  | createAccount pubkeyMultibase => cases named
  | importPlog plogB64 => cases named
  | clearCache => cases named
  | removePlog vlad =>
    cases named
    simp only [Call.respelled, AccountsModule.dispatch, AccountsModule.removePlog,
      AccountCache.remove_eq, lookup]
  | exportPlog vlad => cases named; exact reads _
  | getValue vlad path => cases named; exact reads _
  | listDelegations vlad => cases named; exact reads _
  | prepareUpdate vlad requestJson => cases named; exact acts rfl rfl
  | prepareDelegate vlad path pubkeyMultibase => cases named; exact acts rfl rfl
  | prepareRevoke vlad path => cases named; exact acts rfl rfl
  | commitUpdate vlad id signature => cases named; exact acts rfl rfl
  | cancelUpdate vlad id => cases named; exact acts rfl rfl

def NoCollision (vlads : Set Vlad) : Prop := Set.InjOn vladHash vlads

def AccountCache.vlads (cache : AccountCache) : Set Vlad :=
  { vlad | ∃ key account, cache.lookup key = some account ∧ account.log.vlad = vlad }

theorem WellKeyed.elsewhere {cache : AccountCache} (keyed : WellKeyed cache) {vlad : Vlad}
    (injective : NoCollision (insert vlad cache.vlads)) {key : VladHash} {account : PlogAccount}
    (present : cache.lookup key = some account) :
    key = vladHash vlad ↔ account.log.vlad = vlad := by
  rw [keyed key account present]
  constructor
  · intro same
    exact injective (.inr ⟨key, account, present, rfl⟩) (.inl rfl) same
  · intro same
    rw [same]

/-- How calls address and share the cache. -/
structure Addressing (cache : AccountCache) : Prop where
  keyed : WellKeyed cache
  unique : ∀ key key' account account', cache.lookup key = some account →
    cache.lookup key' = some account' → account.log.vlad = account'.log.vlad → key = key'
  spelling : ∀ call s s' vlad ambient, call.vladArgument = some s → decodeVlad s = .ok vlad →
    decodeVlad s' = .ok vlad →
      AccountsModule.dispatch cache (call.respelled s') ambient =
        AccountsModule.dispatch cache call ambient
  untouched : ∀ call vlad ambient, call.subject = some vlad →
    NoCollision (insert vlad cache.vlads) → ∀ key account, cache.lookup key = some account →
      account.log.vlad ≠ vlad →
        (AccountsModule.dispatch cache call ambient).1.lookup key = some account
  unread : ∀ call vlad ambient, call.subject = some vlad →
    NoCollision (insert vlad cache.vlads) →
      (∀ account, cache.lookup (vladHash vlad) = some account → account.log.vlad = vlad) ∧
      ∀ other : AccountCache, other.lookup (vladHash vlad) = cache.lookup (vladHash vlad) →
        (AccountsModule.dispatch other call ambient).2 =
          (AccountsModule.dispatch cache call ambient).2 ∧
        (AccountsModule.dispatch other call ambient).1.lookup (vladHash vlad) =
          (AccountsModule.dispatch cache call ambient).1.lookup (vladHash vlad)
  commute : ∀ first second : Call × Ambient, ∀ vlad vlad',
    first.1.subject = some vlad → second.1.subject = some vlad' → vlad ≠ vlad' →
      NoCollision {vlad, vlad'} →
        accountsModule.reply (accountsModule.next cache first) second =
          accountsModule.reply cache second ∧
        accountsModule.reply (accountsModule.next cache second) first =
          accountsModule.reply cache first ∧
        accountsModule.after cache [first, second] = accountsModule.after cache [second, first]

/-- Every reachable state is addressed by VLAD: accounts under their own hash,
one per VLAD, calls blind to the spelling of their argument and to every other
account, and calls on different VLADs in either order. -/
theorem cache_addressing (keeps : AppendKeepsVlad) (law : VladLaw) {cache : AccountCache}
    (reachable : Reachable cache) : Addressing cache := by
  have keyed := reachable_wellKeyed keeps law reachable
  constructor
  case keyed => exact keyed
  case unique =>
    intro key key' account account' present present' same
    rw [keyed key account present, keyed key' account' present', same]
  case spelling =>
    intro call s s' vlad ambient named decoded decoded'
    exact dispatch_respelled named (decoded'.trans decoded.symm) cache ambient
  case untouched =>
    intro call vlad ambient about injective key account present different
    have elsewhere : key ≠ vladHash vlad :=
      fun same => different ((keyed.elsewhere injective present).mp same)
    have framed := (dispatch_local law about ambient).frame cache elsewhere
    exact framed.trans present
  case unread =>
    intro call vlad ambient about injective
    refine ⟨fun account present => (keyed.elsewhere injective present).mp rfl, ?_⟩
    intro other same
    exact (dispatch_local law about ambient).reads_only same
  case commute =>
    intro first second vlad vlad' about about' different injective
    have keysDiffer : vladHash vlad ≠ vladHash vlad' :=
      fun same => different (injective (.inl rfl) (.inr rfl) same)
    exact (dispatch_local law about first.2).commute (dispatch_local law about' second.2)
      keysDiffer cache

end

section
open Reference

/-- A lookup by the hexadecimal spelling of a VLAD, and an import of another
account exchanged with a cancel. -/
theorem cache_addressing_two_accounts :
    AccountsModule.dispatch (accountsModule.after ∅ delegationCalls)
        (.listDelegations "f870000e9e1") (sampleAmbient 4 9) =
      AccountsModule.dispatch (accountsModule.after ∅ delegationCalls)
        (.listDelegations "uhwAA6eE") (sampleAmbient 4 9) ∧
    accountsModule.after (accountsModule.after ∅ delegationCalls)
        [(.importPlog "uBYcAAOnfBHTXmL5015i-", sampleAmbient 4 9),
          (.cancelUpdate "uhwAA6eE" "u", sampleAmbient 5 9)] =
      accountsModule.after (accountsModule.after ∅ delegationCalls)
        [(.cancelUpdate "uhwAA6eE" "u", sampleAmbient 5 9),
          (.importPlog "uBYcAAOnfBHTXmL5015i-", sampleAmbient 4 9)] := by
  have addressing := cache_addressing appendKeepsVlad vladLaw
    (⟨delegationCalls, rfl⟩ : Reachable (accountsModule.after ∅ delegationCalls))
  constructor
  · exact addressing.spelling (.listDelegations "uhwAA6eE") _ _ ([0x87, 0, 0, 0xe9, 0xe1] : Bytes)
      _ rfl (by decide +kernel) (by decide +kernel)
  · have different : vladHash ([0x87, 0, 0, 0xe9, 0xdf] : Bytes) ≠
        vladHash ([0x87, 0, 0, 0xe9, 0xe1] : Bytes) := by decide +kernel
    refine (addressing.commute (.importPlog "uBYcAAOnfBHTXmL5015i-", sampleAmbient 4 9)
      (.cancelUpdate "uhwAA6eE" "u", sampleAmbient 5 9) ([0x87, 0, 0, 0xe9, 0xdf] : Bytes)
      ([0x87, 0, 0, 0xe9, 0xe1] : Bytes) (by decide +kernel) (by decide +kernel)
      (by decide +kernel) ?_).2.2
    rw [NoCollision, Set.injOn_pair]
    exact fun same => absurd same different

end

end LogosAccounts
