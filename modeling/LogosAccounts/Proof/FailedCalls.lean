import LogosAccounts.Proof.VerifiedCache

/-! A failed call changes no log and no membership, and a cached log changes only
by a commit or an installation. -/

namespace LogosAccounts
open BetterSign hiding mk
open Functional

section
variable [BetterSign]

omit [BetterSign] in
def Call.vladArgument : Call → Option String
  | .createAccount _ | .importPlog _ | .clearCache => none
  | .exportPlog vlad | .removePlog vlad | .getValue vlad _ | .listDelegations vlad
  | .prepareUpdate vlad _ | .prepareDelegate vlad _ _ | .prepareRevoke vlad _
  | .commitUpdate vlad _ _ | .cancelUpdate vlad _ => some vlad

/-- The call's VLAD argument decodes to a VLAD with this hash. -/
def Call.Addresses (call : Call) (key : VladHash) : Prop :=
  ∃ s vlad, call.vladArgument = some s ∧ decodeVlad s = .ok vlad ∧ key = vladHash vlad

omit [BetterSign] in
def AccountOp.attempted : AccountOp → Option String
  | .commitUpdate id _ => some id
  | _ => none

omit [BetterSign] in
def Call.attempted : Call → Option String
  | .commitUpdate _ id _ => some id
  | _ => none

omit [BetterSign] in
theorem Call.accountOp_names {call : Call} {vlad : String} {op : AccountOp}
    (acts : call.accountOp = some (vlad, op)) :
    call.vladArgument = some vlad ∧ call.attempted = op.attempted := by
  cases call <;> cases acts <;> exact ⟨rfl, rfl⟩

theorem Call.addresses_of_get {call : Call} {cache : AccountCache} {s : String} {key : VladHash}
    {account : PlogAccount} (named : call.vladArgument = some s)
    (found : cache.get s = .ok (key, account)) : call.Addresses key := by
  obtain ⟨vlad, decoded, keyed, _⟩ := AccountCache.get_ok.mp found
  exact ⟨s, vlad, named, decoded, keyed⟩

omit [BetterSign] in
/-- Only expired challenges and the attempted one are gone, and none is new. -/
structure PendingLoss [BetterSign] (ambient : Ambient) (attempted : Option String)
    (before after : FiniteMap String PendingUpdate) : Prop where
  part : after.Submap before
  lost : ∀ id p, before.lookup id = some p → after.lookup id = none →
    challengeTtl ≤ ambient.now - p.createdAt ∨ attempted = some id

theorem PendingLoss.refl (ambient : Ambient) (attempted : Option String)
    (pending : FiniteMap String PendingUpdate) : PendingLoss ambient attempted pending pending := by
  refine ⟨.refl _, ?_⟩
  intro id p present missing
  rw [missing] at present
  cases present

theorem PlogAccount.purge_loss (account : PlogAccount) (ambient : Ambient)
    (attempted : Option String) :
    PendingLoss ambient attempted account.pending
      (account.purgeExpiredChallenges ambient.now).pending := by
  refine ⟨account.purge_submap ambient.now, ?_⟩
  intro id p present missing
  by_cases young : ambient.now - p.createdAt < challengeTtl
  · have kept := (account.purge_lookup_some ambient.now id p).mpr ⟨present, young⟩
    rw [missing] at kept
    cases kept
  · exact .inl (by omega)

theorem PendingLoss.erase {ambient : Ambient} {before after : FiniteMap String PendingUpdate}
    {id : String} (loss : PendingLoss ambient (some id) before after) :
    PendingLoss ambient (some id) before (after.erase id) := by
  refine ⟨(FiniteMap.erase_submap _ _).trans loss.part, ?_⟩
  intro other p present missing
  rw [FiniteMap.lookup_erase] at missing
  split at missing
  · rename_i same
    exact .inr (by rw [same])
  · exact loss.lost other p present missing

theorem PlogAccount.perform_failed (append : AppendLaws) (root : RootKeyParses)
    (account : PlogAccount) (op : AccountOp) (ambient : Ambient)
    (failed : (account.perform op ambient).2.toReply.response.isError = true) :
    (account.perform op ambient).1.log = account.log ∧
      PendingLoss ambient op.attempted account.pending (account.perform op ambient).1.pending := by
  have outcome := account.perform_outcome append op ambient
  have purged := account.purge_loss ambient op.attempted
  generalize account.perform op ambient = result at outcome failed ⊢
  cases outcome with
  | prepared spec asked result prepared =>
    cases prepared with
    | invalid e rejected => exact ⟨rfl, .refl ..⟩
    | refused e input given rejected => exact ⟨rfl, purged⟩
    | issued input given unsigned built => cases failed
  | committed id signature named result commit =>
    subst named
    cases commit with
    | unknown missing => exact ⟨rfl, purged⟩
    | refused e p found kind => exact ⟨rfl, purged.erase⟩
    | appended p found sameHead decodedSignature decoded entry built verified =>
      -- the summary of a log that verifies cannot fail
      obtain ⟨summary, summarised, _⟩ := CommitOutcome.summary_ok root verified
      rw [summarised] at failed
      cases failed
  | cancelled id named result cancel =>
    cases cancel with
    | unknown missing => exact ⟨rfl, purged⟩
    | dropped p found => cases failed

/-- The cache after a failed call: the same members with the same logs, and only
the addressed account may have lost challenges. -/
structure FailedCall (cache : AccountCache) (call : Call) (ambient : Ambient)
    (cache' : AccountCache) : Prop where
  members : cache'.keys = cache.keys
  accounts : ∀ key account, cache.lookup key = some account →
    ∃ account', cache'.lookup key = some account' ∧ account'.log = account.log ∧
      PendingLoss ambient call.attempted account.pending account'.pending ∧
      (¬ call.Addresses key → account'.pending = account.pending)

theorem FailedCall.unchanged (cache : AccountCache) (call : Call) (ambient : Ambient) :
    FailedCall cache call ambient cache where
  members := rfl
  accounts _ account present := ⟨account, present, rfl, .refl .., fun _ => rfl⟩

theorem FailedCall.acted {cache : AccountCache} {call : Call} {ambient : Ambient} {key : VladHash}
    {account account' : PlogAccount} (addressed : call.Addresses key)
    (present : cache.lookup key = some account) (sameLog : account'.log = account.log)
    (loss : PendingLoss ambient call.attempted account.pending account'.pending) :
    FailedCall cache call ambient (FiniteMap.insert cache key account') where
  members := by
    apply FiniteMap.keys_eq
    intro other
    rw [FiniteMap.lookup_insert]
    split
    · rename_i same
      rw [same, present]
      rfl
    · rfl
  accounts other found cached := by
    by_cases same : other = key
    · subst other
      obtain rfl := Option.some.inj (present.symm.trans cached)
      exact ⟨account', by simp [FiniteMap.lookup_insert], sameLog, loss,
        fun elsewhere => absurd addressed elsewhere⟩
    · exact ⟨found, by simp [FiniteMap.lookup_insert, same, cached], rfl, .refl .., fun _ => rfl⟩

theorem dispatch_failed (append : AppendLaws) (root : RootKeyParses) {cache : AccountCache}
    {call : Call} {ambient : Ambient}
    (failed : (AccountsModule.dispatch cache call ambient).2.response.isError = true) :
    FailedCall cache call ambient (AccountsModule.dispatch cache call ambient).1 := by
  have outcome := dispatch_outcome cache call ambient
  generalize AccountsModule.dispatch cache call ambient = result at outcome failed ⊢
  cases outcome with
  | unaddressed vlad addressed e missing => exact .unchanged ..
  | rejected e refused => exact .unchanged ..
  | unplaced account summary installs e unkeyed => exact .unchanged ..
  | installed account summary installs key keyed => cases failed
  | removed vlad named key account found => cases failed
  | cleared named => cases failed
  | read vlad read reads key account found => exact .unchanged ..
  | acted vlad op acts key account found =>
    obtain ⟨named, attempted⟩ := Call.accountOp_names acts
    obtain ⟨_, _, _, present⟩ := AccountCache.get_ok.mp found
    obtain ⟨sameLog, loss⟩ := account.perform_failed append root op ambient failed
    rw [← attempted] at loss
    exact .acted (Call.addresses_of_get named found) present sameLog loss

/-- Why `key` holds `account'` after the call. -/
inductive LogOrigin (cache : AccountCache) (call : Call) (ambient : Ambient) (response : Response)
    (key : VladHash) (account' : PlogAccount) : Prop where
  | kept (account : PlogAccount) (present : cache.lookup key = some account)
      (same : account'.log = account.log)
  | committed (account : PlogAccount) (present : cache.lookup key = some account)
      (vlad id signature : String) (named : call = .commitUpdate vlad id signature)
      (addressed : call.Addresses key) (succeeded : response.isError = false) (entry : Entry)
      (extended : account'.log = account.log.push entry)
  | installed (summary : AccountSummary)
      (installs : call.installs ambient = some (.ok (account', summary)))
      (answered : response = .summary summary) (own : key = vladHash account'.log.vlad)

theorem PlogAccount.perform_log (append : AppendLaws) (root : RootKeyParses) (account : PlogAccount)
    (op : AccountOp) (ambient : Ambient) :
    (account.perform op ambient).1.log = account.log ∨
      ∃ id signature entry, op = .commitUpdate id signature ∧
        (account.perform op ambient).2.toReply.response.isError = false ∧
        (account.perform op ambient).1.log = account.log.push entry := by
  have effect := account.perform_effect append op ambient
  generalize account.perform op ambient = result at effect ⊢
  cases effect with
  | dropped pending part reply unissued uncommitted => exact .inl rfl
  | issued input asked unsigned built => exact .inl rfl
  | appended id signature named p stored proof entry signed verified =>
    obtain ⟨summary, summarised, _⟩ := CommitOutcome.summary_ok root verified
    refine .inr ⟨id, signature, entry, named, ?_, rfl⟩
    rw [summarised]
    rfl

theorem dispatch_log_origin (append : AppendLaws) (root : RootKeyParses) (law : VladLaw)
    (cache : AccountCache) (call : Call) (ambient : Ambient) {key : VladHash}
    {account' : PlogAccount}
    (cached : (AccountsModule.dispatch cache call ambient).1.lookup key = some account') :
    LogOrigin cache call ambient (AccountsModule.dispatch cache call ambient).2.response key
      account' := by
  have outcome := dispatch_outcome cache call ambient
  generalize AccountsModule.dispatch cache call ambient = result at outcome cached ⊢
  cases outcome with
  | unaddressed vlad addressed e missing => exact .kept account' cached rfl
  | rejected e refused => exact .kept account' cached rfl
  | unplaced account summary installs e unkeyed => exact .kept account' cached rfl
  | installed account summary installs key' keyed =>
    rw [FiniteMap.lookup_insert] at cached
    split at cached
    · rename_i same
      obtain rfl := Option.some.inj cached
      have own := installed_key law (installs_ok installs).1
      exact .installed summary installs rfl (by rw [same, Except.ok.inj (keyed.symm.trans own)])
    · exact .kept account' cached rfl
  | removed vlad named key' account found =>
    exact .kept account' (FiniteMap.erase_submap _ _ _ _ cached) rfl
  | cleared named => cases cached
  | read vlad read reads key' account found => exact .kept account' cached rfl
  | acted vlad op acts key' account found =>
    rw [FiniteMap.lookup_insert] at cached
    split at cached
    · rename_i same
      subst key'
      obtain rfl := Option.some.inj cached
      obtain ⟨_, _, _, present⟩ := AccountCache.get_ok.mp found
      rcases account.perform_log append root op ambient with kept | ⟨id, signature, entry, rfl, succeeded, extended⟩
      · exact .kept account present kept
      · have named : call = .commitUpdate vlad id signature := by
          cases call <;> cases acts
          rfl
        exact .committed account present vlad id signature named
          (Call.addresses_of_get (Call.accountOp_names acts).1 found) succeeded entry extended
    · exact .kept account' cached rfl

/-- In every state and for every call: an error response changes no log and no
membership, and whatever the response, a log under a key is the one that was
there, its extension by one committed entry, or that of an account just
installed for its own VLAD. -/
theorem failed_calls_change_no_log (append : AppendLaws) (root : RootKeyParses) (law : VladLaw)
    (cache : AccountCache) (call : Call) (ambient : Ambient) :
    ((AccountsModule.dispatch cache call ambient).2.response.isError = true →
      FailedCall cache call ambient (AccountsModule.dispatch cache call ambient).1) ∧
    ∀ key account',
      (AccountsModule.dispatch cache call ambient).1.lookup key = some account' →
        LogOrigin cache call ambient (AccountsModule.dispatch cache call ambient).2.response key
          account' :=
  ⟨dispatch_failed append root, fun _ _ => dispatch_log_origin append root law cache call ambient⟩

end

section
open Reference

/-- A commit with a signature of the wrong key, after the delegation is prepared. -/
theorem failed_calls_change_no_log_bad_signature :
    FailedCall (accountsModule.after ∅ (delegationCalls.take 2))
      (.commitUpdate "uhwAA6eE" "uAAAAAAAAAAAAAAAAAAAAAA" "uAwTwIzRQ") (sampleAmbient 3 9)
      (AccountsModule.dispatch (accountsModule.after ∅ (delegationCalls.take 2))
        (.commitUpdate "uhwAA6eE" "uAAAAAAAAAAAAAAAAAAAAAA" "uAwTwIzRQ") (sampleAmbient 3 9)).1 := by
  apply (failed_calls_change_no_log appendLaws rootKeyParses vladLaw _ _ _).1
  decide +kernel

end

end LogosAccounts
