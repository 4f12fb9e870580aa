import LogosAccounts.Proof.BranchPath
import LogosAccounts.Proof.CallStep
import LogosAccounts.Proof.SignedEntry

/-! Every cached log is fully verified, in every reachable state of the module.
Creation, import and commit each establish it; everything a cached account then
answers rests on it. -/

namespace LogosAccounts
open BetterSign hiding mk
open Functional

section
variable [BetterSign]

def VerifiedCache (cache : AccountCache) : Prop :=
  ∀ key account, cache.lookup key = some account → FullyVerified account.log

theorem PlogAccount.Change.verified {account account' : PlogAccount} {ambient : Ambient}
    {drawn : Option String} (change : account.Change ambient drawn account')
    (verified : FullyVerified account.log) : FullyVerified account'.log := by
  cases change with
  | dropped pending part => exact verified
  | issued pending part id fresh input unsigned built => exact verified
  | appended entry extended => exact extended

theorem reachable_verified (append : AppendLaws) {cache : AccountCache} (reachable : Reachable cache) :
    VerifiedCache cache := by
  obtain ⟨run, rfl⟩ := reachable
  apply run_each
  · intro call ambient _ account summary key installs _
    exact (summary_verified (installs_ok installs).1).1
  · intro call ambient _ vlad op key account _ verified
    exact (account.perform_change append op ambient).verified verified

omit [BetterSign] in
/-- The verification error, or a failed `expect`. -/
def Error.verifyFailure : Error → Bool
  | .plogVerifyFailed _ | .panic _ => true
  | _ => false

omit [BetterSign] in
/-- The computation never answers `PlogVerifyFailed` and reaches no failing `expect`. -/
def NeverVerifyFails (result : Except Error α) : Prop :=
  ErrorsIn (fun e => e.verifyFailure = false) result

theorem parseKey_neverVerifyFails (path : String) : NeverVerifyFails (parseKey path) :=
  .mapError fun _ => rfl

theorem parseBranchPath_neverVerifyFails (path : String) :
    NeverVerifyFails (parseBranchPath path) := by
  intro e failed
  obtain ⟨detail, rfl⟩ := parseBranchPath_error failed
  rfl

theorem delegatePubkeyKey_neverVerifyFails (branch : Key) :
    NeverVerifyFails (delegatePubkeyKey branch) := by
  intro e failed
  obtain ⟨detail, rfl⟩ := delegatePubkeyKey_error failed
  rfl

private theorem resolve_neverVerifyFails (target : Key) (delegations : List PathDelegation) :
    NeverVerifyFails (resolveClosestParentSigningKey target delegations) := by
  unfold resolveClosestParentSigningKey
  split
  · exact .bind (delegatePubkeyKey_neverVerifyFails _) fun _ _ => .ok _
  · exact .ok _

private theorem decodeBytes_neverVerifyFails (s : String) :
    NeverVerifyFails (decodeBytesMultibase s) :=
  .bind (.mapError fun _ => rfl) fun _ _ => .ok _

private theorem opFromParams_neverVerifyFails (params : OpParams) :
    NeverVerifyFails (opFromParams params) := by
  cases params
  case keyGen => exact .error rfl
  case cidGen => exact .error rfl
  all_goals exact .mapError fun _ => rfl

private theorem nextEntryAfter_neverVerifyFails (log : Log) (last : Entry) (spec : NextEntrySpec) :
    NeverVerifyFails (nextEntryAfter log last spec) := by
  refine .bind (.mapM opFromParams_neverVerifyFails) fun ops _ => .bind ?_ fun link _ =>
    .bind (.mapError fun _ => rfl) fun _ _ => .ok _
  unfold longHop
  split
  · exact .bind (.mapError fun _ => rfl) fun _ _ => .ok _
  · exact .ok _

private theorem lockSpec_neverVerifyFails (head : Entry) (spec : LockSpec) :
    NeverVerifyFails (lockSpecToScripts head spec) := by
  have script (s : LockScriptJson) : NeverVerifyFails (lockScriptFromJson s) :=
    .bind (parseKey_neverVerifyFails _) fun _ _ => .ok _
  cases spec with
  | keyword k =>
    simp only [lockSpecToScripts]
    split
    · exact .ok _
    · exact .error rfl
  | replace replace => exact .bind (.mapM script) fun _ _ => .ok _
  | upsert upsert =>
    exact .bind (parseKey_neverVerifyFails _) fun _ _ => .bind (script _) fun _ _ => .ok _
  | remove remove => exact .bind (parseKey_neverVerifyFails _) fun _ _ => .ok _

private theorem updateSpec_neverVerifyFails (requestJson : String) :
    NeverVerifyFails (PlogAccount.updateSpec requestJson) := by
  have op (op : PlogOp) : NeverVerifyFails op.intoOpParams := by
    cases op with
    | noop key => exact .bind (parseKey_neverVerifyFails _) fun _ _ => .ok _
    | delete key => exact .bind (parseKey_neverVerifyFails _) fun _ _ => .ok _
    | update key value =>
      refine .bind (parseKey_neverVerifyFails _) fun _ _ => ?_
      cases value with
      | str s => exact .ok _
      | data multibase => exact .bind (decodeBytes_neverVerifyFails _) fun _ _ => .ok _
  refine .bind ?_ fun req _ => .bind (parseKey_neverVerifyFails _) fun _ _ =>
    .bind (.mapM op) fun _ _ => .ok _
  unfold parseEntryUpdateRequest
  split
  · exact .error rfl
  · split
    · exact .error rfl
    · exact .ok _

section
variable {account : PlogAccount} {entry : Entry} {kvp : Kvp}
  (head : VerifiedHead account.log entry kvp)
include head

private theorem VerifiedHead.delegateSpec_neverVerifyFails (path pubkeyMultibase : String) :
    NeverVerifyFails (account.delegateSpec path pubkeyMultibase) := by
  refine .bind (parseBranchPath_neverVerifyFails _) fun branch _ =>
    .bind (.mapError fun _ => rfl) fun multikey _ =>
    .bind (delegatePubkeyKey_neverVerifyFails _) fun pkKey _ =>
    .bind (.ok _) fun lock _ => .bind ?_ fun delegations _ =>
    .bind (resolve_neverVerifyFails _ _) fun _ _ => .ok _
  rw [head.listDelegations]
  exact .ok _

private theorem VerifiedHead.revokeSpec_neverVerifyFails (path : String) :
    NeverVerifyFails (account.revokeSpec path) := by
  refine .bind (parseBranchPath_neverVerifyFails _) fun branch _ =>
    .bind (delegatePubkeyKey_neverVerifyFails _) fun pkKey _ => .bind ?_ fun delegations _ =>
    .bind (resolve_neverVerifyFails _ _) fun _ _ => .ok _
  rw [head.listDelegations]
  exact .ok _

private theorem VerifiedHead.unsignedEntry_neverVerifyFails (input : PrepareEntrySpec) :
    NeverVerifyFails (account.unsignedEntry input) := by
  unfold PlogAccount.unsignedEntry
  rw [head.headEntry]
  refine .bind (.ok _) fun _ _ => .bind (lockSpec_neverVerifyFails _ _) fun _ _ => ?_
  rw [head.prepareNextEntry]
  exact nextEntryAfter_neverVerifyFails _ _ _

private theorem VerifiedHead.prepareWith_neverVerifyFails {spec : Except Error PrepareEntrySpec}
    (input : NeverVerifyFails spec) (ambient : Ambient) :
    NeverVerifyFails (account.prepareWith spec ambient).1 := by
  have outcome := account.prepareWith_outcome spec ambient
  generalize account.prepareWith spec ambient = result at outcome ⊢
  cases outcome with
  | invalid e failed => exact .error (input e failed)
  | refused e input given failed => exact .error (head.unsignedEntry_neverVerifyFails input e failed)
  | issued input given unsigned built => exact .ok _

end

theorem FullyVerified.summary_neverVerifyFails {log : Log} (verified : FullyVerified log) :
    NeverVerifyFails (summaryFromVerifiedPlog log) := by
  obtain ⟨entry, kvp, head⟩ := verified.head
  unfold summaryFromVerifiedPlog summaryPubkey
  rw [ensurePlogVerified_iff.mpr verified, head.getPlogValue]
  refine .bind (.ok _) fun _ _ => .bind ?_ fun _ _ => .ok _
  cases parsed : parseKey "/pubkey" with
  | error e =>
    have kind := parseKey_neverVerifyFails _ e parsed
    cases e <;> first | exact .ok _ | exact .error kind
  | ok key =>
    simp only [except_ok_bind, valueAt]
    cases kvp.find key with
    | none => exact .ok _
    | some v => cases v <;> exact .ok _

theorem FullyVerified.commit_neverVerifyFails (append : AppendLaws) (account : PlogAccount)
    (challengeId signature : String) (ambient : Ambient) :
    NeverVerifyFails (account.commitUpdate challengeId signature ambient).1 := by
  have outcome := account.commitUpdate_outcome append challengeId signature ambient
  generalize account.commitUpdate challengeId signature ambient = result at outcome ⊢
  cases outcome with
  | unknown missing => exact .error rfl
  | refused e p found kind => cases e <;> first | exact .error rfl | cases kind
  | appended p found sameHead sig decoded entry built verified =>
    exact verified.summary_neverVerifyFails.map

/-- One head for all six readers, and no verification failure or failing
`expect` in any answer. -/
structure SoundAccount (account : PlogAccount) : Prop where
  verified : FullyVerified account.log
  sameHead : ∃ n entry kvp, (logVerify account.log).getLast? = some (.ok (n, entry, kvp)) ∧
    ensurePlogVerified account.log = .ok () ∧
    (∀ path, account.getValue path = parseKey path >>= fun key => valueAt kvp key path) ∧
    account.listDelegations = .ok (delegationsOf entry kvp) ∧
    account.headEntry = .ok entry ∧
    (∀ spec, prepareNextEntry account.log spec = nextEntryAfter account.log entry spec)
  getValue : ∀ path, NeverVerifyFails (account.getValue path)
  listDelegations : NeverVerifyFails account.listDelegations
  prepareUpdate : ∀ requestJson ambient,
    NeverVerifyFails (account.prepareUpdate requestJson ambient).1
  prepareDelegate : ∀ path pubkeyMultibase ambient,
    NeverVerifyFails (account.prepareDelegate path pubkeyMultibase ambient).1
  prepareRevoke : ∀ path ambient, NeverVerifyFails (account.prepareRevoke path ambient).1
  commitUpdate : ∀ challengeId signature ambient,
    NeverVerifyFails (account.commitUpdate challengeId signature ambient).1

/-- In every reachable state every cached log is non-empty and verified
throughout, with all that follows for the account that holds it. -/
theorem cached_account_sound (append : AppendLaws) {cache : AccountCache}
    (reachable : Reachable cache) {key : VladHash} {account : PlogAccount}
    (cached : cache.lookup key = some account) : SoundAccount account := by
  have verified := reachable_verified append reachable key account cached
  obtain ⟨entry, kvp, head⟩ := verified.head
  obtain ⟨n, last⟩ := head.last
  exact {
    verified
    sameHead := ⟨n, entry, kvp, last, ensurePlogVerified_iff.mpr verified, head.getPlogValue,
      head.listDelegations, head.headEntry, head.prepareNextEntry⟩
    getValue := by
      intro path
      unfold PlogAccount.getValue
      rw [head.getPlogValue]
      refine .bind (parseKey_neverVerifyFails _) fun key _ => ?_
      unfold valueAt
      split
      · exact .ok _
      · exact .error rfl
    listDelegations := by
      rw [head.listDelegations]
      exact .ok _
    prepareUpdate := fun requestJson ambient =>
      head.prepareWith_neverVerifyFails (updateSpec_neverVerifyFails requestJson) ambient
    prepareDelegate := fun path pubkeyMultibase ambient =>
      head.prepareWith_neverVerifyFails (head.delegateSpec_neverVerifyFails path pubkeyMultibase) ambient
    prepareRevoke := fun path ambient =>
      head.prepareWith_neverVerifyFails (head.revokeSpec_neverVerifyFails path) ambient
    commitUpdate := FullyVerified.commit_neverVerifyFails append account }

end

section
open Reference

def delegationCalls : List (Call × Ambient) :=
  [(.createAccount "u5wEC", sampleAmbient 0 9),
    (.prepareDelegate "uhwAA6eE" "/a/" "u5wkJ", sampleAmbient 1 0),
    (.commitUpdate "uhwAA6eE" "uAAAAAAAAAAAAAAAAAAAAAA" "uAQL8CM0U", sampleAmbient 3 9)]

theorem cached_account_sound_delegation :
    ∃ account, (accountsModule.after ∅ delegationCalls).lookup
        (vladHashFromMultibase "uhwAA6eE") = some account ∧ SoundAccount account := by
  have present : ((accountsModule.after ∅ delegationCalls).lookup
      (vladHashFromMultibase "uhwAA6eE")).isSome = true := by decide +kernel
  obtain ⟨account, cached⟩ := Option.isSome_iff_exists.mp present
  exact ⟨account, cached, cached_account_sound appendLaws ⟨delegationCalls, rfl⟩ cached⟩

end

end LogosAccounts
