import LogosAccounts.Proof.ClosestParent
import LogosAccounts.Proof.GrantRun
import LogosAccounts.Proof.LockScript
import LogosAccounts.Proof.RequestLocks

/-! Whether the signer that is named can sign. The listing takes a lock with the
relative key path for a grant to the key under the lock's branch, but such a lock
checks `/pubkey`; so the key of a branch is sure to be checked only where the
branch has the absolute lock that the sugar writes for it. -/

namespace LogosAccounts
open BetterSign hiding mk
open Functional

section
variable [BetterSign]

omit [BetterSign] in
/-- The call that checks the key at a path. -/
def signatureCheckCode (keyPath : String) : String :=
  "check_signature(\"" ++ keyPath ++ "\", \"/entry/\")"

omit [BetterSign] in
/-- The call that checks the key at a path relative to the domain. -/
def relativeLockCode : String := "check_signature(branch(\"pubkey\"), \"/entry/\")"

omit [BetterSign] in
/-- The script has one of the two shapes and checks the key at `keyPath`. The domain
is not set to the lock's path, so `branch("pubkey")` is `/pubkey`. -/
inductive ChecksKey : String → String → Prop where
  | absolute (keyPath : String) (rooted : ∃ rest, keyPath.toList = '/' :: rest)
      (plain : PlainPath keyPath) : ChecksKey (signatureCheckCode keyPath) keyPath
  | relative : ChecksKey relativeLockCode "/pubkey"

/-- The lock is a `Code` script that checks the key at `keyPath`. -/
def Script.Checks (lock : Script) (keyPath : String) : Prop :=
  ∃ path source, lock = .code path source ∧ ChecksKey source keyPath

omit [BetterSign] in
theorem signatureCheckCode_injective {left right : String}
    (same : signatureCheckCode left = signatureCheckCode right) : left = right := by
  unfold signatureCheckCode at same
  rwa [String.append_left_inj, String.append_right_inj] at same

omit [BetterSign] in
theorem signatureCheckCode_ne_relative (keyPath : String) :
    signatureCheckCode keyPath ≠ relativeLockCode := by
  intro same
  unfold signatureCheckCode relativeLockCode at same
  have letters := congrArg String.toList same
  simp at letters

/-- The sugar's lock checks the key under its branch. -/
theorem delegatedLockCode_eq (branch : Key) :
    delegatedLockCode branch = signatureCheckCode (keyAsStr branch ++ "pubkey") := by
  have literal : "pubkey\", \"/entry/\")" = "pubkey" ++ "\", \"/entry/\")" := by simp
  unfold delegatedLockCode signatureCheckCode
  rw [literal]
  simp only [String.append_assoc]

omit [BetterSign] in
private theorem checkCode_toList (keyPath : String) : (signatureCheckCode keyPath).toList =
    "check_signature(".toList ++ '"' :: (keyPath.toList ++ '"' :: ", \"/entry/\")".toList) := by
  unfold signatureCheckCode
  simp

omit [BetterSign] in
private theorem later_quote {keyPath more rest : List Char} (plain : '"' ∉ keyPath)
    (same : keyPath ++ '"' :: ", \"/entry/\")".toList = more ++ '"' :: rest) :
    ∀ c ∈ rest, c ∈ ", \"/entry/\")".toList := by
  rcases mark_split plain same.symm with ⟨_, rfl⟩ | ⟨between, _, ends⟩
  · exact fun c member => member
  · intro c member
    rw [ends]
    exact List.mem_append_right _ (List.mem_cons_of_mem _ member)

omit [BetterSign] in
private theorem plain_no_quote {keyPath : String} (plain : PlainPath keyPath) :
    '"' ∉ keyPath.toList := by
  intro member
  have noQuote := (plain '"' member).1
  simp [isQuote] at noQuote

omit [BetterSign] in
/-- A plain check contains the absolute form of a branch exactly when it checks the
key under that branch. -/
theorem contains_own {keyPath : String} (plain : PlainPath keyPath) (path : String) :
    containsText (signatureCheckCode keyPath) ("check_signature(\"" ++ path ++ "pubkey\"") = true ↔
      keyPath = path ++ "pubkey" := by
  have noQuote := plain_no_quote plain
  have noLetter : 'p' ∉ ", \"/entry/\")".toList := by decide
  constructor
  · intro found
    obtain ⟨front, rest, same⟩ := of_decide_eq_true found
    have pattern : ("check_signature(\"" ++ path ++ "pubkey\"").toList =
        "check_signature(".toList ++ '"' :: ((path ++ "pubkey").toList ++ ['"']) := by simp
    have split : (front ++ "check_signature(".toList) ++
          '"' :: ((path ++ "pubkey").toList ++ '"' :: rest) =
        "check_signature(".toList ++ '"' :: (keyPath.toList ++ '"' :: ", \"/entry/\")".toList) := by
      rw [← checkCode_toList, ← same, pattern]
      simp
    rcases mark_split (by decide) split with ⟨_, same⟩ | ⟨more, _, same⟩
    · rcases mark_split noQuote same with ⟨whole, _⟩ | ⟨more, runsOver, ends⟩
      · exact (String.toList_injective whole).symm
      · -- the path would run over the quote, with its last letters in the script's end
        have letters : "pubkey".toList <:+ keyPath.toList ++ '"' :: more := by
          rw [← runsOver, String.toList_append]
          exact List.suffix_append _ _
        have inMore := suffix_after_mark (by decide) letters
        apply absurd _ noLetter
        rw [ends]
        exact List.mem_append_left _ (inMore.subset (by decide))
    · exact absurd (later_quote noQuote same 'p' (by simp)) noLetter
  · rintro rfl
    have whole : signatureCheckCode (path ++ "pubkey") =
        ("check_signature(\"" ++ path ++ "pubkey\"") ++ ", \"/entry/\")" := by
      unfold signatureCheckCode
      apply String.toList_injective
      simp
    rw [whole]
    exact containsText_prefix _ _

omit [BetterSign] in
theorem contains_no_branch {keyPath : String} (plain : PlainPath keyPath) :
    containsText (signatureCheckCode keyPath) "branch(\"pubkey\")" = false := by
  have noLetter : 'p' ∉ ", \"/entry/\")".toList := by decide
  apply Bool.eq_false_iff.mpr
  intro found
  obtain ⟨front, rest, same⟩ := of_decide_eq_true found
  have split : (front ++ "branch(".toList) ++ '"' :: ("pubkey\")".toList ++ rest) =
      "check_signature(".toList ++ '"' :: (keyPath.toList ++ '"' :: ", \"/entry/\")".toList) := by
    rw [← checkCode_toList, ← same]
    simp
  rcases mark_split (by decide) split with ⟨same, _⟩ | ⟨more, _, same⟩
  · have ends : "branch(".toList <:+ "check_signature(".toList := ⟨front, same⟩
    revert ends
    decide
  · exact absurd (later_quote (plain_no_quote plain) same 'p' (by simp)) noLetter

/-- A lock of one of the two shapes counts as a delegation when it is the sugar's own
or the relative one. -/
theorem isDelegated_iff {path : Key} {source keyPath : String} (shape : ChecksKey source keyPath) :
    isDelegated (.code path source) = true ↔
      source = delegatedLockCode path ∨ source = relativeLockCode := by
  cases shape with
  | absolute keyPath rooted plain =>
    have notRelative := signatureCheckCode_ne_relative keyPath
    simp only [isDelegated, contains_no_branch plain, Bool.or_false, contains_own plain,
      delegatedLockCode_eq, notRelative, or_false]
    exact ⟨fun same => by rw [same], signatureCheckCode_injective⟩
  | relative =>
    have relative : containsText relativeLockCode "branch(\"pubkey\")" = true := by decide +kernel
    simp [isDelegated, relative]

/-- Every lock is a `Code` script of one of the two shapes. -/
def AllShaped (locks : List Script) : Prop := ∀ lock ∈ locks, ∃ keyPath, lock.Checks keyPath

/-- A lock at the branch is the sugar's own or the relative one, and a key is
stored under the branch. -/
structure Granted (locks : List Script) (pairs : Kvp) (branch : Key) : Prop where
  lock : ∃ source, .code branch source ∈ locks ∧
    (source = delegatedLockCode branch ∨ source = relativeLockCode)
  key : ∃ pkKey value pubkey, keyTryFrom (keyAsStr branch ++ "pubkey") = .ok pkKey ∧
    pairs.find pkKey = some value ∧ delegatedPubkey value = some pubkey

/-- The longest proper ancestor that is granted. -/
structure ClosestGranted (locks : List Script) (pairs : Kvp) (target branch : Key) : Prop where
  ancestor : ProperAncestor target branch
  granted : Granted locks pairs branch
  longest : ∀ other, ProperAncestor target other → Granted locks pairs other →
    (keyAsStr other).length ≤ (keyAsStr branch).length

theorem listsAncestor_iff (keys : KeyLaws) {last : Entry} {pairs : Kvp}
    (once : (pairs.map Prod.fst).Nodup) (shaped : AllShaped last.locks) {target branch : Key} :
    ListsAncestor target (delegationsOf last pairs) branch ↔
      ProperAncestor target branch ∧ Granted last.locks pairs branch := by
  constructor
  · rintro ⟨d, member, parsed, ancestor⟩
    obtain ⟨lock, isLock, reads⟩ := mem_delegationsOf.mp member
    obtain ⟨isBranch, _, delegated, pkKey, pubkey, valid, stored, rfl⟩ := delegationOfLock_some.mp reads
    obtain rfl := Except.ok.inj ((keys.reparse lock.path).symm.trans parsed)
    obtain ⟨keyPath, path, source, rfl, shape⟩ := shaped lock isLock
    rw [pubkeyAt_eq once, Option.bind_eq_some_iff] at stored
    obtain ⟨value, found, shown⟩ := stored
    refine ⟨ancestor, ⟨source, isLock, (isDelegated_iff shape).mp delegated⟩, ?_⟩
    exact ⟨pkKey, value, pubkey, (delegatePubkeyKey_ok.mp valid).2, found, shown⟩
  · rintro ⟨ancestor, ⟨source, isLock, own⟩, pkKey, value, pubkey, parsed, found, shown⟩
    obtain ⟨keyPath, path, source', same, shape⟩ := shaped _ isLock
    obtain ⟨rfl, rfl⟩ := Script.code.inj same
    have valid := delegatePubkeyKey_ok.mpr ⟨ancestor.isBranch, parsed⟩
    have stored : pubkeyAt pairs pkKey = some pubkey := by
      rw [pubkeyAt_eq once, found]
      exact shown
    have reads : delegationOfLock pairs (.code branch source) = some ⟨keyToString branch, pubkey⟩ :=
      delegationOfLock_some.mpr ⟨ancestor.isBranch, ancestor.notRoot, (isDelegated_iff shape).mpr own,
        pkKey, pubkey, valid, stored, rfl⟩
    exact ⟨_, mem_delegationsOf.mpr ⟨_, isLock, reads⟩, keys.reparse branch, ancestor⟩

theorem closestListed_iff (keys : KeyLaws) {last : Entry} {pairs : Kvp}
    (once : (pairs.map Prod.fst).Nodup) (shaped : AllShaped last.locks) {target branch : Key} :
    ClosestListed target (delegationsOf last pairs) branch ↔
      ClosestGranted last.locks pairs target branch := by
  have same (key : Key) : ListsAncestor target (delegationsOf last pairs) key ↔
      ProperAncestor target key ∧ Granted last.locks pairs key := listsAncestor_iff keys once shaped
  constructor
  · rintro ⟨listed, longest⟩
    obtain ⟨ancestor, granted⟩ := (same branch).mp listed
    exact ⟨ancestor, granted, fun other isAncestor isGranted =>
      longest other ((same other).mpr ⟨isAncestor, isGranted⟩)⟩
  · rintro ⟨ancestor, granted, longest⟩
    refine ⟨(same branch).mpr ⟨ancestor, granted⟩, ?_⟩
    intro other listed
    obtain ⟨isAncestor, isGranted⟩ := (same other).mp listed
    exact longest other isAncestor isGranted

/-- A delegation or a revocation of `path` is answered with the challenge. -/
inductive PlogAccount.GrantChallenge (account : PlogAccount) (path : String) :
    UpdateChallenge → Prop where
  | delegate (pubkeyMultibase : String) (ambient : Ambient) (challenge : UpdateChallenge)
      (success : (account.prepareDelegate path pubkeyMultibase ambient).1 = .ok challenge) :
      GrantChallenge account path challenge
  | revoke (ambient : Ambient) (challenge : UpdateChallenge)
      (success : (account.prepareRevoke path ambient).1 = .ok challenge) :
      GrantChallenge account path challenge

theorem PlogAccount.GrantChallenge.signer {account : PlogAccount} {path : String}
    {challenge : UpdateChallenge} (prepared : account.GrantChallenge path challenge) {target : Key}
    (accepted : parseBranchPath path = .ok target) {delegations : List PathDelegation}
    (listed : account.listDelegations = .ok delegations) :
    resolveClosestParentSigningKey target delegations = .ok challenge.signingKeyPath := by
  cases prepared with
  | delegate pubkeyMultibase ambient challenge success =>
    obtain ⟨input, unsigned, given, _, rfl, _⟩ := account.prepareWith_issued success
    obtain ⟨branch, _, delegations', accepted', _, listed', resolved, _⟩ := delegateSpec_ok given
    obtain rfl := Except.ok.inj (accepted.symm.trans accepted')
    obtain rfl := Except.ok.inj (listed.symm.trans listed')
    exact resolved
  | revoke ambient challenge success =>
    obtain ⟨input, unsigned, given, _, rfl, _⟩ := account.prepareWith_issued success
    obtain ⟨branch, delegations', accepted', listed', resolved, _⟩ := revokeSpec_ok given
    obtain rfl := Except.ok.inj (accepted.symm.trans accepted')
    obtain rfl := Except.ok.inj (listed.symm.trans listed')
    exact resolved

/-- The signer named is the key of the closest granted ancestor, or `/pubkey`. -/
theorem PlogAccount.GrantChallenge.closest {account : PlogAccount} {path : String}
    {challenge : UpdateChallenge} (prepared : account.GrantChallenge path challenge) (keys : KeyLaws)
    (parents : ParentLaw) (leaf : LeafLaw) (rootPath : RootKeyPath) (verify : VerifyLaws)
    {target : Key} (accepted : parseBranchPath path = .ok target) {last : Entry} {pairs : Kvp}
    (head : VerifiedHead account.log last pairs) (shaped : AllShaped last.locks) :
    ((∀ branch, ¬ ClosestGranted last.locks pairs target branch) ∧
      challenge.signingKeyPath = "/pubkey") ∨
    ∃ branch, ClosestGranted last.locks pairs target branch ∧
      (∀ other, ClosestGranted last.locks pairs target other → other = branch) ∧
      challenge.signingKeyPath = keyAsStr branch ++ "pubkey" := by
  have once := head.keysOnce verify
  have signer := prepared.signer accepted head.listDelegations
  rcases resolve_closest keys parents leaf rootPath target (delegationsOf last pairs) with
    ⟨none, named⟩ | ⟨branch, closest, named⟩
  · refine .inl ⟨?_, Except.ok.inj (signer.symm.trans named)⟩
    intro branch closest
    exact none branch ((listsAncestor_iff keys once shaped).mpr ⟨closest.ancestor, closest.granted⟩)
  · refine .inr ⟨branch, (closestListed_iff keys once shaped).mp closest, ?_,
      Except.ok.inj (signer.symm.trans named)⟩
    intro other closest'
    exact ((closestListed_iff keys once shaped).mpr closest').unique keys closest

end

section
open Reference

end

end LogosAccounts
