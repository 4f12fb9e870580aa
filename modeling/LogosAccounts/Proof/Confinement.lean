import LogosAccounts.Functional.Noninterference
import LogosAccounts.Functional.PrefixChain
import LogosAccounts.Proof.ClosestParent
import LogosAccounts.Proof.Contents

/-! What is confined to some branches is not seen outside of them. A grant, a
revocation, or a raw update that names only keys under the branches leaves every
value, every lock and every listed grant elsewhere as it was, and nothing committed
afterwards brings it to light there. -/

namespace LogosAccounts
open BetterSign hiding mk
open Functional

section
variable [BetterSign]

def underAny (branches : List Key) (key : Key) : Bool := branches.any (keyUnderBranch key)

def pathUnderAny (branches : List Key) (path : String) : Bool :=
  (keyTryFrom path).toOption.any (underAny branches)

/-- The directive edits no lock outside of the branches; a whole list given anew
replaces the locks everywhere. -/
def LockSpec.confinedTo (branches : List Key) : LockSpec → Bool
  | .keyword _ => true
  | .replace _ => false
  | .upsert given => pathUnderAny branches given.path
  | .remove path => pathUnderAny branches path

def Op.confinedTo (branches : List Key) : Op → Bool
  | .noop _ => true
  | .delete key | .update key _ => underAny branches key

def ContentEdit.confinedTo (branches : List Key) (edit : ContentEdit) : Bool :=
  edit.locks.confinedTo branches &&
    edit.ops.all fun params => params.described.all (Op.confinedTo branches)

/-- The sugar is confined by its path alone, a raw update by all that it names. -/
def AccountOp.confinedTo (branches : List Key) : AccountOp → Bool
  | .prepareUpdate requestJson =>
    (PlogAccount.updateSpec requestJson).toOption.any fun spec =>
      ContentEdit.confinedTo branches ⟨spec.locks, spec.ops⟩
  | .prepareDelegate path _ | .prepareRevoke path => pathUnderAny branches path
  | .commitUpdate _ _ | .cancelUpdate _ => false

theorem underAny_leaf (keys : KeyLaws) (slash : BranchSlashLaw) (parents : ParentLaw)
    {branches : List Key} (areBranches : ∀ branch ∈ branches, keyIsBranch branch = true)
    {parent leaf : Key} (made : delegatePubkeyKey parent = .ok leaf) :
    underAny branches leaf = underAny branches parent := by
  have parsed := (delegatePubkeyKey_ok.mp made).2
  unfold underAny
  rw [Bool.eq_iff_iff, List.any_eq_true, List.any_eq_true]
  apply exists_congr
  intro branch
  apply and_congr_right
  intro member
  have isBranch := areBranches branch member
  unfold keyUnderBranch
  rw [parents branch leaf isBranch, parents branch parent isBranch]
  unfold Prefixes
  rw [keys.keeps _ _ parsed, String.toList_append]
  exact prefix_of_named (slash branch isBranch) (by decide)

theorem pathUnderAny_parsed {branches : List Key} {path : String} {key : Key}
    (parsed : keyTryFrom path = .ok key) : pathUnderAny branches path = underAny branches key := by
  unfold pathUnderAny
  rw [parsed]
  rfl

theorem AccountOp.asks_confined (keys : KeyLaws) (slash : BranchSlashLaw) (parents : ParentLaw)
    {branches : List Key} (areBranches : ∀ branch ∈ branches, keyIsBranch branch = true)
    {op : AccountOp} (confined : op.confinedTo branches = true) {edit : ContentEdit}
    (asked : op.asks = some edit) : edit.confinedTo branches = true := by
  cases op with
  | prepareUpdate requestJson =>
    obtain ⟨spec, given, rfl⟩ := Option.map_eq_some_iff.mp asked
    simpa only [AccountOp.confinedTo, given, Option.any_some] using confined
  | prepareDelegate path pubkeyMultibase =>
    obtain ⟨branch, accepted, asked⟩ := Option.bind_eq_some_iff.mp asked
    obtain ⟨multikey, decoded, asked⟩ := Option.bind_eq_some_iff.mp asked
    obtain ⟨leaf, made, asked⟩ := Option.bind_eq_some_iff.mp asked
    obtain rfl := Option.some.inj asked
    have parsed := (parseBranchPath_ok.mp (toOption_eq_some.mp accepted)).1
    have under : underAny branches branch = true := (pathUnderAny_parsed parsed).symm.trans confined
    have leafUnder := underAny_leaf keys slash parents areBranches (toOption_eq_some.mp made)
    simp [ContentEdit.confinedTo, LockSpec.confinedTo, pathUnderAny_parsed (keys.reparse branch),
      useKeyOp, OpParams.described, Op.confinedTo, leafUnder, under]
  | prepareRevoke path =>
    obtain ⟨branch, accepted, asked⟩ := Option.bind_eq_some_iff.mp asked
    obtain ⟨leaf, made, asked⟩ := Option.bind_eq_some_iff.mp asked
    obtain rfl := Option.some.inj asked
    have parsed := (parseBranchPath_ok.mp (toOption_eq_some.mp accepted)).1
    have under : underAny branches branch = true := (pathUnderAny_parsed parsed).symm.trans confined
    have leafUnder := underAny_leaf keys slash parents areBranches (toOption_eq_some.mp made)
    simp [ContentEdit.confinedTo, LockSpec.confinedTo, pathUnderAny_parsed (keys.reparse branch),
      OpParams.described, Op.confinedTo, leafUnder, under]
  | commitUpdate id signature => cases asked
  | cancelUpdate id => cases asked

def locksOutside (branches : List Key) (locks : List Script) : List Script :=
  locks.filter fun lock => !underAny branches lock.path

def grantsOutside (branches : List Key) (grants : List PathDelegation) : List PathDelegation :=
  grants.filter fun grant => !pathUnderAny branches grant.path

/-- The stores hold the same outside of the branches. -/
structure Contents.SameOutside (branches : List Key) (contents other : Contents) : Prop where
  values : ∀ key, underAny branches key = false → contents.values key = other.values key
  locks : locksOutside branches contents.locks = locksOutside branches other.locks

theorem Contents.sameOutside_equivalence (branches : List Key) :
    Equivalence (Contents.SameOutside branches) where
  refl _ := ⟨fun _ _ => rfl, rfl⟩
  symm same := {
    values := fun key outside => (same.values key outside).symm
    locks := same.locks.symm }
  trans same next := {
    values := fun key outside => (same.values key outside).trans (next.values key outside)
    locks := same.locks.trans next.locks }

theorem locksOutside_append (branches : List Key) (locks more : List Script) :
    locksOutside branches (locks ++ more) =
      locksOutside branches locks ++ locksOutside branches more :=
  List.filter_append locks more

theorem locksOutside_removed (branches : List Key) (locks : List Script) (key : Key) :
    locksOutside branches (locks.filter fun lock => lock.path ≠ key) =
      (locksOutside branches locks).filter fun lock => lock.path ≠ key := by
  unfold locksOutside
  rw [List.filter_filter, List.filter_filter]
  simp only [Bool.and_comm]

theorem locksOutside_removed_under {branches : List Key} {key : Key}
    (under : underAny branches key = true) (locks : List Script) :
    locksOutside branches (locks.filter fun lock => lock.path ≠ key) = locksOutside branches locks := by
  rw [locksOutside_removed]
  apply List.filter_eq_self.mpr
  intro lock member
  have outside := (List.mem_filter.mp member).2
  simp only [decide_eq_true_eq]
  rintro rfl
  simp [under] at outside

theorem LockSpec.edited_quiet {branches : List Key} {spec : LockSpec}
    (confined : spec.confinedTo branches = true) {locks locks' : List Script}
    (edited : spec.edited locks = some locks') :
    locksOutside branches locks = locksOutside branches locks' := by
  cases spec with
  | keyword word =>
    obtain ⟨_, same⟩ := Option.ite_none_right_eq_some.mp edited
    rw [Option.some.inj same]
  | replace given => cases confined
  | upsert given =>
    obtain ⟨key, parsed, rfl⟩ := Option.map_eq_some_iff.mp edited
    have under : underAny branches key = true :=
      (pathUnderAny_parsed (toOption_eq_some.mp parsed)).symm.trans confined
    have unseen : locksOutside branches [.code key given.code] = [] := by
      simp [locksOutside, Script.path, under]
    rw [locksOutside_append, unseen, List.append_nil, locksOutside_removed_under under]
  | remove path =>
    obtain ⟨key, parsed, rfl⟩ := Option.map_eq_some_iff.mp edited
    have under : underAny branches key = true :=
      (pathUnderAny_parsed (toOption_eq_some.mp parsed)).symm.trans confined
    exact (locksOutside_removed_under under locks).symm

/-- Whether a directive can be read does not depend on the locks, and what it makes
of them outside only on those outside. -/
theorem LockSpec.edited_respects {branches : List Key} {spec : LockSpec}
    {locks other locks' : List Script} (same : locksOutside branches locks = locksOutside branches other)
    (edited : spec.edited locks = some locks') :
    ∃ other', spec.edited other = some other' ∧
      locksOutside branches locks' = locksOutside branches other' := by
  cases spec with
  | keyword word =>
    obtain ⟨inherit, kept⟩ := Option.ite_none_right_eq_some.mp edited
    obtain rfl := Option.some.inj kept
    exact ⟨other, if_pos inherit, same⟩
  | replace given => exact ⟨locks', edited, rfl⟩
  | upsert given =>
    obtain ⟨key, parsed, rfl⟩ := Option.map_eq_some_iff.mp edited
    refine ⟨_, Option.map_eq_some_iff.mpr ⟨key, parsed, rfl⟩, ?_⟩
    rw [locksOutside_append, locksOutside_append, locksOutside_removed, locksOutside_removed, same]
  | remove path =>
    obtain ⟨key, parsed, rfl⟩ := Option.map_eq_some_iff.mp edited
    refine ⟨_, Option.map_eq_some_iff.mpr ⟨key, parsed, rfl⟩, ?_⟩
    rw [locksOutside_removed, locksOutside_removed, same]

theorem applyOps_quiet {branches : List Key} {ops : List Op}
    (confined : ops.all (Op.confinedTo branches) = true) (pairs : Key → Option Value) {key : Key}
    (outside : underAny branches key = false) : ops.foldl applyOp pairs key = pairs key := by
  induction ops generalizing pairs with
  | nil => rfl
  | cons op rest ih =>
    obtain ⟨first, confined⟩ := Bool.and_eq_true_iff.mp confined
    rw [List.foldl_cons, ih confined]
    have elsewhere {named : Key} (under : underAny branches named = true) : key ≠ named := by
      rintro rfl
      cases under.symm.trans outside
    cases op with
    | noop _ => rfl
    | delete named => exact if_neg (elsewhere first)
    | update named value => exact if_neg (elsewhere first)

theorem applyOps_respects {pairs other : Key → Option Value} {key : Key} (same : pairs key = other key)
    (ops : List Op) : ops.foldl applyOp pairs key = ops.foldl applyOp other key := by
  induction ops generalizing pairs other with
  | nil => exact same
  | cons op rest ih =>
    apply ih
    cases op with
    | noop _ => exact same
    | delete named => simp only [applyOp, same]
    | update named value => simp only [applyOp, same]

namespace Contents

theorem apply_eq {contents contents' : Contents} {edit : ContentEdit} :
    contents.apply edit = some contents' ↔
      ∃ locks ops, edit.locks.edited contents.locks = some locks ∧
        edit.ops.mapM OpParams.described = some ops ∧
        contents' = ⟨ops.foldl applyOp contents.values, locks⟩ := by
  unfold apply
  simp only [Option.bind_eq_bind, Option.bind_eq_some_iff, Option.pure_def, Option.some.injEq]
  constructor
  · rintro ⟨locks, edited, ops, described, rfl⟩
    exact ⟨locks, ops, edited, described, rfl⟩
  · rintro ⟨locks, ops, edited, described, rfl⟩
    exact ⟨locks, edited, ops, described, rfl⟩

theorem apply_quiet {branches : List Key} {edit : ContentEdit}
    (confined : edit.confinedTo branches = true) {contents contents' : Contents}
    (applied : contents.apply edit = some contents') : contents.SameOutside branches contents' := by
  obtain ⟨locks, ops, edited, described, rfl⟩ := apply_eq.mp applied
  obtain ⟨directive, named⟩ := Bool.and_eq_true_iff.mp confined
  constructor
  · intro key outside
    exact (applyOps_quiet (mapM_all described named) contents.values outside).symm
  · exact LockSpec.edited_quiet directive edited

theorem apply_respects {branches : List Key} {edit : ContentEdit} {contents other contents' : Contents}
    (same : contents.SameOutside branches other) (applied : contents.apply edit = some contents') :
    ∃ other', other.apply edit = some other' ∧ contents'.SameOutside branches other' := by
  obtain ⟨locks, ops, edited, described, rfl⟩ := apply_eq.mp applied
  obtain ⟨locks', edited', sameLocks⟩ := LockSpec.edited_respects same.locks edited
  refine ⟨_, apply_eq.mpr ⟨locks', ops, edited', described, rfl⟩, ?_, sameLocks⟩
  intro key outside
  exact applyOps_respects (same.values key outside) ops

/-- An observer of what is outside of the branches. -/
def outsider (keys : KeyLaws) (slash : BranchSlashLaw) (parents : ParentLaw) {branches : List Key}
    (areBranches : ∀ branch ∈ branches, keyIsBranch branch = true) : Observer Contents.commit where
  alike := SameOutside branches
  unseen := AccountOp.confinedTo branches
  equivalence := sameOutside_equivalence branches
  quiet confined committed := by
    obtain ⟨edit, asked, applied⟩ := Option.bind_eq_some_iff.mp committed
    exact apply_quiet (AccountOp.asks_confined keys slash parents areBranches confined asked) applied
  respects same committed := by
    obtain ⟨edit, asked, applied⟩ := Option.bind_eq_some_iff.mp committed
    obtain ⟨other', applied', same'⟩ := apply_respects same applied
    exact ⟨other', Option.bind_eq_some_iff.mpr ⟨edit, asked, applied'⟩, same'⟩

theorem SameOutside.read {branches : List Key} {contents other : Contents}
    (same : contents.SameOutside branches other) {path : String}
    (outside : pathUnderAny branches path = false) : contents.read path = other.read path := by
  unfold Contents.read
  cases parsed : parseKey path with
  | error e => rfl
  | ok key =>
    rw [pathUnderAny_parsed (parseKey_ok.mp parsed)] at outside
    simp only [except_ok_bind, same.values key outside]

theorem grantOf_path (keys : KeyLaws) (branches : List Key) {contents : Contents} {lock : Script}
    {grant : PathDelegation} (made : contents.grantOf lock = some grant) :
    pathUnderAny branches grant.path = underAny branches lock.path := by
  unfold grantOf at made
  obtain ⟨_, made⟩ := Option.ite_none_right_eq_some.mp made
  obtain ⟨leaf, _, made⟩ := Option.bind_eq_some_iff.mp made
  obtain ⟨value, _, made⟩ := Option.bind_eq_some_iff.mp made
  obtain ⟨pubkey, _, made⟩ := Option.bind_eq_some_iff.mp made
  obtain rfl := Option.some.inj made
  exact pathUnderAny_parsed (keys.reparse lock.path)

theorem grantsOutside_eq (keys : KeyLaws) (branches : List Key) (contents : Contents) :
    grantsOutside branches contents.grants =
      sortBy PathDelegation.path ((locksOutside branches contents.locks).filterMap contents.grantOf) := by
  unfold grantsOutside grants locksOutside
  rw [filter_sortBy_comm, List.filter_filterMap, List.filterMap_filter]
  congr 1
  apply List.filterMap_congr
  intro lock _
  cases made : contents.grantOf lock with
  | none => simp
  | some grant =>
    rw [Option.filter_some, grantOf_path keys branches made]

theorem SameOutside.grantOf (keys : KeyLaws) (slash : BranchSlashLaw) (parents : ParentLaw)
    {branches : List Key} (areBranches : ∀ branch ∈ branches, keyIsBranch branch = true)
    {contents other : Contents} (same : contents.SameOutside branches other) {lock : Script}
    (outside : underAny branches lock.path = false) :
    contents.grantOf lock = other.grantOf lock := by
  unfold Contents.grantOf
  cases made : delegatePubkeyKey lock.path with
  | error e => rfl
  | ok leaf =>
    rw [← underAny_leaf keys slash parents areBranches made] at outside
    simp only [Except.toOption, Option.bind_eq_bind, Option.bind_some, same.values leaf outside]

theorem SameOutside.grants (keys : KeyLaws) (slash : BranchSlashLaw) (parents : ParentLaw)
    {branches : List Key} (areBranches : ∀ branch ∈ branches, keyIsBranch branch = true)
    {contents other : Contents} (same : contents.SameOutside branches other) :
    grantsOutside branches contents.grants = grantsOutside branches other.grants := by
  rw [grantsOutside_eq keys, grantsOutside_eq keys, ← same.locks]
  congr 1
  apply List.filterMap_congr
  intro lock member
  have outside := (List.mem_filter.mp member).2
  exact same.grantOf keys slash parents areBranches (by simpa using outside)

end Contents

/-- The ancestors of what is outside are outside, so no grant within is asked for a
signer. -/
theorem closestParent_outside (parents : ParentLaw) {branches : List Key}
    (areBranches : ∀ branch ∈ branches, keyIsBranch branch = true) {target : Key}
    (outside : underAny branches target = false) (grants : List PathDelegation) :
    resolveClosestParentSigningKey target (grantsOutside branches grants) =
      resolveClosestParentSigningKey target grants := by
  have same : (grantsOutside branches grants).filterMap (ancestorOf target) =
      grants.filterMap (ancestorOf target) := by
    unfold grantsOutside
    rw [List.filterMap_filter]
    apply List.filterMap_congr
    intro grant _
    cases inside : pathUnderAny branches grant.path with
    | false => rfl
    | true =>
      cases listed : ancestorOf target grant with
      | none => rfl
      | some ancestor =>
        obtain ⟨parsed, proper⟩ := (ancestorOf_some parents).mp listed
        rw [pathUnderAny_parsed parsed] at inside
        obtain ⟨branch, member, under⟩ := List.any_eq_true.mp inside
        have isBranch := areBranches branch member
        have starts : Prefixes branch target :=
          ((parents branch ancestor isBranch).mp under).trans proper.starts
        have within : underAny branches target = true :=
          List.any_eq_true.mpr ⟨branch, member, (parents branch target isBranch).mpr starts⟩
        cases within.symm.trans outside
  unfold resolveClosestParentSigningKey
  rw [closestParent_argmax, closestParent_argmax, same]

/-- What the readers of an account say of what is outside of the branches, given a
store that holds it; and the signers that a grant or a revocation there would need. -/
structure ReadsOutside (branches : List Key) (account : PlogAccount) (contents : Contents) :
    Prop where
  values : ∀ path, pathUnderAny branches path = false → account.getValue path = contents.read path
  grants : ∃ listed, account.listDelegations = .ok listed ∧
    grantsOutside branches listed = grantsOutside branches contents.grants ∧
      ∀ target, underAny branches target = false →
        resolveClosestParentSigningKey target listed =
          resolveClosestParentSigningKey target contents.grants
  locks : ∃ locks, account.headLocks = .ok locks ∧
    locksOutside branches locks = locksOutside branches contents.locks

/-- After any run on an opened account, what is read outside of some branches is what the
committed operations that are not confined to them have written; all that was committed
within the branches, before, after and in between, may as well not have been. -/
theorem outside_unseen (keys : KeyLaws) (slash : BranchSlashLaw) (parents : ParentLaw)
    (entries : EntryLaws) (opLaw : OpLaw) (append : AppendLaws) (verify : VerifyLaws)
    {branches : List Key} (areBranches : ∀ branch ∈ branches, keyIsBranch branch = true)
    {start : PlogAccount} (opened : start.Opened) (run : List (AccountOp × Ambient)) :
    ∃ contents, (((Journal.ofRun start run).committed.map Prod.fst).filter
        fun op => !op.confinedTo branches).foldlM Contents.commit (Contents.ofLog start.log) =
          some contents ∧
      ReadsOutside branches (accountMachine.after start run) contents := by
  have serial := run_is_serial append opened run
  have written := serial_contents entries opLaw append verify opened.verified serial
  have reached := (opened.reached run).verified append
  have reads := readsFrom_ofLog verify reached
  obtain ⟨contents, alone, same⟩ := (Contents.outsider keys slash parents areBranches).purge written
  have alike : Contents.SameOutside branches _ contents := same
  refine ⟨contents, alone, ?_, ?_, ?_⟩
  · intro path outside
    rw [reads.values, alike.read outside]
  · have listed := alike.grants keys slash parents areBranches
    refine ⟨_, reads.grants, listed, ?_⟩
    intro target outside
    have named := closestParent_outside parents areBranches outside
    rw [← named, listed, named]
  · exact ⟨_, reads.locks, alike.locks⟩

end

section
open Reference

def sampleBranches : List PathKey := (parseBranchPath "/a/").toOption.toList

/-- The sample delegation at `/a/` has been committed, and the value of `/pubkey` is the
first one. -/
theorem outside_unseen_crowded :
    (Journal.ofRun openedAccount crowdedOps).committed.map Prod.fst =
        [.prepareDelegate "/a/" "u5wkJ"] ∧
      (accountMachine.after openedAccount crowdedOps).getValue "/pubkey" =
        (Contents.ofLog openedAccount.log).read "/pubkey" := by
  have journalled : (Journal.ofRun openedAccount crowdedOps).committed.map Prod.fst =
      [.prepareDelegate "/a/" "u5wkJ"] := by decide +kernel
  have areBranches : ∀ branch ∈ sampleBranches, keyIsBranch branch = true := by decide +kernel
  have hidden : ([AccountOp.prepareDelegate "/a/" "u5wkJ"].filter fun op =>
      !op.confinedTo sampleBranches) = [] := by decide +kernel
  obtain ⟨contents, written, reads⟩ := outside_unseen keyLaws branchSlashLaw parentLaw entryLaws opLaw
    appendLaws verifyLaws areBranches openedAccount_opened crowdedOps
  rw [journalled, hidden] at written
  obtain rfl := Option.some.inj written
  exact ⟨journalled, reads.values "/pubkey" (by decide +kernel)⟩

end

end LogosAccounts
