import LogosAccounts.BetterSign.Reference
import LogosAccounts.Functional.PrefixChain
import LogosAccounts.Proof.GrantEdit

/-! Which key is named as the signer of a grant. The loop over the delegations
keeps the longest proper ancestor of the target; the ancestors are prefixes of one
path, so there is one longest, in whatever order they are listed. -/

namespace LogosAccounts
open BetterSign hiding mk
open Functional

section
variable [BetterSign]

/-- A branch other than the root whose path properly starts the target's. -/
structure ProperAncestor (target branch : Key) : Prop where
  isBranch : keyIsBranch branch = true
  notRoot : keyAsStr branch ≠ "/"
  starts : Prefixes branch target
  proper : branch ≠ target

/-- Some delegation's path is the proper ancestor `branch`. -/
def ListsAncestor (target : Key) (delegations : List PathDelegation) (branch : Key) : Prop :=
  ∃ d ∈ delegations, keyTryFrom d.path = .ok branch ∧ ProperAncestor target branch

/-- The longest of the proper ancestors listed. -/
structure ClosestListed (target : Key) (delegations : List PathDelegation) (branch : Key) : Prop where
  listed : ListsAncestor target delegations branch
  longest : ∀ other, ListsAncestor target delegations other →
    (keyAsStr other).length ≤ (keyAsStr branch).length

def ancestorOf (target : Key) (d : PathDelegation) : Option Key :=
  match parseBranchPath d.path with
  | .error _ => none
  | .ok branch => if branch ≠ target ∧ keyParentOf branch target = true then some branch else none

theorem ancestorOf_some (parents : ParentLaw) {target branch : Key} {d : PathDelegation} :
    ancestorOf target d = some branch ↔
      keyTryFrom d.path = .ok branch ∧ ProperAncestor target branch := by
  unfold ancestorOf
  constructor
  · intro found
    cases accepted : parseBranchPath d.path with
    | error e => simp [accepted] at found
    | ok named =>
      obtain ⟨parsed, isBranch, notRoot⟩ := parseBranchPath_ok.mp accepted
      simp only [accepted, Option.ite_none_right_eq_some, Option.some.injEq] at found
      obtain ⟨⟨proper, parent⟩, rfl⟩ := found
      exact ⟨parsed, isBranch, notRoot, (parents named target isBranch).mp parent, proper⟩
  · rintro ⟨parsed, isBranch, notRoot, starts, proper⟩
    have accepted := parseBranchPath_ok.mpr ⟨parsed, isBranch, notRoot⟩
    have parent := (parents branch target isBranch).mpr starts
    simp [accepted, proper, parent]

theorem mem_ancestors (parents : ParentLaw) {target branch : Key}
    {delegations : List PathDelegation} :
    branch ∈ delegations.filterMap (ancestorOf target) ↔ ListsAncestor target delegations branch := by
  simp only [List.mem_filterMap, ancestorOf_some parents, ListsAncestor]

/-- The loop keeps the first largest of the ancestors. -/
theorem closestParent_argmax (target : Key) (delegations : List PathDelegation) :
    delegations.foldl (closestParentStep target) none =
      (delegations.filterMap (ancestorOf target)).argmax fun key => (keyAsStr key).utf8ByteSize := by
  induction delegations using List.reverseRecOn with
  | nil => rfl
  | append_singleton earlier d ih =>
    rw [List.foldl_append, ih, List.filterMap_append]
    generalize earlier.filterMap (ancestorOf target) = ancestors
    rw [List.foldl_cons, List.foldl_nil, closestParentStep]
    cases accepted : parseBranchPath d.path with
    | error e =>
      have named : [d].filterMap (ancestorOf target) = [] := by simp [ancestorOf, accepted]
      rw [named, List.append_nil]
    | ok branch =>
      by_cases isTarget : branch = target
      · have named : [d].filterMap (ancestorOf target) = [] := by
          simp [ancestorOf, accepted, isTarget]
        simp only [isTarget, if_true, named, List.append_nil]
      · by_cases parent : keyParentOf branch target = true
        · have named : [d].filterMap (ancestorOf target) = [branch] := by
            simp [ancestorOf, accepted, isTarget, parent]
          rw [named, List.argmax_concat]
          simp only [isTarget, parent, if_false, if_true]
          cases ancestors.argmax fun key => (keyAsStr key).utf8ByteSize <;> rfl
        · have named : [d].filterMap (ancestorOf target) = [] := by
            simp [ancestorOf, accepted, parent]
          simp only [isTarget, parent, if_false, named, List.append_nil]
          rfl

/-- Ancestors of one target are told apart by their size. -/
theorem ProperAncestor.unique (keys : KeyLaws) {target branch other : Key}
    (ancestor : ProperAncestor target branch) (ancestor' : ProperAncestor target other)
    (size : (keyAsStr branch).utf8ByteSize = (keyAsStr other).utf8ByteSize) : branch = other :=
  keys.text_injective (prefix_unique ancestor.starts ancestor'.starts size)

theorem closestParent_congr (keys : KeyLaws) (parents : ParentLaw) {target : Key}
    {delegations delegations' : List PathDelegation}
    (same : ∀ branch, ListsAncestor target delegations branch ↔
      ListsAncestor target delegations' branch) :
    delegations.foldl (closestParentStep target) none =
      delegations'.foldl (closestParentStep target) none := by
  rw [closestParent_argmax, closestParent_argmax]
  apply argmax_congr
  · intro branch member other member' size
    obtain ⟨_, _, _, ancestor⟩ := (mem_ancestors parents).mp member
    obtain ⟨_, _, _, ancestor'⟩ := (mem_ancestors parents).mp member'
    exact ancestor.unique keys ancestor' size
  · intro branch
    rw [mem_ancestors parents, mem_ancestors parents, same]

theorem closestParent_none (parents : ParentLaw) {target : Key}
    {delegations : List PathDelegation} :
    delegations.foldl (closestParentStep target) none = none ↔
      ∀ branch, ¬ ListsAncestor target delegations branch := by
  rw [closestParent_argmax, List.argmax_eq_none, List.eq_nil_iff_forall_not_mem]
  simp only [mem_ancestors parents]

theorem closestParent_some (parents : ParentLaw) {target branch : Key}
    {delegations : List PathDelegation}
    (found : delegations.foldl (closestParentStep target) none = some branch) :
    ClosestListed target delegations branch := by
  rw [closestParent_argmax] at found
  have listed := (mem_ancestors parents).mp (List.argmax_mem found)
  refine ⟨listed, ?_⟩
  intro other listed'
  have size := List.le_of_mem_argmax ((mem_ancestors parents).mpr listed') found
  obtain ⟨_, _, _, ancestor⟩ := listed
  obtain ⟨_, _, _, ancestor'⟩ := listed'
  have starts := prefix_of_size_le ancestor'.starts ancestor.starts size
  simpa only [String.length_toList] using starts.length_le

theorem ClosestListed.unique (keys : KeyLaws) {target branch other : Key}
    {delegations : List PathDelegation} (closest : ClosestListed target delegations branch)
    (closest' : ClosestListed target delegations other) : branch = other := by
  have length := Nat.le_antisymm (closest'.longest branch closest.listed)
    (closest.longest other closest'.listed)
  obtain ⟨_, _, _, ancestor⟩ := closest.listed
  obtain ⟨_, _, _, ancestor'⟩ := closest'.listed
  simp only [← String.length_toList] at length
  have starts := List.prefix_of_prefix_length_le ancestor.starts ancestor'.starts length.le
  exact keys.text_injective (String.toList_injective (starts.eq_of_length length))

/-- The result is `/pubkey` without a listed ancestor, and the delegate key of the
longest one otherwise. -/
theorem resolve_closest (keys : KeyLaws) (parents : ParentLaw) (leaf : LeafLaw)
    (rootPath : RootKeyPath) (target : Key) (delegations : List PathDelegation) :
    ((∀ branch, ¬ ListsAncestor target delegations branch) ∧
      resolveClosestParentSigningKey target delegations = .ok "/pubkey") ∨
    ∃ branch, ClosestListed target delegations branch ∧
      resolveClosestParentSigningKey target delegations = .ok (keyAsStr branch ++ "pubkey") := by
  unfold resolveClosestParentSigningKey
  cases found : delegations.foldl (closestParentStep target) none with
  | none =>
    refine .inl ⟨(closestParent_none parents).mp found, ?_⟩
    have shown : keyToString pubkeyKeyPath = "/pubkey" :=
      (keys.display _).trans (keys.keeps _ _ rootPath)
    exact congrArg Except.ok shown
  | some branch =>
    have closest := closestParent_some parents found
    obtain ⟨_, _, _, ancestor⟩ := closest.listed
    obtain ⟨pkKey, parsed⟩ := leaf branch ancestor.isBranch
    have valid : delegatePubkeyKey branch = .ok pkKey :=
      delegatePubkeyKey_ok.mpr ⟨ancestor.isBranch, parsed⟩
    refine .inr ⟨branch, closest, ?_⟩
    simp only [valid, except_ok_bind, except_pure, keys.display, keys.keeps _ _ parsed]

/-- For every target and every list of delegations a key is named: `/pubkey` when
no proper ancestor of the target is listed, and otherwise `{a}pubkey` for the one
longest proper ancestor `a`. Lists that name the same proper ancestors give the
same key: one list in any order, and with or without any other delegation. -/
theorem closest_parent_signing_key (keys : KeyLaws) (parents : ParentLaw) (leaf : LeafLaw)
    (rootPath : RootKeyPath) (target : Key) (delegations : List PathDelegation) :
    ((∀ branch, ¬ ListsAncestor target delegations branch) →
      resolveClosestParentSigningKey target delegations = .ok "/pubkey") ∧
    ((∃ branch, ListsAncestor target delegations branch) →
      ∃ branch, ClosestListed target delegations branch ∧
        (∀ other, ClosestListed target delegations other → other = branch) ∧
        resolveClosestParentSigningKey target delegations = .ok (keyAsStr branch ++ "pubkey")) ∧
    (∀ delegations', delegations.Perm delegations' →
      resolveClosestParentSigningKey target delegations' =
        resolveClosestParentSigningKey target delegations) ∧
    ∀ before d after, delegations = before ++ d :: after →
      (∀ branch, keyTryFrom d.path = .ok branch → ¬ ProperAncestor target branch) →
      resolveClosestParentSigningKey target (before ++ after) =
        resolveClosestParentSigningKey target delegations := by
  have sameKey {delegations' : List PathDelegation}
      (same : ∀ branch, ListsAncestor target delegations' branch ↔
        ListsAncestor target delegations branch) :
      resolveClosestParentSigningKey target delegations' =
        resolveClosestParentSigningKey target delegations := by
    unfold resolveClosestParentSigningKey
    rw [closestParent_congr keys parents same]
  have resolved := resolve_closest keys parents leaf rootPath target delegations
  refine ⟨?_, ?_, ?_, ?_⟩
  · intro none
    rcases resolved with ⟨_, named⟩ | ⟨branch, closest, _⟩
    · exact named
    · exact absurd closest.listed (none branch)
  · rintro ⟨listed, isListed⟩
    rcases resolved with ⟨none, _⟩ | ⟨branch, closest, named⟩
    · exact absurd isListed (none listed)
    · exact ⟨branch, closest, fun other closest' => closest'.unique keys closest, named⟩
  · intro delegations' reordered
    apply sameKey
    intro branch
    simp only [ListsAncestor, reordered.mem_iff]
  · rintro before d after rfl noAncestor
    apply sameKey
    intro branch
    constructor
    · rintro ⟨other, member, found⟩
      rcases List.mem_append.mp member with early | late
      · exact ⟨other, List.mem_append_left _ early, found⟩
      · exact ⟨other, List.mem_append_right _ (List.mem_cons_of_mem d late), found⟩
    · rintro ⟨other, member, parsed, ancestor⟩
      rcases List.mem_append.mp member with early | late
      · exact ⟨other, List.mem_append_left _ early, parsed, ancestor⟩
      · rcases List.mem_cons.mp late with rfl | later
        · exact absurd ancestor (noAncestor branch parsed)
        · exact ⟨other, List.mem_append_right _ later, parsed, ancestor⟩

end

section
open Reference

def forumPosts : PathKey := ⟨"/apps/forum/posts/", by decide⟩

/-- Two ancestors, one of them twice, among a sibling prefix, a text that is no
path and the target itself. -/
def forumDelegations : List PathDelegation :=
  [⟨"/apps/forum/", "u1"⟩, ⟨"/app/", "u2"⟩, ⟨"/apps/", "u3"⟩, ⟨"apps", "u4"⟩,
    ⟨"/apps/forum/posts/", "u5"⟩, ⟨"/apps/forum/", "u6"⟩]

theorem closest_parent_signing_key_forum :
    resolveClosestParentSigningKey forumPosts [] = .ok "/pubkey" ∧
    (∃ branch, ClosestListed forumPosts forumDelegations branch ∧
      (∀ other, ClosestListed forumPosts forumDelegations other → other = branch) ∧
      resolveClosestParentSigningKey forumPosts forumDelegations =
        .ok (keyAsStr branch ++ "pubkey")) ∧
    resolveClosestParentSigningKey forumPosts forumDelegations.reverse =
      resolveClosestParentSigningKey forumPosts forumDelegations ∧
    resolveClosestParentSigningKey forumPosts (forumDelegations.eraseIdx 1) =
      resolveClosestParentSigningKey forumPosts forumDelegations := by
  have resolved := closest_parent_signing_key keyLaws parentLaw leafLaw rootKeyPath forumPosts
  refine ⟨(resolved []).1 (by simp [ListsAncestor]), ?_, ?_, ?_⟩
  · apply (resolved forumDelegations).2.1
    refine ⟨(⟨"/apps/", by decide⟩ : PathKey), ⟨"/apps/", "u3"⟩, by decide, by decide +kernel, ?_⟩
    exact ⟨by decide +kernel, by decide, ⟨"forum/posts/".toList, by decide +kernel⟩, by decide⟩
  · exact (resolved forumDelegations).2.2.1 _ (List.reverse_perm forumDelegations).symm
  · apply (resolved forumDelegations).2.2.2 [⟨"/apps/forum/", "u1"⟩] ⟨"/app/", "u2"⟩ _ rfl
    intro branch parsed ancestor
    have sibling : keyTryFrom "/app/" = .ok (⟨"/app/", by decide⟩ : PathKey) := by decide +kernel
    obtain rfl := Except.ok.inj (sibling.symm.trans parsed)
    have starts := ancestor.starts
    unfold Prefixes at starts
    revert starts
    decide +kernel

end

end LogosAccounts
