import LogosAccounts.Proof.AppendRule
import LogosAccounts.Proof.ListedGrants
import LogosAccounts.Proof.RequestLocks

/-! Whether the listing is a map from paths. Its paths are sorted and read back as
branches whatever the locks are; that no path is listed twice rests on the head's
locks, since the listing keeps one grant for each of them. -/

namespace LogosAccounts
open BetterSign hiding mk
open Functional

section
variable [BetterSign]

/-- Strictly increasing paths, all of them branches other than the root. -/
structure PathMap (list : List PathDelegation) : Prop where
  increasing : list.Pairwise fun a b => a.path < b.path
  branches : ∀ d ∈ list, ∃ branch, parseBranchPath d.path = .ok branch

/-- The value can be read as a key: a string, or the bytes of a Multikey. -/
def Value.HoldsKey : Value → Prop
  | .str _ => True
  | .data d => ∃ multikey, multikeyTryFrom d = .ok multikey
  | .nil => False

/-- No two granting locks of the head share a path at which a key is held. -/
def SingleGrants (log : Log) : Prop :=
  ∀ last, log.entries.getLast? = some last → last.locks.Pairwise fun a b =>
    a.Grants → b.Grants → a.path = b.path → ∀ value, StoredFor log a.path value → ¬ value.HoldsKey

theorem holdsKey_iff {value : Value} : value.HoldsKey ↔ ∃ pubkey, delegatedPubkey value = some pubkey := by
  cases value with
  | str text => exact ⟨fun _ => ⟨text, rfl⟩, fun _ => trivial⟩
  | nil => simp [Value.HoldsKey, delegatedPubkey]
  | data d => cases parsed : multikeyTryFrom d <;> simp [Value.HoldsKey, delegatedPubkey, parsed]

/-- Two locks are never listed at one path exactly when they do not both grant a
path at which a key is held. -/
theorem VerifiedHead.apart_iff (keys : KeyLaws) (verify : VerifyLaws) {log : Log} {last : Entry}
    {pairs : Kvp} (head : VerifiedHead log last pairs) (a b : Script) :
    (∀ d, delegationOfLock pairs a = some d → ∀ d', delegationOfLock pairs b = some d' →
        d.path ≠ d'.path) ↔
      (a.Grants → b.Grants → a.path = b.path →
        ∀ value, StoredFor log a.path value → ¬ value.HoldsKey) := by
  constructor
  · intro apart grants grants' same value stored held
    obtain ⟨pubkey, read⟩ := holdsKey_iff.mp held
    have listed : delegationOfLock pairs a = some ⟨keyToString a.path, pubkey⟩ :=
      (head.granted verify).mpr ⟨grants, rfl, value, stored, read⟩
    have listed' : delegationOfLock pairs b = some ⟨keyToString b.path, pubkey⟩ :=
      (head.granted verify).mpr ⟨grants', rfl, value, same ▸ stored, read⟩
    apply apart _ listed _ listed'
    rw [same]
  · intro single d listed d' listed' samePath
    obtain ⟨grants, shown, value, stored, read⟩ := (head.granted verify).mp listed
    obtain ⟨grants', shown', _⟩ := (head.granted verify).mp listed'
    have same : a.path = b.path := by
      rw [shown, shown', keys.display, keys.display] at samePath
      exact keys.text_injective samePath
    exact single grants grants' same value stored (holdsKey_iff.mpr ⟨d.pubkey, read⟩)

theorem VerifiedHead.listed_branch (keys : KeyLaws) (verify : VerifyLaws) {log : Log} {last : Entry}
    {pairs : Kvp} (head : VerifiedHead log last pairs) {d : PathDelegation}
    (member : d ∈ delegationsOf last pairs) : ∃ branch, parseBranchPath d.path = .ok branch := by
  obtain ⟨lock, _, grants, shown, _⟩ := (head.mem_listing verify).mp member
  rw [shown]
  exact ⟨lock.path, parseBranchPath_ok.mpr ⟨keys.reparse lock.path, grants.isBranch, grants.notRoot⟩⟩

theorem pathMap_iff (keys : KeyLaws) (verify : VerifyLaws) {log : Log} {last : Entry} {pairs : Kvp}
    (head : VerifiedHead log last pairs) : PathMap (delegationsOf last pairs) ↔ SingleGrants log := by
  have isLast := head.last_entry verify
  have strict : (delegationsOf last pairs).Pairwise (fun a b => a.path < b.path) ↔
      last.locks.Pairwise fun a b => a.Grants → b.Grants → a.path = b.path →
        ∀ value, StoredFor log a.path value → ¬ value.HoldsKey := by
    calc (delegationsOf last pairs).Pairwise (fun a b => a.path < b.path)
      _ ↔ (last.locks.filterMap (delegationOfLock pairs)).Pairwise fun a b => a.path ≠ b.path :=
        sortBy_strict_iff
      _ ↔ last.locks.Pairwise fun a b => ∀ d, delegationOfLock pairs a = some d →
            ∀ d', delegationOfLock pairs b = some d' → d.path ≠ d'.path := List.pairwise_filterMap
      _ ↔ _ := List.Pairwise.iff (head.apart_iff keys verify)
  constructor
  · intro map last' isLast'
    obtain rfl := Option.some.inj (isLast.symm.trans isLast')
    exact strict.mp map.increasing
  · intro single
    exact ⟨strict.mpr (single last isLast), fun d member => head.listed_branch keys verify member⟩

/-- No two granting locks share a path. -/
def SingleLocks (locks : List Script) : Prop :=
  locks.Pairwise fun a b => a.Grants → b.Grants → a.path ≠ b.path

/-- A replacement gives no two granting locks at one path; the other directives give
at most one lock. -/
def LockSpec.KeepsSingle : LockSpec → Prop
  | .replace given => ∀ scripts, given.mapM lockScriptFromJson = .ok scripts → SingleLocks scripts
  | .keyword _ | .upsert _ | .remove _ => True

def AccountOp.KeepsSingle : AccountOp → Prop
  | .prepareUpdate requestJson => ∀ request, parseEntryUpdateRequest requestJson = .ok request →
    request.locks.KeepsSingle
  | .prepareDelegate _ _ | .prepareRevoke _ | .commitUpdate _ _ | .cancelUpdate _ => True

def SingleHead (log : Log) : Prop :=
  ∀ last, log.entries.getLast? = some last → SingleLocks last.locks

theorem SingleHead.grants {log : Log} (single : SingleHead log) : SingleGrants log := by
  intro last isLast
  apply (single last isLast).imp
  intro a b apart grants grants' same
  exact absurd same (apart grants grants')

/-- A directive other than a replacement clears its path before it writes there. -/
theorem LockEdit.keepsSingle {before after : List Script} {spec : LockSpec}
    (edit : LockEdit before spec after) (keeps : spec.KeepsSingle) (single : SingleLocks before) :
    SingleLocks after := by
  cases edit with
  | inherit => exact single
  | remove path key parsed => exact single.filter _
  | upsert path code key parsed =>
    refine List.pairwise_append.mpr ⟨single.filter _, List.pairwise_singleton _ _, ?_⟩
    intro lock kept own isOwn _ _ same
    obtain rfl := List.mem_singleton.mp isOwn
    have other : lock.path ≠ key := of_decide_eq_true (List.mem_filter.mp kept).2
    exact other same
  | replace given _ written =>
    exact keeps after (mapM_ok_iff.mpr (written.imp fun s script => lockScriptFromJson_ok.mpr))

theorem spec_keepsSingle {account : PlogAccount} {op : AccountOp} {input : PrepareEntrySpec}
    (asked : op.spec account = some (.ok input)) (keeps : op.KeepsSingle) :
    input.locks.KeepsSingle := by
  cases op with
  | prepareUpdate requestJson =>
    have given : PlogAccount.updateSpec requestJson = .ok input := Option.some.inj asked
    obtain ⟨request, parsed, _⟩ := except_bind_ok.mp given
    obtain ⟨_, sameLocks⟩ := updateSpec_ok parsed given
    rw [sameLocks]
    exact keeps request parsed
  | prepareDelegate path pubkeyMultibase =>
    obtain ⟨lock, _, _, upserts, _⟩ := delegateSpec_edit (Option.some.inj asked)
    rw [upserts]
    trivial
  | prepareRevoke path =>
    obtain ⟨removed, _, removes, _⟩ := revokeSpec_edit (Option.some.inj asked)
    rw [removes]
    trivial
  | commitUpdate id signature => cases asked
  | cancelUpdate id => cases asked

theorem single_rule (entries : EntryLaws) (verify : VerifyLaws) :
    AppendRule AccountOp.KeepsSingle (fun _ entry => SingleLocks entry.locks) SingleHead where
  prepared account op input unsigned verified single allowed asked built := by
    obtain ⟨last, pairs, head⟩ := verified.head
    obtain ⟨locks, spelled, made, _⟩ := unsignedEntry_fields entries head built
    have edit : LockEdit last.locks input.locks unsigned.entry.locks :=
      lockEdit_iff.mpr ⟨locks, spelled, made.symm⟩
    exact edit.keepsSingle (spec_keepsSingle asked allowed) (single last (head.last_entry verify))
  appended log unsigned entry _ _ single same _ last isLast := by
    obtain rfl : entry = last := by simpa [Log.push] using isLast
    obtain ⟨_, sameLocks, _⟩ := Entry.same_fields same
    rw [sameLocks]
    exact single

/-- In every reached account the listing is a map from paths exactly when no two
granting locks of its head share a path at which a key is held; and it is one after
every run that starts with single locks and whose replacements give single locks. -/
theorem listed_paths_increase_iff (keys : KeyLaws) (entries : EntryLaws) (append : AppendLaws)
    (verify : VerifyLaws) :
    (∀ account : PlogAccount, account.Reached → ∃ list, account.listDelegations = .ok list ∧
      (PathMap list ↔ SingleGrants account.log)) ∧
    ∀ (start : PlogAccount) (run : List (AccountOp × Ambient)), start.Opened →
      SingleHead start.log → (∀ action ∈ run, action.1.KeepsSingle) →
      ∃ list, (accountMachine.after start run).listDelegations = .ok list ∧ PathMap list := by
  have exactly : ∀ account : PlogAccount, account.Reached →
      ∃ list, account.listDelegations = .ok list ∧ (PathMap list ↔ SingleGrants account.log) := by
    intro account reached
    obtain ⟨last, pairs, head⟩ := (reached.verified append).head
    exact ⟨_, head.listDelegations, pathMap_iff keys verify head⟩
  refine ⟨exactly, ?_⟩
  intro start run opened initial keeps
  have single : SingleHead (accountMachine.after start run).log :=
    (single_rule entries verify).run entries append opened initial keeps
  obtain ⟨list, listed, map⟩ := exactly _ (opened.reached run)
  exact ⟨list, listed, map.mpr single.grants⟩

end

section
open Reference

theorem openedAccount_single : SingleHead openedAccount.log := by
  intro last isLast
  obtain rfl := Option.some.inj isLast
  exact List.pairwise_singleton _ _

theorem listed_paths_increase_iff_delegation :
    (∃ list, (accountMachine.after openedAccount delegationOps).listDelegations = .ok list ∧
      (PathMap list ↔ SingleGrants (accountMachine.after openedAccount delegationOps).log)) ∧
    ∃ list, (accountMachine.after openedAccount delegationOps).listDelegations = .ok list ∧
      PathMap list := by
  have holds := listed_paths_increase_iff keyLaws entryLaws appendLaws verifyLaws
  refine ⟨holds.1 _ (openedAccount_opened.reached delegationOps), ?_⟩
  apply holds.2 openedAccount delegationOps openedAccount_opened openedAccount_single
  intro action member
  rcases List.mem_pair.mp member with rfl | rfl <;> trivial

def twiceRun : List (AccountOp × Ambient) :=
  [(.prepareUpdate (printJson twiceTree), sampleAmbient 1 0),
    (.commitUpdate "uAAAAAAAAAAAAAAAAAAAAAA" "uAQJaSpsN", sampleAmbient 2 9)]

/-- The delegation is listed twice. -/
theorem path_is_listed_twice :
    (accountMachine.after openedAccount twiceRun).Reached ∧
    (accountMachine.after openedAccount twiceRun).listDelegations =
      .ok [⟨"/a/", "u5wkJ"⟩, ⟨"/a/", "u5wkJ"⟩] ∧
    ¬ PathMap [⟨"/a/", "u5wkJ"⟩, ⟨"/a/", "u5wkJ"⟩] := by
  refine ⟨openedAccount_opened.reached _, by decide +kernel, ?_⟩
  intro map
  have increases : ("/a/" : String) < "/a/" :=
    (List.pairwise_cons.mp map.increasing).1 ⟨"/a/", "u5wkJ"⟩ List.mem_cons_self
  exact lt_irrefl _ increases

end

end LogosAccounts
