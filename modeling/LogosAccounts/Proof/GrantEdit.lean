import Mathlib.Data.String.Basic
import LogosAccounts.Functional.StableSort
import LogosAccounts.Proof.Delegations
import LogosAccounts.Proof.SignedEntry

/-! What appending the entry of a delegation or a revocation does to the listing.
The grants live in two stores, the head's locks and the key-value pairs; an edit
of one path leaves both alone at every other path. -/

namespace LogosAccounts
open BetterSign hiding mk
open Functional

inductive GrantEdit where
  | grant (path pubkey : String)
  | withdraw (path : String)
  deriving DecidableEq, Repr

def GrantEdit.path : GrantEdit → String
  | .grant path _ | .withdraw path => path

/-- The list without the entries at the edit's path, plus the new grant. -/
def GrantEdit.apply (edit : GrantEdit) (list : List PathDelegation) : List PathDelegation :=
  match edit with
  | .grant path pubkey =>
    sortBy PathDelegation.path (list.filter (fun d => d.path ≠ path) ++ [⟨path, pubkey⟩])
  | .withdraw path => list.filter fun d => d.path ≠ path

/-- The edits, first to last. -/
def GrantEdit.replay (edits : List GrantEdit) (list : List PathDelegation) : List PathDelegation :=
  edits.foldl (fun list edit => edit.apply list) list

@[simp] theorem GrantEdit.replay_snoc (edits : List GrantEdit) (edit : GrantEdit)
    (list : List PathDelegation) : replay (edits ++ [edit]) list = edit.apply (replay edits list) := by
  simp [replay]

def GrantEdit.onMap (edit : GrantEdit) (map : FiniteMap String String) : FiniteMap String String :=
  match edit with
  | .grant path pubkey => map.insert path pubkey
  | .withdraw path => map.erase path

def GrantEdit.replayMap (edits : List GrantEdit) (map : FiniteMap String String) :
    FiniteMap String String :=
  edits.foldl (fun map edit => edit.onMap map) map

/-- The list holds the map's entries, by path. -/
structure Lists (map : FiniteMap String String) (list : List PathDelegation) : Prop where
  ordered : list.Pairwise fun a b => a.path < b.path
  entries : ∀ path pubkey, ⟨path, pubkey⟩ ∈ list ↔ map.lookup path = some pubkey

theorem Lists.empty : Lists ∅ [] where
  ordered := .nil
  entries := by simp

/-- Editing the list is inserting or deleting in the map. -/
theorem Lists.apply {map : FiniteMap String String} {list : List PathDelegation}
    (lists : Lists map list) (edit : GrantEdit) : Lists (edit.onMap map) (edit.apply list) := by
  cases edit with
  | grant path pubkey =>
    constructor
    · apply sortBy_strict
      apply List.pairwise_append.mpr
      refine ⟨(lists.ordered.imp fun less => ne_of_lt less).filter _, by simp, ?_⟩
      intro d member new isNew
      obtain rfl := List.mem_singleton.mp isNew
      exact of_decide_eq_true (List.mem_filter.mp member).2
    · intro other value
      simp only [GrantEdit.apply, GrantEdit.onMap, mem_sortBy, List.mem_append, List.mem_filter,
        lists.entries, FiniteMap.lookup_insert, List.mem_singleton, PathDelegation.mk.injEq]
      by_cases same : other = path
      · simp [same, eq_comm]
      · simp [same]
  | withdraw path =>
    constructor
    · exact lists.ordered.filter _
    · intro other value
      simp only [GrantEdit.apply, GrantEdit.onMap, List.mem_filter, lists.entries,
        FiniteMap.lookup_erase]
      by_cases same : other = path
      · simp [same]
      · simp [same]

theorem Lists.replay {map : FiniteMap String String} {list : List PathDelegation}
    (lists : Lists map list) (edits : List GrantEdit) :
    Lists (GrantEdit.replayMap edits map) (GrantEdit.replay edits list) := by
  induction edits generalizing map list with
  | nil => exact lists
  | cons edit rest ih => exact ih (lists.apply edit)

variable [BetterSign]

theorem KeyLaws.text_injective (keys : KeyLaws) {left right : Key}
    (same : keyAsStr left = keyAsStr right) : left = right := by
  have parsed := keys.reparse left
  rw [keys.display, same, ← keys.display] at parsed
  exact Except.ok.inj (parsed.symm.trans (keys.reparse right))

/-- Different branches have different delegate keys. -/
theorem KeyLaws.pubkey_injective (keys : KeyLaws) {left right pkKey : Key}
    (parsed : delegatePubkeyKey left = .ok pkKey) (parsed' : delegatePubkeyKey right = .ok pkKey) :
    left = right := by
  have text := keys.keeps _ _ (delegatePubkeyKey_ok.mp parsed).2
  have text' := keys.keeps _ _ (delegatePubkeyKey_ok.mp parsed').2
  have same : keyAsStr left ++ "pubkey" = keyAsStr right ++ "pubkey" := text.symm.trans text'
  exact keys.text_injective ((String.append_left_inj _).mp same)

theorem VerifiedHead.pushed (verify : VerifyLaws) {log : Log} {entry last : Entry} {pairs : Kvp}
    (head : VerifiedHead (log.push entry) last pairs) : last = entry := by
  have isLast := head.last_entry verify
  simp only [Log.push, List.getLast?_concat, Option.some.injEq] at isLast
  exact isLast.symm

/-- The appended entry is the new head, and its pairs are the old ones with its
ops applied. -/
theorem VerifiedHead.push (laws : VerifyLaws) {log : Log} {last entry : Entry} {pairs : Kvp}
    (head : VerifiedHead log last pairs) (verified : FullyVerified (log.push entry)) :
    ∃ pairs', VerifiedHead (log.push entry) entry pairs' ∧
      ∀ key, pairs'.find key = entry.ops.foldl applyOp pairs.find key := by
  obtain ⟨entry', pairs', head'⟩ := verified.head
  obtain rfl : entry = entry' := (head'.pushed laws).symm
  refine ⟨pairs', head', ?_⟩
  have before : pairs.find = pairsAfter log.entries := funext (head.find_eq laws)
  intro key
  rw [head'.find_eq laws, pairsAfter_push, before]

theorem pubkeyAt_eq {pairs : Kvp} (once : (pairs.map Prod.fst).Nodup) (pkKey : Key) :
    pubkeyAt pairs pkKey = (pairs.find pkKey).bind delegatedPubkey := by
  unfold pubkeyAt Kvp.find
  induction pairs with
  | nil => rfl
  | cons pair rest ih =>
    obtain ⟨key, value⟩ := pair
    rw [List.map_cons, List.nodup_cons] at once
    by_cases same : key = pkKey
    · subst key
      have absent : rest.findSome? (fun pair =>
          if pair.1 ≠ pkKey then none else delegatedPubkey pair.2) = none := by
        apply List.findSome?_eq_none_iff.mpr
        intro pair member
        have other : pair.1 ≠ pkKey :=
          fun same => once.1 (List.mem_map.mpr ⟨pair, member, same⟩)
        simp [other]
      rw [List.findSome?_cons, absent]
      cases found : delegatedPubkey value <;> simp [found]
    · have differs : (pkKey == key) = false := beq_eq_false_iff_ne.mpr (Ne.symm same)
      rw [List.findSome?_cons, List.lookup_cons, differs]
      simp only [ne_eq, same, not_false_eq_true, if_true]
      simpa using ih once.2

theorem delegationOfLock_congr {pairs pairs' : Kvp} {lock : Script}
    (same : ∀ pkKey, delegatePubkeyKey lock.path = .ok pkKey →
      pubkeyAt pairs' pkKey = pubkeyAt pairs pkKey) :
    delegationOfLock pairs' lock = delegationOfLock pairs lock := by
  apply Option.ext
  intro d
  rw [delegationOfLock_some, delegationOfLock_some]
  constructor
  · rintro ⟨branch, root, delegated, pkKey, pubkey, parsed, found, shown⟩
    exact ⟨branch, root, delegated, pkKey, pubkey, parsed, (same pkKey parsed) ▸ found, shown⟩
  · rintro ⟨branch, root, delegated, pkKey, pubkey, parsed, found, shown⟩
    exact ⟨branch, root, delegated, pkKey, pubkey, parsed, (same pkKey parsed).symm ▸ found, shown⟩

omit [BetterSign] in
private theorem filterMap_filter {α β : Type} {read read' : α → Option β} {keep : α → Bool}
    {keep' : β → Bool} {items : List α} (agree : ∀ item, keep item = true → read' item = read item)
    (matching : ∀ item value, read item = some value → keep' value = keep item) :
    (items.filter keep).filterMap read' = (items.filterMap read).filter keep' := by
  induction items with
  | nil => rfl
  | cons item rest ih =>
    cases found : read item with
    | none =>
      rw [List.filterMap_cons_none found]
      cases kept : keep item with
      | false => rw [List.filter_cons_of_neg (by simp [kept]), ih]
      | true =>
        rw [List.filter_cons_of_pos kept,
          List.filterMap_cons_none ((agree item kept).trans found), ih]
    | some value =>
      rw [List.filterMap_cons_some found]
      have same := matching item value found
      cases kept : keep item with
      | false =>
        rw [List.filter_cons_of_neg (by simp [kept]), List.filter_cons_of_neg (by simp [same, kept]), ih]
      | true =>
        rw [List.filter_cons_of_pos kept, List.filterMap_cons_some ((agree item kept).trans found),
          List.filter_cons_of_pos (same.trans kept), ih]

/-- Replacing the lock at a branch and editing only its delegate key replaces the
branch's entries in the listing. -/
theorem delegationsOf_replaced (keys : KeyLaws) {last entry : Entry} {pairs pairs' : Kvp}
    {branch pkKey : Key} {add : Option Script} (parsed : delegatePubkeyKey branch = .ok pkKey)
    (locks : entry.locks = locksReplacingPath last branch add)
    (elsewhere : ∀ key, key ≠ pkKey → pubkeyAt pairs' key = pubkeyAt pairs key) :
    delegationsOf entry pairs' =
      sortBy PathDelegation.path
        ((delegationsOf last pairs).filter (fun d => d.path ≠ keyAsStr branch) ++
          add.toList.filterMap (delegationOfLock pairs')) := by
  have kept : (last.locks.filter fun lock => lock.path ≠ branch).filterMap (delegationOfLock pairs') =
      (last.locks.filterMap (delegationOfLock pairs)).filter fun d => d.path ≠ keyAsStr branch := by
    apply filterMap_filter
    · intro lock other
      apply delegationOfLock_congr
      intro key parsedOther
      apply elsewhere
      rintro rfl
      exact (of_decide_eq_true other) (keys.pubkey_injective parsedOther parsed)
    · intro lock d found
      obtain ⟨_, _, _, _, _, _, _, rfl⟩ := delegationOfLock_some.mp found
      have same : keyAsStr lock.path = keyAsStr branch ↔ lock.path = branch :=
        ⟨keys.text_injective, fun same => by rw [same]⟩
      simp only [keys.display, ne_eq, same]
  have listing (entry : Entry) (pairs : Kvp) : delegationsOf entry pairs =
      sortBy PathDelegation.path (entry.locks.filterMap (delegationOfLock pairs)) := rfl
  rw [listing, listing, locks, locksReplacingPath, List.filterMap_append, kept, filter_sortBy_comm,
    sortBy_sortBy_append]

end LogosAccounts
