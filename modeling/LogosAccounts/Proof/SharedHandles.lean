import LogosAccounts.Functional.Refinement
import LogosAccounts.Handles
import LogosAccounts.Proof.CallStep
import LogosAccounts.Proof.SignedEntry

/-! The cache of shared handles and the plain cache. What any holders of handles do,
in any order, the plain cache does when it is told what is inserted, removed and done
through current handles; and the module's methods cannot tell the two apart. -/

namespace LogosAccounts
open BetterSign hiding mk
open Functional

section
variable [BetterSign]

/-- The operation takes the entry at a key away, or replaces it. -/
def CacheOp.Replaces (key : VladHash) : CacheOp → Prop
  | .insert vlad _ | .remove vlad => AccountCache.keyFromMultibase vlad = .ok key
  | .insertByHash other _ => other = key
  | .clear => True
  | .get _ | .getByHash _ | .contains _ | .len | .isEmpty | .lock _ _ _ => False

def CacheOp.lockedOn (handle : Nat) : CacheOp → Option (AccountOp × Ambient)
  | .lock other op ambient => if other = handle then some (op, ambient) else none
  | _ => none

theorem SharedCache.perform_lock {cache : SharedCache} {handle : Nat} {account : PlogAccount}
    (found : cache.read handle = some account) (op : AccountOp) (ambient : Ambient) :
    (cache.perform (.lock handle op ambient)).1 =
      cache.write handle (account.perform op ambient).1 := by
  simp [SharedCache.perform, found]

/-- The ways an operation changes the cache. -/
inductive CacheChange (cache : SharedCache) : CacheOp → SharedCache → Prop where
  | unchanged (op : CacheOp) (unlocked : ∀ handle account, cache.read handle = some account →
      op.lockedOn handle = none) (kept : ∀ key, op.Replaces key → cache.entries.lookup key = none) :
      CacheChange cache op cache
  | inserted (op : CacheOp) (unlocked : ∀ handle, op.lockedOn handle = none) (key : VladHash)
      (named : ∀ other, op.Replaces other ↔ other = key) (account : PlogAccount) :
      CacheChange cache op (SharedMap.insert cache key account)
  | removed (op : CacheOp) (unlocked : ∀ handle, op.lockedOn handle = none) (key : VladHash)
      (named : ∀ other, op.Replaces other ↔ other = key) :
      CacheChange cache op (SharedMap.erase cache key)
  | cleared : CacheChange cache .clear (SharedMap.clear cache)
  | locked (handle : Nat) (op : AccountOp) (ambient : Ambient) (account : PlogAccount)
      (found : cache.read handle = some account) :
      CacheChange cache (.lock handle op ambient)
        (cache.write handle (account.perform op ambient).1)

theorem SharedCache.perform_change (cache : SharedCache) (op : CacheOp) :
    CacheChange cache op (cache.perform op).1 := by
  have sameKey {vlad : String} {key : VladHash} (keyed : AccountCache.keyFromMultibase vlad = .ok key)
      (other : VladHash) : AccountCache.keyFromMultibase vlad = .ok other ↔ other = key := by
    rw [keyed, Except.ok.injEq]
    exact eq_comm
  cases op with
  | insert vlad account =>
    cases keyed : AccountCache.keyFromMultibase vlad with
    | error e =>
      have same : (cache.perform (.insert vlad account)).1 = cache := by
        simp [SharedCache.perform, SharedCache.insert, keyed]
      rw [same]
      refine .unchanged (.insert vlad account) (fun _ _ _ => rfl) ?_
      intro key replaced
      cases keyed.symm.trans replaced
    | ok key =>
      have added : (cache.perform (.insert vlad account)).1 = SharedMap.insert cache key account := by
        simp [SharedCache.perform, SharedCache.insert, keyed, SharedCache.insertByHash]
      rw [added]
      exact .inserted (.insert vlad account) (fun _ => rfl) key (sameKey keyed) account
  | insertByHash key account =>
    exact .inserted (.insertByHash key account) (fun _ => rfl) key (fun _ => eq_comm) account
  | remove vlad =>
    cases keyed : AccountCache.keyFromMultibase vlad with
    | error e =>
      have same : (cache.perform (.remove vlad)).1 = cache := by
        simp [SharedCache.perform, SharedCache.remove, keyed]
      rw [same]
      refine .unchanged (.remove vlad) (fun _ _ _ => rfl) ?_
      intro key replaced
      cases keyed.symm.trans replaced
    | ok key =>
      cases present : cache.entries.lookup key with
      | none =>
        have same : (cache.perform (.remove vlad)).1 = cache := by
          simp [SharedCache.perform, SharedCache.remove, keyed, present]
        rw [same]
        refine .unchanged (.remove vlad) (fun _ _ _ => rfl) ?_
        intro other replaced
        rw [(sameKey keyed other).mp replaced]
        exact present
      | some handle =>
        have gone : (cache.perform (.remove vlad)).1 = SharedMap.erase cache key := by
          simp [SharedCache.perform, SharedCache.remove, keyed, present]
        rw [gone]
        exact .removed (.remove vlad) (fun _ => rfl) key (sameKey keyed)
  | clear => exact .cleared
  | lock handle op ambient =>
    cases found : cache.read handle with
    | none =>
      have same : (cache.perform (.lock handle op ambient)).1 = cache := by
        simp [SharedCache.perform, found]
      rw [same]
      refine .unchanged (.lock handle op ambient) ?_ fun _ => False.elim
      intro other account held
      have different : handle ≠ other := by
        rintro rfl
        cases found.symm.trans held
      exact if_neg different
    | some account =>
      rw [SharedCache.perform_lock found]
      exact .locked handle op ambient account found
  | get vlad => exact .unchanged (.get vlad) (fun _ _ _ => rfl) fun _ => False.elim
  | getByHash key => exact .unchanged (.getByHash key) (fun _ _ _ => rfl) fun _ => False.elim
  | contains vlad => exact .unchanged (.contains vlad) (fun _ _ _ => rfl) fun _ => False.elim
  | len => exact .unchanged .len (fun _ _ _ => rfl) fun _ => False.elim
  | isEmpty => exact .unchanged .isEmpty (fun _ _ _ => rfl) fun _ => False.elim

/-- What is in a cell changes by the operations locked on its handle, and by nothing else. -/
theorem CacheChange.read {cache after : SharedCache} {op : CacheOp} (change : CacheChange cache op after)
    {handle : Nat} {account : PlogAccount} (found : cache.read handle = some account) :
    after.read handle = some (accountMachine.after account (op.lockedOn handle).toList) := by
  have inside : handle < cache.cells.length := by
    by_contra outside
    have none := List.getElem?_eq_none (Nat.le_of_not_lt outside)
    cases found.symm.trans none
  cases change with
  | unchanged op unlocked kept =>
    rw [unlocked handle account found]
    exact found
  | inserted op unlocked key named new =>
    rw [unlocked handle, cache.read_insert key new inside]
    exact found
  | removed op unlocked key named =>
    rw [unlocked handle]
    exact found
  | cleared => exact found
  | locked other op ambient held held' =>
    have asked : CacheOp.lockedOn handle (.lock other op ambient) =
        if other = handle then some (op, ambient) else none := rfl
    rw [SharedMap.read_write, asked]
    by_cases same : other = handle
    · subst other
      obtain rfl := Option.some.inj (held'.symm.trans found)
      rw [if_pos rfl, if_pos rfl, found]
      rfl
    · rw [if_neg (Ne.symm same), if_neg same]
      exact found

theorem CacheChange.current {cache after : SharedCache} {op : CacheOp}
    (change : CacheChange cache op after) {key : VladHash} {handle : Nat}
    (current : cache.entries.lookup key = some handle) (kept : ¬ op.Replaces key) :
    after.entries.lookup key = some handle := by
  cases change with
  | unchanged op unlocked absent => exact current
  | inserted op unlocked other named new =>
    have different : key ≠ other := fun same => kept ((named key).mpr same)
    rw [SharedMap.insert, FiniteMap.lookup_insert, if_neg different]
    exact current
  | removed op unlocked other named =>
    have different : key ≠ other := fun same => kept ((named key).mpr same)
    rw [SharedMap.erase, FiniteMap.lookup_erase, if_neg different]
    exact current
  | cleared => exact absurd trivial kept
  | locked other op ambient held held' => exact current

theorem CacheChange.replaced {cache after : SharedCache} {op : CacheOp}
    (change : CacheChange cache op after) {key : VladHash} {handle : Nat}
    (current : cache.entries.lookup key = some handle) (replaced : op.Replaces key) :
    after.Stale handle := by
  cases change with
  | unchanged op unlocked absent => cases (absent key replaced).symm.trans current
  | inserted op unlocked other named new =>
    obtain rfl := (named key).mp replaced
    exact SharedMap.stale_of_insert current new
  | removed op unlocked other named =>
    obtain rfl := (named key).mp replaced
    exact SharedMap.stale_of_erase current
  | cleared => exact SharedMap.Stale.clear (cache.allocated key handle current)
  | locked other op ambient held held' => exact replaced.elim

theorem CacheChange.stale {cache after : SharedCache} {op : CacheOp}
    (change : CacheChange cache op after) {handle : Nat} (stale : cache.Stale handle) :
    after.Stale handle := by
  cases change with
  | unchanged op unlocked absent => exact stale
  | inserted op unlocked other named new => exact stale.insert other new
  | removed op unlocked other named => exact stale.erase other
  | cleared => exact SharedMap.Stale.clear stale.1
  | locked other op ambient held held' => exact stale.write other _

theorem SharedCache.get_ok {cache : SharedCache} {vlad : String} {handle : Nat} :
    cache.get vlad = .ok handle ↔
      ∃ key, AccountCache.keyFromMultibase vlad = .ok key ∧ cache.entries.lookup key = some handle := by
  unfold SharedCache.get SharedCache.getByHash
  rw [except_bind_ok]
  constructor
  · rintro ⟨key, keyed, found⟩
    cases current : cache.entries.lookup key with
    | none => simp [current] at found
    | some other =>
      obtain rfl : other = handle := by simpa [current] using found
      exact ⟨key, keyed, current⟩
  · rintro ⟨key, keyed, current⟩
    exact ⟨key, keyed, by simp [current]⟩

/-- What a handle given out for a VLAD is good for, after any operations of any holders. -/
structure HandleLife (later : SharedCache) (vlad : String) (key : VladHash) (handle : Nat)
    (account : PlogAccount) (run : List CacheOp) : Prop where
  /-- Its account has had exactly the operations locked on it. -/
  work : later.read handle =
    some (accountMachine.after account (run.filterMap (CacheOp.lockedOn handle)))
  /-- Until its entry is replaced, it is the one the cache gives out, and work on the
  account shows in the cache. -/
  current : (∀ op ∈ run, ¬ op.Replaces key) →
    later.get vlad = .ok handle ∧ ∀ op ambient,
      (later.perform (.lock handle op ambient)).1.view = FiniteMap.insert later.view key
        ((accountMachine.after account (run.filterMap (CacheOp.lockedOn handle))).perform op ambient).1
  /-- From then on no key ever shows it again, and work on the account is lost to the
  cache. -/
  stale : (∃ op ∈ run, op.Replaces key) →
    later.Stale handle ∧ ∀ op ambient,
      (later.perform (.lock handle op ambient)).1.view = later.view

theorem SharedCache.work_after {cache : SharedCache} {handle : Nat} {account : PlogAccount}
    (found : cache.read handle = some account) (run : List CacheOp) :
    (sharedCache.after cache run).read handle =
      some (accountMachine.after account (run.filterMap (CacheOp.lockedOn handle))) := by
  induction run generalizing cache account with
  | nil => exact found
  | cons op rest ih =>
    have held : (sharedCache.next cache op).read handle =
        some (accountMachine.after account (op.lockedOn handle).toList) :=
      (cache.perform_change op).read found
    rw [Machine.after_cons, ih held, List.filterMap_cons]
    cases op.lockedOn handle <;> rfl

theorem SharedCache.current_after {cache : SharedCache} {key : VladHash} {handle : Nat}
    (current : cache.entries.lookup key = some handle) {run : List CacheOp}
    (kept : ∀ op ∈ run, ¬ op.Replaces key) :
    (sharedCache.after cache run).entries.lookup key = some handle := by
  induction run generalizing cache with
  | nil => exact current
  | cons op rest ih =>
    rw [Machine.after_cons]
    apply ih ((cache.perform_change op).current current (kept op (by simp)))
    exact fun later member => kept later (by simp [member])

theorem SharedCache.stale_ever {cache : SharedCache} {handle : Nat} (stale : cache.Stale handle)
    (run : List CacheOp) : (sharedCache.after cache run).Stale handle := by
  let good (cache : SharedCache) : Prop := cache.Stale handle
  have first : good cache := stale
  apply sharedCache.after_preserves first
  intro state op _ stillStale
  exact (state.perform_change op).stale stillStale

theorem SharedCache.stale_after {cache : SharedCache} {key : VladHash} {handle : Nat}
    (current : cache.entries.lookup key = some handle) {run : List CacheOp}
    (replaced : ∃ op ∈ run, op.Replaces key) : (sharedCache.after cache run).Stale handle := by
  induction run generalizing cache with
  | nil => simp at replaced
  | cons op rest ih =>
    rw [Machine.after_cons]
    have change := cache.perform_change op
    by_cases first : op.Replaces key
    · exact stale_ever (change.replaced current first) rest
    · apply ih (change.current current first)
      obtain ⟨other, member, replaces⟩ := replaced
      rcases List.mem_cons.mp member with rfl | later
      · exact absurd replaces first
      · exact ⟨other, later, replaces⟩

theorem handle_life {cache : SharedCache} {vlad : String} {handle : Nat}
    (got : cache.get vlad = .ok handle) (run : List CacheOp) :
    ∃ key account, AccountCache.keyFromMultibase vlad = .ok key ∧
      cache.view.lookup key = some account ∧
      HandleLife (sharedCache.after cache run) vlad key handle account run := by
  obtain ⟨key, keyed, current⟩ := SharedCache.get_ok.mp got
  obtain ⟨account, found⟩ := cache.readable current
  have held := SharedCache.work_after found run
  refine ⟨key, account, keyed, SharedMap.view_some.mpr ⟨handle, current, found⟩, held, ?_, ?_⟩
  · intro kept
    have still := SharedCache.current_after current kept
    refine ⟨SharedCache.get_ok.mpr ⟨key, keyed, still⟩, ?_⟩
    intro op ambient
    rw [SharedCache.perform_lock held]
    exact SharedMap.view_write still _
  · intro replaced
    have stale := SharedCache.stale_after current replaced
    refine ⟨stale, ?_⟩
    intro op ambient
    rw [SharedCache.perform_lock held]
    exact SharedMap.view_write_stale stale.2 _

end

section
open Reference

def lateCommit : List CacheOp :=
  [.lock 0 (.prepareDelegate "/a/" "u5wkJ") (sampleAmbient 1 0), .remove "uhwAA6eE",
    .lock 0 (.commitUpdate "uAAAAAAAAAAAAAAAAAAAAAA" "uAQL8CM0U") (sampleAmbient 2 1)]

theorem handle_life_late_commit :
    ∃ key account, AccountCache.keyFromMultibase "uhwAA6eE" = .ok key ∧
      (sharedCache.after SharedCache.new [.insert "uhwAA6eE" openedAccount]).view.lookup key =
        some account ∧
      HandleLife (sharedCache.after (sharedCache.after SharedCache.new
        [.insert "uhwAA6eE" openedAccount]) lateCommit) "uhwAA6eE" key 0 account lateCommit :=
  handle_life (by decide +kernel) lateCommit

end

section
variable [BetterSign]

theorem SharedCache.keyFromVlad_eq (law : VladLaw) (vlad : Vlad) :
    AccountCache.keyFromMultibase (encodeVlad vlad) = .ok (keyFromVlad vlad) :=
  AccountCache.keyFromMultibase_ok.mpr ⟨vlad, decode_encodeVlad law vlad, rfl⟩

/-- A lookup in the cache of handles, and the same lookup in the map it shows. -/
inductive SharedLookup (cache : SharedCache) (vlad : String) : Prop where
  | missing (e : Error) (shared : cache.get vlad = .error e)
      (plain : AccountCache.get cache.view vlad = .error e)
  | found (key : VladHash) (handle : Nat) (account : PlogAccount) (shared : cache.get vlad = .ok handle)
      (current : cache.entries.lookup key = some handle) (held : cache.read handle = some account)
      (plain : AccountCache.get cache.view vlad = .ok (key, account))

theorem SharedCache.lookup_cases (cache : SharedCache) (vlad : String) : SharedLookup cache vlad := by
  cases keyed : AccountCache.keyFromMultibase vlad with
  | error e =>
    apply SharedLookup.missing e
    · simp [SharedCache.get, keyed]
    · simp [AccountCache.get, keyed]
  | ok key =>
    cases current : cache.entries.lookup key with
    | none =>
      apply SharedLookup.missing (.accountNotCached (AccountCache.hashHexShort key))
      · simp [SharedCache.get, keyed, SharedCache.getByHash, current]
      · simp [AccountCache.get, keyed, AccountCache.getByHash, SharedMap.lookup_view, current]
    | some handle =>
      obtain ⟨account, held⟩ := cache.readable current
      apply SharedLookup.found key handle account _ current held
      · simp [AccountCache.get, keyed, AccountCache.getByHash, SharedMap.lookup_view, current, held]
      · simp [SharedCache.get, keyed, SharedCache.getByHash, current]

theorem SharedCache.insert_view (cache : SharedCache) (vlad : String) (account : PlogAccount) :
    (cache.insert vlad account).map SharedMap.view = AccountCache.insert cache.view vlad account := by
  unfold SharedCache.insert AccountCache.insert
  cases AccountCache.keyFromMultibase vlad with
  | error e => rfl
  | ok key =>
    have shown : (SharedMap.insert cache key account).view = FiniteMap.insert cache.view key account :=
      SharedMap.view_insert cache key account
    simp only [except_ok_bind, except_pure, SharedCache.insertByHash]
    rw [← shown]
    rfl

theorem SharedCache.remove_view (cache : SharedCache) (vlad : String) :
    (cache.remove vlad).map SharedMap.view = AccountCache.remove cache.view vlad := by
  unfold SharedCache.remove AccountCache.remove AccountCache.getByHash
  cases AccountCache.keyFromMultibase vlad with
  | error e => rfl
  | ok key =>
    simp only [except_ok_bind, SharedMap.lookup_view]
    cases current : cache.entries.lookup key with
    | none => rfl
    | some handle =>
      obtain ⟨account, held⟩ := cache.readable current
      have shown : (SharedMap.erase cache key).view = FiniteMap.erase cache.view key :=
        SharedMap.view_erase cache key
      simp only [Option.bind_some, held, except_ok_bind, except_pure]
      rw [← shown]
      rfl

def shown (result : SharedCache × Reply) : AccountCache × Reply := (result.1.view, result.2)

theorem SharedModule.withAccountMut_view (cache : SharedCache) (vlad : String)
    (f : PlogAccount → PlogAccount × Reply) :
    shown (withAccountMut cache vlad f) = AccountsModule.withAccountMut cache.view vlad f := by
  unfold withAccountMut AccountsModule.withAccountMut shown
  cases cache.lookup_cases vlad with
  | missing e shared plain => rw [shared, plain]
  | found key handle account shared current held plain =>
    have seen := SharedMap.view_write current (f account).1
    rw [shared, plain]
    simp only [held, seen]

theorem SharedModule.withAccount_view (cache : SharedCache) (vlad : String) (f : PlogAccount → Reply) :
    shown (withAccount cache vlad f) = AccountsModule.withAccount cache.view vlad f := by
  unfold withAccount AccountsModule.withAccount shown
  cases cache.lookup_cases vlad with
  | missing e shared plain => rw [shared, plain]
  | found key handle account shared current held plain =>
    rw [shared, plain]
    simp only [held]

theorem SharedModule.createAccount_view (cache : SharedCache) (pubkeyMultibase : String)
    (ambient : Ambient) :
    shown (createAccount cache pubkeyMultibase ambient) =
      AccountsModule.createAccount cache.view pubkeyMultibase ambient := by
  unfold createAccount AccountsModule.createAccount
  cases PlogAccount.create pubkeyMultibase ambient with
  | error e => rfl
  | ok created =>
    obtain ⟨account, summary⟩ := created
    simp only [← cache.insert_view]
    cases cache.insert summary.vlad account <;> rfl

theorem SharedModule.importPlog_view (cache : SharedCache) (plogB64 : String) :
    shown (importPlog cache plogB64) = AccountsModule.importPlog cache.view plogB64 := by
  unfold importPlog AccountsModule.importPlog
  cases PlogAccount.import plogB64 with
  | error e => rfl
  | ok imported =>
    obtain ⟨account, summary⟩ := imported
    simp only [← cache.insert_view]
    cases cache.insert summary.vlad account <;> rfl

theorem SharedModule.removePlog_view (cache : SharedCache) (vlad : String) :
    shown (removePlog cache vlad) = AccountsModule.removePlog cache.view vlad := by
  unfold removePlog AccountsModule.removePlog
  rw [← cache.remove_view]
  cases cache.remove vlad <;> rfl

theorem SharedModule.clearCache_view (cache : SharedCache) :
    shown (clearCache cache) = AccountsModule.clearCache cache.view := by
  unfold clearCache shown SharedCache.clear
  rw [SharedMap.view_clear]
  rfl

/-- No method tells shared handles from a plain cache. -/
theorem SharedModule.dispatch_view (cache : SharedCache) (call : Call) (ambient : Ambient) :
    shown (dispatch cache call ambient) = AccountsModule.dispatch cache.view call ambient := by
  cases call with
  | createAccount pubkeyMultibase => exact createAccount_view cache pubkeyMultibase ambient
  | importPlog plogB64 => exact importPlog_view cache plogB64
  | removePlog vlad => exact removePlog_view cache vlad
  | clearCache => exact clearCache_view cache
  | exportPlog vlad => exact withAccount_view cache vlad _
  | getValue vlad path => exact withAccount_view cache vlad _
  | listDelegations vlad => exact withAccount_view cache vlad _
  | prepareUpdate vlad requestJson => exact withAccountMut_view cache vlad _
  | prepareDelegate vlad path pubkeyMultibase => exact withAccountMut_view cache vlad _
  | prepareRevoke vlad path => exact withAccountMut_view cache vlad _
  | commitUpdate vlad challengeId signatureMultibase => exact withAccountMut_view cache vlad _
  | cancelUpdate vlad challengeId => exact withAccountMut_view cache vlad _

/-- Seen through the map it shows, the module with handles is the plain module. -/
def sharedRefinement : Refinement sharedModule accountsModule where
  good _ := True
  view := SharedMap.view
  stands _ action := [action]
  kept _ _ _ := trivial
  simulated cache action _ :=
    congrArg Prod.fst (SharedModule.dispatch_view cache action.1 action.2)

/-- After any calls the map of handles shows the plain cache, and the next call is
answered from it. -/
theorem handles_unseen (cache : SharedCache) (run : List (Call × Ambient)) (action : Call × Ambient) :
    (sharedModule.after cache run).view = accountsModule.after cache.view run ∧
      sharedModule.reply (sharedModule.after cache run) action =
        accountsModule.reply (accountsModule.after cache.view run) action := by
  have single (cache : SharedCache) (action : Call × Ambient) :
      sharedRefinement.stands cache action = (some action).toList := rfl
  have steps := sharedModule.traced_filterMap single cache run
  have seen : (sharedModule.after cache run).view =
      accountsModule.after cache.view (sharedModule.traced sharedRefinement.stands cache run) :=
    sharedRefinement.view_after trivial run
  rw [steps, List.filterMap_some] at seen
  refine ⟨seen, ?_⟩
  rw [← seen]
  exact congrArg Prod.snd (SharedModule.dispatch_view _ action.1 action.2)

inductive CacheEdit where
  | put (key : VladHash) (account : PlogAccount)
  | drop (key : VladHash)
  | dropAll
  /-- The account at the key performs an operation, if there is one. -/
  | act (key : VladHash) (op : AccountOp) (ambient : Ambient)

def CacheEdit.apply (cache : AccountCache) : CacheEdit → AccountCache
  | .put key account => FiniteMap.insert cache key account
  | .drop key => FiniteMap.erase cache key
  | .dropAll => ∅
  | .act key op ambient =>
    FiniteMap.set cache key ((cache.lookup key).map fun account => (account.perform op ambient).1)

def cacheStore : Machine AccountCache CacheEdit Unit where
  step cache edit := (edit.apply cache, ())

/-- The key that shows the cell of a handle. -/
noncomputable def SharedCache.keyOf (cache : SharedCache) (handle : Nat) : Option VladHash :=
  haveI := Classical.propDecidable (∃ key, cache.entries.lookup key = some handle)
  if current : ∃ key, cache.entries.lookup key = some handle then some current.choose else none

theorem SharedCache.keyOf_some {cache : SharedCache} {handle : Nat} {key : VladHash} :
    cache.keyOf handle = some key ↔ cache.entries.lookup key = some handle := by
  unfold SharedCache.keyOf
  by_cases current : ∃ key, cache.entries.lookup key = some handle
  · rw [dif_pos current, Option.some.injEq]
    constructor
    · intro chosen
      rw [← chosen]
      exact current.choose_spec
    · exact cache.unshared _ _ handle current.choose_spec
  · rw [dif_neg current]
    constructor
    · intro impossible
      cases impossible
    · exact fun found => absurd ⟨key, found⟩ current

/-- What an operation of a holder means for the store: work through a stale handle means
nothing. -/
noncomputable def CacheOp.edits (cache : SharedCache) : CacheOp → List CacheEdit
  | .insert vlad account =>
    ((AccountCache.keyFromMultibase vlad).toOption.map fun key => CacheEdit.put key account).toList
  | .insertByHash key account => [.put key account]
  | .remove vlad =>
    ((AccountCache.keyFromMultibase vlad).toOption.map CacheEdit.drop).toList
  | .clear => [.dropAll]
  | .lock handle op ambient => ((cache.keyOf handle).map fun key => .act key op ambient).toList
  | .get _ | .getByHash _ | .contains _ | .len | .isEmpty => []

theorem SharedCache.perform_view (cache : SharedCache) (op : CacheOp) :
    (cache.perform op).1.view = cacheStore.after cache.view (op.edits cache) := by
  cases op with
  | insert vlad account =>
    cases keyed : AccountCache.keyFromMultibase vlad with
    | error e =>
      simp only [SharedCache.perform, SharedCache.insert, CacheOp.edits, keyed]
      rfl
    | ok key =>
      have put : (cache.perform (.insert vlad account)).1 = SharedMap.insert cache key account := by
        simp [SharedCache.perform, SharedCache.insert, keyed, SharedCache.insertByHash]
      simp only [put, SharedMap.view_insert, CacheOp.edits, keyed]
      rfl
  | insertByHash key account => exact SharedMap.view_insert cache key account
  | remove vlad =>
    cases keyed : AccountCache.keyFromMultibase vlad with
    | error e =>
      simp only [SharedCache.perform, SharedCache.remove, CacheOp.edits, keyed]
      rfl
    | ok key =>
      have edits : (CacheOp.remove vlad).edits cache = [.drop key] := by
        simp only [CacheOp.edits, keyed]
        rfl
      rw [edits]
      change _ = FiniteMap.erase cache.view key
      cases present : cache.entries.lookup key with
      | none =>
        have same : (cache.perform (.remove vlad)).1 = cache := by
          simp [SharedCache.perform, SharedCache.remove, keyed, present]
        have missing : cache.view.lookup key = none := by simp [SharedMap.lookup_view, present]
        rw [same, FiniteMap.erase, ← missing, FiniteMap.set_lookup]
      | some handle =>
        have gone : (cache.perform (.remove vlad)).1 = SharedMap.erase cache key := by
          simp [SharedCache.perform, SharedCache.remove, keyed, present]
        rw [gone, SharedMap.view_erase]
  | clear => exact SharedMap.view_clear cache
  | lock handle op ambient =>
    cases held : cache.read handle with
    | none =>
      have dangling : cache.keyOf handle = none := by
        cases shown : cache.keyOf handle with
        | none => rfl
        | some key =>
          obtain ⟨account, found⟩ := cache.readable (keyOf_some.mp shown)
          cases held.symm.trans found
      simp [SharedCache.perform, held, CacheOp.edits, dangling]
    | some account =>
      rw [SharedCache.perform_lock held]
      cases shown : cache.keyOf handle with
      | none =>
        have unseen (key : VladHash) : cache.entries.lookup key ≠ some handle := by
          intro current
          cases shown.symm.trans (keyOf_some.mpr current)
        rw [SharedMap.view_write_stale unseen]
        simp [CacheOp.edits, shown]
      | some key =>
        have current := keyOf_some.mp shown
        have seen : cache.view.lookup key = some account :=
          SharedMap.view_some.mpr ⟨handle, current, held⟩
        have edits : (CacheOp.lock handle op ambient).edits cache = [.act key op ambient] := by
          simp [CacheOp.edits, shown]
        rw [SharedMap.view_write current, edits]
        change _ = (CacheEdit.act key op ambient).apply cache.view
        rw [CacheEdit.apply, seen]
        rfl
  | get vlad => rfl
  | getByHash key => rfl
  | contains vlad => rfl
  | len => rfl
  | isEmpty => rfl

noncomputable def storeRefinement : Refinement sharedCache cacheStore where
  good _ := True
  view := SharedMap.view
  stands := fun cache op => op.edits cache
  kept _ _ _ := trivial
  simulated cache op _ := cache.perform_view op

/-- What the cache answers its holders, read off the store. -/
structure AnswersOf (cache : SharedCache) (store : AccountCache) : Prop where
  shows : cache.view = store
  len : cache.len = store.size
  isEmpty : cache.isEmpty = true ↔ store = ∅
  contains : ∀ vlad, cache.contains vlad =
    (AccountCache.keyFromMultibase vlad).map fun key => (store.lookup key).isSome
  get : ∀ vlad, ((cache.get vlad).map cache.read) =
    (AccountCache.get store vlad).map fun entry => some entry.2
  clear : cache.clear.1 = store.size

theorem SharedCache.answers (cache : SharedCache) : AnswersOf cache cache.view where
  shows := rfl
  len := rfl
  isEmpty := by
    have counted : cache.isEmpty = true ↔ cache.view.size = 0 := by
      rw [SharedMap.size_view]
      exact beq_iff_eq
    rw [counted, FiniteMap.size_eq_zero]
  contains vlad := by
    unfold SharedCache.contains
    cases AccountCache.keyFromMultibase vlad with
    | error e => rfl
    | ok key =>
      have same : (cache.entries.lookup key).isSome = (cache.view.lookup key).isSome := by
        rw [Bool.eq_iff_iff, ← cache.view.mem_keys, ← cache.entries.mem_keys]
        rfl
      simp only [except_ok_bind, same]
      rfl
  get vlad := by
    cases cache.lookup_cases vlad with
    | missing e shared plain =>
      rw [shared, plain]
      rfl
    | found key handle account shared current held plain =>
      rw [shared, plain]
      simp only [Except.map, held]
  clear := rfl

/-- Whatever holders do through their handles, in any order, the cache answers as the
store does after the edits that their operations mean. -/
theorem store_by_value (cache : SharedCache) (run : List CacheOp) :
    AnswersOf (sharedCache.after cache run)
      (cacheStore.after cache.view (sharedCache.traced (fun cache op => op.edits cache) cache run)) := by
  have seen : (sharedCache.after cache run).view =
      cacheStore.after cache.view (sharedCache.traced storeRefinement.stands cache run) :=
    storeRefinement.view_after trivial run
  have answers := (sharedCache.after cache run).answers
  rw [seen] at answers
  exact answers

end

end LogosAccounts
