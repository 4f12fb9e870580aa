import LogosAccounts.Proof.Journal
import LogosAccounts.Proof.LinkedChain
import LogosAccounts.Proof.RequestLocks

/-! An account as a key-value store with locks on its paths. A committed operation
edits the store by what it asks for alone, whoever signs it and whatever the log; a
run edits it by the committed operations in order, and every reader of the account
answers from the store. -/

namespace LogosAccounts
open BetterSign hiding mk
open Functional

section
variable [BetterSign]

/-- The values by key, and the locks in force. -/
structure Contents where
  values : Key → Option Value
  locks : List Script

/-- What an operation asks for: a directive for the locks and ops on the values. -/
structure ContentEdit where
  locks : LockSpec
  ops : List OpParams

/-- The locks after a directive, if it can be read. -/
def LockSpec.edited (locks : List Script) : LockSpec → Option (List Script)
  | .keyword word => if word = "inherit" then some locks else none
  | .upsert given => (keyTryFrom given.path).toOption.map fun key =>
    locks.filter (fun lock => lock.path ≠ key) ++ [.code key given.code]
  | .remove path => (keyTryFrom path).toOption.map fun key =>
    locks.filter fun lock => lock.path ≠ key
  | .replace given => given.mapM fun s =>
    (keyTryFrom s.path).toOption.map fun key => .code key s.code

/-- What the operation asks for, read from its arguments. -/
def AccountOp.asks : AccountOp → Option ContentEdit
  | .prepareUpdate requestJson =>
    (PlogAccount.updateSpec requestJson).toOption.map fun spec => ⟨spec.locks, spec.ops⟩
  | .prepareDelegate path pubkeyMultibase => do
    let branch ← (parseBranchPath path).toOption
    let multikey ← (decodeMultikey pubkeyMultibase).toOption
    let leaf ← (delegatePubkeyKey branch).toOption
    return ⟨.upsert ⟨keyToString branch, delegatedLockCode branch⟩, [useKeyOp leaf multikey]⟩
  | .prepareRevoke path => do
    let branch ← (parseBranchPath path).toOption
    let leaf ← (delegatePubkeyKey branch).toOption
    return ⟨.remove (keyToString branch), [.delete leaf]⟩
  | .commitUpdate _ _ | .cancelUpdate _ => none

namespace Contents

def apply (contents : Contents) (edit : ContentEdit) : Option Contents := do
  let locks ← edit.locks.edited contents.locks
  let ops ← edit.ops.mapM OpParams.described
  return { values := ops.foldl applyOp contents.values, locks }

def commit (contents : Contents) (op : AccountOp) : Option Contents :=
  op.asks.bind contents.apply

def read (contents : Contents) (path : String) : Except Error PlogPathValue :=
  parseKey path >>= fun key => readAs path (contents.values key)

def grantOf (contents : Contents) (lock : Script) : Option PathDelegation :=
  if keyIsBranch lock.path = true ∧ keyAsStr lock.path ≠ "/" ∧ isDelegated lock = true then do
    let leaf ← (delegatePubkeyKey lock.path).toOption
    let value ← contents.values leaf
    let pubkey ← delegatedPubkey value
    return ⟨keyToString lock.path, pubkey⟩
  else none

def grants (contents : Contents) : List PathDelegation :=
  sortBy PathDelegation.path (contents.locks.filterMap contents.grantOf)

/-- The store that a log holds. -/
def ofLog (log : Log) : Contents where
  values := pairsAfter log.entries
  locks := (log.entries.getLast?.map Entry.locks).getD []

end Contents

theorem VerifiedHead.contents (verify : VerifyLaws) {log : Log} {last : Entry} {pairs : Kvp}
    (head : VerifiedHead log last pairs) : Contents.ofLog log = ⟨pairs.find, last.locks⟩ := by
  have values : pairs.find = pairsAfter log.entries := funext (head.find_eq verify)
  unfold Contents.ofLog
  rw [head.last_entry verify, values]
  rfl

theorem Contents.grantOf_eq {pairs : Kvp} (once : (pairs.map Prod.fst).Nodup) (locks : List Script)
    (lock : Script) : (Contents.mk pairs.find locks).grantOf lock = delegationOfLock pairs lock := by
  apply Option.ext
  intro d
  rw [delegationOfLock_some]
  unfold grantOf
  by_cases eligible : keyIsBranch lock.path = true ∧ keyAsStr lock.path ≠ "/" ∧ isDelegated lock = true
  · rw [if_pos eligible]
    obtain ⟨branch, root, delegated⟩ := eligible
    simp only [Option.bind_eq_bind, Option.bind_eq_some_iff, toOption_eq_some, pubkeyAt_eq once]
    constructor
    · rintro ⟨leaf, parsed, value, stored, pubkey, read, shown⟩
      exact ⟨branch, root, delegated, leaf, pubkey, parsed, ⟨value, stored, read⟩,
        (Option.some.inj shown).symm⟩
    · rintro ⟨_, _, _, leaf, pubkey, parsed, ⟨value, stored, read⟩, rfl⟩
      exact ⟨leaf, parsed, value, stored, pubkey, read, rfl⟩
  · rw [if_neg eligible]
    constructor
    · intro impossible
      cases impossible
    · rintro ⟨branch, root, delegated, _⟩
      exact absurd ⟨branch, root, delegated⟩ eligible

/-- What the readers of an account say, given its store. -/
structure ReadsFrom (account : PlogAccount) (contents : Contents) : Prop where
  values : ∀ path, account.getValue path = contents.read path
  grants : account.listDelegations = .ok contents.grants
  locks : account.headLocks = .ok contents.locks

theorem readsFrom_ofLog (verify : VerifyLaws) {account : PlogAccount}
    (verified : FullyVerified account.log) : ReadsFrom account (Contents.ofLog account.log) := by
  obtain ⟨last, pairs, head⟩ := verified.head
  rw [head.contents verify]
  refine ⟨?_, ?_, head.headLocks⟩
  · intro path
    unfold PlogAccount.getValue Contents.read
    rw [head.getPlogValue]
    simp only [valueAt_eq]
  · rw [head.listDelegations]
    have each : (Contents.mk pairs.find last.locks).grantOf = delegationOfLock pairs :=
      funext (Contents.grantOf_eq (head.keysOnce verify) last.locks)
    unfold Contents.grants
    rw [each]
    rfl

theorem LockEdit.edited {before after : List Script} {spec : LockSpec}
    (edit : LockEdit before spec after) : spec.edited before = some after := by
  cases edit with
  | inherit => rfl
  | upsert path code key parsed => simp [LockSpec.edited, parsed, Except.toOption]
  | remove path key parsed => simp [LockSpec.edited, parsed, Except.toOption]
  | replace given scripts written =>
    unfold LockSpec.edited
    induction written with
    | nil => rfl
    | cons first _ ih =>
      obtain ⟨key, parsed, rfl⟩ := first
      simp only [List.mapM_cons, ih]
      simp [parsed, Except.toOption]

theorem AccountOp.asks_of_spec {account : PlogAccount} {op : AccountOp} {input : PrepareEntrySpec}
    (asked : op.spec account = some (.ok input)) : op.asks = some ⟨input.locks, input.ops⟩ := by
  cases op with
  | prepareUpdate requestJson =>
    have given : PlogAccount.updateSpec requestJson = .ok input := Option.some.inj asked
    unfold AccountOp.asks
    simp only [given, Except.toOption, Option.map_some]
  | prepareDelegate path pubkeyMultibase =>
    have given : account.delegateSpec path pubkeyMultibase = .ok input := Option.some.inj asked
    obtain ⟨branch, accepted, given⟩ := except_bind_ok.mp given
    obtain ⟨multikey, decoded, given⟩ := except_bind_ok.mp given
    obtain ⟨leaf, parsed, given⟩ := except_bind_ok.mp given
    obtain ⟨lock, made, given⟩ := except_bind_ok.mp given
    obtain ⟨delegations, _, given⟩ := except_bind_ok.mp given
    obtain ⟨signAs, _, given⟩ := except_bind_ok.mp given
    obtain rfl := Except.ok.inj made
    obtain rfl := Except.ok.inj given
    unfold AccountOp.asks
    simp only [accepted, decoded, parsed, Except.toOption, Option.bind_eq_bind, Option.bind_some]
    rfl
  | prepareRevoke path =>
    have given : account.revokeSpec path = .ok input := Option.some.inj asked
    obtain ⟨branch, accepted, given⟩ := except_bind_ok.mp given
    obtain ⟨leaf, parsed, given⟩ := except_bind_ok.mp given
    obtain ⟨delegations, _, given⟩ := except_bind_ok.mp given
    obtain ⟨signAs, _, given⟩ := except_bind_ok.mp given
    obtain rfl := Except.ok.inj given
    unfold AccountOp.asks
    simp only [accepted, parsed, Except.toOption, Option.bind_eq_bind, Option.bind_some]
    rfl
  | commitUpdate id signature => cases asked
  | cancelUpdate id => cases asked

theorem described_of_built (opLaw : OpLaw) {params : List OpParams} {ops : List Op}
    (built : params.mapM opFromParams = .ok ops) : params.mapM OpParams.described = some ops := by
  have same := mapM_described opLaw built
  clear built
  induction params generalizing ops with
  | nil =>
    obtain rfl := List.map_eq_nil_iff.mp same
    rfl
  | cons first rest ih =>
    cases ops with
    | nil => cases same
    | cons op ops =>
      obtain ⟨head, tail⟩ := List.cons.inj same
      simp only [List.mapM_cons, ← head, ih tail]
      rfl

theorem atomicCommit_contents (entries : EntryLaws) (opLaw : OpLaw) (append : AppendLaws)
    (verify : VerifyLaws) {log log' : Log} (verified : FullyVerified log) {op : AccountOp}
    {signature : String} (success : atomicCommit log (op, signature) = some log') :
    (Contents.ofLog log).commit op = some (Contents.ofLog log') := by
  have extended := atomicCommit_verified append success
  obtain ⟨unsigned, multisig, entry, built, _, committed⟩ := atomicCommit_eq.mp success
  have onLog : op.entryOn (PlogAccount.mk log ∅).log = some unsigned := built
  obtain ⟨input, asked, built⟩ := AccountOp.entryOn_eq.mp onLog
  obtain ⟨last, pairs, head⟩ := verified.head
  have ownHead : VerifiedHead (PlogAccount.mk log ∅).log last pairs := head
  obtain ⟨locks, spelled, made, ops⟩ := unsignedEntry_fields entries ownHead built
  have edit := (lockEdit_iff.mpr ⟨locks, spelled, made.symm⟩).edited
  obtain ⟨same, rfl⟩ := commitWithMultisig_ok entries append committed
  obtain ⟨sameOps, sameLocks, _⟩ := Entry.same_fields same
  obtain ⟨pairs', head', found⟩ := head.push verify extended
  rw [head'.contents verify, head.contents verify, funext found, sameOps, sameLocks]
  unfold Contents.commit
  rw [AccountOp.asks_of_spec asked, Option.bind_some]
  unfold Contents.apply
  simp only [edit, described_of_built opLaw ops, Option.bind_eq_bind, Option.bind_some]
  rfl

/-- What serial commits make of the store is told by their requests. -/
theorem serial_contents (entries : EntryLaws) (opLaw : OpLaw) (append : AppendLaws)
    (verify : VerifyLaws) {requests : List (AccountOp × String)} {log log' : Log}
    (verified : FullyVerified log) (serial : serialLog.after (some log) requests = some log') :
    (requests.map Prod.fst).foldlM Contents.commit (Contents.ofLog log) =
      some (Contents.ofLog log') := by
  induction requests generalizing log with
  | nil =>
    obtain rfl := Option.some.inj serial
    rfl
  | cons request rest ih =>
    rw [Machine.after_cons] at serial
    change serialLog.after (atomicCommit log request) rest = _ at serial
    cases once : atomicCommit log request with
    | none =>
      rw [once, serialLog_none] at serial
      cases serial
    | some moved =>
      rw [once] at serial
      have edited := atomicCommit_contents entries opLaw append verify verified once
      rw [List.map_cons, List.foldlM_cons, edited]
      exact ih (atomicCommit_verified append once) serial

/-- After any run on an opened account, every reader answers from the store that the
committed operations, taken in order, make of the first one. -/
theorem run_contents (entries : EntryLaws) (opLaw : OpLaw) (append : AppendLaws) (verify : VerifyLaws)
    {start : PlogAccount} (opened : start.Opened) (run : List (AccountOp × Ambient)) :
    ∃ contents, ((Journal.ofRun start run).committed.map Prod.fst).foldlM Contents.commit
        (Contents.ofLog start.log) = some contents ∧
      ReadsFrom (accountMachine.after start run) contents := by
  have serial := run_is_serial append opened run
  have reached := (opened.reached run).verified append
  exact ⟨_, serial_contents entries opLaw append verify opened.verified serial,
    readsFrom_ofLog verify reached⟩

end

section
open Reference

theorem run_contents_crowded :
    ∃ contents, (Contents.ofLog openedAccount.log).commit (.prepareDelegate "/a/" "u5wkJ") = some contents ∧
      (accountMachine.after openedAccount crowdedOps).listDelegations = .ok contents.grants ∧
      contents.grants = [⟨"/a/", "u5wkJ"⟩] := by
  have journalled : (Journal.ofRun openedAccount crowdedOps).committed.map Prod.fst =
      [.prepareDelegate "/a/" "u5wkJ"] := by decide +kernel
  obtain ⟨contents, edited, reads⟩ :=
    run_contents entryLaws opLaw appendLaws verifyLaws openedAccount_opened crowdedOps
  rw [journalled, List.foldlM_cons] at edited
  obtain ⟨contents', edited, rest⟩ := Option.bind_eq_some_iff.mp edited
  obtain rfl := Option.some.inj rest
  refine ⟨contents', edited, reads.grants, ?_⟩
  have listed : (accountMachine.after openedAccount crowdedOps).listDelegations =
      .ok [⟨"/a/", "u5wkJ"⟩] := by decide +kernel
  exact Except.ok.inj (reads.grants.symm.trans listed)

end

end LogosAccounts
