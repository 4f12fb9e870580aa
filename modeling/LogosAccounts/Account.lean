import Mathlib.Data.List.Infix
import Mathlib.Data.List.Sort
import LogosAccounts.EphemeralOpen
import LogosAccounts.Functional.FiniteMap
import LogosAccounts.Functional.Machine
import LogosAccounts.Wire

/-! One cached account: readers of its verified log, and the prepare, commit and
cancel operations on its pending challenges. -/

namespace LogosAccounts
open BetterSign hiding mk
open Functional (FiniteMap Machine)
variable [BetterSign]

/-- Pending mutation awaiting an external Multisig. -/
structure PendingUpdate where
  headCid : String
  unsigned : UnsignedUpdate
  kind : UpdateKind
  path : Option String
  createdAt : Nat

/-- Prepare assembly input, after sugar expansion. -/
structure PrepareEntrySpec where
  locks : LockSpec
  ops : List OpParams
  signAs : String
  kind : UpdateKind
  path : Option String

/-- A verified log and its prepare/commit challenges. -/
structure PlogAccount where
  log : Log
  pending : FiniteMap String PendingUpdate

/-- What one call reads from outside: the monotonic clock in nanoseconds, first
for the purge and again for `created_at`, and the random numbers it draws. -/
structure Ambient where
  now : Nat
  issuedAt : Nat
  challengeBytes : Vector UInt8 16
  rng : Rng

def newChallengeId (buf : Vector UInt8 16) : String := encodeBytesMultibase buf.toList

omit [BetterSign] in
/-- How long a challenge remains valid: 15 minutes. -/
def challengeTtl : Nat := 15 * 60 * 1000000000

/-- The loop over `log.verify()` of the full-chain readers: stop at the first
error, note that there was an item, keep what the reader wants of the last one. -/
def scanVerified (keep : Entry → Kvp → α) :
    List VerifyItem → Bool → Option α → Except Error (Bool × Option α)
  | [], any, last => .ok (any, last)
  | .error e :: _, _, _ => .error (.plogVerifyFailed e)
  | .ok (_, entry, kvp) :: rest, _, _ => scanVerified keep rest true (some (keep entry kvp))

/-- Full-chain verify; error if any entry fails or the log has no entries. -/
def ensurePlogVerified (log : Log) : Except Error Unit := do
  let (any, _) ← scanVerified (fun _ _ => ()) (logVerify log) false none
  if !any then throw (.plogVerifyFailed "empty provenance log")

def encodeBinValue (data : Bytes) : String :=
  match multikeyTryFrom data with
  | .ok multikey => encodeMultikey multikey
  | .error _ => encodeBytesMultibase data

def pathValue : Value → PlogPathValue
  | .str s => .str s
  | .data b => .bin (encodeBinValue b)
  | .nil => .bin (encodeBytesMultibase [])

/-- Read a path from the verified head. -/
def getPlogValue (log : Log) (path : String) : Except Error PlogPathValue := do
  let key ← parseKey path
  let (any, last) ← scanVerified (fun _ kvp => kvp) (logVerify log) false none
  if !any then throw (.plogVerifyFailed "empty provenance log")
  let kvp ← expect "any implies last" last
  match kvp.find key with
  | some v => return pathValue v
  | none => throw (.pathNotFound path)

/-- The root key of the summary; an absent one is no error. -/
def summaryPubkey (log : Log) : Except Error (Option String) :=
  match getPlogValue log "/pubkey" with
  | .ok (.bin s) => .ok (some s)
  | .ok (.str s) => .ok (some s)
  | .error (.pathNotFound _) => .ok none
  | .error e => .error e

def summaryFromVerifiedPlog (log : Log) : Except Error AccountSummary := do
  ensurePlogVerified log
  let pubkey ← summaryPubkey log
  return { vlad := encodeVlad log.vlad, headCid := encodeCid log.head, pubkey }

omit [BetterSign] in
def containsText (s pattern : String) : Bool := decide (pattern.toList <:+: s.toList)

def isDelegated : Script → Bool
  | .code p code =>
    containsText code ("check_signature(\"" ++ keyAsStr p ++ "pubkey\"") ||
      containsText code "branch(\"pubkey\")"
  | .other _ _ => false

def delegatedPubkey : Value → Option String
  | .data b =>
    match multikeyTryFrom b with
    | .ok multikey => some (encodeMultikey multikey)
    | .error _ => none
  | .str s => some s
  | .nil => none

/-- The grant one head lock makes, if any. -/
def delegationOfLock (pairs : Kvp) (lock : Script) : Option PathDelegation :=
  let path := lock.path
  if !keyIsBranch path || keyAsStr path == "/" then none
  else if !isDelegated lock then none
  else
    match delegatePubkeyKey path with
    | .error _ => none
    | .ok pkKey =>
      let pubkey := pairs.findSome? fun pair =>
        if pair.1 ≠ pkKey then none else delegatedPubkey pair.2
      pubkey.map fun pubkey => { path := keyToString path, pubkey }

/-- The walk over the head's locks, sorted by path; the sort is stable. -/
def delegationsOf (entry : Entry) (pairs : Kvp) : List PathDelegation :=
  (entry.locks.filterMap (delegationOfLock pairs)).insertionSort fun a b => a.path ≤ b.path

def closestParentStep (target : Key) (best : Option Key) (d : PathDelegation) : Option Key :=
  match parseBranchPath d.path with
  | .error _ => best
  | .ok dKey =>
    if dKey = target then best
    else if keyParentOf dKey target then
      match best with
      | none => some dKey
      | some b =>
        if (keyAsStr dKey).utf8ByteSize > (keyAsStr b).utf8ByteSize then some dKey else best
    else best

/-- Longest proper-ancestor delegated branch's `{branch}pubkey`, else `/pubkey`. -/
def resolveClosestParentSigningKey (target : Key) (delegations : List PathDelegation) :
    Except Error String := do
  match delegations.foldl (closestParentStep target) none with
  | some branch => return keyToString (← delegatePubkeyKey branch)
  | none => return keyToString pubkeyKeyPath

namespace PlogAccount

def ofLog (log : Log) : Except Error (PlogAccount × AccountSummary) := do
  let summary ← summaryFromVerifiedPlog log
  return ({ log, pending := ∅ }, summary)

/-- One-shot create: ephemeral VLAD and `/entrykey`, external root Multikey. -/
def create (pubkeyMultibase : String) (ambient : Ambient) :
    Except Error (PlogAccount × AccountSummary) := do
  let multikey ← decodeMultikey pubkeyMultibase
  let log ← openPlogWithExternalPubkey multikey ambient.rng
  ofLog log

def «import» (plogMultibase : String) : Except Error (PlogAccount × AccountSummary) := do
  let log ← decodePlog plogMultibase
  ofLog log

def importBytes (plogBytes : Bytes) : Except Error (PlogAccount × AccountSummary) := do
  let log ← plogFromBytes plogBytes
  ofLog log

def summary (account : PlogAccount) : Except Error AccountSummary :=
  summaryFromVerifiedPlog account.log

def vlad (account : PlogAccount) : String := encodeVlad account.log.vlad

def exportPlog (account : PlogAccount) : String := encodePlog account.log

def exportPlogBytes (account : PlogAccount) : Bytes := plogToBytes account.log

def getValue (account : PlogAccount) (path : String) : Except Error PlogPathValue :=
  getPlogValue account.log path

/-- List active path delegations at the verified head. -/
def listDelegations (account : PlogAccount) : Except Error (List PathDelegation) := do
  let (any, last) ←
    scanVerified (fun entry kvp => (entry, kvp)) (logVerify account.log) false none
  if !any then throw (.plogVerifyFailed "empty provenance log")
  let (entry, pairs) ← expect "any implies entry" last
  return delegationsOf entry pairs

def currentHeadCid (account : PlogAccount) : String := encodeCid account.log.head

def purgeExpiredChallenges (account : PlogAccount) (now : Nat) : PlogAccount :=
  { account with pending := account.pending.retain fun _ p => now - p.createdAt < challengeTtl }

def headEntry (account : PlogAccount) : Except Error Entry := do
  let (_, last, _) ← lastVerified account.log
  return last

def unsignedEntry (account : PlogAccount) (spec : PrepareEntrySpec) :
    Except Error UnsignedUpdate := do
  let head ← account.headEntry
  let locks ← lockSpecToScripts head spec.locks
  prepareNextEntry account.log { unlock := defaultUnlockScript, locks, ops := spec.ops }

def pendingUpdate (account : PlogAccount) (spec : PrepareEntrySpec) (unsigned : UnsignedUpdate)
    (ambient : Ambient) : PendingUpdate where
  headCid := account.currentHeadCid
  unsigned := unsigned
  kind := spec.kind
  path := spec.path
  createdAt := ambient.issuedAt

def updateChallenge (account : PlogAccount) (spec : PrepareEntrySpec) (unsigned : UnsignedUpdate)
    (ambient : Ambient) : UpdateChallenge where
  challengeId := newChallengeId ambient.challengeBytes
  vlad := account.vlad
  kind := spec.kind
  path := spec.path
  signingKeyPath := spec.signAs
  headCid := account.currentHeadCid
  messageMultibase := encodeBytesMultibase unsigned.message
  messageEncoding := "entry-bytes"

/-- Core prepare: assemble the unsigned entry and store a challenge. The account
afterwards is returned on every path. -/
def prepareEntry (account : PlogAccount) (spec : PrepareEntrySpec) (ambient : Ambient) :
    Except Error UpdateChallenge × PlogAccount :=
  let account := account.purgeExpiredChallenges ambient.now
  match account.unsignedEntry spec with
  | .error e => (.error e, account)
  | .ok unsigned =>
    (.ok (account.updateChallenge spec unsigned ambient),
      { account with
        pending := account.pending.insert (newChallengeId ambient.challengeBytes)
          (account.pendingUpdate spec unsigned ambient) })

def updateSpec (requestJson : String) : Except Error PrepareEntrySpec := do
  let req ← parseEntryUpdateRequest requestJson
  let signAs := req.signAs.getD (keyToString pubkeyKeyPath)
  let _ ← parseKey signAs
  let ops ← plogOpsToParams req.ops
  return { locks := req.locks, ops, signAs, kind := .entry, path := none }

/-- What `prepare_delegate` hands to `prepare_entry`: lock upsert and pubkey update. -/
def delegateSpec (account : PlogAccount) (path pubkeyMultibase : String) :
    Except Error PrepareEntrySpec := do
  let branch ← parseBranchPath path
  let multikey ← decodeMultikey pubkeyMultibase
  let pkKey ← delegatePubkeyKey branch
  let (lockPath, lockCode) ←
    match delegatedBranchLockScript branch with
    | .code p c => pure (keyToString p, c)
    -- never taken; the source's text ends with the script's `Debug` form
    | .other _ _ => throw (Error.invalidOp "expected Code lock script, got ")
  let delegations ← account.listDelegations
  let signAs ← resolveClosestParentSigningKey branch delegations
  return {
    locks := .upsert { path := lockPath, code := lockCode }
    ops := [useKeyOp pkKey multikey]
    signAs
    kind := .delegate
    path := some (keyToString branch) }

/-- What `prepare_revoke` hands to `prepare_entry`: lock remove and pubkey delete. -/
def revokeSpec (account : PlogAccount) (path : String) : Except Error PrepareEntrySpec := do
  let branch ← parseBranchPath path
  let pkKey ← delegatePubkeyKey branch
  let delegations ← account.listDelegations
  let signAs ← resolveClosestParentSigningKey branch delegations
  return {
    locks := .remove (keyToString branch)
    ops := [.delete pkKey]
    signAs
    kind := .revoke
    path := some (keyToString branch) }

/-- The three prepares differ only in the spec they build; no account field is
touched when that fails. -/
def prepareWith (account : PlogAccount) (spec : Except Error PrepareEntrySpec)
    (ambient : Ambient) : Except Error UpdateChallenge × PlogAccount :=
  match spec with
  | .error e => (.error e, account)
  | .ok spec => account.prepareEntry spec ambient

/-- Prepare a raw entry (locks and ops) for an external Multisig. -/
def prepareUpdate (account : PlogAccount) (requestJson : String) (ambient : Ambient) :
    Except Error UpdateChallenge × PlogAccount :=
  account.prepareWith (updateSpec requestJson) ambient

def prepareDelegate (account : PlogAccount) (path pubkeyMultibase : String) (ambient : Ambient) :
    Except Error UpdateChallenge × PlogAccount :=
  account.prepareWith (account.delegateSpec path pubkeyMultibase) ambient

def prepareRevoke (account : PlogAccount) (path : String) (ambient : Ambient) :
    Except Error UpdateChallenge × PlogAccount :=
  account.prepareWith (account.revokeSpec path) ambient

/-- Commit a prepared update with an external Multisig. -/
def commitUpdate (account : PlogAccount) (challengeId signatureMultibase : String)
    (ambient : Ambient) :
    Except Error (AccountSummary × UpdateKind × Option String) × PlogAccount :=
  let account := account.purgeExpiredChallenges ambient.now
  match account.pending.lookup challengeId with
  | none => (.error (.challengeNotFound challengeId), account)
  | some pending =>
    let account := { account with pending := account.pending.erase challengeId }
    if account.currentHeadCid ≠ pending.headCid then
      (.error (.headMismatch pending.headCid account.currentHeadCid), account)
    else
      match decodeMultisig signatureMultibase with
      | .error e => (.error e, account)
      | .ok signature =>
        match commitWithMultisig account.log pending.unsigned.entry signature with
        | (.error e, log) => (.error e, { account with log })
        | (.ok _, log) =>
          -- the log has moved: every other challenge goes, then the summary is read
          match summaryFromVerifiedPlog log with
          | .error e => (.error e, { log, pending := ∅ })
          | .ok summary => (.ok (summary, pending.kind, pending.path), { log, pending := ∅ })

/-- Drop a pending challenge without committing. -/
def cancelUpdate (account : PlogAccount) (challengeId : String) (ambient : Ambient) :
    Except Error Unit × PlogAccount :=
  let account := account.purgeExpiredChallenges ambient.now
  match account.pending.lookup challengeId with
  | none => (.error (.challengeNotFound challengeId), account)
  | some _ => (.ok (), { account with pending := account.pending.erase challengeId })

end PlogAccount

inductive AccountOp where
  | prepareUpdate (requestJson : String)
  | prepareDelegate (path pubkeyMultibase : String)
  | prepareRevoke (path : String)
  | commitUpdate (challengeId signatureMultibase : String)
  | cancelUpdate (challengeId : String)

inductive AccountReply where
  | challenge (result : Except Error UpdateChallenge)
  | committed (result : Except Error (AccountSummary × UpdateKind × Option String))
  | cancelled (result : Except Error Unit)
  deriving DecidableEq

def PlogAccount.perform (account : PlogAccount) (op : AccountOp) (ambient : Ambient) :
    PlogAccount × AccountReply :=
  match op with
  | .prepareUpdate requestJson =>
    let (result, account) := account.prepareUpdate requestJson ambient
    (account, .challenge result)
  | .prepareDelegate path pubkeyMultibase =>
    let (result, account) := account.prepareDelegate path pubkeyMultibase ambient
    (account, .challenge result)
  | .prepareRevoke path =>
    let (result, account) := account.prepareRevoke path ambient
    (account, .challenge result)
  | .commitUpdate challengeId signatureMultibase =>
    let (result, account) := account.commitUpdate challengeId signatureMultibase ambient
    (account, .committed result)
  | .cancelUpdate challengeId =>
    let (result, account) := account.cancelUpdate challengeId ambient
    (account, .cancelled result)

def accountMachine : Machine PlogAccount (AccountOp × Ambient) AccountReply where
  step account action := account.perform action.1 action.2

end LogosAccounts
