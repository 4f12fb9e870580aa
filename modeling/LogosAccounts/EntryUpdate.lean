import LogosAccounts.Config

namespace LogosAccounts
open BetterSign hiding mk
variable [BetterSign]

/-- An unsigned entry and the bytes Multikey signers sign over. -/
structure UnsignedUpdate where
  entry : Entry
  message : Bytes

/-- Options for the next entry. `locks` is the complete lock set; `none` takes
over the head's locks. -/
structure NextEntrySpec where
  unlock : Script := defaultUnlockScript
  locks : Option (List Script) := none
  ops : List OpParams := []

def useKeyOp (key : Key) (mk : Multikey) : OpParams := .useKey key mk

def opFromParams (params : OpParams) : Except Error Op :=
  match params with
  | .noop key => (opTryBuild (.noop key)).mapError .transparent
  | .delete key => (opTryBuild (.delete key)).mapError .transparent
  | .useCid key cid => (opTryBuild (.update key (.data (cidToBytes cid)))).mapError .transparent
  | .useKey key mk => (opTryBuild (.update key (.data (multikeyToBytes mk)))).mapError .transparent
  | .useStr key s => (opTryBuild (.update key (.str s))).mapError .transparent
  | .useBin key data => (opTryBuild (.update key (.data data))).mapError .transparent
  | .keyGen | .cidGen =>
    .error (.invalidOp "KeyGen/CidGen must be resolved by BetterSign before entry assembly")

/-- The last item of `verify()`, whatever came before it. -/
def lastVerified (log : Log) : Except Error (Nat × Entry × Kvp) :=
  match (logVerify log).getLast? with
  | none => .error (.plogVerifyFailed "empty provenance log")
  | some item => item.mapError .transparent

/-- The long-hop link of the entry numbered `seqno`, when it has one. -/
def longHop (plog : Log) (seqno : UInt64) : Except Error (Option Cid) :=
  if isLipmaa seqno then do
    let longhopEntry ← (logSeqno plog (lipmaa seqno)).mapError Error.transparent
    return some (entryCid longhopEntry)
  else
    return none

def mutableEntry (lastEntry : Entry) (spec : NextEntrySpec) (ops : List Op)
    (link : Option Cid) : Entry where
  version := entryVersion
  vlad := lastEntry.vlad
  prev := entryCid lastEntry
  lipmaa := link
  seqno := lastEntry.seqno + 1
  ops := ops
  locks := spec.locks.getD lastEntry.locks
  unlock := spec.unlock
  proof := []

/-- The rest of `prepare_next_entry` once the last entry is read. -/
def nextEntryAfter (plog : Log) (lastEntry : Entry) (spec : NextEntrySpec) :
    Except Error UnsignedUpdate := do
  let ops ← spec.ops.mapM opFromParams
  let link ← longHop plog (lastEntry.seqno + 1)
  let unsignedEntry ←
    (prepareUnsignedEntry (mutableEntry lastEntry spec ops link)).mapError Error.transparent
  return ⟨unsignedEntry, entryToBytes unsignedEntry⟩

/-- Build the next unsigned entry from the verified head of `plog`. -/
def prepareNextEntry (plog : Log) (spec : NextEntrySpec) : Except Error UnsignedUpdate := do
  let (_, lastEntry, _) ← lastVerified plog
  nextEntryAfter plog lastEntry spec

/-- Finalize `unsigned` with a Multisig proof and append it; the log afterwards
is returned on every path. -/
def commitWithMultisig (plog : Log) (unsigned : Entry) (signature : Multisig) :
    Except Error Entry × Log :=
  match tryBuildWithProof unsigned (multisigToBytes signature) with
  | .error e => (.error (.transparent e), plog)
  | .ok entry =>
    match logTryAppend plog entry with
    | (.error e, plog') => (.error (.transparent e), plog')
    | (.ok (), plog') => (.ok entry, plog')

/-- The head's locks without those at `dropPath`, then `add` if given. -/
def locksReplacingPath (head : Entry) (dropPath : Key) (add : Option Script) : List Script :=
  head.locks.filter (fun script => script.path ≠ dropPath) ++ add.toList

end LogosAccounts
