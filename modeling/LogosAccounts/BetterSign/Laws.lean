import Mathlib.Data.List.Infix
import LogosAccounts.BetterSign.Interface

/-! Documented behaviour of the upstream functions, as named hypotheses. A result
takes exactly the laws it rests on. -/

namespace LogosAccounts
open BetterSign hiding mk
variable [BetterSign]

/-- Every item of `verify()` is `Ok`. -/
def AllVerified (log : Log) : Prop := ∀ item ∈ logVerify log, ∃ found, item = .ok found

/-- The chain is not empty and every item of `verify()` is `Ok`. -/
def FullyVerified (log : Log) : Prop := logVerify log ≠ [] ∧ AllVerified log

/-- `log` with `entry` added and the head moved to it. -/
def Log.push (log : Log) (entry : Entry) : Log :=
  { log with head := entryCid entry, entries := log.entries ++ [entry] }

/-- `Key::try_from` keeps the string and reads back what a key shows. -/
structure KeyLaws : Prop where
  keeps : ∀ s key, keyTryFrom s = .ok key → keyAsStr key = s
  display : ∀ key, keyToString key = keyAsStr key
  reparse : ∀ key, keyTryFrom (keyToString key) = .ok key

/-- A leaf under a branch is a well-formed key. -/
def LeafLaw : Prop :=
  ∀ branch, keyIsBranch branch = true → ∃ leaf, keyTryFrom (keyAsStr branch ++ "pubkey") = .ok leaf

def Prefixes (branch key : Key) : Prop := (keyAsStr branch).toList <+: (keyAsStr key).toList

/-- A branch is a parent of the keys whose text starts with its own. -/
def ParentLaw : Prop :=
  ∀ branch key, keyIsBranch branch = true → (keyParentOf branch key = true ↔ Prefixes branch key)

/-- A branch is a key whose text ends with `/`. -/
def BranchSlashLaw : Prop :=
  ∀ key, keyIsBranch key = true → (keyAsStr key).toList.getLast? = some '/'

/-- `/pubkey` parses as a key. -/
def RootKeyParses : Prop := ∃ key, keyTryFrom "/pubkey" = .ok key

/-- `PubkeyParams::KEY_PATH` is `/pubkey`. -/
def RootKeyPath : Prop := keyTryFrom "/pubkey" = .ok pubkeyParamsKeyPath

/-- `is_secret_key` answers that the key is not secret. -/
def IsPublic (mk : Multikey) : Prop := isSecretKey mk = .ok false

/-- `to_public_key` returns a public key. -/
def ToPublicLaw : Prop := ∀ mk pub, toPublicKey mk = .ok pub → IsPublic pub

/-- Multibase decoding undoes encoding. -/
def MultibaseLaw : Prop :=
  ∀ base bytes strict, multibaseDecode (multibaseEncode base bytes) strict = .ok (base, bytes)

/-- `serde_json` reads a tree back from the text it writes for it. -/
def JsonRoundTrip (tree : Json) : Prop := jsonFromStr (jsonToString tree) = .ok tree

/-- `serde_json` escapes the control characters of the texts it writes. -/
def JsonTextLaw : Prop := ∀ tree, '\x00' ∉ (jsonToString tree).toList

/-- VLAD decoding undoes encoding. -/
def VladLaw : Prop := ∀ vlad, vladTryFrom (vladToEncoded vlad) = .ok vlad

/-- Different CIDs have different encodings. -/
def CidLaw : Prop := Function.Injective cidToEncoded

/-- Multikey decoding undoes encoding, in text and in bytes. -/
structure MultikeyLaws : Prop where
  encoded : ∀ multikey, multikeyFromEncoded (multikeyToEncoded multikey) = .ok multikey
  bytes : ∀ multikey, multikeyTryFrom (multikeyToBytes multikey) = .ok multikey

/-- The multibase form of a Multikey carries its bytes. -/
def MultikeyPayloadLaw : Prop :=
  ∀ multikey strict, ∃ base,
    multibaseDecode (multikeyToEncoded multikey) strict = .ok (base, multikeyToBytes multikey)

/-- The builder stores what it is given and leaves the proof empty; adding a
proof changes nothing else. -/
structure EntryLaws : Prop where
  builds : ∀ draft entry, prepareUnsignedEntry draft = .ok entry → entry = draft.unsigned
  proofOnly : ∀ entry proof signed,
    tryBuildWithProof entry proof = .ok signed → signed.unsigned = entry.unsigned

/-- The builder refuses no entry that has all its fields and no proof yet. -/
def BuilderLaw : Prop :=
  ∀ draft, draft.proof = [] → ∃ entry, prepareUnsignedEntry draft = .ok entry

/-- A long hop goes back. -/
def LipmaaLaw : Prop := ∀ seqno, isLipmaa seqno = true → lipmaa seqno < seqno

/-- `Log::seqno` finds an entry of that number when the log has one. -/
def SeqnoLaw : Prop :=
  ∀ log, ∀ entry ∈ Log.entries log, ∃ found ∈ log.entries,
    logSeqno log entry.seqno = .ok found ∧ found.seqno = entry.seqno

/-- Building an op from its parameters gives the op they describe. -/
def OpLaw : Prop := ∀ op built, opTryBuild op = .ok built → built = op

/-- `Log::try_append` either fails and leaves the log as it was, or adds exactly
the entry to a log that then verifies throughout. -/
structure AppendLaws : Prop where
  atomic : ∀ log entry failure log',
    logTryAppend log entry = (.error failure, log') → log' = log
  adds : ∀ log entry log', logTryAppend log entry = (.ok (), log') → log' = log.push entry
  verified : ∀ log entry log', logTryAppend log entry = (.ok (), log') → FullyVerified log'

/-- `Log::try_append` keeps the log's VLAD. -/
def AppendKeepsVlad : Prop :=
  ∀ log entry result log', logTryAppend log entry = (result, log') → log'.vlad = log.vlad

theorem AppendLaws.keepsVlad (append : AppendLaws) : AppendKeepsVlad := by
  intro log entry result log' appended
  cases result with
  | error failure => rw [append.atomic log entry failure log' appended]
  | ok done =>
    rw [append.adds log entry log' appended]
    rfl

/-- The effect of one op on a lookup in the key-value pairs. -/
def applyOp (pairs : Key → Option Value) : Op → Key → Option Value
  | .noop _ => pairs
  | .delete key => fun other => if other = key then none else pairs other
  | .update key value => fun other => if other = key then some value else pairs other

/-- The pairs left by all ops of the entries, in order. -/
def pairsAfter (entries : List Entry) : Key → Option Value :=
  (entries.flatMap Entry.ops).foldl applyOp fun _ => none

/-- `open_plog` stores at `/pubkey` the key its key manager returns for it. -/
def OpenLaw : Prop :=
  ∀ config callbacks rng log, openPlog config callbacks rng = .ok log →
    ∃ mk, callbacks.getKey pubkeyParamsKeyPath = .ok mk ∧
      pairsAfter log.entries pubkeyParamsKeyPath = some (.data (multikeyToBytes mk))

/-- `open_plog` makes a log of one entry, numbered 0. -/
def OpenFirstLaw : Prop :=
  ∀ config callbacks rng log, openPlog config callbacks rng = .ok log →
    ∃ first, log.entries = [first] ∧ first.seqno = 0

/-- Decoding a log undoes encoding it, in text and in bytes. -/
structure LogRoundTrip (log : Log) : Prop where
  encoded : logFromEncoded (logToEncoded log) = .ok log
  bytes : logTryFrom (logToBytes log) = .ok log

def VerifyItem.entry : VerifyItem → Option Entry
  | .ok (_, entry, _) => some entry
  | .error _ => none

/-- The entries of the items that are `Ok`. -/
def verifiedEntries (log : Log) : List Entry := (logVerify log).filterMap VerifyItem.entry

/-- `verify()` walks the entries in order and applies their ops in order. -/
structure VerifyLaws : Prop where
  entries : ∀ log, AllVerified log → verifiedEntries log = log.entries
  pairs : ∀ log n entry kvp, AllVerified log →
    (logVerify log).getLast? = some (.ok (n, entry, kvp)) →
    ∀ key, kvp.find key = pairsAfter log.entries key
  keysOnce : ∀ log n entry kvp, .ok (n, entry, kvp) ∈ logVerify log → (kvp.map Prod.fst).Nodup

end LogosAccounts
