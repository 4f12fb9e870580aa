import Mathlib.Data.List.Infix
import LogosAccounts.BetterSign.Laws
import LogosAccounts.Functional.Except
import LogosAccounts.Functional.Multibase

/-! A small backend on which the laws hold and every call can be evaluated: keys
are path strings, signatures are toy signatures, and an archive stands in for
the decoder of logs. -/

namespace LogosAccounts.Reference
open Functional (TextBase except_bind_ok)

/-- A leading `/` and no empty inner segment. -/
def wellFormedPath (s : String) : Bool :=
  match s.toList with
  | '/' :: rest => !decide (['/', '/'] <:+: '/' :: rest)
  | _ => false

structure PathKey where
  text : String
  valid : wellFormedPath text = true
  deriving DecidableEq

def PathKey.ofText (s : String) : Except String PathKey :=
  if valid : wellFormedPath s = true then .ok ⟨s, valid⟩ else .error "malformed key path"

inductive KeyCodec where
  | secp256K1Priv
  | secp256K1Pub
  | ed25519Priv
  | ed25519Pub
  deriving DecidableEq, Repr

def KeyCodec.isSecret : KeyCodec → Bool
  | secp256K1Priv | ed25519Priv => true
  | secp256K1Pub | ed25519Pub => false

def KeyCodec.toPublic : KeyCodec → KeyCodec
  | secp256K1Priv | secp256K1Pub => secp256K1Pub
  | ed25519Priv | ed25519Pub => ed25519Pub

def KeyCodec.tag : KeyCodec → UInt8
  | secp256K1Priv => 0x01
  | secp256K1Pub => 0xe7
  | ed25519Priv => 0x00
  | ed25519Pub => 0xed

def KeyCodec.name : KeyCodec → String
  | secp256K1Priv => "Secp256K1Priv"
  | secp256K1Pub => "Secp256K1Pub"
  | ed25519Priv => "Ed25519Priv"
  | ed25519Pub => "Ed25519Pub"

structure PeerKey where
  codec : KeyCodec
  material : Bytes
  deriving DecidableEq, Repr

/-- The public key of a secret one has its material inverted. -/
def PeerKey.toPublic (key : PeerKey) : PeerKey :=
  if key.codec.isSecret then ⟨key.codec.toPublic, key.material.map fun b => ~~~b⟩ else key

def PeerKey.bytes (key : PeerKey) : Bytes := key.codec.tag :: key.material

def PeerKey.ofBytes : Bytes → Except String PeerKey
  | 0x01 :: material => .ok ⟨.secp256K1Priv, material⟩
  | 0xe7 :: material => .ok ⟨.secp256K1Pub, material⟩
  | 0x00 :: material => .ok ⟨.ed25519Priv, material⟩
  | 0xed :: material => .ok ⟨.ed25519Pub, material⟩
  -- a framed public key; what is left over after it is ignored
  | 0xfe :: length :: rest => .ok ⟨.secp256K1Pub, rest.take length.toNat⟩
  | _ => .error "not a multikey"

scoped instance upstream : Upstream where
  Base := TextBase
  Codec := KeyCodec
  Key := PathKey
  Vlad := Bytes
  Cid := Bytes
  Multikey := PeerKey
  Multisig := Bytes
  Rng := Bytes
  codecEq left right := decide (left = right)
  codecEq_iff _ _ := decide_eq_true_iff
  keyEq left right := decide (left = right)
  keyEq_iff _ _ := decide_eq_true_iff

instance : DecidableEq Vlad := inferInstanceAs (DecidableEq Bytes)

instance : DecidableEq Cid := inferInstanceAs (DecidableEq Bytes)

instance : DecidableEq Multikey := inferInstanceAs (DecidableEq PeerKey)

instance : DecidableEq Entry := fun left right =>
  decidable_of_iff (left.version = right.version ∧ left.vlad = right.vlad ∧
    left.prev = right.prev ∧ left.lipmaa = right.lipmaa ∧ left.seqno = right.seqno ∧
    left.ops = right.ops ∧ left.locks = right.locks ∧ left.unlock = right.unlock ∧
    left.proof = right.proof) (by cases left; cases right; simp)

instance : DecidableEq Log := fun left right =>
  decidable_of_iff (left.vlad = right.vlad ∧ left.head = right.head ∧ left.entries = right.entries)
    (by cases left; cases right; simp)

def sameBytes (left right : Bytes) : Bool := left == right

def decodeText (s : String) : Except String (TextBase × Bytes) :=
  match TextBase.decode s with
  | some found => .ok found
  | none => .error "not multibase"

def encodeText (bytes : Bytes) : String := TextBase.base64Url.encode bytes

def bytesOfText (s : String) : Except String Bytes := (decodeText s).map Prod.snd

def textBytes (s : String) : Bytes := s.toUTF8.data.toList

def digest (bytes : Bytes) : Bytes :=
  let n := bytes.foldl (fun sum b => (sum * 257 + b.toNat + 1) % 4294967291) 0
  [UInt8.ofNat (n / 16777216), UInt8.ofNat (n / 65536 % 256), UInt8.ofNat (n / 256 % 256),
    UInt8.ofNat (n % 256)]

def frame (bytes : Bytes) : Bytes := UInt8.ofNat bytes.length :: bytes

def scriptBytes : Script → Bytes
  | .code path source => 0 :: frame (textBytes path.text) ++ frame (textBytes source)
  | .other path body => 1 :: frame (textBytes path.text) ++ frame body

def opBytes : Op → Bytes
  | .noop key => 0 :: frame (textBytes key.text)
  | .delete key => 1 :: frame (textBytes key.text)
  | .update key (.str text) => 2 :: frame (textBytes key.text) ++ frame (textBytes text)
  | .update key (.data bytes) => 3 :: frame (textBytes key.text) ++ frame bytes
  | .update key .nil => 4 :: frame (textBytes key.text)

def entryBytes (entry : Entry) : Bytes :=
  UInt8.ofNat entry.version.toNat :: frame entry.vlad ++ frame entry.prev ++
    frame (entry.lipmaa.getD []) ++ UInt8.ofNat entry.seqno.toNat ::
    (entry.ops.flatMap opBytes ++ entry.locks.flatMap scriptBytes ++ scriptBytes entry.unlock ++
      frame entry.proof)

def entryCid (entry : Entry) : Bytes := digest (entryBytes entry)

/-- A toy signature: the public key and a checksum of the message. -/
def signature (key : PeerKey) (message : Bytes) : Bytes := key.toPublic.material ++ digest message

def signedBy (value : Option Value) (entry : Entry) : Bool :=
  match value with
  | some (.data bytes) =>
    match PeerKey.ofBytes bytes with
    | .ok key => entry.proof == signature key (entryBytes entry.unsigned)
    | .error _ => false
  | _ => false

def applyPairs (kvp : Kvp) : Op → Kvp
  | .noop _ => kvp
  | .delete key => kvp.filter fun pair => pair.1 ≠ key
  | .update key value => kvp.filter (fun pair => pair.1 ≠ key) ++ [(key, value)]

/-- Some lock names a key in the pairs that has signed the entry. -/
def unlocks (kvp : Kvp) (locks : List Script) (entry : Entry) : Bool :=
  locks.any fun lock =>
    match lock with
    | .code _ source => kvp.any fun pair =>
      source == "check_signature(\"" ++ pair.1.text ++ "\", \"/entry/\")" &&
        signedBy (some pair.2) entry
    | .other _ _ => false

/-- The first entry is signed by the `/entrykey` it sets; every later one links
back to its predecessor and opens one of its locks. -/
def checkEntry (previous : Option Entry) (kvp : Kvp) (entry : Entry) : Bool :=
  match previous with
  | none => entry.seqno == 0 &&
    entry.ops.any fun op =>
      match op with
      | .update key value => key.text == "/entrykey" && signedBy (some value) entry
      | _ => false
  | some last => entry.seqno == last.seqno + 1 && sameBytes entry.prev (entryCid last) &&
    unlocks kvp last.locks entry

/-- Stops at the first entry that fails; the header is not looked at. -/
def verifyFrom (n : Nat) (previous : Option Entry) (kvp : Kvp) : List Entry → List VerifyItem
  | [] => []
  | entry :: rest =>
    if checkEntry previous kvp entry then
      .ok (n, entry, entry.ops.foldl applyPairs kvp) ::
        verifyFrom (n + 1) (some entry) (entry.ops.foldl applyPairs kvp) rest
    else [.error "entry does not verify"]

def verify (log : Log) : List VerifyItem := verifyFrom 0 none [] log.entries

def VerifyItem.isOk : VerifyItem → Bool
  | .ok _ => true
  | .error _ => false

def tryAppend (log : Log) (entry : Entry) : Except String Unit × Log :=
  let log' : Log := { log with head := entryCid entry, entries := log.entries ++ [entry] }
  if (verify log').all VerifyItem.isOk && !(verify log').isEmpty then (.ok (), log')
  else (.error "append does not verify", log)

def rootPath : PathKey := ⟨"/", by decide⟩

def pubkeyPath : PathKey := ⟨"/pubkey", by decide⟩

def entryKeyPath : PathKey := ⟨"/entrykey", by decide⟩

def sign (key : PeerKey) (message : Bytes) : Except String Bytes :=
  if key.codec.isSecret then .ok (signature key message) else .error "not a secret key"

def firstEntry (config : OpenConfig) (entryKey rootKey : PeerKey) : Entry where
  version := 1
  vlad := 0x87 :: digest entryKey.bytes
  prev := []
  lipmaa := none
  seqno := 0
  ops := [.update entryKeyPath (.data entryKey.bytes), .update pubkeyPath (.data rootKey.bytes)]
  locks := [config.lock]
  unlock := config.unlock
  proof := []

def singleton (entry : Entry) : Log := { vlad := entry.vlad, head := entryCid entry, entries := [entry] }

def openLog (config : OpenConfig) (calls : OpenCallbacks) (rng : Bytes) : Except Error Log := do
  let rootKey ← calls.getKey pubkeyPath
  let (entryKey, signer) ← calls.prepareEphemeralSigning config.firstEntryCodec 1 1 rng
  let first := firstEntry config entryKey rootKey
  let proof ← signer (entryBytes first)
  return singleton { first with proof }

def skipTarget (n : UInt64) : UInt64 :=
  if n = 4 then 1 else if n = 8 ∨ n = 13 then 4 else if n = 12 then 8 else n - 1

/-- The log `create_account` opens for a root key and a random seed. -/
def openedLog (rootKey : PeerKey) (seed : Bytes) : Log :=
  let secret : PeerKey := ⟨.secp256K1Priv, seed⟩
  let first := firstEntry {
    vladCodec := .secp256K1Priv
    firstEntryCodec := .secp256K1Priv
    pubkeyCodec := .secp256K1Priv
    lock := .code rootPath "check_signature(\"/pubkey\", \"/entry/\")"
    unlock := .code rootPath "push(\"/entry/\"); push(\"/entry/proof\")" } secret.toPublic rootKey
  singleton { first with proof := signature secret (entryBytes first) }

def rootKey : PeerKey := ⟨.secp256K1Pub, [1, 2]⟩

def otherKey : PeerKey := ⟨.secp256K1Pub, [3, 4]⟩

/-- The header of one log on the entries of another. -/
def forgedLog : Log :=
  { openedLog rootKey [7] with entries := (openedLog otherKey [9]).entries }

/-- The text of a log is a checksum; the archive knows the logs it stands for. -/
def logText (log : Log) : String :=
  encodeText (frame log.vlad ++ frame log.head ++ digest (log.entries.flatMap entryBytes))

def archive : List Log := [openedLog rootKey [7], openedLog otherKey [9], forgedLog]

def logOfText (s : String) : Except String Log :=
  match archive.find? fun log => logText log == s with
  | some log => .ok log
  | none => .error "no such log in the archive"

def logBytes (log : Log) : Bytes := textBytes (logText log)

def logOfBytes (bytes : Bytes) : Except String Log :=
  match archive.find? fun log => logBytes log == bytes with
  | some log => .ok log
  | none => .error "no such log in the archive"

/-- A string literal; only quotes and backslashes are escaped. -/
def quoted (text : String) : String :=
  "\"" ++ String.ofList (text.toList.flatMap fun c =>
    if c = '"' ∨ c = '\\' then ['\\', c] else [c]) ++ "\""

mutual

def printJson : Json → String
  | .null => "null"
  | .bool value => if value then "true" else "false"
  | .number literal => literal
  | .str text => quoted text
  | .arr items => "[" ++ printItems items ++ "]"
  | .obj members => "\x7b" ++ printMembers members ++ "\x7d"

def printItems : List Json → String
  | [] => ""
  | [item] => printJson item
  | item :: rest => printJson item ++ "," ++ printItems rest

def printMembers : List (String × Json) → String
  | [] => ""
  | [(name, value)] => quoted name ++ ":" ++ printJson value
  | (name, value) :: rest => quoted name ++ ":" ++ printJson value ++ "," ++ printMembers rest

end

/-- A request in JSON, and its tree. -/
def requestText : String :=
  "\x7b\"locks\":\x7b\"upsert\":\x7b\"path\":\"/a/\",\"code\":" ++
  "\"check_signature(\\\"/a/pubkey\\\", \\\"/entry/\\\")\"\x7d\x7d," ++
  "\"ops\":[\x7b\"op\":\"update\",\"key\":\"/a/pubkey\"," ++
  "\"value\":\x7b\"data\":\"u5wkJ\"\x7d\x7d]\x7d"

def requestTree : Json :=
  .obj [
    ("locks", .obj [("upsert", .obj [("path", .str "/a/"),
      ("code", .str "check_signature(\"/a/pubkey\", \"/entry/\")")])]),
    ("ops", .arr [.obj [("op", .str "update"), ("key", .str "/a/pubkey"),
      ("value", .obj [("data", .str "u5wkJ")])]])]

def updateTree (key : String) (value : String × Json) : Json :=
  .obj [("op", .str "update"), ("key", .str key), ("value", .obj [value])]

def profileTree : Json :=
  .obj [("ops", .arr [updateTree "/n" ("str", .str "x"),
    .obj [("op", .str "delete"), ("key", .str "/n")],
    .obj [("op", .str "noop"), ("key", .str "/n")],
    updateTree "/n" ("str", .str "y")])]

/-- A framed Multikey with one byte left over, stored as data. -/
def leftoverTree : Json := .obj [("ops", .arr [updateTree "/d" ("data", .str "u_gEJBQ")])]

/-- A branch whose lock names its key relatively. -/
def relativeTree : Json :=
  .obj [
    ("locks", .obj [("upsert", .obj [("path", .str "/a/"),
      ("code", .str "check_signature(branch(\"pubkey\"), \"/entry/\")")])]),
    ("ops", .arr [updateTree "/a/pubkey" ("data", .str "u5wkJ")])]

/-- The request of `requestTree` on a log just opened, with its locks written out. -/
def replaceTree : Json :=
  .obj [
    ("locks", .obj [("replace", .arr [
      .obj [("path", .str "/"), ("code", .str "check_signature(\"/pubkey\", \"/entry/\")")],
      .obj [("path", .str "/a/"), ("code", .str "check_signature(\"/a/pubkey\", \"/entry/\")")]])]),
    ("ops", .arr [updateTree "/a/pubkey" ("data", .str "u5wkJ")])]

/-- The lock to be removed is at no key. -/
def strayTree : Json := .obj [("locks", .obj [("remove", .str "b")])]

def removeTree : Json := .obj [("locks", .obj [("remove", .str "/b/")])]

def mixedTree : Json :=
  .obj [("locks", .obj [("upsert", .obj [("path", .str "/a/"), ("code", .str "c")]),
    ("remove", .str "/b/")])]

def malformedTree : Json :=
  .obj [("ops", .arr [updateTree "/n" ("str", .str "x"), updateTree "n" ("str", .str "x")])]

def keylessTree : Json := .obj [("ops", .arr [.obj [("op", .str "noop")]])]

/-- The lock of a delegation of `/a/`, with a nickname in the place of the key. -/
def nicknameTree : Json :=
  .obj [
    ("locks", .obj [("upsert", .obj [("path", .str "/a/"),
      ("code", .str "check_signature(\"/a/pubkey\", \"/entry/\")")])]),
    ("ops", .arr [updateTree "/a/pubkey" ("str", .str "ada")]),
    ("sign_as", .null)]

def twiceTree : Json :=
  .obj [
    ("locks", .obj [("replace", .arr [
      .obj [("path", .str "/a/"), ("code", .str "check_signature(\"/a/pubkey\", \"/entry/\")")],
      .obj [("path", .str "/a/"), ("code", .str "check_signature(\"/a/pubkey\", \"/entry/\")")]])]),
    ("ops", .arr [updateTree "/a/pubkey" ("data", .str "u5wkJ")]),
    ("sign_as", .null)]

def challengeTree : Json :=
  .obj [("challenge_id", .str "uAA"), ("vlad", .str "uhwAA6eE"), ("kind", .str "entry"),
    ("signing_key_path", .str "/pubkey"), ("head_cid", .str "ueDL5gw"),
    ("message_multibase", .str "uAQ"), ("message_encoding", .str "entry-bytes")]

def summaryTree : Json :=
  .obj [("vlad", .str "uhwAA6eE"), ("head_cid", .str "ueDL5gw"), ("pubkey", .null)]

def delegationsTree : Json := .arr [.obj [("path", .str "/a/"), ("pubkey", .str "u5wkJ")]]

def valueTree : Json := .obj [("type", .str "str"), ("value", .str "y")]

def documents : List (String × Json) :=
  (requestText, requestTree) ::
    [profileTree, malformedTree, keylessTree, leftoverTree, relativeTree, removeTree, mixedTree,
      replaceTree, strayTree, nicknameTree, twiceTree, challengeTree, summaryTree, delegationsTree,
      valueTree].map fun tree =>
      (printJson tree, tree)

scoped instance backend : BetterSign where
  base64Url := TextBase.base64Url
  multibaseEncode := TextBase.encode
  multibaseDecode s _ := decodeText s
  sha256 bytes := Vector.ofFn fun i => bytes.getD i 0
  jsonFromStr s :=
    match documents.lookup s with
    | some tree => .ok tree
    | none => .error "expected value"
  jsonToString := printJson
  serdeErrorText _ := "data did not match"
  debugShows c := 0xa0 < c.toNat && c.toNat != 0xad && c.toNat < 0x300
  keyTryFrom := PathKey.ofText
  keyAsStr key := key.text
  keyToString key := key.text
  keyIsBranch key := key.text.toList.getLast? == some '/'
  keyParentOf parent child := parent.text.toList.getLast? == some '/' &&
    parent.text.toList.isPrefixOf child.text.toList
  keyDefault := rootPath
  pubkeyParamsKeyPath := pubkeyPath
  vladToEncoded := encodeText
  vladTryFrom := bytesOfText
  cidToEncoded := encodeText
  cidToBytes cid := cid
  multikeyToEncoded key := encodeText key.bytes
  multikeyFromEncoded s := bytesOfText s >>= PeerKey.ofBytes
  multikeyToBytes := PeerKey.bytes
  multikeyTryFrom := PeerKey.ofBytes
  isSecretKey key := .ok key.codec.isSecret
  toPublicKey key := .ok key.toPublic
  secp256K1Priv := .secp256K1Priv
  codecDebug := KeyCodec.name
  newFromRandomBytes codec _ _ rng := .ok ⟨codec, rng⟩
  sign := sign
  multisigFromEncoded := bytesOfText
  multisigToBytes sig := sig
  entryVersion := 1
  entryCid := entryCid
  entryToBytes := entryBytes
  opTryBuild := .ok
  prepareUnsignedEntry draft := .ok draft.unsigned
  tryBuildWithProof entry proof := .ok { entry with proof }
  isLipmaa n := skipTarget n + 1 != n
  lipmaa := skipTarget
  logToEncoded := logText
  logFromEncoded := logOfText
  logToBytes := logBytes
  logTryFrom := logOfBytes
  logVerify := verify
  logSeqno log n :=
    match log.entries.find? fun entry => entry.seqno == n with
    | some entry => .ok entry
    | none => .error "no such entry"
  logTryAppend := tryAppend
  openPlog := openLog

theorem keyLaws : KeyLaws where
  keeps s key success := by
    simp only [BetterSign.keyTryFrom, PathKey.ofText] at success
    split at success
    · cases success
      rfl
    · cases success
  display key := rfl
  reparse key := by
    change PathKey.ofText (PathKey.text key) = .ok key
    rw [PathKey.ofText, dif_pos (PathKey.valid key)]
    rfl

private theorem doubled_append {text more : List Char} (single : ¬ ['/', '/'] <:+: text)
    (clean : '/' ∉ more) : ¬ ['/', '/'] <:+: text ++ more := by
  induction text with
  | nil =>
    intro doubled
    exact clean (doubled.subset List.mem_cons_self)
  | cons c rest ih =>
    rw [List.infix_cons_iff, not_or] at single
    rw [List.cons_append, List.infix_cons_iff, not_or]
    refine ⟨?_, ih single.2⟩
    intro doubled
    obtain ⟨rfl, next⟩ := List.cons_prefix_cons.mp doubled
    cases rest with
    | nil => exact clean (next.subset List.mem_cons_self)
    | cons d rest =>
      obtain ⟨rfl, _⟩ := List.cons_prefix_cons.mp next
      exact single.1 (by simp)

theorem leafLaw : LeafLaw := by
  intro branch isBranch
  obtain ⟨text, valid⟩ := branch
  have leaf : wellFormedPath (text ++ "pubkey") = true := by
    unfold wellFormedPath at valid ⊢
    rw [String.toList_append]
    split at valid
    · rename_i rest same
      rw [same]
      have single : ¬ ['/', '/'] <:+: '/' :: rest := by simpa using valid
      have stillSingle : ¬ ['/', '/'] <:+: '/' :: rest ++ "pubkey".toList :=
        doubled_append single (by decide)
      simpa using stillSingle
    · cases valid
  exact ⟨⟨text ++ "pubkey", leaf⟩, dif_pos leaf⟩

theorem parentLaw : ParentLaw := by
  intro branch key isBranch
  change (_ && _) = true ↔ _
  rw [show (branch.text.toList.getLast? == some '/') = true from isBranch, Bool.true_and,
    List.isPrefixOf_iff_prefix]
  rfl

theorem branchSlashLaw : BranchSlashLaw := fun _ isBranch => beq_iff_eq.mp isBranch

theorem rootKeyParses : RootKeyParses := ⟨pubkeyPath, keyLaws.reparse pubkeyPath⟩

theorem rootKeyPath : RootKeyPath := keyLaws.reparse pubkeyPath

theorem toPublicLaw : ToPublicLaw := by
  intro mk pub success
  obtain rfl := Except.ok.inj success
  obtain ⟨codec, material⟩ := mk
  cases codec <;> rfl

theorem openLaw : OpenLaw := by
  intro config callbacks rng log success
  change openLog config callbacks rng = .ok log at success
  obtain ⟨rootKey, root, success⟩ := except_bind_ok.mp success
  obtain ⟨⟨entryKey, signer⟩, _, success⟩ := except_bind_ok.mp success
  obtain ⟨proof, _, success⟩ := except_bind_ok.mp success
  obtain rfl := Except.ok.inj success
  exact ⟨rootKey, root, rfl⟩

theorem multibaseLaw : MultibaseLaw := by
  intro base bytes strict
  change decodeText (base.encode bytes) = .ok (base, bytes)
  rw [decodeText, TextBase.decode_encode]

private theorem bytesOfText_encodeText (bytes : Bytes) : bytesOfText (encodeText bytes) = .ok bytes := by
  rw [bytesOfText, encodeText, decodeText, TextBase.decode_encode]
  rfl

private theorem lookup_of_mem {table : List (String × Json)} (once : (table.map Prod.fst).Nodup)
    {text : String} {tree : Json} (member : (text, tree) ∈ table) :
    table.lookup text = some tree := by
  induction table with
  | nil => cases member
  | cons first rest ih =>
    obtain ⟨name, value⟩ := first
    obtain ⟨fresh, once⟩ := List.nodup_cons.mp once
    rw [List.lookup_cons]
    by_cases isFirst : text = name
    · subst text
      rcases List.mem_cons.mp member with same | later
      · simp [(Prod.mk.inj same).2]
      · exact absurd (List.mem_map_of_mem later) fresh
    · have later := (List.mem_cons.mp member).resolve_left fun same => isFirst (Prod.mk.inj same).1
      simp only [beq_eq_false_iff_ne.mpr isFirst]
      exact ih once later

/-- The documents have different texts, so each is found by its own. -/
theorem jsonRoundTrip {tree : Json} (sample : (printJson tree, tree) ∈ documents) :
    JsonRoundTrip tree := by
  have once : (documents.map Prod.fst).Nodup := by decide +kernel
  change (match documents.lookup (printJson tree) with
    | some tree => Except.ok tree
    | none => Except.error "expected value") = _
  rw [lookup_of_mem once sample]

theorem vladLaw : VladLaw := bytesOfText_encodeText

theorem cidLaw : CidLaw := TextBase.base64Url.encode_injective

theorem multikeyLaws : MultikeyLaws := by
  have bytes (key : PeerKey) : PeerKey.ofBytes key.bytes = .ok key := by
    obtain ⟨codec, material⟩ := key
    cases codec <;> rfl
  refine ⟨fun key => ?_, bytes⟩
  change bytesOfText (encodeText key.bytes) >>= PeerKey.ofBytes = .ok key
  rw [bytesOfText_encodeText]
  exact bytes key

theorem multikeyPayloadLaw : MultikeyPayloadLaw := by
  intro multikey strict
  refine ⟨TextBase.base64Url, ?_⟩
  change decodeText (encodeText multikey.bytes) = _
  rw [encodeText, decodeText, TextBase.decode_encode]
  rfl

theorem builderLaw : BuilderLaw := fun draft _ => ⟨draft.unsigned, rfl⟩

theorem lipmaaLaw : LipmaaLaw := by
  intro seqno isLink
  change (skipTarget seqno + 1 != seqno) = true at isLink
  change skipTarget seqno < seqno
  unfold skipTarget at isLink ⊢
  split
  · rename_i four
    subst four
    decide
  · split
    · rename_i skips
      rcases skips with rfl | rfl <;> decide
    · split
      · rename_i twelve
        subst twelve
        decide
      · rename_i notFour notSkip notTwelve
        simp [notFour, notSkip, notTwelve] at isLink

theorem seqnoLaw : SeqnoLaw := by
  intro log entry member
  change ∃ found ∈ log.entries, (match log.entries.find? fun other => other.seqno == entry.seqno with
    | some found => Except.ok found
    | none => Except.error "no such entry") = .ok found ∧ found.seqno = entry.seqno
  cases search : log.entries.find? fun other => other.seqno == entry.seqno with
  | none => simpa using List.find?_eq_none.mp search entry member
  | some found =>
    exact ⟨found, List.mem_of_find?_eq_some search, rfl, by simpa using List.find?_some search⟩

theorem openFirstLaw : OpenFirstLaw := by
  intro config callbacks rng log success
  change openLog config callbacks rng = .ok log at success
  obtain ⟨rootKey, root, success⟩ := except_bind_ok.mp success
  obtain ⟨⟨entryKey, signer⟩, _, success⟩ := except_bind_ok.mp success
  obtain ⟨proof, _, success⟩ := except_bind_ok.mp success
  obtain rfl := Except.ok.inj success
  exact ⟨_, rfl, rfl⟩

theorem entryLaws : EntryLaws where
  builds draft entry success := (Except.ok.inj success).symm
  proofOnly entry proof signed success := by
    obtain rfl := Except.ok.inj success
    rfl

theorem opLaw : OpLaw := by
  intro op built success
  exact (Except.ok.inj success).symm

theorem appendLaws : AppendLaws := by
  have outcome (log entry : _) : tryAppend log entry = (.error "append does not verify", log) ∨
      (tryAppend log entry = (.ok (), log.push entry) ∧ FullyVerified (log.push entry)) := by
    unfold tryAppend
    simp only
    split
    · rename_i checked
      rw [Bool.and_eq_true, List.all_eq_true] at checked
      obtain ⟨all, nonempty⟩ := checked
      refine .inr ⟨rfl, ?_, ?_⟩
      · intro empty
        change verify (log.push entry) = [] at empty
        change (!(verify (log.push entry)).isEmpty) = true at nonempty
        simp [empty] at nonempty
      · intro item member
        have success := all item member
        cases item with
        | error failure => cases success
        | ok found => exact ⟨found, rfl⟩
    · exact .inl rfl
  constructor
  · intro log entry failure log' appended
    rcases outcome log entry with refused | ⟨accepted, _⟩
    · cases refused.symm.trans appended
      rfl
    · cases accepted.symm.trans appended
  · intro log entry log' appended
    rcases outcome log entry with refused | ⟨accepted, _⟩
    · cases refused.symm.trans appended
    · cases accepted.symm.trans appended
      rfl
  · intro log entry log' appended
    rcases outcome log entry with refused | ⟨accepted, verified⟩
    · cases refused.symm.trans appended
    · cases accepted.symm.trans appended
      exact verified

theorem appendKeepsVlad : AppendKeepsVlad := appendLaws.keepsVlad

private theorem find_drop (kvp : Kvp) (key other : Key) :
    Kvp.find (kvp.filter fun pair => pair.1 ≠ key) other =
      if other = key then none else kvp.find other := by
  unfold Kvp.find
  induction kvp with
  | nil => simp
  | cons pair rest ih =>
    obtain ⟨name, value⟩ := pair
    by_cases isKey : name = key
    · subst name
      rw [List.filter_cons_of_neg (by simp), ih, List.lookup_cons]
      by_cases same : other = key
      · simp [same]
      · simp [same, beq_eq_false_iff_ne.mpr same]
    · rw [List.filter_cons_of_pos (by simpa using isKey), List.lookup_cons, List.lookup_cons, ih]
      by_cases found : other = name
      · subst other
        simp [isKey]
      · simp [beq_eq_false_iff_ne.mpr found]

private theorem find_applyPairs (kvp : Kvp) (op : Op) (key : Key) :
    (applyPairs kvp op).find key = applyOp kvp.find op key := by
  cases op with
  | noop name => rfl
  | delete name => exact find_drop kvp name key
  | update name value =>
    change List.lookup key (kvp.filter (fun pair => pair.1 ≠ name) ++ [(name, value)]) = _
    rw [List.lookup_append]
    change (Kvp.find (kvp.filter fun pair => pair.1 ≠ name) key).or _ = _
    rw [find_drop]
    simp only [applyOp]
    by_cases same : key = name
    · subst name
      simp
    · cases kvp.find key <;> simp [same]

private theorem find_foldl (ops : List Op) (kvp : Kvp) (key : Key) :
    (ops.foldl applyPairs kvp).find key = ops.foldl applyOp kvp.find key := by
  induction ops generalizing kvp with
  | nil => rfl
  | cons op rest ih =>
    rw [List.foldl_cons, List.foldl_cons, ih]
    exact congrArg (rest.foldl applyOp · key) (funext fun key => find_applyPairs kvp op key)

private theorem nodup_foldl (ops : List Op) {kvp : Kvp} (once : (kvp.map Prod.fst).Nodup) :
    ((ops.foldl applyPairs kvp).map Prod.fst).Nodup := by
  induction ops generalizing kvp with
  | nil => exact once
  | cons op rest ih =>
    have dropped (name : Key) : ((kvp.filter fun pair => pair.1 ≠ name).map Prod.fst).Nodup :=
      once.sublist (List.filter_sublist.map _)
    apply ih
    cases op with
    | noop name => exact once
    | delete name => exact dropped name
    | update name value =>
      change ((kvp.filter (fun pair => pair.1 ≠ name) ++ [(name, value)]).map Prod.fst).Nodup
      rw [List.map_append]
      refine List.nodup_append.mpr ⟨dropped name, by simp, ?_⟩
      intro first left second right
      obtain ⟨pair, member, rfl⟩ := List.mem_map.mp left
      obtain rfl : second = name := by simpa using right
      simpa using (List.mem_filter.mp member).2

private theorem verifyFrom_ok {entries : List Entry} {n : Nat} {previous : Option Entry} {kvp : Kvp}
    (all : ∀ item ∈ verifyFrom n previous kvp entries, ∃ found, item = .ok found) :
    (verifyFrom n previous kvp entries).filterMap LogosAccounts.VerifyItem.entry = entries ∧
      ∀ m entry pairs,
        (verifyFrom n previous kvp entries).getLast? = some (.ok (m, entry, pairs)) →
          pairs = (entries.flatMap Entry.ops).foldl applyPairs kvp := by
  induction entries generalizing n previous kvp with
  | nil => exact ⟨rfl, by simp [verifyFrom]⟩
  | cons entry rest ih =>
    unfold verifyFrom at all ⊢
    split at all
    · rename_i checked
      simp only [checked, if_true]
      obtain ⟨walked, last⟩ := ih fun item member => all item (List.mem_cons_of_mem _ member)
      refine ⟨congrArg (entry :: ·) walked, ?_⟩
      intro m final pairs ends
      rw [List.flatMap_cons, List.foldl_append]
      cases tail : verifyFrom (n + 1) (some entry) (entry.ops.foldl applyPairs kvp) rest with
      | nil =>
        rw [tail] at walked ends
        obtain rfl : [] = rest := walked
        cases ends
        rfl
      | cons item items =>
        rw [tail, List.getLast?_cons_cons] at ends
        exact last m final pairs (by rw [tail]; exact ends)
    · obtain ⟨found, impossible⟩ := all _ (List.mem_singleton.mpr rfl)
      cases impossible

private theorem verifyFrom_nodup {entries : List Entry} {n : Nat} {previous : Option Entry}
    {kvp : Kvp} (once : (kvp.map Prod.fst).Nodup) {m : Nat} {entry : Entry} {pairs : Kvp}
    (member : .ok (m, entry, pairs) ∈ verifyFrom n previous kvp entries) :
    (pairs.map Prod.fst).Nodup := by
  induction entries generalizing n previous kvp with
  | nil => cases member
  | cons first rest ih =>
    unfold verifyFrom at member
    split at member
    · rcases List.mem_cons.mp member with same | later
      · cases same
        exact nodup_foldl _ once
      · exact ih (nodup_foldl _ once) later
    · simp at member

theorem verifyLaws : VerifyLaws where
  entries log all := (verifyFrom_ok all).1
  pairs log n entry kvp all last key := by
    rw [(verifyFrom_ok all).2 n entry kvp last, find_foldl]
    rfl
  keysOnce log n entry kvp member := verifyFrom_nodup (by simp) member

end LogosAccounts.Reference
