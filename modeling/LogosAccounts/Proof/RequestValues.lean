import LogosAccounts.Functional.LastWrite
import LogosAccounts.Proof.GrantEdit
import LogosAccounts.Proof.ReachedAccount
import LogosAccounts.Proof.RequestJson

/-! The key-value meaning of a raw request. Its ops go through four conversions and
come back through the value reader; what is read is what the last op on the path
has left. -/

namespace LogosAccounts
open BetterSign hiding mk
open Functional

section
variable [BetterSign]

/-- What the op of a request leaves to be read at `q`, if it writes there. -/
def PlogOp.writesAt (q : String) : PlogOp → Option (Except Error PlogPathValue)
  | .noop _ => none
  | .delete key => if key = q then some (.error (.pathNotFound q)) else none
  | .update key (.str s) => if key = q then some (.ok (.str s)) else none
  | .update key (.data multibase) =>
    if key = q then
      some ((decodeBytesMultibase multibase).map fun bytes => .bin (encodeBinValue bytes))
    else none

def PlogOp.key : PlogOp → String
  | .noop key | .delete key | .update key _ => key

/-- The op of an entry that has the parts of the request's op, each read. -/
inductive PlogOp.StandsFor : PlogOp → Op → Prop where
  | noop (name : String) (key : Key) (parsed : keyTryFrom name = .ok key) :
      StandsFor (.noop name) (.noop key)
  | delete (name : String) (key : Key) (parsed : keyTryFrom name = .ok key) :
      StandsFor (.delete name) (.delete key)
  | str (name s : String) (key : Key) (parsed : keyTryFrom name = .ok key) :
      StandsFor (.update name (.str s)) (.update key (.str s))
  | data (name multibase : String) (key : Key) (base : Base) (bytes : Bytes)
      (parsed : keyTryFrom name = .ok key)
      (decoded : multibaseDecode multibase false = .ok (base, bytes)) :
      StandsFor (.update name (.data multibase)) (.update key (.data bytes))

/-- The path is no key, the data is no multibase, or the builder refuses the op. -/
inductive PlogOp.Malformed : PlogOp → Prop where
  | key (op : PlogOp) (e : String) (failed : keyTryFrom op.key = .error e) : Malformed op
  | data (name multibase e : String) (failed : multibaseDecode multibase false = .error e) :
      Malformed (.update name (.data multibase))
  | unbuilt (op : PlogOp) (built : Op) (e : String) (stands : op.StandsFor built)
      (failed : opTryBuild built = .error e) : Malformed op

/-- What is read at `q` when the key has this value. -/
def readAs (q : String) : Option Value → Except Error PlogPathValue
  | some v => .ok (pathValue v)
  | none => .error (.pathNotFound q)

/-- What an op of an entry leaves to be read at the key of `q`. -/
def Op.writesAt (key : Key) (q : String) : Op → Option (Except Error PlogPathValue)
  | .noop _ => none
  | .delete other => if other = key then some (readAs q none) else none
  | .update other value => if other = key then some (readAs q (some value)) else none

theorem valueAt_eq (pairs : Kvp) (key : Key) (q : String) :
    valueAt pairs key q = readAs q (pairs.find key) := by
  unfold valueAt readAs
  cases pairs.find key <;> rfl

theorem readAs_applyOp (find : Key → Option Value) (op : Op) (key : Key) (q : String) :
    readAs q (applyOp find op key) = (op.writesAt key q).getD (readAs q (find key)) := by
  cases op with
  | noop other => rfl
  | delete other =>
    by_cases same : key = other
    · simp [applyOp, Op.writesAt, same]
    · simp [applyOp, Op.writesAt, same, Ne.symm same]
  | update other value =>
    by_cases same : key = other
    · simp [applyOp, Op.writesAt, same]
    · simp [applyOp, Op.writesAt, same, Ne.symm same]

theorem updateSpec_eq {requestJson : String} {request : EntryUpdateRequest}
    (parsed : parseEntryUpdateRequest requestJson = .ok request) :
    PlogAccount.updateSpec requestJson =
      (parseKey (request.signAs.getD (keyToString pubkeyKeyPath)) >>= fun _ =>
        plogOpsToParams request.ops >>= fun ops => .ok {
          locks := request.locks
          ops
          signAs := request.signAs.getD (keyToString pubkeyKeyPath)
          kind := .entry
          path := none }) := by
  unfold PlogAccount.updateSpec
  rw [parsed]
  rfl

theorem updateSpec_ok {requestJson : String} {request : EntryUpdateRequest}
    (parsed : parseEntryUpdateRequest requestJson = .ok request) {input : PrepareEntrySpec}
    (given : PlogAccount.updateSpec requestJson = .ok input) :
    plogOpsToParams request.ops = .ok input.ops ∧ input.locks = request.locks := by
  rw [updateSpec_eq parsed] at given
  obtain ⟨_, _, given⟩ := except_bind_ok.mp given
  obtain ⟨params, converted, given⟩ := except_bind_ok.mp given
  obtain rfl := Except.ok.inj given
  exact ⟨converted, rfl⟩

/-- An op is converted exactly when its parts are read and the builder takes the op they make. -/
theorem converted_iff {op : PlogOp} {built : Op} :
    (op.intoOpParams >>= opFromParams) = .ok built ↔
      ∃ drafted, op.StandsFor drafted ∧ opTryBuild drafted = .ok built := by
  constructor
  · intro made
    obtain ⟨params, converted, opened⟩ := except_bind_ok.mp made
    cases op with
    | noop name =>
      obtain ⟨key, parsed, converted⟩ := except_bind_ok.mp converted
      obtain rfl := Except.ok.inj converted
      exact ⟨_, .noop name key (parseKey_ok.mp parsed), mapError_eq_ok.mp opened⟩
    | delete name =>
      obtain ⟨key, parsed, converted⟩ := except_bind_ok.mp converted
      obtain rfl := Except.ok.inj converted
      exact ⟨_, .delete name key (parseKey_ok.mp parsed), mapError_eq_ok.mp opened⟩
    | update name value =>
      obtain ⟨key, parsed, converted⟩ := except_bind_ok.mp converted
      have isKey := parseKey_ok.mp parsed
      cases value with
      | str s =>
        obtain rfl := Except.ok.inj converted
        exact ⟨_, .str name s key isKey, mapError_eq_ok.mp opened⟩
      | data multibase =>
        obtain ⟨bytes, decoded, converted⟩ := except_bind_ok.mp converted
        obtain rfl := Except.ok.inj converted
        obtain ⟨⟨base, data⟩, read, same⟩ := except_bind_ok.mp decoded
        obtain rfl := Except.ok.inj same
        exact ⟨_, .data name multibase key base data isKey (mapError_eq_ok.mp read),
          mapError_eq_ok.mp opened⟩
  · rintro ⟨drafted, stands, opened⟩
    cases stands with
    | noop name key parsed =>
      simp [PlogOp.intoOpParams, parseKey_ok.mpr parsed, opFromParams, opened]
    | delete name key parsed =>
      simp [PlogOp.intoOpParams, parseKey_ok.mpr parsed, opFromParams, opened]
    | str name s key parsed =>
      simp [PlogOp.intoOpParams, parseKey_ok.mpr parsed, opFromParams, opened]
    | data name multibase key base bytes parsed decoded =>
      simp [PlogOp.intoOpParams, parseKey_ok.mpr parsed, decodeBytesMultibase, decoded, opFromParams,
        opened]

theorem PlogOp.StandsFor.parsed {op : PlogOp} {built : Op} (stands : op.StandsFor built) :
    ∃ key, keyTryFrom op.key = .ok key := by
  cases stands with
  | noop name key parsed => exact ⟨key, parsed⟩
  | delete name key parsed => exact ⟨key, parsed⟩
  | str name s key parsed => exact ⟨key, parsed⟩
  | data name multibase key base bytes parsed decoded => exact ⟨key, parsed⟩

theorem PlogOp.StandsFor.unique {op : PlogOp} {built other : Op} (stands : op.StandsFor built)
    (stands' : op.StandsFor other) : built = other := by
  cases stands with
  | noop name key parsed =>
    cases stands' with
    | noop _ key' parsed' => rw [Except.ok.inj (parsed.symm.trans parsed')]
  | delete name key parsed =>
    cases stands' with
    | delete _ key' parsed' => rw [Except.ok.inj (parsed.symm.trans parsed')]
  | str name s key parsed =>
    cases stands' with
    | str _ _ key' parsed' => rw [Except.ok.inj (parsed.symm.trans parsed')]
  | data name multibase key base bytes parsed decoded =>
    cases stands' with
    | data _ _ key' base' bytes' parsed' decoded' =>
      obtain ⟨_, sameBytes⟩ := Prod.mk.inj (Except.ok.inj (decoded.symm.trans decoded'))
      rw [Except.ok.inj (parsed.symm.trans parsed'), sameBytes]

theorem PlogOp.Malformed.unconverted {op : PlogOp} (malformed : op.Malformed) (built : Op) :
    (op.intoOpParams >>= opFromParams) ≠ .ok built := by
  intro made
  obtain ⟨drafted, stands, opened⟩ := converted_iff.mp made
  cases malformed with
  | key op e failed =>
    obtain ⟨key, parsed⟩ := stands.parsed
    cases failed.symm.trans parsed
  | data name multibase e failed =>
    cases stands with
    | data _ _ key base bytes parsed decoded => cases failed.symm.trans decoded
  | unbuilt op other e stands' failed =>
    obtain rfl := stands.unique stands'
    cases failed.symm.trans opened

theorem built_writesAt (keys : KeyLaws) (opLaw : OpLaw) {op : PlogOp} {built : Op}
    (made : (op.intoOpParams >>= opFromParams) = .ok built) {q : String} {key : Key}
    (isKey : parseKey q = .ok key) : op.writesAt q = built.writesAt key q := by
  have sameKey {name : String} {other : Key} (parsed : keyTryFrom name = .ok other) :
      name = q ↔ other = key := by
    have isKey := parseKey_ok.mp isKey
    constructor
    · rintro rfl
      exact Except.ok.inj (parsed.symm.trans isKey)
    · rintro rfl
      rw [← keys.keeps _ _ parsed, ← keys.keeps _ _ isKey]
  obtain ⟨drafted, stands, opened⟩ := converted_iff.mp made
  obtain rfl := opLaw _ _ opened
  cases stands with
  | noop name other parsed => rfl
  | delete name other parsed => simp only [PlogOp.writesAt, Op.writesAt, sameKey parsed, readAs]
  | str name s other parsed =>
    simp only [PlogOp.writesAt, Op.writesAt, sameKey parsed, readAs, pathValue]
  | data name multibase other base bytes parsed decoded =>
    have read : decodeBytesMultibase multibase = .ok bytes := by
      simp [decodeBytesMultibase, decoded]
    simp only [PlogOp.writesAt, Op.writesAt, sameKey parsed, readAs, pathValue, read, Except.map]

theorem built_off_path {op : PlogOp} {built : Op}
    (made : (op.intoOpParams >>= opFromParams) = .ok built) {q : String} {e : Error}
    (noKey : parseKey q = .error e) : op.writesAt q = none := by
  obtain ⟨drafted, stands, _⟩ := converted_iff.mp made
  have different : op.key ≠ q := by
    rintro rfl
    obtain ⟨key, parsed⟩ := stands.parsed
    cases noKey.symm.trans (parseKey_ok.mpr parsed)
  cases op with
  | noop name => rfl
  | delete name => exact if_neg different
  | update name value =>
    cases value with
    | str s => exact if_neg different
    | data multibase => exact if_neg different

/-- After an entry built from the ops of a request, what is read at a path is what
the last op on it leaves. -/
theorem pushed_value (keys : KeyLaws) (opLaw : OpLaw) (verify : VerifyLaws) {log : Log}
    (verified : FullyVerified log) {entry : Entry} (extended : FullyVerified (log.push entry))
    {requested : List PlogOp}
    (made : List.Forall₂ (fun op built => (op.intoOpParams >>= opFromParams) = .ok built)
      requested entry.ops) (q : String) :
    getPlogValue (log.push entry) q =
      lastWrite (PlogOp.writesAt q) requested (getPlogValue log q) := by
  obtain ⟨last, pairs, head⟩ := verified.head
  obtain ⟨pairs', head', found⟩ := head.push verify extended
  rw [head.getPlogValue, head'.getPlogValue]
  cases isKey : parseKey q with
  | error e =>
    have silent : requested.filterMap (PlogOp.writesAt q) = [] := by
      apply List.filterMap_eq_nil_iff.mpr
      intro op member
      obtain ⟨built, _, success⟩ := forall₂_partner made member
      exact built_off_path success isKey
    simp [lastWrite, silent]
  | ok key =>
    have paired : List.Forall₂ (fun op built => op.writesAt q = Op.writesAt key q built)
        requested entry.ops := made.imp fun op built success => built_writesAt keys opLaw success isKey
    simp only [except_ok_bind, valueAt_eq, found]
    let shown (find : Key → Option Value) : Except Error PlogPathValue := readAs q (find key)
    have step (find : Key → Option Value) (op : Op) :
        shown (applyOp find op) = (op.writesAt key q).getD (shown find) :=
      readAs_applyOp find op key q
    rw [lastWrite_congr paired]
    exact foldl_lastWrite step entry.ops pairs.find

/-- What a committed raw request appends. -/
theorem committed_request (laws : EntryLaws) (append : AppendLaws) {account : PlogAccount}
    (verified : FullyVerified account.log) {requestJson : String} {request : EntryUpdateRequest}
    (parsed : parseEntryUpdateRequest requestJson = .ok request) {preparing : Ambient}
    {between : List (AccountOp × Ambient)} {commit : AccountOp × Ambient}
    {challenge : UpdateChallenge}
    (commits : PreparedCommit account (.prepareUpdate requestJson, preparing) between commit challenge) :
    ∃ last pairs entry locks, VerifiedHead account.log last pairs ∧
      FullyVerified (account.log.push entry) ∧
      (accountMachine.after account ((.prepareUpdate requestJson, preparing) :: between)).log =
        account.log ∧
      accountMachine.after account ((.prepareUpdate requestJson, preparing) :: between ++ [commit]) =
        { log := account.log.push entry, pending := ∅ } ∧
      lockSpecToScripts last request.locks = .ok locks ∧ entry.locks = locks.getD last.locks ∧
      List.Forall₂ (fun op built => (op.intoOpParams >>= opFromParams) = .ok built)
        request.ops entry.ops := by
  obtain ⟨input, unsigned, entry, asked, built, _, sameLog, same, extended, after⟩ :=
    committed_entry laws append commits
  have given : PlogAccount.updateSpec requestJson = .ok input := Option.some.inj asked
  obtain ⟨converted, sameLocks⟩ := updateSpec_ok parsed given
  obtain ⟨last, pairs, head⟩ := verified.head
  obtain ⟨locks, spelled, lockList, opened⟩ := unsignedEntry_fields laws head built
  rw [sameLocks] at spelled
  obtain ⟨entryOps, entryLocks, _⟩ := Entry.same_fields same
  refine ⟨last, pairs, entry, locks, head, extended, sameLog, after, spelled,
    entryLocks.trans lockList, ?_⟩
  rw [entryOps]
  exact mapM_bind_ok converted opened

/-- A request with a malformed op is refused. -/
theorem malformed_refused {requestJson : String} {request : EntryUpdateRequest}
    (parsed : parseEntryUpdateRequest requestJson = .ok request) {op : PlogOp}
    (member : op ∈ request.ops) (malformed : op.Malformed) (account : PlogAccount)
    (ambient : Ambient) : account.Refuses (account.prepareUpdate requestJson ambient) := by
  apply account.prepareWith_refuses
  intro challenge success
  obtain ⟨input, unsigned, given, built, _⟩ := account.prepareWith_issued success
  obtain ⟨converted, _⟩ := updateSpec_ok parsed given
  obtain ⟨head, _, built⟩ := except_bind_ok.mp built
  obtain ⟨locks, _, built⟩ := except_bind_ok.mp built
  obtain ⟨⟨n, last, kvp⟩, _, built⟩ := except_bind_ok.mp built
  obtain ⟨ops, opened, _⟩ := except_bind_ok.mp built
  obtain ⟨result, _, found⟩ := forall₂_partner (mapM_bind_ok converted opened) member
  exact malformed.unconverted result found

theorem unparsed_refused {requestJson : String}
    (unparsed : ∀ request, parseEntryUpdateRequest requestJson ≠ .ok request) (account : PlogAccount)
    (ambient : Ambient) : account.Refuses (account.prepareUpdate requestJson ambient) := by
  apply account.prepareWith_refuses
  intro challenge success
  obtain ⟨input, unsigned, given, _, _⟩ := account.prepareWith_issued success
  obtain ⟨request, parsed, _⟩ := except_bind_ok.mp given
  exact unparsed request parsed

/-- On a reached account, once a raw request is committed every path reads as the
last delete or update of the request on it says, or as before where there is
none. The ops of the request are those its text lists; a request is refused where
an op is malformed, an item has the form of no op, or the text is no request. -/
theorem committed_request_value (keys : KeyLaws) (laws : EntryLaws) (opLaw : OpLaw)
    (append : AppendLaws) (verify : VerifyLaws) (account : PlogAccount) (reached : account.Reached)
    (requestJson : String) :
    (∀ request, parseEntryUpdateRequest requestJson = .ok request →
      (∀ preparing between commit challenge,
        PreparedCommit account (.prepareUpdate requestJson, preparing) between commit challenge →
        ∀ q, (accountMachine.after account
            ((.prepareUpdate requestJson, preparing) :: between ++ [commit])).getValue q =
          lastWrite (PlogOp.writesAt q) request.ops
            ((accountMachine.after account
              ((.prepareUpdate requestJson, preparing) :: between)).getValue q)) ∧
      ∀ op ∈ request.ops, op.Malformed → ∀ ambient,
        account.Refuses (account.prepareUpdate requestJson ambient)) ∧
    (∀ json items, jsonFromStr requestJson = .ok json → json.ListsOps items →
      (∀ request, parseEntryUpdateRequest requestJson = .ok request →
        List.Forall₂ Json.IsOp items request.ops) ∧
      ∀ item ∈ items, (∀ op, ¬ item.IsOp op) → ∀ ambient,
        account.Refuses (account.prepareUpdate requestJson ambient)) ∧
    ((∀ request, parseEntryUpdateRequest requestJson ≠ .ok request) → ∀ ambient,
      account.Refuses (account.prepareUpdate requestJson ambient)) := by
  refine ⟨?_, ?_, ?_⟩
  · intro request parsed
    constructor
    · intro preparing between commit challenge commits q
      obtain ⟨last, pairs, entry, locks, head, extended, sameLog, after, _, _, made⟩ :=
        committed_request laws append (reached.verified append) parsed commits
      unfold PlogAccount.getValue
      rw [after, sameLog]
      exact pushed_value keys opLaw verify (reached.verified append) extended made q
    · intro op member malformed ambient
      exact malformed_refused parsed member malformed account ambient
  · intro json items decoded listed
    constructor
    · intro request parsed
      exact parsed_ops decoded listed parsed
    · intro item member formless ambient
      apply unparsed_refused
      intro request parsed
      obtain ⟨op, _, isOp⟩ := forall₂_partner (parsed_ops decoded listed parsed) member
      exact formless op isOp
  · intro unparsed ambient
    exact unparsed_refused unparsed account ambient

end

section
open Reference

def profileOps : List PlogOp :=
  [.update "/n" (.str "x"), .delete "/n", .noop "/n", .update "/n" (.str "y")]

def rawChallenge (message : String) : UpdateChallenge :=
  { delegationChallenge with kind := .entry, path := none, messageMultibase := message }

def profileMessage : String :=
  "uAQWHAADp4QR4MvmDAAECAi9uAXgBAi9uAAIvbgICL24BeQABLyVjaGVja19zaWduYXR1cm" ++
  "UoIi9wdWJrZXkiLCAiL2VudHJ5LyIpAAEvJXB1c2goIi9lbnRyeS8iKTsgcHVzaCgiL2VudHJ5L3Byb29mIikA"

theorem committed_request_value_profile :
    (∀ q, (accountMachine.after openedAccount
        [(.prepareUpdate (printJson profileTree), sampleAmbient 1 0),
          (.commitUpdate delegationChallenge.challengeId "uAQKZ5OMJ", sampleAmbient 2 9)]).getValue q =
      lastWrite (PlogOp.writesAt q) profileOps ((accountMachine.after openedAccount
        [(.prepareUpdate (printJson profileTree), sampleAmbient 1 0)]).getValue q)) ∧
    openedAccount.Refuses
      (openedAccount.prepareUpdate (printJson malformedTree) (sampleAmbient 1 0)) ∧
    openedAccount.Refuses
      (openedAccount.prepareUpdate (printJson keylessTree) (sampleAmbient 1 0)) ∧
    openedAccount.Refuses (openedAccount.prepareUpdate "x" (sampleAmbient 1 0)) := by
  have reached : openedAccount.Reached := openedAccount_opened.reached []
  refine ⟨?_, ?_, ?_, ?_⟩
  · apply ((committed_request_value keyLaws entryLaws opLaw appendLaws verifyLaws openedAccount reached
      (printJson profileTree)).1 ⟨default, profileOps, none⟩ (by decide +kernel)).1 (sampleAmbient 1 0) []
      (.commitUpdate delegationChallenge.challengeId "uAQKZ5OMJ", sampleAmbient 2 9)
      (rawChallenge profileMessage)
    refine ⟨by decide +kernel, by decide, ⟨"uAQKZ5OMJ", rfl⟩, ?_⟩
    exact ⟨({ vlad := "uhwAA6eE", headCid := "uwkUWXA", pubkey := some "u5wEC" }, .entry, none),
      by decide +kernel⟩
  · have malformed : (PlogOp.update "n" (.str "x")).Malformed :=
      .key _ "malformed key path" (by decide +kernel)
    exact ((committed_request_value keyLaws entryLaws opLaw appendLaws verifyLaws openedAccount reached
      (printJson malformedTree)).1 ⟨default, [.update "/n" (.str "x"), .update "n" (.str "x")], none⟩
      (by decide +kernel)).2 _ (by decide) malformed (sampleAmbient 1 0)
  · have formless (op : PlogOp) : ¬ (Json.obj [("op", .str "noop")]).IsOp op := by
      intro isOp
      cases isOp with
      | noop _ _ _ named => simp [Json.Holds] at named
      | delete _ _ _ named => simp [Json.Holds] at named
      | update _ _ _ _ _ named _ _ => simp [Json.Holds] at named
    have listed : keylessTree.ListsOps [.obj [("op", .str "noop")]] :=
      .object _ _ (List.mem_singleton_self _)
    exact ((committed_request_value keyLaws entryLaws opLaw appendLaws verifyLaws openedAccount reached
      (printJson keylessTree)).2.1 keylessTree _ (jsonRoundTrip (by simp [documents])) listed).2 _
      (List.mem_singleton_self _) formless (sampleAmbient 1 0)
  · apply (committed_request_value keyLaws entryLaws opLaw appendLaws verifyLaws openedAccount reached
      "x").2.2
    intro request parsed
    have unread : parseEntryUpdateRequest "x" = .error (.encoding "request_json: expected value") := by
      decide +kernel
    cases unread.symm.trans parsed

end

end LogosAccounts
