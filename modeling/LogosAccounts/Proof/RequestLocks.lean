import LogosAccounts.Proof.CommitLedger
import LogosAccounts.Proof.ExportImport
import LogosAccounts.Proof.RequestValues

/-! What a committed request makes of the head's locks. The lock list is a list used
as a map: a directive replaces the locks at the paths it names and keeps the others
in their order, so the last directive that names a path decides what stands there. -/

namespace LogosAccounts
open BetterSign hiding mk
open Functional

section
variable [BetterSign]

/-- What each directive makes of a lock list. -/
inductive LockEdit (before : List Script) : LockSpec → List Script → Prop where
  | inherit : LockEdit before (.keyword "inherit") before
  | upsert (path code : String) (key : Key) (parsed : keyTryFrom path = .ok key) :
      LockEdit before (.upsert ⟨path, code⟩)
        (before.filter (fun lock => lock.path ≠ key) ++ [.code key code])
  | remove (path : String) (key : Key) (parsed : keyTryFrom path = .ok key) :
      LockEdit before (.remove path) (before.filter fun lock => lock.path ≠ key)
  | replace (given : List LockScriptJson) (scripts : List Script)
      (written : List.Forall₂ (fun s script => ∃ key, keyTryFrom s.path = .ok key ∧
        script = .code key s.code) given scripts) : LockEdit before (.replace given) scripts

/-- An unknown keyword, or a path that is no key. -/
inductive LockSpec.Malformed : LockSpec → Prop where
  | keyword (word : String) (unknown : word ≠ "inherit") : Malformed (.keyword word)
  | upsert (upsert : LockScriptJson) (e : String) (failed : keyTryFrom upsert.path = .error e) :
      Malformed (.upsert upsert)
  | remove (path e : String) (failed : keyTryFrom path = .error e) : Malformed (.remove path)
  | replace (given : List LockScriptJson) (s : LockScriptJson) (member : s ∈ given) (e : String)
      (failed : keyTryFrom s.path = .error e) : Malformed (.replace given)

/-- The locks of a list at one path. -/
def locksAt (key : Key) (locks : List Script) : List Script :=
  locks.filter fun lock => lock.path = key

def LockScriptJson.at (key : Key) (s : LockScriptJson) : Option Script :=
  if keyTryFrom s.path = .ok key then some (.code key s.code) else none

/-- What a directive writes at a path, if it names the path; a replacement names all. -/
def LockSpec.writesAt (key : Key) : LockSpec → Option (List Script)
  | .keyword _ => none
  | .upsert given => (given.at key).map fun lock => [lock]
  | .remove path => if keyTryFrom path = .ok key then some [] else none
  | .replace given => some (given.filterMap (LockScriptJson.at key))

theorem lockScriptFromJson_ok {s : LockScriptJson} {script : Script} :
    lockScriptFromJson s = .ok script ↔
      ∃ key, keyTryFrom s.path = .ok key ∧ script = .code key s.code := by
  unfold lockScriptFromJson
  rw [except_bind_ok]
  constructor
  · rintro ⟨key, parsed, made⟩
    exact ⟨key, parseKey_ok.mp parsed, (Except.ok.inj made).symm⟩
  · rintro ⟨key, parsed, rfl⟩
    exact ⟨key, parseKey_ok.mpr parsed, rfl⟩

/-- The lock list the source makes for a directive is the edit it stands for. -/
theorem lockEdit_iff {last : Entry} {spec : LockSpec} {after : List Script} :
    LockEdit last.locks spec after ↔
      ∃ locks, lockSpecToScripts last spec = .ok locks ∧ locks.getD last.locks = after := by
  constructor
  · intro edit
    cases edit with
    | inherit => exact ⟨none, rfl, rfl⟩
    | upsert path code key parsed =>
      have isKey := parseKey_ok.mpr parsed
      have script : lockScriptFromJson ⟨path, code⟩ = .ok (.code key code) :=
        lockScriptFromJson_ok.mpr ⟨key, parsed, rfl⟩
      refine ⟨some (locksReplacingPath last key (some (.code key code))), ?_, rfl⟩
      simp only [lockSpecToScripts, isKey, except_ok_bind, script, except_pure]
    | remove path key parsed =>
      have isKey := parseKey_ok.mpr parsed
      refine ⟨some (locksReplacingPath last key none), ?_, List.append_nil _⟩
      simp only [lockSpecToScripts, isKey, except_ok_bind, except_pure]
    | replace given _ scripts =>
      have made := mapM_ok_iff.mpr (scripts.imp fun s script => lockScriptFromJson_ok.mpr)
      refine ⟨some after, ?_, rfl⟩
      simp only [lockSpecToScripts, made, except_ok_bind, except_pure]
  · rintro ⟨locks, spelled, rfl⟩
    cases spec with
    | keyword word =>
      by_cases known : word = "inherit"
      · subst word
        obtain rfl := Except.ok.inj spelled
        exact .inherit
      · simp [lockSpecToScripts, known] at spelled
    | replace given =>
      obtain ⟨scripts, made, spelled⟩ := except_bind_ok.mp spelled
      obtain rfl := Except.ok.inj spelled
      exact .replace given scripts ((mapM_ok_iff.mp made).imp fun s script => lockScriptFromJson_ok.mp)
    | upsert upsert =>
      obtain ⟨key, parsed, spelled⟩ := except_bind_ok.mp spelled
      obtain ⟨script, made, spelled⟩ := except_bind_ok.mp spelled
      obtain rfl := Except.ok.inj spelled
      obtain ⟨key', parsed', rfl⟩ := lockScriptFromJson_ok.mp made
      obtain rfl := Except.ok.inj ((parseKey_ok.mp parsed).symm.trans parsed')
      exact .upsert upsert.path upsert.code key parsed'
    | remove path =>
      obtain ⟨key, parsed, spelled⟩ := except_bind_ok.mp spelled
      obtain rfl := Except.ok.inj spelled
      have removed : LockEdit last.locks (.remove path) _ := .remove path key (parseKey_ok.mp parsed)
      simpa [locksReplacingPath] using removed

theorem LockSpec.Malformed.fails {spec : LockSpec} (malformed : spec.Malformed) (last : Entry) :
    ∃ e, lockSpecToScripts last spec = .error e := by
  cases result : lockSpecToScripts last spec with
  | error e => exact ⟨e, rfl⟩
  | ok locks =>
    have edit := lockEdit_iff.mpr ⟨locks, result, rfl⟩
    generalize locks.getD last.locks = after at edit
    cases malformed with
    | keyword word unknown =>
      cases edit
      exact absurd rfl unknown
    | upsert upsert e failed =>
      cases edit with
      | upsert path code key parsed => cases failed.symm.trans parsed
    | remove path e failed =>
      cases edit with
      | remove _ key parsed => cases failed.symm.trans parsed
    | replace given s member e failed =>
      cases edit with
      | replace _ scripts written =>
        obtain ⟨script, _, key, parsed, _⟩ := forall₂_partner written member
        cases failed.symm.trans parsed

theorem locksAt_replaced {before : List Script} {key other : Key} :
    locksAt other (before.filter fun lock => lock.path ≠ key) =
      if other = key then [] else locksAt other before := by
  unfold locksAt
  rw [List.filter_filter]
  by_cases same : other = key
  · subst other
    rw [if_pos rfl]
    apply List.filter_eq_nil_iff.mpr
    simp
  · rw [if_neg same]
    apply List.filter_congr
    intro lock _
    by_cases here : lock.path = other
    · simp [here, same]
    · simp [here]

/-- An edit writes at a path what its directive says, and leaves the others alone. -/
theorem LockEdit.at {before after : List Script} {spec : LockSpec} (edit : LockEdit before spec after)
    (key : Key) : locksAt key after = (spec.writesAt key).getD (locksAt key before) := by
  cases edit with
  | inherit => rfl
  | upsert path code key' parsed =>
    unfold LockSpec.writesAt LockScriptJson.at
    have split : locksAt key (before.filter (fun lock => lock.path ≠ key') ++ [.code key' code]) =
        locksAt key (before.filter fun lock => lock.path ≠ key') ++ locksAt key [.code key' code] :=
      List.filter_append _ _
    rw [split, locksAt_replaced]
    by_cases same : key = key'
    · subst key'
      simp [parsed, locksAt, Script.path]
    · have other : key' ≠ key := Ne.symm same
      simp [parsed, same, other, locksAt, Script.path]
  | remove path key' parsed =>
    unfold LockSpec.writesAt
    rw [locksAt_replaced]
    by_cases same : key = key'
    · simp [parsed, same]
    · have other : key' ≠ key := Ne.symm same
      simp [parsed, same, other]
  | replace given scripts written =>
    unfold LockSpec.writesAt
    rw [Option.getD_some]
    induction written with
    | nil => rfl
    | cons head _ ih =>
      obtain ⟨key', parsed, rfl⟩ := head
      unfold locksAt at ih ⊢
      by_cases same : key' = key
      · subst key'
        rw [List.filter_cons_of_pos (by simp [Script.path]), List.filterMap_cons_some, ih]
        simp [LockScriptJson.at, parsed]
      · rw [List.filter_cons_of_neg (by simp [Script.path, same]), List.filterMap_cons_none, ih]
        simp [LockScriptJson.at, parsed, same]

def PlogAccount.headLocks (account : PlogAccount) : Except Error (List Script) :=
  account.headEntry.map Entry.locks

theorem VerifiedHead.headLocks {account : PlogAccount} {last : Entry} {pairs : Kvp}
    (head : VerifiedHead account.log last pairs) : account.headLocks = .ok last.locks := by
  unfold PlogAccount.headLocks
  rw [head.headEntry]
  rfl

/-- What a committed request makes of the head's locks. -/
theorem committed_lock_edit (laws : EntryLaws) (append : AppendLaws) (verify : VerifyLaws)
    {account : PlogAccount} (verified : FullyVerified account.log) {requestJson : String}
    {request : EntryUpdateRequest} (parsed : parseEntryUpdateRequest requestJson = .ok request)
    {preparing : Ambient} {between : List (AccountOp × Ambient)} {commit : AccountOp × Ambient}
    {challenge : UpdateChallenge}
    (commits : PreparedCommit account (.prepareUpdate requestJson, preparing) between commit challenge) :
    ∃ before after, account.headLocks = .ok before ∧
      (accountMachine.after account
        ((.prepareUpdate requestJson, preparing) :: between ++ [commit])).headLocks = .ok after ∧
      LockEdit before request.locks after := by
  obtain ⟨last, pairs, entry, locks, head, extended, _, after, spelled, entryLocks, _⟩ :=
    committed_request laws append verified parsed commits
  obtain ⟨pairs', head', _⟩ := head.push verify extended
  refine ⟨last.locks, entry.locks, head.headLocks, ?_, lockEdit_iff.mpr ⟨locks, spelled, entryLocks.symm⟩⟩
  rw [after]
  exact VerifiedHead.headLocks head'

def AccountOp.lockSpec : AccountOp → Option LockSpec
  | .prepareUpdate requestJson =>
    match parseEntryUpdateRequest requestJson with
    | .ok request => some request.locks
    | .error _ => none
  | .prepareDelegate _ _ | .prepareRevoke _ | .commitUpdate _ _ | .cancelUpdate _ => none

/-- The entry's locks are what the directive makes of those of the log's head. -/
def EditsLocks (log : Log) (spec : LockSpec) (unsigned : UnsignedUpdate) : Prop :=
  ∀ last pairs, VerifiedHead log last pairs → LockEdit last.locks spec unsigned.entry.locks

/-- At every path the head's locks are what the last directive on it has written. -/
def LastLocks (original : List Script) (log : Log) (specs : List LockSpec) : Prop :=
  ∀ last pairs, VerifiedHead log last pairs → ∀ key,
    locksAt key last.locks = lastWrite (LockSpec.writesAt key) specs (locksAt key original)

theorem lockSpec_meaning (laws : EntryLaws) (verify : VerifyLaws) (original : List Script) :
    CommitLedger.Meaning AccountOp.lockSpec EditsLocks (LastLocks original) where
  prepared account op spec input unsigned _ noted asked built last pairs head := by
    cases op with
    | prepareUpdate requestJson =>
      unfold AccountOp.lockSpec at noted
      cases parsed : parseEntryUpdateRequest requestJson with
      | error e => simp [parsed] at noted
      | ok request =>
        obtain rfl : request.locks = spec := by simpa [parsed] using noted
        obtain ⟨_, sameLocks⟩ := updateSpec_ok parsed (Option.some.inj asked)
        obtain ⟨locks, spelled, lockList, _⟩ := unsignedEntry_fields laws head built
        rw [sameLocks] at spelled
        exact lockEdit_iff.mpr ⟨locks, spelled, lockList.symm⟩
    | prepareDelegate path pubkeyMultibase => cases noted
    | prepareRevoke path => cases noted
    | commitUpdate id signature => cases noted
    | cancelUpdate id => cases noted
  appended log spec unsigned entry specs verified edits same _ holds last pairs head key := by
    obtain rfl := head.pushed verify
    obtain ⟨earlier, earlierPairs, earlierHead⟩ := verified.head
    obtain ⟨_, sameLocks, _⟩ := Entry.same_fields same
    rw [sameLocks, (edits earlier earlierPairs earlierHead).at key, lastWrite_snoc,
      holds earlier earlierPairs earlierHead key]

def Script.written : Script → Option LockScriptJson
  | .code path source => some ⟨keyToString path, source⟩
  | .other _ _ => none

def AllCode (locks : List Script) : Prop :=
  ∀ lock ∈ locks, ∃ path source, lock = .code path source

theorem LockEdit.allCode {before after : List Script} {spec : LockSpec}
    (edit : LockEdit before spec after) (code : AllCode before) : AllCode after := by
  cases edit with
  | inherit => exact code
  | upsert path source key parsed =>
    intro lock member
    rcases List.mem_append.mp member with kept | own
    · exact code lock (List.mem_filter.mp kept).1
    · exact ⟨key, source, List.mem_singleton.mp own⟩
  | remove path key parsed => exact fun lock member => code lock (List.mem_filter.mp member).1
  | replace given _ written =>
    intro lock member
    obtain ⟨s, _, key, _, same⟩ := forall₂_partner written.flip member
    exact ⟨key, s.code, same⟩

theorem written_edit (keys : KeyLaws) (before : List Script) {locks : List Script}
    (code : AllCode locks) : LockEdit before (.replace (locks.filterMap Script.written)) locks := by
  apply LockEdit.replace
  induction locks with
  | nil => exact .nil
  | cons lock rest ih =>
    obtain ⟨path, source, rfl⟩ := code lock List.mem_cons_self
    have shown : Script.written (.code path source) = some ⟨keyToString path, source⟩ := rfl
    rw [List.filterMap_cons_some shown]
    refine .cons ⟨path, keys.reparse path, rfl⟩ (ih ?_)
    exact fun other member => code other (List.mem_cons_of_mem _ member)

/-- Two specs with the same ops whose directives make the same locks build the same
entry. -/
theorem unsignedEntry_sameLocks {account : PlogAccount} {last : Entry} {pairs : Kvp}
    (head : VerifiedHead account.log last pairs) {input input' : PrepareEntrySpec}
    (ops : input'.ops = input.ops) {after : List Script}
    (edit : LockEdit last.locks input.locks after) (edit' : LockEdit last.locks input'.locks after) :
    account.unsignedEntry input' = account.unsignedEntry input := by
  obtain ⟨locks, spelled, made⟩ := lockEdit_iff.mp edit
  obtain ⟨locks', spelled', made'⟩ := lockEdit_iff.mp edit'
  unfold PlogAccount.unsignedEntry
  rw [head.headEntry, except_ok_bind, except_ok_bind, spelled, spelled', except_ok_bind,
    except_ok_bind, head.prepareNextEntry, head.prepareNextEntry]
  unfold nextEntryAfter
  simp only [mutableEntry, ops, made, made']

/-- A request with its directive written out as a replacement asks for the same
signature. -/
theorem written_request_toSign (keys : KeyLaws) {account : PlogAccount} {last : Entry} {pairs : Kvp}
    (head : VerifiedHead account.log last pairs) (code : AllCode last.locks)
    {request : EntryUpdateRequest} {after : List Script}
    (edit : LockEdit last.locks request.locks after) {requestJson written : String}
    (parsed : parseEntryUpdateRequest requestJson = .ok request)
    (parsed' : parseEntryUpdateRequest written =
      .ok { request with locks := .replace (after.filterMap Script.written) })
    (ambient ambient' : Ambient) :
    (account.prepareUpdate written ambient').1.map UpdateChallenge.toSign =
      (account.prepareUpdate requestJson ambient).1.map UpdateChallenge.toSign := by
  unfold PlogAccount.prepareUpdate
  rw [PlogAccount.prepareWith_toSign, PlogAccount.prepareWith_toSign, updateSpec_eq parsed,
    updateSpec_eq parsed']
  simp only
  cases parseKey (request.signAs.getD (keyToString pubkeyKeyPath)) with
  | error e => rfl
  | ok signer =>
    cases plogOpsToParams request.ops with
    | error e => rfl
    | ok ops =>
      simp only [except_ok_bind]
      congr 1
      exact unsignedEntry_sameLocks head rfl edit (written_edit keys last.locks (edit.allCode code))

theorem malformed_directive_refused {requestJson : String} {request : EntryUpdateRequest}
    (parsed : parseEntryUpdateRequest requestJson = .ok request)
    (malformed : request.locks.Malformed) (account : PlogAccount) (ambient : Ambient) :
    account.Refuses (account.prepareUpdate requestJson ambient) := by
  apply account.prepareWith_refuses
  intro challenge success
  obtain ⟨input, unsigned, given, built, _⟩ := account.prepareWith_issued success
  obtain ⟨_, sameLocks⟩ := updateSpec_ok parsed given
  obtain ⟨last, _, built⟩ := except_bind_ok.mp built
  obtain ⟨locks, spelled, _⟩ := except_bind_ok.mp built
  obtain ⟨e, failed⟩ := malformed.fails last
  rw [sameLocks, failed] at spelled
  cases spelled

/-- On every reached account a committed request edits the head's locks as its
directive says; over any run whose commits are all raw requests, the locks at each
path are those of the last request that named it, and the original ones where none
did; where all locks are `Code` scripts, a request asks for the same signature as
the one with its locks written out; and a malformed directive is refused. -/
theorem request_lock_edits (keys : KeyLaws) (laws : EntryLaws) (append : AppendLaws)
    (verify : VerifyLaws) (account : PlogAccount) (reached : account.Reached) :
    (∀ requestJson request preparing between commit challenge,
      parseEntryUpdateRequest requestJson = .ok request →
      PreparedCommit account (.prepareUpdate requestJson, preparing) between commit challenge →
      ∃ before after, account.headLocks = .ok before ∧
        (accountMachine.after account
          ((.prepareUpdate requestJson, preparing) :: between ++ [commit])).headLocks = .ok after ∧
        LockEdit before request.locks after) ∧
    (∀ run specs, (CommitLedger.ofRun AccountOp.lockSpec account run).committed = specs.map some →
      ∃ before after, account.headLocks = .ok before ∧
        (accountMachine.after account run).headLocks = .ok after ∧
        ∀ key, locksAt key after = lastWrite (LockSpec.writesAt key) specs (locksAt key before)) ∧
    (∀ requestJson request written before after ambient ambient',
      account.headLocks = .ok before → AllCode before →
      parseEntryUpdateRequest requestJson = .ok request → LockEdit before request.locks after →
      parseEntryUpdateRequest written =
        .ok { request with locks := .replace (after.filterMap Script.written) } →
      (account.prepareUpdate written ambient').1.map UpdateChallenge.toSign =
        (account.prepareUpdate requestJson ambient).1.map UpdateChallenge.toSign) ∧
    ∀ requestJson request ambient, parseEntryUpdateRequest requestJson = .ok request →
      request.locks.Malformed → account.Refuses (account.prepareUpdate requestJson ambient) := by
  have verified := reached.verified append
  obtain ⟨last, pairs, head⟩ := verified.head
  refine ⟨?_, ?_, ?_, ?_⟩
  · intro requestJson request preparing between commit challenge parsed commits
    exact committed_lock_edit laws append verify verified parsed commits
  · intro run specs all
    have initial : LastLocks last.locks account.log [] := by
      intro last' pairs' head' key
      have same := (head.last_entry verify).symm.trans (head'.last_entry verify)
      rw [Option.some.inj same]
      rfl
    have holds := CommitLedger.run (lockSpec_meaning laws verify last.locks) laws append
      reached.rootKeyParses verified initial run all
    obtain ⟨final, finalPairs, finalHead⟩ := (PlogAccount.after_verified append verified run).head
    exact ⟨_, _, head.headLocks, finalHead.headLocks, holds final finalPairs finalHead⟩
  · intro requestJson request written before after ambient ambient' locks code parsed edit parsed'
    obtain rfl := Except.ok.inj (head.headLocks.symm.trans locks)
    exact written_request_toSign keys head code edit parsed parsed' ambient ambient'
  · intro requestJson request ambient parsed malformed
    exact malformed_directive_refused parsed malformed account ambient

end

section
open Reference

def upsertRun : List (AccountOp × Ambient) :=
  [(.prepareUpdate requestText, sampleAmbient 1 0),
    (.commitUpdate delegationChallenge.challengeId "uAQL8CM0U", sampleAmbient 2 9)]

def sampleUpsert : LockScriptJson := ⟨"/a/", "check_signature(\"/a/pubkey\", \"/entry/\")"⟩

def sampleRequest : EntryUpdateRequest :=
  ⟨.upsert sampleUpsert, [.update "/a/pubkey" (.data "u5wkJ")], none⟩

theorem request_lock_edits_upsert :
    (∃ before after, openedAccount.headLocks = .ok before ∧
      (accountMachine.after openedAccount upsertRun).headLocks = .ok after ∧
      LockEdit before (.upsert sampleUpsert) after) ∧
    (∃ before after, openedAccount.headLocks = .ok before ∧
      (accountMachine.after openedAccount upsertRun).headLocks = .ok after ∧
      ∀ key, locksAt key after =
        lastWrite (LockSpec.writesAt key) [.upsert sampleUpsert] (locksAt key before)) ∧
    (openedAccount.prepareUpdate (printJson replaceTree) (sampleAmbient 3 1)).1.map
        UpdateChallenge.toSign =
      (openedAccount.prepareUpdate requestText (sampleAmbient 1 0)).1.map UpdateChallenge.toSign ∧
    openedAccount.Refuses (openedAccount.prepareUpdate (printJson strayTree) (sampleAmbient 1 0)) := by
  have parsed : parseEntryUpdateRequest requestText = .ok sampleRequest := by decide +kernel
  have locks : openedAccount.headLocks = .ok [.code rootPath defaultEntryLock] := by decide +kernel
  have isKey : keyTryFrom "/a/" = .ok (⟨"/a/", by decide⟩ : PathKey) := by decide +kernel
  have edits := request_lock_edits keyLaws entryLaws appendLaws verifyLaws openedAccount
    (openedAccount_opened.reached [])
  refine ⟨?_, ?_, ?_, ?_⟩
  · apply edits.1 requestText sampleRequest (sampleAmbient 1 0) []
      (.commitUpdate delegationChallenge.challengeId "uAQL8CM0U", sampleAmbient 2 9)
      (rawChallenge delegationChallenge.messageMultibase) parsed
    refine ⟨by decide +kernel, by decide, ⟨"uAQL8CM0U", rfl⟩, ?_⟩
    exact ⟨({ vlad := "uhwAA6eE", headCid := "uoH0bJg", pubkey := some "u5wEC" }, .entry, none),
      by decide +kernel⟩
  · exact edits.2.1 upsertRun [.upsert sampleUpsert] (by decide +kernel)
  · apply edits.2.2.1 requestText sampleRequest (printJson replaceTree) _ _ (sampleAmbient 1 0)
      (sampleAmbient 3 1) locks _ parsed (.upsert sampleUpsert.path sampleUpsert.code _ isKey)
    · decide +kernel
    · intro lock member
      exact ⟨_, _, List.mem_singleton.mp member⟩
  · exact edits.2.2.2 (printJson strayTree) ⟨.remove "b", [], none⟩ (sampleAmbient 1 0)
      (by decide +kernel) (.remove "b" "malformed key path" (by decide +kernel))

end

end LogosAccounts
