import LogosAccounts.BetterSign.Laws
import LogosAccounts.BetterSign.Reference
import LogosAccounts.Module

/-! What is written in JSON reads back. Each type's reader undoes its writer; the
nested forms follow from those of their parts. -/

namespace LogosAccounts
open BetterSign hiding mk

section

@[simp] theorem Json.asString_str (text : String) : (Json.str text).asString = some text := rfl

@[simp] theorem Json.asOptionalString_optionalString (text : Option String) :
    (Json.optionalString text).asOptionalString = some text := by
  cases text <;> rfl

@[simp] theorem Json.listOf_map {α : Type} {write : α → Json} {read : Json → Option α}
    (back : ∀ value, read (write value) = some value) (values : List α) :
    Json.listOf read (.arr (values.map write)) = some values := by
  change (values.map write).mapM read = some values
  induction values with
  | nil => rfl
  | cons value rest ih =>
    rw [List.map_cons, List.mapM_cons, back, ih]
    rfl

@[simp] theorem AccountSummary.fromJson_toJson (summary : AccountSummary) :
    AccountSummary.fromJson summary.toJson = some summary := by
  simp [AccountSummary.toJson, AccountSummary.fromJson, Json.member, Json.memberOr]

@[simp] theorem PlogPathValue.fromJson_toJson (value : PlogPathValue) :
    PlogPathValue.fromJson value.toJson = some value := by
  cases value with
  | str text => rfl
  | bin multibase => rfl

@[simp] theorem PathDelegation.fromJson_toJson (delegation : PathDelegation) :
    PathDelegation.fromJson delegation.toJson = some delegation := by
  simp [PathDelegation.toJson, PathDelegation.fromJson, Json.member, Json.memberOr]

@[simp] theorem UpdateKind.fromJson_toJson (kind : UpdateKind) :
    UpdateKind.fromJson kind.toJson = some kind := by
  cases kind with
  | entry => rfl
  | delegate => rfl
  | revoke => rfl

@[simp] theorem UpdateChallenge.fromJson_toJson (challenge : UpdateChallenge) :
    UpdateChallenge.fromJson challenge.toJson = some challenge := by
  obtain ⟨_, _, kind, path, _, _, _, _⟩ := challenge
  cases path with
  | none => simp [UpdateChallenge.toJson, UpdateChallenge.fromJson, Json.member, Json.memberOr]
  | some path =>
    simp [UpdateChallenge.toJson, UpdateChallenge.fromJson, Json.member, Json.memberOr,
      Json.asOptionalString]

@[simp] theorem PlogValue.fromJson_toJson (value : PlogValue) :
    PlogValue.fromJson value.toJson = some value := by
  cases value with
  | str text => rfl
  | data multibase => rfl

@[simp] theorem PlogOp.fromJson_toJson (op : PlogOp) : PlogOp.fromJson op.toJson = some op := by
  cases op with
  | noop key => rfl
  | delete key => rfl
  | update key value =>
    simp [PlogOp.toJson, PlogOp.fromJson, PlogOp.ofMembers, Json.member, Json.memberOr]

@[simp] theorem LockScriptJson.fromJson_toJson (script : LockScriptJson) :
    LockScriptJson.fromJson script.toJson = some script := by
  simp [LockScriptJson.toJson, LockScriptJson.fromJson, Json.member, Json.memberOr]

/-- The variants have no member in common, so the first that fits is the one written. -/
@[simp] theorem LockSpec.fromJson_toJson (spec : LockSpec) :
    LockSpec.fromJson spec.toJson = some spec := by
  cases spec with
  | keyword word => rfl
  | replace given =>
    simp [LockSpec.toJson, LockSpec.fromJson, Json.member, Json.memberOr]
  | upsert given =>
    simp [LockSpec.toJson, LockSpec.fromJson, Json.member, Json.memberOr]
  | remove path =>
    simp [LockSpec.toJson, LockSpec.fromJson, Json.member, Json.memberOr]

@[simp] theorem EntryUpdateRequest.fromJson_toJson (request : EntryUpdateRequest) :
    EntryUpdateRequest.fromJson request.toJson = some request := by
  simp [EntryUpdateRequest.toJson, EntryUpdateRequest.fromJson, Json.memberOr]

variable [BetterSign]

/-- What a type's reader makes of a text, if it is JSON. -/
def readText {α : Type} (read : Json → Option α) (text : String) : Option α :=
  (jsonFromStr text).toOption.bind read

theorem readText_written {α : Type} {read : Json → Option α} {tree : Json} {value : α}
    (law : JsonRoundTrip tree) (back : read tree = some value) :
    readText read (jsonToString tree) = some value := by
  unfold readText
  rw [law]
  exact back

/-- A request that is put in JSON is parsed as itself, so no lock directive is taken
for another; and a challenge, a summary, a listing and a value are read back from
the text the module returns for them. -/
theorem wire_round_trip :
    (∀ request : EntryUpdateRequest, JsonRoundTrip request.toJson →
      parseEntryUpdateRequest (jsonToString request.toJson) = .ok request) ∧
    (∀ challenge : UpdateChallenge, JsonRoundTrip challenge.toJson →
      readText UpdateChallenge.fromJson (Response.challenge challenge).text = some challenge) ∧
    (∀ summary : AccountSummary, JsonRoundTrip summary.toJson →
      readText AccountSummary.fromJson (Response.summary summary).text = some summary) ∧
    (∀ list : List PathDelegation, JsonRoundTrip (.arr (list.map PathDelegation.toJson)) →
      readText (Json.listOf PathDelegation.fromJson) (Response.delegations list).text = some list) ∧
    ∀ value : PlogPathValue, JsonRoundTrip value.toJson →
      readText PlogPathValue.fromJson (Response.value value).text = some value := by
  refine ⟨?_, ?_, ?_, ?_, ?_⟩
  · intro request law
    unfold parseEntryUpdateRequest
    rw [law]
    simp only [EntryUpdateRequest.fromJson_toJson]
  · intro challenge law
    exact readText_written law challenge.fromJson_toJson
  · intro summary law
    exact readText_written law summary.fromJson_toJson
  · intro list law
    exact readText_written law (Json.listOf_map PathDelegation.fromJson_toJson list)
  · intro value law
    exact readText_written law value.fromJson_toJson

end

section
open Reference

def twiceRequest : EntryUpdateRequest :=
  let lock : LockScriptJson := ⟨"/a/", "check_signature(\"/a/pubkey\", \"/entry/\")"⟩
  ⟨.replace [lock, lock], [.update "/a/pubkey" (.data "u5wkJ")], none⟩

def entryChallenge : UpdateChallenge :=
  ⟨"uAA", "uhwAA6eE", .entry, none, "/pubkey", "ueDL5gw", "uAQ", "entry-bytes"⟩

theorem wire_round_trip_samples :
    parseEntryUpdateRequest (printJson twiceTree) = .ok twiceRequest ∧
    readText UpdateChallenge.fromJson (Response.challenge entryChallenge).text =
      some entryChallenge ∧
    readText AccountSummary.fromJson (Response.summary ⟨"uhwAA6eE", "ueDL5gw", none⟩).text =
      some ⟨"uhwAA6eE", "ueDL5gw", none⟩ ∧
    readText (Json.listOf PathDelegation.fromJson) (Response.delegations [⟨"/a/", "u5wkJ"⟩]).text =
      some [⟨"/a/", "u5wkJ"⟩] ∧
    readText PlogPathValue.fromJson (Response.value (.str "y")).text = some (.str "y") := by
  obtain ⟨request, challenge, summary, list, value⟩ := wire_round_trip
  refine ⟨request twiceRequest ?_, challenge _ ?_, summary _ ?_, list _ ?_, value _ ?_⟩
  · exact jsonRoundTrip (show (printJson twiceTree, twiceTree) ∈ documents by simp [documents])
  · exact jsonRoundTrip (show (printJson challengeTree, challengeTree) ∈ documents by simp [documents])
  · exact jsonRoundTrip (show (printJson summaryTree, summaryTree) ∈ documents by simp [documents])
  · exact jsonRoundTrip (show (printJson delegationsTree, delegationsTree) ∈ documents by
      simp [documents])
  · exact jsonRoundTrip (show (printJson valueTree, valueTree) ∈ documents by simp [documents])

end

end LogosAccounts
