import LogosAccounts.Functional.Except
import LogosAccounts.Wire

/-! What a request is as a JSON tree: the members that are read, and the forms that
its ops have. -/

namespace LogosAccounts
open BetterSign hiding mk
open Functional

/-- The object has one member of this name, with this value. -/
def Json.Holds (members : List (String × Json)) (name : String) (value : Json) : Prop :=
  members.filter (fun member => member.1 = name) = [(name, value)]

theorem Json.Holds.mem {members : List (String × Json)} {name : String} {value : Json}
    (holds : Json.Holds members name value) : (name, value) ∈ members := by
  have member : (name, value) ∈ members.filter fun member => member.1 = name := by
    rw [holds]
    exact List.mem_singleton_self _
  exact (List.mem_filter.mp member).1

theorem Json.member_holds {α : Type} {read : Json → Option α} {members : List (String × Json)}
    {name : String} {result : α} (found : Json.member read members name = some result) :
    ∃ value, Json.Holds members name value ∧ read value = some result := by
  unfold Json.member Json.memberOr at found
  split at found
  · cases found
  · rename_i name' value only
    have member := (List.mem_filter.mp (only ▸ List.mem_singleton_self (name', value))).2
    obtain rfl : name' = name := of_decide_eq_true member
    exact ⟨value, only, found⟩
  · cases found

theorem Json.memberOr_read {α : Type} {missing : Option α} {read : Json → Option α}
    {members : List (String × Json)} {name : String} {content : Json} {value : α}
    (member : (name, content) ∈ members)
    (found : Json.memberOr missing read members name = some value) : read content = some value := by
  have member : (name, content) ∈ members.filter fun member => member.1 = name :=
    List.mem_filter.mpr ⟨member, decide_eq_true rfl⟩
  unfold Json.memberOr at found
  split at found
  · rename_i none
    rw [none] at member
    cases member
  · rename_i name' content' only
    rw [only] at member
    obtain ⟨_, rfl⟩ := Prod.mk.inj (List.mem_singleton.mp member)
    exact found
  · cases found

theorem Json.memberOr_some {α : Type} {missing : Option α} {read : Json → Option α}
    {members : List (String × Json)} {name : String} {content : Json} {value : α}
    (located : (members.find? fun member => member.1 = name).map Prod.snd = some content)
    (found : Json.memberOr missing read members name = some value) : read content = some value := by
  obtain ⟨⟨name', content'⟩, first, rfl⟩ := Option.map_eq_some_iff.mp located
  obtain rfl : name' = name := by simpa using List.find?_some first
  exact Json.memberOr_read (List.mem_of_find?_eq_some first) found

inductive Json.IsValue : Json → PlogValue → Prop where
  | str (text : String) : IsValue (.obj [("str", .str text)]) (.str text)
  | data (text : String) : IsValue (.obj [("data", .str text)]) (.data text)

/-- The forms of an op in JSON: an object with its tag and its fields, or both in
order as a sequence. -/
inductive Json.IsOp : Json → PlogOp → Prop where
  | noop (members : List (String × Json)) (key : String) (tagged : Holds members "op" (.str "noop"))
      (named : Holds members "key" (.str key)) : IsOp (.obj members) (.noop key)
  | delete (members : List (String × Json)) (key : String)
      (tagged : Holds members "op" (.str "delete")) (named : Holds members "key" (.str key)) :
      IsOp (.obj members) (.delete key)
  | update (members : List (String × Json)) (key : String) (tree : Json) (value : PlogValue)
      (tagged : Holds members "op" (.str "update")) (named : Holds members "key" (.str key))
      (valued : Holds members "value" tree) (isValue : tree.IsValue value) :
      IsOp (.obj members) (.update key value)
  | noopSequence (key : String) : IsOp (.arr [.str "noop", .str key]) (.noop key)
  | deleteSequence (key : String) : IsOp (.arr [.str "delete", .str key]) (.delete key)
  | updateSequence (key : String) (tree : Json) (value : PlogValue) (isValue : tree.IsValue value) :
      IsOp (.arr [.str "update", .str key, tree]) (.update key value)

/-- The items that a request gives as its ops. -/
inductive Json.ListsOps : Json → List Json → Prop where
  | object (members : List (String × Json)) (items : List Json)
      (listed : ("ops", .arr items) ∈ members) : ListsOps (.obj members) items
  | sequence (parts items : List Json) (second : parts[1]? = some (.arr items)) :
      ListsOps (.arr parts) items

theorem EntryUpdateRequest.fromJson_obj {members : List (String × Json)} {request : EntryUpdateRequest}
    (found : EntryUpdateRequest.fromJson (.obj members) = some request) :
    Json.memberOr (some default) LockSpec.fromJson members "locks" = some request.locks ∧
      Json.memberOr (some []) (Json.listOf PlogOp.fromJson) members "ops" = some request.ops := by
  obtain ⟨locks, readLocks, found⟩ := Option.bind_eq_some_iff.mp found
  obtain ⟨ops, readOps, found⟩ := Option.bind_eq_some_iff.mp found
  obtain ⟨signAs, _, found⟩ := Option.bind_eq_some_iff.mp found
  obtain rfl := Option.some.inj found
  exact ⟨readLocks, readOps⟩

theorem EntryUpdateRequest.fromJson_arr {items : List Json} {request : EntryUpdateRequest}
    (found : EntryUpdateRequest.fromJson (.arr items) = some request) :
    (items[0]?).elim (some default) LockSpec.fromJson = some request.locks ∧
      (items[1]?).elim (some []) (Json.listOf PlogOp.fromJson) = some request.ops := by
  simp only [EntryUpdateRequest.fromJson] at found
  split at found
  · cases found
  · obtain ⟨locks, readLocks, found⟩ := Option.bind_eq_some_iff.mp found
    obtain ⟨ops, readOps, found⟩ := Option.bind_eq_some_iff.mp found
    obtain ⟨signAs, _, found⟩ := Option.bind_eq_some_iff.mp found
    obtain rfl := Option.some.inj found
    exact ⟨readLocks, readOps⟩

theorem Json.asString_some {json : Json} {text : String} (read : json.asString = some text) :
    json = .str text := by
  cases json with
  | str found => rw [Option.some.inj read]
  | null => cases read
  | bool _ => cases read
  | number _ => cases read
  | arr _ => cases read
  | obj _ => cases read

theorem Json.holds_string {members : List (String × Json)} {name text : String}
    (found : Json.member Json.asString members name = some text) :
    Json.Holds members name (.str text) := by
  obtain ⟨value, holds, read⟩ := Json.member_holds found
  rwa [Json.asString_some read] at holds

theorem Json.Holds.untagged {members : List (String × Json)} {name : String} {value : Json}
    (other : name ≠ "op")
    (holds : Json.Holds (members.filter fun member => member.1 ≠ "op") name value) :
    Json.Holds members name value := by
  unfold Json.Holds at holds ⊢
  rw [List.filter_filter] at holds
  rw [← holds]
  apply List.filter_congr
  intro member _
  by_cases isName : member.1 = name
  · simp [isName, other]
  · simp [isName]

theorem PlogValue.fromJson_isValue {json : Json} {value : PlogValue}
    (read : PlogValue.fromJson json = some value) : json.IsValue value := by
  unfold PlogValue.fromJson at read
  split at read
  · obtain ⟨text, isText, rfl⟩ := Option.map_eq_some_iff.mp read
    rw [Json.asString_some isText]
    exact .str text
  · obtain ⟨text, isText, rfl⟩ := Option.map_eq_some_iff.mp read
    rw [Json.asString_some isText]
    exact .data text
  · cases read

theorem PlogOp.fromJson_isOp {json : Json} {op : PlogOp} (read : PlogOp.fromJson json = some op) :
    json.IsOp op := by
  unfold PlogOp.fromJson at read
  split at read
  · rename_i members
    obtain ⟨tag, tagged, read⟩ := Option.bind_eq_some_iff.mp read
    have tagged := Json.holds_string tagged
    unfold PlogOp.ofMembers at read
    split at read
    · obtain ⟨key, named, rfl⟩ := Option.map_eq_some_iff.mp read
      exact .noop members key tagged ((Json.holds_string named).untagged (by decide))
    · obtain ⟨key, named, rfl⟩ := Option.map_eq_some_iff.mp read
      exact .delete members key tagged ((Json.holds_string named).untagged (by decide))
    · obtain ⟨key, named, read⟩ := Option.bind_eq_some_iff.mp read
      obtain ⟨value, valued, same⟩ := Option.bind_eq_some_iff.mp read
      obtain ⟨tree, holds, reads⟩ := Json.member_holds valued
      obtain rfl := Option.some.inj same
      exact .update members key tree value tagged ((Json.holds_string named).untagged (by decide))
        (holds.untagged (by decide)) (PlogValue.fromJson_isValue reads)
    · cases read
  · obtain ⟨key, isKey, rfl⟩ := Option.map_eq_some_iff.mp read
    rw [Json.asString_some isKey]
    exact .noopSequence key
  · obtain ⟨key, isKey, rfl⟩ := Option.map_eq_some_iff.mp read
    rw [Json.asString_some isKey]
    exact .deleteSequence key
  · obtain ⟨key, isKey, read⟩ := Option.bind_eq_some_iff.mp read
    obtain ⟨value, reads, same⟩ := Option.bind_eq_some_iff.mp read
    obtain rfl := Option.some.inj same
    rw [Json.asString_some isKey]
    exact .updateSequence key _ value (PlogValue.fromJson_isValue reads)
  · cases read

theorem EntryUpdateRequest.fromJson_ops {json : Json} {items : List Json}
    {request : EntryUpdateRequest} (listed : json.ListsOps items)
    (found : EntryUpdateRequest.fromJson json = some request) :
    items.mapM PlogOp.fromJson = some request.ops := by
  cases listed with
  | object members items listed =>
    exact Json.memberOr_read listed (EntryUpdateRequest.fromJson_obj found).2
  | sequence parts items second =>
    have read := (EntryUpdateRequest.fromJson_arr found).2
    rwa [second] at read

section
variable [BetterSign]

theorem parsed_tree {text : String} {json : Json} {request : EntryUpdateRequest}
    (decoded : jsonFromStr text = .ok json) (parsed : parseEntryUpdateRequest text = .ok request) :
    EntryUpdateRequest.fromJson json = some request := by
  unfold parseEntryUpdateRequest at parsed
  rw [decoded] at parsed
  cases found : EntryUpdateRequest.fromJson json with
  | none => simp [found] at parsed
  | some read =>
    simp only [found, Except.ok.injEq] at parsed
    rw [parsed]

/-- The ops of a parsed request are those its text lists, in order. -/
theorem parsed_ops {text : String} {json : Json} {items : List Json} {request : EntryUpdateRequest}
    (decoded : jsonFromStr text = .ok json) (listed : json.ListsOps items)
    (parsed : parseEntryUpdateRequest text = .ok request) :
    List.Forall₂ Json.IsOp items request.ops := by
  have read := EntryUpdateRequest.fromJson_ops listed (parsed_tree decoded parsed)
  exact (mapM_some_forall₂ read).imp fun item op reads => PlogOp.fromJson_isOp reads

end

end LogosAccounts
