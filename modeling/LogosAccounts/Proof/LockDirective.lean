import Mathlib.Data.Option.Basic
import LogosAccounts.BetterSign.Reference
import LogosAccounts.Proof.RequestJson

/-! Which directive a lock object gives. The variants are told apart by the first
that fits, and each skips the members it does not name; so what an object with
several directives loses is decided by the order of the variants. -/

namespace LogosAccounts
open BetterSign hiding mk

def isDirective (member : String × Json) : Bool :=
  member.1 == "replace" || member.1 == "upsert" || member.1 == "remove"

/-- The variant of a member and its contents. -/
def LockSpec.ofDirective (member : String × Json) : Option LockSpec :=
  match member.1 with
  | "replace" => (Json.listOf LockScriptJson.fromJson member.2).map .replace
  | "upsert" => (LockScriptJson.fromJson member.2).map .upsert
  | "remove" => member.2.asString.map .remove
  | _ => none

/-- The `locks` of a request that gives its fields by name or in order. -/
def Json.requestLocks : Json → Option Json
  | .obj members => (members.find? fun member => member.1 = "locks").map Prod.snd
  | .arr items => items[0]?
  | _ => none

theorem LockSpec.ofDirective_some {member : String × Json} {spec : LockSpec}
    (reads : ofDirective member = some spec) : isDirective member = true := by
  unfold ofDirective at reads
  split at reads
  · rename_i named
    simp [isDirective, named]
  · rename_i named
    simp [isDirective, named]
  · rename_i named
    simp [isDirective, named]
  · cases reads

/-- A lock object is read as the variant of one of its directives. -/
theorem LockSpec.fromJson_directive {members : List (String × Json)} {spec : LockSpec}
    (found : LockSpec.fromJson (.obj members) = some spec) :
    ∃ directive ∈ members, LockSpec.ofDirective directive = some spec := by
  have variant {α : Type} {read : Json → Option α} {wrap : α → LockSpec} {name : String}
      (found : (Json.member read members name).map wrap = some spec) :
      ∃ content, (name, content) ∈ members ∧ (read content).map wrap = some spec := by
    obtain ⟨value, stored, rfl⟩ := Option.map_eq_some_iff.mp found
    obtain ⟨content, holds, reads⟩ := Json.member_holds stored
    exact ⟨content, holds.mem, by rw [reads, Option.map_some]⟩
  rcases (Option.orElse_eq_some _ _ _).mp found with replaces | ⟨_, found⟩
  · obtain ⟨content, member, reads⟩ := variant replaces
    exact ⟨("replace", content), member, reads⟩
  · rcases (Option.orElse_eq_some _ _ _).mp found with upserts | ⟨_, removes⟩
    · obtain ⟨content, member, reads⟩ := variant upserts
      exact ⟨("upsert", content), member, reads⟩
    · obtain ⟨content, member, reads⟩ := variant removes
      exact ⟨("remove", content), member, reads⟩

theorem EntryUpdateRequest.fromJson_locks {json locks : Json} {request : EntryUpdateRequest}
    (located : json.requestLocks = some locks) (found : EntryUpdateRequest.fromJson json = some request) :
    LockSpec.fromJson locks = some request.locks := by
  cases json with
  | obj members => exact Json.memberOr_some located (EntryUpdateRequest.fromJson_obj found).1
  | arr items =>
    have first : items[0]? = some locks := located
    simpa [first] using (EntryUpdateRequest.fromJson_arr found).1
  | null => cases located
  | bool value => cases located
  | number literal => cases located
  | str text => cases located

section
variable [BetterSign]

/-- Of every accepted request whose `locks` is an object, the object holds exactly
one directive and the spec is its variant, exactly when it holds at most one. -/
theorem lock_directive_read_iff {text : String} {json : Json} {members : List (String × Json)}
    {request : EntryUpdateRequest} (decoded : jsonFromStr text = .ok json)
    (located : json.requestLocks = some (.obj members))
    (parsed : parseEntryUpdateRequest text = .ok request) :
    (∃ directive, members.filter isDirective = [directive] ∧
      LockSpec.ofDirective directive = some request.locks) ↔
    (members.filter isDirective).length ≤ 1 := by
  constructor
  · rintro ⟨directive, only, _⟩
    rw [only]
    exact le_rfl
  · intro atMostOne
    obtain ⟨directive, member, reads⟩ := LockSpec.fromJson_directive
      (EntryUpdateRequest.fromJson_locks located (parsed_tree decoded parsed))
    have given : directive ∈ members.filter isDirective :=
      List.mem_filter.mpr ⟨member, LockSpec.ofDirective_some reads⟩
    obtain ⟨first, only⟩ := List.length_eq_one_iff.mp
      (le_antisymm atMostOne (List.length_pos_of_mem given))
    rw [only] at given
    obtain rfl := List.mem_singleton.mp given
    exact ⟨directive, only, reads⟩

end

section
open Reference

/-- A request that upserts one lock and removes another is accepted as the upsert,
and the lock to be removed stays. -/
theorem second_directive_ignored :
    ∃ members request, mixedTree.requestLocks = some (.obj members) ∧
      jsonFromStr (printJson mixedTree) = .ok mixedTree ∧
      parseEntryUpdateRequest (printJson mixedTree) = .ok request ∧
      request.locks = .upsert ⟨"/a/", "c"⟩ ∧
      members.filter isDirective =
        [("upsert", .obj [("path", .str "/a/"), ("code", .str "c")]), ("remove", .str "/b/")] ∧
      ¬ ∃ directive, members.filter isDirective = [directive] ∧
        LockSpec.ofDirective directive = some request.locks := by
  have parsed : parseEntryUpdateRequest (printJson mixedTree) =
      .ok ⟨.upsert ⟨"/a/", "c"⟩, [], none⟩ := by decide +kernel
  refine ⟨_, _, rfl, by rfl, parsed, rfl, rfl, ?_⟩
  rintro ⟨directive, only, _⟩
  cases only

theorem lock_directive_read_iff_remove :
    (∃ directive, [("remove", Json.str "/b/")].filter isDirective = [directive] ∧
      LockSpec.ofDirective directive = some (.remove "/b/")) ↔
    ([("remove", Json.str "/b/")].filter isDirective).length ≤ 1 := by
  have decoded : jsonFromStr (printJson removeTree) = .ok removeTree := by rfl
  have parsed : parseEntryUpdateRequest (printJson removeTree) = .ok ⟨.remove "/b/", [], none⟩ := by
    decide +kernel
  exact lock_directive_read_iff decoded rfl parsed

end

end LogosAccounts
