import Mathlib.Data.List.Basic

/-! The data of the BetterSign crates as the module sees it. Types the code only
hands on are left abstract; records and enumerations the code builds or takes
apart are spelled out. -/

namespace LogosAccounts

abbrev Bytes := List UInt8

/-- Types of the upstream crates that the code handles only through their API. -/
class Upstream where
  Base : Type
  Codec : Type
  Key : Type
  Vlad : Type
  Cid : Type
  Multikey : Type
  Multisig : Type
  Rng : Type
  codecEq : Codec → Codec → Bool
  codecEq_iff : ∀ left right, codecEq left right = true ↔ left = right
  keyEq : Key → Key → Bool
  keyEq_iff : ∀ left right, keyEq left right = true ↔ left = right

export Upstream (Base Codec Key Vlad Cid Multikey Multisig Rng)

variable [Upstream]

instance : DecidableEq Codec := fun left right =>
  decidable_of_iff _ (Upstream.codecEq_iff left right)

instance : DecidableEq Key := fun left right =>
  decidable_of_iff _ (Upstream.keyEq_iff left right)

/-- A lock or unlock script bound to a key path. The code looks only into
`Code` scripts; every other variant is `other`. -/
inductive Script where
  | code (path : Key) (source : String)
  | other (path : Key) (body : Bytes)
  deriving DecidableEq

def Script.path : Script → Key
  | .code path _ => path
  | .other path _ => path

inductive Value where
  | str (text : String)
  | data (bytes : Bytes)
  | nil
  deriving DecidableEq

inductive Op where
  | noop (key : Key)
  | delete (key : Key)
  | update (key : Key) (value : Value)
  deriving DecidableEq

/-- BetterSign's op parameters. The code never reads the fields of `KeyGen` and
`CidGen`. -/
inductive OpParams where
  | noop (key : Key)
  | delete (key : Key)
  | useCid (key : Key) (cid : Cid)
  | useKey (key : Key) (mk : Multikey)
  | useStr (key : Key) (s : String)
  | useBin (key : Key) (data : Bytes)
  | keyGen
  | cidGen

/-- A log entry: what its builder sets, and the proof. -/
structure Entry where
  version : UInt64
  vlad : Vlad
  prev : Cid
  lipmaa : Option Cid
  seqno : UInt64
  ops : List Op
  locks : List Script
  unlock : Script
  proof : Bytes

def Entry.unsigned (entry : Entry) : Entry := { entry with proof := [] }

theorem Entry.same_fields {entry other : Entry} (same : entry.unsigned = other.unsigned) :
    entry.ops = other.ops ∧ entry.locks = other.locks ∧ entry.prev = other.prev ∧
      entry.seqno = other.seqno := by
  simp only [Entry.unsigned, Entry.mk.injEq] at same
  obtain ⟨_, _, prev, _, seqno, ops, locks, _⟩ := same
  exact ⟨ops, locks, prev, seqno⟩

/-- A provenance log: the header fields the code reads, and the entries in the
order they were appended. -/
structure Log where
  vlad : Vlad
  head : Cid
  entries : List Entry

/-- The key-value pairs at an entry, in iteration order. -/
abbrev Kvp := List (Key × Value)

def Kvp.find (kvp : Kvp) (key : Key) : Option Value := List.lookup key kvp

/-- What `Log::verify` yields for one entry: its position, the entry and the
pairs it leaves, or the text of the error. -/
abbrev VerifyItem := Except String (Nat × Entry × Kvp)

structure OpenConfig where
  vladCodec : Codec
  firstEntryCodec : Codec
  pubkeyCodec : Codec
  lock : Script
  unlock : Script

end LogosAccounts
