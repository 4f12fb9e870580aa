import LogosAccounts.Account
import LogosAccounts.BetterSign.Laws
import LogosAccounts.Functional.Except

/-! What the readers of a log say, in terms of the last item of `verify()`. Four
of them walk the whole chain and two take only the last item; on a fully
verified log they all see the same head. -/

namespace LogosAccounts
open BetterSign hiding mk
open Functional
variable [BetterSign]

/-- Every item of `verify()` is `Ok` and the last one carries `entry` and `kvp`. -/
structure VerifiedHead (log : Log) (entry : Entry) (kvp : Kvp) : Prop where
  all : AllVerified log
  last : ∃ n, (logVerify log).getLast? = some (.ok (n, entry, kvp))

theorem VerifiedHead.verified (head : VerifiedHead log entry kvp) : FullyVerified log := by
  obtain ⟨all, n, last⟩ := head
  refine ⟨?_, all⟩
  intro empty
  simp [empty] at last

theorem FullyVerified.head (verified : FullyVerified log) :
    ∃ entry kvp, VerifiedHead log entry kvp := by
  obtain ⟨nonempty, all⟩ := verified
  have found := List.getLast?_eq_getLast_of_ne_nil nonempty
  obtain ⟨⟨n, entry, kvp⟩, same⟩ := all _ (List.getLast_mem nonempty)
  exact ⟨entry, kvp, all, n, by rw [found, same]⟩

theorem VerifiedHead.last_entry (laws : VerifyLaws) {log : Log} {entry : Entry} {pairs : Kvp}
    (head : VerifiedHead log entry pairs) : log.entries.getLast? = some entry := by
  obtain ⟨all, n, last⟩ := head
  obtain ⟨init, walked⟩ := List.getLast?_eq_some_iff.mp last
  rw [← laws.entries log all, verifiedEntries, walked, List.filterMap_append]
  exact List.getLast?_concat

theorem VerifiedHead.keysOnce (laws : VerifyLaws) {log : Log} {entry : Entry} {pairs : Kvp}
    (head : VerifiedHead log entry pairs) : (pairs.map Prod.fst).Nodup := by
  obtain ⟨all, n, last⟩ := head
  exact laws.keysOnce log n entry pairs (List.mem_of_getLast? last)

/-- The pairs of the head are those the chain has stored. -/
theorem VerifiedHead.find_eq (laws : VerifyLaws) {log : Log} {entry : Entry} {pairs : Kvp}
    (head : VerifiedHead log entry pairs) (key : Key) : pairs.find key = pairsAfter log.entries key := by
  obtain ⟨all, n, last⟩ := head
  exact laws.pairs log n entry pairs all last key

/-- An appended entry applies its ops to what the chain has stored. -/
theorem pairsAfter_push (log : Log) (entry : Entry) (key : Key) :
    pairsAfter (log.push entry).entries key =
      entry.ops.foldl applyOp (pairsAfter log.entries) key := by
  simp [pairsAfter, Log.push]

private theorem scanVerified_snoc (keep : Entry → Kvp → α) (items : List VerifyItem) (n : Nat)
    (entry : Entry) (kvp : Kvp) (all : ∀ item ∈ items, ∃ found, item = .ok found) (any : Bool)
    (last : Option α) :
    scanVerified keep (items ++ [.ok (n, entry, kvp)]) any last =
      .ok (true, some (keep entry kvp)) := by
  induction items generalizing any last with
  | nil => rfl
  | cons item rest ih =>
    obtain ⟨⟨n', entry', kvp'⟩, rfl⟩ := all item (by simp)
    exact ih (fun other member => all other (by simp [member])) true (some (keep entry' kvp'))

private theorem scanVerified_sound {keep : Entry → Kvp → α} {items : List VerifyItem} {any : Bool}
    {last : Option α} {result : Bool × Option α}
    (success : scanVerified keep items any last = .ok result) :
    (∀ item ∈ items, ∃ found, item = .ok found) ∧ (result.1 = true → any = true ∨ items ≠ []) := by
  induction items generalizing any last with
  | nil =>
    obtain rfl : (any, last) = result := Except.ok.inj success
    exact ⟨by simp, .inl⟩
  | cons item rest ih =>
    cases item with
    | error failure => cases success
    | ok found =>
      obtain ⟨all, _⟩ := ih success
      refine ⟨?_, fun _ => .inr (by simp)⟩
      intro item member
      rcases List.mem_cons.mp member with same | later
      · exact ⟨found, same⟩
      · exact all item later

/-- After the loop, an item was seen exactly when one is remembered. -/
private theorem scanVerified_any {keep : Entry → Kvp → α} {items : List VerifyItem} {any : Bool}
    {last : Option α} {result : Bool × Option α} (initial : any = last.isSome)
    (success : scanVerified keep items any last = .ok result) : result.1 = result.2.isSome := by
  induction items generalizing any last with
  | nil =>
    obtain rfl : (any, last) = result := Except.ok.inj success
    exact initial
  | cons item rest ih =>
    cases item with
    | error failure => cases success
    | ok found => exact ih (by simp) success

private theorem scanVerified_failure {keep : Entry → Kvp → α} {items : List VerifyItem} {any : Bool}
    {last : Option α} {failure : Error} (failed : scanVerified keep items any last = .error failure) :
    ∃ detail, failure = .plogVerifyFailed detail := by
  induction items generalizing any last with
  | nil => cases failed
  | cons item rest ih =>
    cases item with
    | error detail =>
      cases failed
      exact ⟨detail, rfl⟩
    | ok found => exact ih failed

theorem VerifiedHead.scan (head : VerifiedHead log entry kvp) (keep : Entry → Kvp → α) :
    scanVerified keep (logVerify log) false none = .ok (true, some (keep entry kvp)) := by
  obtain ⟨all, n, last⟩ := head
  obtain ⟨init, same⟩ := List.getLast?_eq_some_iff.mp last
  rw [same]
  apply scanVerified_snoc
  intro item member
  exact all item (by simp [same, member])

theorem ensurePlogVerified_iff : ensurePlogVerified log = .ok () ↔ FullyVerified log := by
  constructor
  · intro success
    obtain ⟨⟨any, last⟩, scanned, success⟩ := except_bind_ok.mp success
    obtain ⟨all, nonempty⟩ := scanVerified_sound scanned
    cases any with
    | false => cases success
    | true => exact ⟨(nonempty rfl).resolve_left (by simp), all⟩
  · intro verified
    obtain ⟨entry, kvp, head⟩ := verified.head
    simp [ensurePlogVerified, head.scan]

/-- What `get_value` answers at a key, given the verified pairs. -/
def valueAt (kvp : Kvp) (key : Key) (path : String) : Except Error PlogPathValue :=
  match kvp.find key with
  | some v => .ok (pathValue v)
  | none => .error (.pathNotFound path)

theorem VerifiedHead.getPlogValue (head : VerifiedHead log entry kvp) (path : String) :
    LogosAccounts.getPlogValue log path = (parseKey path >>= fun key => valueAt kvp key path) := by
  unfold LogosAccounts.getPlogValue
  congr 1
  funext key
  rw [head.scan]
  rfl

theorem VerifiedHead.listDelegations {account : PlogAccount}
    (head : VerifiedHead account.log entry kvp) :
    account.listDelegations = .ok (delegationsOf entry kvp) := by
  unfold PlogAccount.listDelegations
  rw [head.scan]
  rfl

/-- The value at a key as the summary shows it. -/
def pubkeyText (kvp : Kvp) (key : Key) : Option String :=
  (kvp.find key).map fun v =>
    match pathValue v with
    | .bin s => s
    | .str s => s

theorem VerifiedHead.summary (head : VerifiedHead log entry kvp)
    (parses : keyTryFrom "/pubkey" = .ok key) :
    summaryFromVerifiedPlog log = .ok {
      vlad := encodeVlad log.vlad
      headCid := encodeCid log.head
      pubkey := pubkeyText kvp key } := by
  have checked := ensurePlogVerified_iff.mpr head.verified
  have read : LogosAccounts.getPlogValue log "/pubkey" = valueAt kvp key "/pubkey" := by
    rw [head.getPlogValue, parseKey, parses]
    rfl
  unfold summaryFromVerifiedPlog summaryPubkey
  rw [checked, read]
  simp only [except_ok_bind, valueAt, pubkeyText]
  cases kvp.find key with
  | none => rfl
  | some v => cases v <;> rfl

theorem summary_verified (success : summaryFromVerifiedPlog log = .ok summary) :
    FullyVerified log ∧ summary.vlad = encodeVlad log.vlad ∧
      summary.headCid = encodeCid log.head := by
  obtain ⟨_, checked, success⟩ := except_bind_ok.mp success
  obtain ⟨pubkey, _, success⟩ := except_bind_ok.mp success
  obtain rfl := Except.ok.inj success
  exact ⟨ensurePlogVerified_iff.mp checked, rfl, rfl⟩

theorem summary_rootKeyParses (success : summaryFromVerifiedPlog log = .ok summary) :
    RootKeyParses := by
  obtain ⟨_, _, success⟩ := except_bind_ok.mp success
  obtain ⟨pubkey, found, _⟩ := except_bind_ok.mp success
  cases parsed : keyTryFrom "/pubkey" with
  | ok key => exact ⟨key, parsed⟩
  | error e =>
    have unread : LogosAccounts.getPlogValue log "/pubkey" =
        .error (.invalidOp ("invalid key path /pubkey: " ++ e)) := by
      simp [LogosAccounts.getPlogValue, parseKey, parsed]
    simp [summaryPubkey, unread] at found

theorem VerifiedHead.lastVerified (head : VerifiedHead log entry kvp) :
    ∃ n, LogosAccounts.lastVerified log = .ok (n, entry, kvp) := by
  obtain ⟨n, last⟩ := head.last
  refine ⟨n, ?_⟩
  unfold LogosAccounts.lastVerified
  rw [last]
  rfl

theorem VerifiedHead.headEntry {account : PlogAccount} (head : VerifiedHead account.log entry kvp) :
    account.headEntry = .ok entry := by
  obtain ⟨n, last⟩ := head.lastVerified
  unfold PlogAccount.headEntry
  rw [last]
  rfl

theorem VerifiedHead.prepareNextEntry (head : VerifiedHead log entry kvp) (spec : NextEntrySpec) :
    LogosAccounts.prepareNextEntry log spec = nextEntryAfter log entry spec := by
  obtain ⟨n, last⟩ := head.lastVerified
  unfold LogosAccounts.prepareNextEntry
  rw [last]
  rfl

private theorem expect_scanned {keep : Entry → Kvp → α} {items : List VerifyItem}
    {last : Option α} (scanned : scanVerified keep items false none = .ok (true, last)) :
    ∃ value, last = some value :=
  Option.isSome_iff_exists.mp (scanVerified_any (by rfl) scanned).symm

theorem getPlogValue_no_panic (log : Log) (path message : String) :
    getPlogValue log path ≠ .error (.panic message) := by
  unfold getPlogValue parseKey
  cases keyTryFrom path with
  | error failure => simp
  | ok key =>
    simp only [mapError_ok, except_ok_bind]
    cases scanned : scanVerified (fun _ kvp => kvp) (logVerify log) false none with
    | error failure =>
      obtain ⟨detail, rfl⟩ := scanVerified_failure scanned
      simp
    | ok result =>
      obtain ⟨any, last⟩ := result
      cases any with
      | false => simp
      | true =>
        obtain ⟨kvp, rfl⟩ := expect_scanned scanned
        simp only [except_ok_bind, expect]
        cases kvp.find key <;> simp

theorem listDelegations_no_panic (account : PlogAccount) (message : String) :
    account.listDelegations ≠ .error (.panic message) := by
  unfold PlogAccount.listDelegations
  cases scanned : scanVerified (fun entry kvp => (entry, kvp)) (logVerify account.log) false none with
  | error failure =>
    obtain ⟨detail, rfl⟩ := scanVerified_failure scanned
    simp
  | ok result =>
    obtain ⟨any, last⟩ := result
    cases any with
    | false => simp
    | true =>
      obtain ⟨head, rfl⟩ := expect_scanned scanned
      simp [expect]

end LogosAccounts
