import LogosAccounts.Proof.AppendRule
import LogosAccounts.Proof.BinaryValues
import LogosAccounts.Proof.ListedGrants

/-! Whether a listed grant names a real key. The listing shows a stored string as it
is, and bytes through the Multikey they parse as; so the key is the stored one
exactly when what is stored are the bytes of a Multikey. -/

namespace LogosAccounts
open BetterSign hiding mk
open Functional

section
variable [BetterSign]

/-- The listed key decodes to the Multikey whose bytes are stored at the grant's path. -/
def NamesRealKey (log : Log) (d : PathDelegation) : Prop :=
  ∃ multikey leaf, decodeMultikey d.pubkey = .ok multikey ∧ keyTryFrom (d.path ++ "pubkey") = .ok leaf ∧
    pairsAfter log.entries leaf = some (.data (multikeyToBytes multikey))

/-- No string, and no bytes that parse as a Multikey of other bytes. -/
def Value.Genuine : Value → Prop
  | .str _ => False
  | .data d => Canonical d
  | .nil => True

/-- What is stored for the granting locks of the head is genuine. -/
def GenuineGrants (log : Log) : Prop :=
  ∀ last, log.entries.getLast? = some last → ∀ lock ∈ last.locks, lock.Grants →
    ∀ value, StoredFor log lock.path value → value.Genuine

theorem decode_encodeMultikey (multikeys : MultikeyLaws) (multikey : Multikey) :
    decodeMultikey (encodeMultikey multikey) = .ok multikey := by
  unfold decodeMultikey encodeMultikey
  rw [multikeys.encoded]
  rfl

theorem namesRealKey_iff (keys : KeyLaws) (multikeys : MultikeyLaws) {log : Log} {branch : Key}
    {value : Value} (stored : StoredFor log branch value) {d : PathDelegation}
    (shown : d.path = keyToString branch) (read : delegatedPubkey value = some d.pubkey) :
    NamesRealKey log d ↔ value.Genuine := by
  obtain ⟨leaf, parsed, found⟩ := stored
  have isKey : keyTryFrom (d.path ++ "pubkey") = .ok leaf := by
    rw [shown, keys.display]
    exact (delegatePubkeyKey_ok.mp parsed).2
  have real : NamesRealKey log d ↔ ∃ multikey, decodeMultikey d.pubkey = .ok multikey ∧
      value = .data (multikeyToBytes multikey) := by
    unfold NamesRealKey
    constructor
    · rintro ⟨multikey, leaf', decoded, isKey', found'⟩
      obtain rfl := Except.ok.inj (isKey.symm.trans isKey')
      exact ⟨multikey, decoded, Option.some.inj (found.symm.trans found')⟩
    · rintro ⟨multikey, decoded, rfl⟩
      exact ⟨multikey, leaf, decoded, isKey, found⟩
  rw [real]
  cases value with
  | str text =>
    constructor
    · rintro ⟨multikey, _, impossible⟩
      cases impossible
    · intro impossible
      cases impossible
  | nil => cases read
  | data bytes =>
    unfold delegatedPubkey at read
    cases parses : multikeyTryFrom bytes with
    | error e => simp [parses] at read
    | ok multikey =>
      simp only [parses, Option.some.injEq] at read
      rw [← read, decode_encodeMultikey multikeys]
      unfold Value.Genuine Canonical
      constructor
      · rintro ⟨multikey', same, stored⟩ other parses'
        obtain rfl := Except.ok.inj same
        obtain rfl := Except.ok.inj (parses.symm.trans parses')
        exact (Value.data.inj stored).symm
      · intro canonical
        exact ⟨multikey, rfl, by rw [canonical multikey parses]⟩

theorem listed_real_iff (keys : KeyLaws) (multikeys : MultikeyLaws) (verify : VerifyLaws)
    {account : PlogAccount} {last : Entry} {pairs : Kvp}
    (head : VerifiedHead account.log last pairs) :
    (∀ d ∈ delegationsOf last pairs, NamesRealKey account.log d) ↔ GenuineGrants account.log := by
  have isLast := head.last_entry verify
  constructor
  · intro real last' isLast' lock member grants value stored
    obtain rfl := Option.some.inj (isLast.symm.trans isLast')
    cases read : delegatedPubkey value with
    | some pubkey =>
      let d : PathDelegation := ⟨keyToString lock.path, pubkey⟩
      have listed : d ∈ delegationsOf last pairs :=
        (head.mem_listing verify).mpr ⟨lock, member, grants, rfl, value, stored, read⟩
      exact (namesRealKey_iff keys multikeys stored rfl read).mp (real d listed)
    | none =>
      -- what cannot be read as a key is not a string and parses as no Multikey
      cases value with
      | str text => cases read
      | nil => trivial
      | data bytes =>
        intro multikey parses
        simp [delegatedPubkey, parses] at read
  · intro genuine d member
    obtain ⟨lock, member, grants, shown, value, stored, read⟩ := (head.mem_listing verify).mp member
    exact (namesRealKey_iff keys multikeys stored shown read).mpr
      (genuine last isLast lock member grants value stored)

/-- What is stored at the delegate keys of branches other than the root is genuine. -/
def GenuineStore (log : Log) : Prop :=
  ∀ branch value, keyAsStr branch ≠ "/" → StoredFor log branch value → value.Genuine

def NamesDelegateKey (key : String) : Prop :=
  ∃ branch leaf, keyAsStr branch ≠ "/" ∧ delegatePubkeyKey branch = .ok leaf ∧
    keyTryFrom key = .ok leaf

/-- The op stores at a delegate key neither a string nor bytes that parse as a
Multikey of other bytes. -/
def PlogOp.KeepsGenuine : PlogOp → Prop
  | .noop _ | .delete _ => True
  | .update key (.str _) => ¬ NamesDelegateKey key
  | .update key (.data text) =>
    NamesDelegateKey key → ∀ bytes, decodeBytesMultibase text = .ok bytes → Canonical bytes

/-- Only a raw request can store something else at a delegate key. -/
def AccountOp.KeepsGenuine : AccountOp → Prop
  | .prepareUpdate requestJson => ∀ request, parseEntryUpdateRequest requestJson = .ok request →
    ∀ op ∈ request.ops, op.KeepsGenuine
  | .prepareDelegate _ _ | .prepareRevoke _ | .commitUpdate _ _ | .cancelUpdate _ => True

def Op.KeepsGenuine : Op → Prop
  | .noop _ | .delete _ => True
  | .update leaf value => ∀ branch, keyAsStr branch ≠ "/" → delegatePubkeyKey branch = .ok leaf →
    value.Genuine

theorem GenuineStore.grants {log : Log} (store : GenuineStore log) : GenuineGrants log := by
  intro last _ lock _ grants value stored
  exact store lock.path value grants.notRoot stored

theorem applyOps_some {ops : List Op} {pairs : Key → Option Value} {key : Key} {value : Value}
    (stored : ops.foldl applyOp pairs key = some value) :
    pairs key = some value ∨ .update key value ∈ ops := by
  induction ops generalizing pairs with
  | nil => exact .inl stored
  | cons op rest ih =>
    rcases ih stored with before | later
    · cases op with
      | noop other => exact .inl before
      | delete other =>
        by_cases same : key = other
        · simp [applyOp, same] at before
        · exact .inl (by simpa [applyOp, same] using before)
      | update other written =>
        by_cases same : key = other
        · subst other
          obtain rfl : written = value := by simpa [applyOp] using before
          exact .inr List.mem_cons_self
        · exact .inl (by simpa [applyOp, same] using before)
    · exact .inr (List.mem_cons_of_mem _ later)

theorem built_keepsGenuine (opLaw : OpLaw) {op : PlogOp} {built : Op}
    (made : (op.intoOpParams >>= opFromParams) = .ok built) (keeps : op.KeepsGenuine) :
    built.KeepsGenuine := by
  obtain ⟨params, converted, opened⟩ := except_bind_ok.mp made
  cases op with
  | noop name =>
    obtain ⟨key, _, converted⟩ := except_bind_ok.mp converted
    obtain rfl := Except.ok.inj converted
    obtain rfl := opLaw _ _ (mapError_eq_ok.mp opened)
    trivial
  | delete name =>
    obtain ⟨key, _, converted⟩ := except_bind_ok.mp converted
    obtain rfl := Except.ok.inj converted
    obtain rfl := opLaw _ _ (mapError_eq_ok.mp opened)
    trivial
  | update name value =>
    obtain ⟨leaf, parsed, converted⟩ := except_bind_ok.mp converted
    have isKey := parseKey_ok.mp parsed
    cases value with
    | str text =>
      obtain rfl := Except.ok.inj converted
      obtain rfl := opLaw _ _ (mapError_eq_ok.mp opened)
      intro branch notRoot isLeaf
      exact absurd ⟨branch, leaf, notRoot, isLeaf, isKey⟩ keeps
    | data text =>
      obtain ⟨bytes, decoded, converted⟩ := except_bind_ok.mp converted
      obtain rfl := Except.ok.inj converted
      obtain rfl := opLaw _ _ (mapError_eq_ok.mp opened)
      intro branch notRoot isLeaf
      exact keeps ⟨branch, leaf, notRoot, isLeaf, isKey⟩ bytes decoded

theorem canonical_multikey (multikeys : MultikeyLaws) (multikey : Multikey) :
    Canonical (multikeyToBytes multikey) := by
  intro other parses
  obtain rfl := Except.ok.inj ((multikeys.bytes multikey).symm.trans parses)
  rfl

/-- The sugar stores the bytes of a Multikey or deletes, and a raw request stores what
it is allowed to. -/
theorem genuine_rule (keys : KeyLaws) (multikeys : MultikeyLaws) (entries : EntryLaws)
    (opLaw : OpLaw) :
    AppendRule AccountOp.KeepsGenuine (fun _ entry => ∀ op ∈ entry.ops, op.KeepsGenuine)
      GenuineStore where
  prepared account op input unsigned verified _ allowed asked built := by
    obtain ⟨last, pairs, head⟩ := verified.head
    obtain ⟨_, _, _, opened⟩ := unsignedEntry_fields entries head built
    cases op with
    | prepareUpdate requestJson =>
      have given : PlogAccount.updateSpec requestJson = .ok input := Option.some.inj asked
      obtain ⟨request, parsed, _⟩ := except_bind_ok.mp given
      obtain ⟨converted, _⟩ := updateSpec_ok parsed given
      intro op member
      obtain ⟨requested, member, made⟩ := forall₂_partner (mapM_bind_ok converted opened).flip member
      exact built_keepsGenuine opLaw made (allowed request parsed requested member)
    | prepareDelegate path pubkeyMultibase =>
      have given : account.delegateSpec path pubkeyMultibase = .ok input := Option.some.inj asked
      obtain ⟨branch, multikey, _, accepted, decoded, _⟩ := delegateSpec_ok given
      obtain ⟨leaf, op, _, made, ops, _⟩ := delegate_entry keys entries head accepted decoded given built
      obtain rfl := opLaw _ _ made
      rw [ops]
      intro op member
      obtain rfl := List.mem_singleton.mp member
      exact fun _ _ _ => canonical_multikey multikeys multikey
    | prepareRevoke path =>
      obtain ⟨_, leaf, _, deletes⟩ := revokeSpec_edit (Option.some.inj asked)
      rw [deletes] at opened
      generalize unsigned.entry.ops = ops at opened ⊢
      cases mapM_ok_iff.mp opened with
      | cons made none =>
        obtain rfl := opLaw _ _ (mapError_eq_ok.mp made)
        cases none
        intro op member
        obtain rfl := List.mem_singleton.mp member
        trivial
    | commitUpdate id signature => cases asked
    | cancelUpdate id => cases asked
  appended log unsigned entry _ store keeps same _ branch value notRoot stored := by
    obtain ⟨leaf, isLeaf, stored⟩ := stored
    obtain ⟨sameOps, _⟩ := Entry.same_fields same
    rw [pairsAfter_push, sameOps] at stored
    rcases applyOps_some stored with before | written
    · exact store branch value notRoot ⟨leaf, isLeaf, before⟩
    · exact keeps _ written branch notRoot isLeaf

/-- In every reached account all listed grants name real keys exactly when the values
stored for the granting locks of its head are genuine; and they do after every run
that starts from a genuine store and whose raw requests keep it genuine. -/
theorem listed_grants_real_iff (keys : KeyLaws) (multikeys : MultikeyLaws) (entries : EntryLaws)
    (opLaw : OpLaw) (append : AppendLaws) (verify : VerifyLaws) :
    (∀ account : PlogAccount, account.Reached → ∃ list, account.listDelegations = .ok list ∧
      ((∀ d ∈ list, NamesRealKey account.log d) ↔ GenuineGrants account.log)) ∧
    ∀ (start : PlogAccount) (run : List (AccountOp × Ambient)), start.Opened →
      GenuineStore start.log → (∀ action ∈ run, action.1.KeepsGenuine) →
      ∃ list, (accountMachine.after start run).listDelegations = .ok list ∧
        ∀ d ∈ list, NamesRealKey (accountMachine.after start run).log d := by
  have exactly : ∀ account : PlogAccount, account.Reached →
      ∃ list, account.listDelegations = .ok list ∧
        ((∀ d ∈ list, NamesRealKey account.log d) ↔ GenuineGrants account.log) := by
    intro account reached
    obtain ⟨last, pairs, head⟩ := (reached.verified append).head
    exact ⟨_, head.listDelegations, listed_real_iff keys multikeys verify head⟩
  refine ⟨exactly, ?_⟩
  intro start run opened genuine keeps
  have store : GenuineStore (accountMachine.after start run).log :=
    (genuine_rule keys multikeys entries opLaw).run entries append opened genuine keeps
  obtain ⟨list, listed, real⟩ := exactly _ (opened.reached run)
  exact ⟨list, listed, real.mpr store.grants⟩

end

section
open Reference

theorem openedAccount_genuine : GenuineStore openedAccount.log := by
  intro branch value _ stored
  obtain ⟨leaf, _, stored⟩ := stored
  rcases applyOps_some stored with before | written
  · cases before
  · have first : openedAccount.log.entries.flatMap Entry.ops =
        [.update entryKeyPath (.data (multikeyToBytes _)),
          .update pubkeyPath (.data (multikeyToBytes _))] := rfl
    rw [first] at written
    rcases List.mem_pair.mp written with entryKey | pubkey
    · obtain ⟨rfl, rfl⟩ := Op.update.inj entryKey
      exact canonical_multikey multikeyLaws _
    · obtain ⟨rfl, rfl⟩ := Op.update.inj pubkey
      exact canonical_multikey multikeyLaws rootKey

theorem listed_grants_real_iff_delegation :
    (∃ list, (accountMachine.after openedAccount delegationOps).listDelegations = .ok list ∧
      ((∀ d ∈ list, NamesRealKey (accountMachine.after openedAccount delegationOps).log d) ↔
        GenuineGrants (accountMachine.after openedAccount delegationOps).log)) ∧
    ∃ list, (accountMachine.after openedAccount delegationOps).listDelegations = .ok list ∧
      ∀ d ∈ list, NamesRealKey (accountMachine.after openedAccount delegationOps).log d := by
  have holds := listed_grants_real_iff keyLaws multikeyLaws entryLaws opLaw appendLaws verifyLaws
  refine ⟨holds.1 _ (openedAccount_opened.reached delegationOps), ?_⟩
  apply holds.2 openedAccount delegationOps openedAccount_opened openedAccount_genuine
  intro action member
  rcases List.mem_pair.mp member with rfl | rfl <;> trivial

def nicknameRun : List (AccountOp × Ambient) :=
  [(.prepareUpdate (printJson nicknameTree), sampleAmbient 1 0),
    (.commitUpdate "uAAAAAAAAAAAAAAAAAAAAAA" "uAQK3zmtL", sampleAmbient 2 9)]

/-- The nickname is listed as the delegate's key. -/
theorem nickname_is_listed :
    (accountMachine.after openedAccount nicknameRun).Reached ∧
    (accountMachine.after openedAccount nicknameRun).listDelegations = .ok [⟨"/a/", "ada"⟩] ∧
    decodeMultikey "ada" = .error (.encoding "not multibase") ∧
    ¬ NamesRealKey (accountMachine.after openedAccount nicknameRun).log ⟨"/a/", "ada"⟩ := by
  have undecoded : decodeMultikey "ada" = .error (.encoding "not multibase") := by decide +kernel
  refine ⟨openedAccount_opened.reached _, by decide +kernel, undecoded, ?_⟩
  rintro ⟨multikey, leaf, decoded, _⟩
  rw [undecoded] at decoded
  cases decoded

end

end LogosAccounts
