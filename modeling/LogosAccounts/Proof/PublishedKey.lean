import LogosAccounts.Proof.ExportImport
import LogosAccounts.Proof.GrantRun

/-! Which Multikey a typed key argument puts into the log. Creation converts a
secret key to its public one first; a delegation takes the key as it comes. -/

namespace LogosAccounts
open BetterSign hiding mk
open Functional

section
variable [BetterSign]

/-- Every Multikey the entry's updates store is public. -/
def PublishesPublic (entry : Entry) : Prop :=
  ∀ key bytes multikey, Op.update key (.data bytes) ∈ entry.ops →
    multikeyTryFrom bytes = .ok multikey → IsPublic multikey

/-- Every Multikey the list has at the path is public. -/
def ListsPublic (list : List PathDelegation) (path : String) : Prop :=
  ∀ d ∈ list, d.path = path → ∀ multikey, decodeMultikey d.pubkey = .ok multikey → IsPublic multikey

/-- A public Multikey stands for itself, a secret one for the public key it is
converted to. -/
inductive PublicOf : Multikey → Multikey → Prop where
  | itself (multikey : Multikey) (isPublic : IsPublic multikey) : PublicOf multikey multikey
  | converted (multikey pub : Multikey) (secret : isSecretKey multikey = .ok true)
      (made : toPublicKey multikey = .ok pub) : PublicOf multikey pub

theorem ensurePublicMultikey_ok {multikey pub : Multikey} :
    ensurePublicMultikey multikey = .ok pub ↔ PublicOf multikey pub := by
  unfold ensurePublicMultikey
  rw [except_bind_ok]
  constructor
  · rintro ⟨secret, asked, success⟩
    have answer := mapError_eq_ok.mp asked
    cases secret with
    | true => exact .converted multikey pub answer (mapError_eq_ok.mp success)
    | false =>
      obtain rfl := Except.ok.inj success
      exact .itself multikey answer
  · intro stands
    cases stands with
    | itself isPublic => exact ⟨false, mapError_eq_ok.mpr isPublic, rfl⟩
    | converted _ secret made => exact ⟨true, mapError_eq_ok.mpr secret, mapError_eq_ok.mpr made⟩

theorem PublicOf.isPublic (toPublic : ToPublicLaw) {multikey pub : Multikey}
    (stands : PublicOf multikey pub) : IsPublic pub := by
  cases stands with
  | itself isPublic => exact isPublic
  | converted _ secret made => exact toPublic _ _ made

/-- A log opened for a Multikey holds at `/pubkey` the public key it stands for. -/
theorem opened_public (openLaw : OpenLaw) {multikey : Multikey} {rng : Rng} {log : Log}
    (opened : openPlogWithExternalPubkey multikey rng = .ok log) :
    ∃ pub, PublicOf multikey pub ∧
      pairsAfter log.entries pubkeyKeyPath = some (.data (multikeyToBytes pub)) := by
  obtain ⟨helper, made, opened⟩ := except_bind_ok.mp opened
  obtain ⟨pub, ensured, made⟩ := except_bind_ok.mp made
  obtain rfl := Except.ok.inj made
  obtain ⟨stored, returned, found⟩ := openLaw _ _ _ _ opened
  have same : stored = pub := by
    simpa [EphemeralOpenHelper.getRootOrErr, pubkeyKeyPath] using returned.symm
  subst stored
  exact ⟨pub, ensurePublicMultikey_ok.mp ensured, found⟩

theorem created_public (openLaw : OpenLaw) (rootPath : RootKeyPath) (multikeys : MultikeyLaws)
    (verify : VerifyLaws) {pubkeyMultibase : String} {ambient : Ambient} {account : PlogAccount}
    {summary : AccountSummary}
    (created : PlogAccount.create pubkeyMultibase ambient = .ok (account, summary)) :
    ∃ multikey pub, decodeMultikey pubkeyMultibase = .ok multikey ∧ PublicOf multikey pub ∧
      summary.pubkey = some (encodeMultikey pub) ∧
      account.getValue "/pubkey" = .ok (.bin (encodeMultikey pub)) := by
  obtain ⟨multikey, decoded, created⟩ := except_bind_ok.mp created
  obtain ⟨log, opened, created⟩ := except_bind_ok.mp created
  obtain ⟨pub, stands, found⟩ := opened_public openLaw opened
  obtain ⟨_, summarised, created⟩ := except_bind_ok.mp created
  cases created
  obtain ⟨last, pairs, head⟩ := (summary_verified summarised).1.head
  have stored : pairs.find pubkeyParamsKeyPath = some (.data (multikeyToBytes pub)) :=
    (head.find_eq verify _).trans found
  have shown : pathValue (.data (multikeyToBytes pub)) = .bin (encodeMultikey pub) := by
    simp [pathValue, encodeBinValue, multikeys.bytes]
  refine ⟨multikey, pub, decoded, stands, ?_, ?_⟩
  · rw [head.summary rootPath] at summarised
    obtain rfl := Except.ok.inj summarised
    simp [pubkeyText, stored, shown]
  · unfold PlogAccount.getValue
    rw [head.getPlogValue, parseKey_ok.mpr rootPath, except_ok_bind, valueAt, stored]
    exact congrArg Except.ok shown

theorem publishes_one (multikeys : MultikeyLaws) {entry : Entry} {key : Key} {multikey : Multikey}
    (ops : entry.ops = [.update key (.data (multikeyToBytes multikey))]) :
    PublishesPublic entry ↔ IsPublic multikey := by
  unfold PublishesPublic
  rw [ops]
  constructor
  · intro allPublic
    exact allPublic key _ multikey (by simp) (multikeys.bytes multikey)
  · intro isPublic key' bytes found member reads
    obtain ⟨rfl, rfl⟩ : key' = key ∧ bytes = multikeyToBytes multikey := by simpa using member
    obtain rfl := Except.ok.inj ((multikeys.bytes multikey).symm.trans reads)
    exact isPublic

/-- A prepared delegation stores the Multikey it was given, so it publishes only
public keys exactly when that one is public. -/
theorem delegated_public_iff (keys : KeyLaws) (multikeys : MultikeyLaws) (entries : EntryLaws)
    (opLaw : OpLaw) {account : PlogAccount} (verified : FullyVerified account.log)
    {path pubkeyMultibase : String} {multikey : Multikey}
    (decoded : decodeMultikey pubkeyMultibase = .ok multikey) {input : PrepareEntrySpec}
    (given : account.delegateSpec path pubkeyMultibase = .ok input) {unsigned : UnsignedUpdate}
    (built : account.unsignedEntry input = .ok unsigned) {entry : Entry}
    (same : entry.unsigned = unsigned.entry.unsigned) : PublishesPublic entry ↔ IsPublic multikey := by
  obtain ⟨last, pairs, head⟩ := verified.head
  obtain ⟨branch, accepted, _⟩ := except_bind_ok.mp given
  obtain ⟨pkKey, op, _, made, ops, _⟩ := delegate_entry keys entries head accepted decoded given built
  obtain rfl := opLaw _ _ made
  exact publishes_one multikeys ((Entry.same_fields same).1.trans ops)

theorem grant_listed (multikeys : MultikeyLaws) (path : String) (multikey : Multikey)
    (list : List PathDelegation) :
    ⟨path, encodeMultikey multikey⟩ ∈ (GrantEdit.grant path (encodeMultikey multikey)).apply list ∧
      (ListsPublic ((GrantEdit.grant path (encodeMultikey multikey)).apply list) path ↔
        IsPublic multikey) := by
  have own : ⟨path, encodeMultikey multikey⟩ ∈
      (GrantEdit.grant path (encodeMultikey multikey)).apply list := by
    simp [GrantEdit.apply, mem_sortBy]
  have decoded : decodeMultikey (encodeMultikey multikey) = .ok multikey :=
    mapError_eq_ok.mpr (multikeys.encoded multikey)
  refine ⟨own, ?_⟩
  constructor
  · intro allPublic
    exact allPublic _ own rfl multikey decoded
  · intro isPublic d member atPath found reads
    have only : d = ⟨path, encodeMultikey multikey⟩ := by
      simpa [GrantEdit.apply, mem_sortBy, atPath] using member
    rw [only] at reads
    obtain rfl := Except.ok.inj (decoded.symm.trans reads)
    exact isPublic

/-- What the commit of a delegation appends to the log, and what is then listed at its path. -/
theorem committed_delegation (keys : KeyLaws) (multikeys : MultikeyLaws) (entries : EntryLaws)
    (opLaw : OpLaw) (append : AppendLaws) (verify : VerifyLaws) {account : PlogAccount}
    (verified : FullyVerified account.log) {path pubkeyMultibase : String} {preparing : Ambient}
    {between : List (AccountOp × Ambient)} {commit : AccountOp × Ambient}
    {challenge : UpdateChallenge}
    (commits : PreparedCommit account (.prepareDelegate path pubkeyMultibase, preparing) between
      commit challenge) :
    ∃ multikey entry listed, decodeMultikey pubkeyMultibase = .ok multikey ∧
      (accountMachine.after account ((.prepareDelegate path pubkeyMultibase, preparing) :: between ++
        [commit])).log = account.log.push entry ∧
      (accountMachine.after account ((.prepareDelegate path pubkeyMultibase, preparing) :: between ++
        [commit])).listDelegations = .ok listed ∧
      ⟨path, encodeMultikey multikey⟩ ∈ listed ∧
      (PublishesPublic entry ↔ IsPublic multikey) ∧ (ListsPublic listed path ↔ IsPublic multikey) := by
  obtain ⟨input, unsigned, entry, asked, built, _, _, same, extended, after⟩ :=
    committed_entry entries append commits
  have given : account.delegateSpec path pubkeyMultibase = .ok input := Option.some.inj asked
  obtain ⟨_, multikey, _, _, decoded, _⟩ := delegateSpec_ok given
  obtain ⟨last, pairs, head⟩ := verified.head
  have edits := delegate_edits keys multikeys entries opLaw verify verified decoded given built
  obtain ⟨listed, _⟩ := edits entry same extended account
    (accountMachine.after account ((.prepareDelegate path pubkeyMultibase, preparing) :: between ++
      [commit])) rfl (by rw [after]) _ head.listDelegations
  obtain ⟨own, isListed⟩ := grant_listed multikeys path multikey (delegationsOf last pairs)
  exact ⟨multikey, entry, _, decoded, by rw [after], listed, own,
    delegated_public_iff keys multikeys entries opLaw verified decoded given built same, isListed⟩

/-- In every reachable state, an account that `create_account` makes has at
`/pubkey` the public key that the given Multikey is or is converted to. A delegation
publishes only public keys exactly when the given Multikey is public: in the entry
that `prepare_delegate` prepares, and in the log and the list after its commit. -/
theorem typed_key_published (keys : KeyLaws) (multikeys : MultikeyLaws) (entries : EntryLaws)
    (opLaw : OpLaw) (append : AppendLaws) (verify : VerifyLaws) (rootPath : RootKeyPath)
    (toPublic : ToPublicLaw) (openLaw : OpenLaw) {cache : AccountCache}
    (reachable : Reachable cache) (ambient : Ambient) (pubkeyMultibase : String) :
    (∀ summary, (AccountsModule.dispatch cache (.createAccount pubkeyMultibase)
        ambient).2.response = .summary summary →
      ∃ multikey pub key account, decodeMultikey pubkeyMultibase = .ok multikey ∧
        PublicOf multikey pub ∧ IsPublic pub ∧ summary.pubkey = some (encodeMultikey pub) ∧
        (AccountsModule.dispatch cache (.createAccount pubkeyMultibase) ambient).1.get
          summary.vlad = .ok (key, account) ∧
        account.getValue "/pubkey" = .ok (.bin (encodeMultikey pub))) ∧
    (∀ vlad path challenge, (AccountsModule.dispatch cache (.prepareDelegate vlad path pubkeyMultibase)
        ambient).2.response = .challenge challenge →
      ∃ multikey key account p, decodeMultikey pubkeyMultibase = .ok multikey ∧
        (AccountsModule.dispatch cache (.prepareDelegate vlad path pubkeyMultibase) ambient).1.get
          vlad = .ok (key, account) ∧
        account.pending.lookup challenge.challengeId = some p ∧
        challenge.messageMultibase = encodeBytesMultibase (entryToBytes p.unsigned.entry) ∧
        (PublishesPublic p.unsigned.entry ↔ IsPublic multikey)) ∧
    (∀ vlad key account, cache.get vlad = .ok (key, account) →
      ∀ path between commit challenge,
        PreparedCommit account (.prepareDelegate path pubkeyMultibase, ambient) between commit challenge →
        ∀ account', account' = accountMachine.after account
            ((.prepareDelegate path pubkeyMultibase, ambient) :: between ++ [commit]) →
          ∃ multikey entry listed, decodeMultikey pubkeyMultibase = .ok multikey ∧
            account'.exportPlog = encodePlog (account.log.push entry) ∧
            account'.listDelegations = .ok listed ∧ ⟨path, encodeMultikey multikey⟩ ∈ listed ∧
            (PublishesPublic entry ↔ IsPublic multikey) ∧
            (ListsPublic listed path ↔ IsPublic multikey)) := by
  refine ⟨?_, ?_, ?_⟩
  · intro summary answered
    obtain ⟨account, key, created, keyed, after⟩ := installs_answered rfl answered
    obtain ⟨multikey, pub, given, stands, shown, value⟩ :=
      created_public openLaw rootPath multikeys verify created
    refine ⟨multikey, pub, key, account, given, stands, stands.isPublic toPublic, shown, ?_, value⟩
    obtain ⟨vlad, decoded, same⟩ := AccountCache.keyFromMultibase_ok.mp keyed
    rw [after]
    exact AccountCache.get_ok.mpr ⟨vlad, decoded, same, by simp [FiniteMap.lookup_insert]⟩
  · intro vlad path challenge answered
    obtain ⟨key, account, found, issued, after⟩ := challenge_answered rfl answered
    have prepared : (account.prepareDelegate path pubkeyMultibase ambient).1 = .ok challenge :=
      AccountReply.challenge.inj issued
    obtain ⟨decodedVlad, decoded, same, present⟩ := AccountCache.get_ok.mp found
    have verified := reachable_verified append reachable key account present
    obtain ⟨input, unsigned, given, built, rfl, _, stored⟩ := account.prepareWith_issued prepared
    obtain ⟨_, multikey, _, _, isKey, _⟩ := delegateSpec_ok given
    have message : encodeBytesMultibase unsigned.message =
        encodeBytesMultibase (entryToBytes unsigned.entry) :=
      congrArg encodeBytesMultibase (unsignedEntry_message entries built).1
    refine ⟨multikey, key, (account.prepareDelegate path pubkeyMultibase ambient).2, _, isKey, ?_,
      stored, message, delegated_public_iff keys multikeys entries opLaw verified isKey given built rfl⟩
    rw [after]
    refine AccountCache.get_ok.mpr ⟨decodedVlad, decoded, same, ?_⟩
    rw [FiniteMap.lookup_insert, if_pos rfl]
    rfl
  · rintro vlad key account found path between commit challenge commits account' rfl
    obtain ⟨_, _, _, present⟩ := AccountCache.get_ok.mp found
    have verified := reachable_verified append reachable key account present
    obtain ⟨multikey, entry, listed, decoded, log, isListed, own, published⟩ :=
      committed_delegation keys multikeys entries opLaw append verify verified commits
    exact ⟨multikey, entry, listed, decoded, congrArg encodePlog log, isListed, own, published⟩

end

section
open Reference

def secretDelegationCalls : List (Call × Ambient) :=
  [(.createAccount "u5wEC", sampleAmbient 0 9),
    (.prepareDelegate "uhwAA6eE" "/a/" "uAQkJ", sampleAmbient 1 0),
    (.commitUpdate "uhwAA6eE" "uAAAAAAAAAAAAAAAAAAAAAA" "uAQLc1dqZ", sampleAmbient 3 9)]

/-- The secret key given to `prepare_delegate` is what the account then lists,
while `create_account` publishes the public key of the same argument. -/
theorem secret_key_is_published :
    (∃ multikey, decodeMultikey "uAQkJ" = .ok multikey ∧ ¬ IsPublic multikey) ∧
    (AccountsModule.dispatch (accountsModule.after ∅ secretDelegationCalls)
        (.listDelegations "uhwAA6eE") (sampleAmbient 4 9)).2.response = .delegations [⟨"/a/", "uAQkJ"⟩] ∧
    (AccountsModule.dispatch (accountsModule.after ∅ secretDelegationCalls)
        (.createAccount "uAQkJ") (sampleAmbient 4 9)).2.response =
      .summary { vlad := "uhwAA6eE", headCid := "u-RIkcg", pubkey := some "u5_b2" } := by
  refine ⟨⟨(⟨.secp256K1Priv, [9, 9]⟩ : PeerKey), by decide +kernel, ?_⟩, by decide +kernel,
    by decide +kernel⟩
  intro isPublic
  cases isPublic

theorem typed_key_published_delegation :
    (∃ multikey pub key account, decodeMultikey "uAQkJ" = .ok multikey ∧ PublicOf multikey pub ∧
      IsPublic pub ∧ some "u5_b2" = some (encodeMultikey pub) ∧
      (AccountsModule.dispatch ∅ (.createAccount "uAQkJ") (sampleAmbient 4 9)).1.get "uhwAA6eE" =
        .ok (key, account) ∧
      account.getValue "/pubkey" = .ok (.bin (encodeMultikey pub))) ∧
    (∃ multikey key account p, decodeMultikey "u5wkJ" = .ok multikey ∧
      (AccountsModule.dispatch (accountsModule.after ∅ openedCalls)
        (.prepareDelegate "uhwAA6eE" "/a/" "u5wkJ") (sampleAmbient 1 0)).1.get "uhwAA6eE" =
          .ok (key, account) ∧
      account.pending.lookup delegationChallenge.challengeId = some p ∧
      delegationChallenge.messageMultibase =
        encodeBytesMultibase (entryToBytes p.unsigned.entry) ∧
      (PublishesPublic p.unsigned.entry ↔ IsPublic multikey)) ∧
    ∃ multikey entry listed, decodeMultikey "u5wkJ" = .ok multikey ∧
      (accountMachine.after openedAccount delegationOps).exportPlog =
        encodePlog (openedAccount.log.push entry) ∧
      (accountMachine.after openedAccount delegationOps).listDelegations = .ok listed ∧
      ⟨"/a/", encodeMultikey multikey⟩ ∈ listed ∧ (PublishesPublic entry ↔ IsPublic multikey) ∧
      (ListsPublic listed "/a/" ↔ IsPublic multikey) := by
  refine ⟨?_, ?_, ?_⟩
  · exact (typed_key_published keyLaws multikeyLaws entryLaws opLaw appendLaws verifyLaws rootKeyPath
      toPublicLaw openLaw ⟨[], rfl⟩ (sampleAmbient 4 9) "uAQkJ").1
      { vlad := "uhwAA6eE", headCid := "u-RIkcg", pubkey := some "u5_b2" } (by decide +kernel)
  · exact (typed_key_published keyLaws multikeyLaws entryLaws opLaw appendLaws verifyLaws rootKeyPath
      toPublicLaw openLaw ⟨openedCalls, rfl⟩ (sampleAmbient 1 0) "u5wkJ").2.1
      "uhwAA6eE" "/a/" delegationChallenge (by decide +kernel)
  · have commits : PreparedCommit openedAccount (.prepareDelegate "/a/" "u5wkJ", sampleAmbient 1 0) []
        (.commitUpdate delegationChallenge.challengeId "uAQL8CM0U", sampleAmbient 2 9)
        delegationChallenge := by
      refine ⟨by decide +kernel, by decide, ⟨"uAQL8CM0U", rfl⟩, ?_⟩
      exact ⟨({ vlad := "uhwAA6eE", headCid := "uoH0bJg", pubkey := some "u5wEC" }, .delegate, some "/a/"),
        by decide +kernel⟩
    exact (typed_key_published keyLaws multikeyLaws entryLaws opLaw appendLaws verifyLaws rootKeyPath
      toPublicLaw openLaw ⟨openedCalls, rfl⟩ (sampleAmbient 1 0) "u5wkJ").2.2 "uhwAA6eE" _ openedAccount
      openedCalls_get "/a/" [] _ _ commits _ rfl

end

end LogosAccounts
