import LogosAccounts.Functional.NumberedChain
import LogosAccounts.Proof.PendingHead

/-! The chain stays well linked. The next entry is numbered next and names the last
one, its long hop names an entry the log has, and a committed entry is the one that
was prepared. -/

namespace LogosAccounts
open BetterSign hiding mk
open Functional

section
variable [BetterSign]

/-- The entries are numbered from zero, and each names the CID of the one before. -/
def WellLinked (log : Log) : Prop :=
  NumberedChain (fun entry => entry.seqno.toNat)
    (fun earlier later => later.prev = entryCid earlier) log.entries

/-- The op that the parameters describe; `KeyGen` and `CidGen` describe none. -/
def OpParams.described : OpParams → Option Op
  | .noop key => some (.noop key)
  | .delete key => some (.delete key)
  | .useCid key cid => some (.update key (.data (cidToBytes cid)))
  | .useKey key mk => some (.update key (.data (multikeyToBytes mk)))
  | .useStr key s => some (.update key (.str s))
  | .useBin key data => some (.update key (.data data))
  | .keyGen | .cidGen => none

/-- What the entry after entry `n` of the log is to be. -/
structure NextInChain (log : Log) (n : Nat) (spec : NextEntrySpec) (entry : Entry) : Prop where
  seqno : entry.seqno.toNat = n + 1
  last : ∃ last, log.entries[n]? = some last ∧ entry.prev = entryCid last ∧
    entry.vlad = last.vlad ∧ entry.locks = spec.locks.getD last.locks
  ops : entry.ops.map some = spec.ops.map OpParams.described
  proof : entry.proof = []
  noHop : isLipmaa entry.seqno = false → entry.lipmaa = none
  hop : isLipmaa entry.seqno = true →
    ∃ target, log.entries[(lipmaa entry.seqno).toNat]? = some target ∧
      entry.lipmaa = some (entryCid target)

theorem opFromParams_described (opLaw : OpLaw) {params : OpParams} {op : Op}
    (built : opFromParams params = .ok op) : some op = params.described := by
  have made {requested : Op} (success : (opTryBuild requested).mapError Error.transparent = .ok op) :
      some op = some requested := by
    rw [opLaw _ _ (mapError_eq_ok.mp success)]
  cases params with
  | noop key => exact made built
  | delete key => exact made built
  | useCid key cid => exact made built
  | useKey key mk => exact made built
  | useStr key s => exact made built
  | useBin key data => exact made built
  | keyGen => cases built
  | cidGen => cases built

theorem mapM_described (opLaw : OpLaw) {params : List OpParams} {ops : List Op}
    (built : params.mapM opFromParams = .ok ops) :
    ops.map some = params.map OpParams.described := by
  have paired := mapM_ok_iff.mp built
  clear built
  induction paired with
  | nil => rfl
  | cons head _ ih => rw [List.map_cons, List.map_cons, opFromParams_described opLaw head, ih]

theorem next_seqno {last : Entry} (fits : last.seqno.toNat + 1 < UInt64.size) :
    (last.seqno + 1).toNat = last.seqno.toNat + 1 := by
  rw [UInt64.toNat_add]
  exact Nat.mod_eq_of_lt fits

theorem longHop_found (lipmaaLaw : LipmaaLaw) (seqnoLaw : SeqnoLaw) {log : Log}
    (linked : WellLinked log) {seqno : UInt64} (next : seqno.toNat = log.entries.length)
    (hops : isLipmaa seqno = true) :
    ∃ target, log.entries[(lipmaa seqno).toNat]? = some target ∧
      longHop log seqno = .ok (some (entryCid target)) := by
  have inside : (lipmaa seqno).toNat < log.entries.length := by
    rw [← next]
    exact UInt64.lt_iff_toNat_lt.mp (lipmaaLaw seqno hops)
  obtain ⟨entry, stands⟩ : ∃ entry, log.entries[(lipmaa seqno).toNat]? = some entry :=
    ⟨_, List.getElem?_eq_getElem inside⟩
  have numbered : entry.seqno = lipmaa seqno := UInt64.toNat_inj.mp (linked.number_at stands)
  obtain ⟨target, member, found, same⟩ := seqnoLaw log entry (List.mem_of_getElem? stands)
  rw [numbered] at found same
  refine ⟨target, ?_, ?_⟩
  · rw [← same]
    exact linked.at_number member
  · unfold longHop
    rw [if_pos hops, found]
    rfl

/-- On a well-linked log the next entry is built, and continues the chain. -/
theorem prepareNextEntry_linked (entries : EntryLaws) (verify : VerifyLaws) (opLaw : OpLaw)
    (builder : BuilderLaw) (lipmaaLaw : LipmaaLaw) (seqnoLaw : SeqnoLaw) {log : Log}
    (verified : FullyVerified log) (linked : WellLinked log) {n : Nat}
    (count : log.entries.length = n + 1) (fits : n + 1 < UInt64.size) {spec : NextEntrySpec}
    (buildable : ∀ params ∈ spec.ops, ∃ op, opFromParams params = .ok op) :
    ∃ unsigned, prepareNextEntry log spec = .ok unsigned ∧
      NextInChain log n spec unsigned.entry := by
  obtain ⟨last, pairs, head⟩ := verified.head
  have isLast := head.last_entry verify
  have lastNumber : last.seqno.toNat = n := by
    have length := linked.last_number isLast
    omega
  have seqno : (last.seqno + 1).toNat = n + 1 := by
    rw [next_seqno (by rw [lastNumber]; exact fits), lastNumber]
  have stands : log.entries[n]? = some last := by
    rw [← lastNumber]
    exact linked.at_number (List.mem_of_getLast? isLast)
  obtain ⟨ops, opened⟩ := mapM_total buildable
  obtain ⟨link, hopped, noHop, hop⟩ : ∃ link, longHop log (last.seqno + 1) = .ok link ∧
      (isLipmaa (last.seqno + 1) = false → link = none) ∧
      (isLipmaa (last.seqno + 1) = true →
        ∃ target, log.entries[(lipmaa (last.seqno + 1)).toNat]? = some target ∧
          link = some (entryCid target)) := by
    cases hops : isLipmaa (last.seqno + 1) with
    | false => exact ⟨none, by simp [longHop, hops], fun _ => rfl, by simp⟩
    | true =>
      obtain ⟨target, found, hopped⟩ :=
        longHop_found lipmaaLaw seqnoLaw linked (seqno.trans count.symm) hops
      exact ⟨_, hopped, by simp, fun _ => ⟨target, found, rfl⟩⟩
  obtain ⟨entry, built⟩ := builder (mutableEntry last spec ops link) rfl
  have same := entries.builds _ _ built
  refine ⟨⟨entry, entryToBytes entry⟩, ?_, ?_⟩
  · rw [head.prepareNextEntry, nextEntryAfter, opened, except_ok_bind, hopped, except_ok_bind, built]
    rfl
  · subst same
    exact ⟨seqno, ⟨last, stands, rfl, rfl, rfl⟩, mapM_described opLaw opened, rfl, noHop, hop⟩

theorem WellLinked.push {log : Log} (linked : WellLinked log) {last entry : Entry}
    (isLast : log.entries.getLast? = some last) (fits : log.entries.length < UInt64.size)
    (prev : entry.prev = entryCid last) (seqno : entry.seqno = last.seqno + 1) :
    WellLinked (log.push entry) := by
  have length := linked.last_number isLast
  apply linked.snoc isLast _ prev
  rw [seqno]
  exact next_seqno (by omega)

theorem commitWithMultisig_ok (entries : EntryLaws) (append : AppendLaws) {log log' : Log}
    {unsigned signed : Entry} {signature : Multisig}
    (committed : commitWithMultisig log unsigned signature = (.ok signed, log')) :
    signed.unsigned = unsigned.unsigned ∧ log' = log.push signed := by
  unfold commitWithMultisig at committed
  cases built : tryBuildWithProof unsigned (multisigToBytes signature) with
  | error e => simp [built] at committed
  | ok entry =>
    rw [built] at committed
    cases appended : logTryAppend log entry with
    | mk result moved =>
      cases result with
      | error e => simp [appended] at committed
      | ok done =>
        simp only [appended, Prod.mk.injEq, Except.ok.injEq] at committed
        obtain ⟨rfl, rfl⟩ := committed
        exact ⟨entries.proofOnly _ _ _ built, append.adds _ _ _ appended⟩

/-- Committing the prepared entry keeps the chain well linked. -/
theorem committed_linked (entries : EntryLaws) (append : AppendLaws) {log log' : Log}
    (linked : WellLinked log) {n : Nat} (count : log.entries.length = n + 1)
    (fits : n + 1 < UInt64.size) {spec : NextEntrySpec} {unsigned signed : Entry}
    (next : NextInChain log n spec unsigned) {signature : Multisig}
    (committed : commitWithMultisig log unsigned signature = (.ok signed, log')) :
    WellLinked log' ∧ log'.entries.length = n + 2 := by
  obtain ⟨same, rfl⟩ := commitWithMultisig_ok entries append committed
  obtain ⟨last, stands, prev, _⟩ := next.last
  have isLast : log.entries.getLast? = some last := by
    rw [List.getLast?_eq_getElem?, count]
    exact stands
  obtain ⟨_, _, samePrev, sameSeqno⟩ := Entry.same_fields same
  have seqno : unsigned.seqno = last.seqno + 1 := by
    apply UInt64.toNat_inj.mp
    rw [next.seqno, next_seqno (by rw [linked.number_at stands]; exact fits), linked.number_at stands]
  constructor
  · exact linked.push isLast (by omega) (samePrev.trans prev) (sameSeqno.trans seqno)
  · simp [Log.push, count]

theorem PlogAccount.Change.length_le {account account' : PlogAccount} {ambient : Ambient}
    {drawn : Option String} (change : account.Change ambient drawn account') :
    account.log.entries.length ≤ account'.log.entries.length := by
  cases change with
  | dropped pending part => exact le_rfl
  | issued pending part id fresh input unsigned built => exact le_rfl
  | appended entry verified => simp [Log.push]

/-- The invariant of a run: the chain is well linked while its numbers fit. -/
structure Chained (account : PlogAccount) : Prop where
  verified : FullyVerified account.log
  matching : account.PendingMatch
  linked : account.log.entries.length ≤ UInt64.size → WellLinked account.log

theorem Chained.next (entries : EntryLaws) (append : AppendLaws) (verify : VerifyLaws)
    {account : PlogAccount} (chained : Chained account) (op : AccountOp) (ambient : Ambient) :
    Chained (account.perform op ambient).1 := by
  have change := account.perform_change append op ambient
  have longer := change.length_le
  refine ⟨change.verified chained.verified,
    change.pendingMatch entries chained.verified chained.matching, ?_⟩
  intro fits
  have linked := chained.linked (longer.trans fits)
  have effect := account.perform_effect append op ambient
  generalize account.perform op ambient = result at effect fits ⊢
  cases effect with
  | dropped pending part reply unissued uncommitted => exact linked
  | issued input asked unsigned built => exact linked
  | appended id signature named p stored proof entry signed extended =>
    -- the challenge is for the entry after the last one
    obtain ⟨last, pairs, head, prev, seqno, _⟩ := (chained.matching id p stored).next
    obtain ⟨_, _, samePrev, sameSeqno⟩ := Entry.same_fields (entries.proofOnly _ _ _ signed)
    have longer : account.log.entries.length < UInt64.size := by
      simp only [Log.push, List.length_append, List.length_singleton] at fits
      omega
    exact linked.push (head.last_entry verify) longer (samePrev.trans prev) (sameSeqno.trans seqno)

theorem created_linked (openFirst : OpenFirstLaw) {pubkeyMultibase : String} {ambient : Ambient}
    {account : PlogAccount} {summary : AccountSummary}
    (created : PlogAccount.create pubkeyMultibase ambient = .ok (account, summary)) :
    WellLinked account.log := by
  obtain ⟨multikey, _, created⟩ := except_bind_ok.mp created
  obtain ⟨log, opened, created⟩ := except_bind_ok.mp created
  obtain ⟨_, _, created⟩ := except_bind_ok.mp created
  obtain ⟨rfl, _⟩ := Prod.mk.inj (Except.ok.inj created)
  obtain ⟨helper, _, opened⟩ := except_bind_ok.mp opened
  obtain ⟨first, only, zero⟩ := openFirst _ _ _ _ opened
  unfold WellLinked
  rw [only]
  exact .singleton (by rw [zero]; rfl)

/-- On every verified log whose entries are numbered and linked, the next entry is
built for any locks and buildable ops, continues the chain, and keeps its shape
when it is committed; so the log of an account that was created is well linked
after every run. -/
theorem chain_stays_linked (entries : EntryLaws) (append : AppendLaws) (verify : VerifyLaws)
    (opLaw : OpLaw) (builder : BuilderLaw) (lipmaaLaw : LipmaaLaw) (seqnoLaw : SeqnoLaw)
    (openFirst : OpenFirstLaw) :
    (∀ log n, FullyVerified log → WellLinked log → log.entries.length = n + 1 → n + 1 < UInt64.size →
      ∀ spec : NextEntrySpec, (∀ params ∈ spec.ops, ∃ op, opFromParams params = .ok op) →
      ∃ unsigned, prepareNextEntry log spec = .ok unsigned ∧
        NextInChain log n spec unsigned.entry ∧
        ∀ signature signed log', commitWithMultisig log unsigned.entry signature = (.ok signed, log') →
          WellLinked log' ∧ log'.entries.length = n + 2) ∧
    ∀ pubkeyMultibase ambient account summary run,
      PlogAccount.create pubkeyMultibase ambient = .ok (account, summary) →
      (accountMachine.after account run).log.entries.length ≤ UInt64.size →
      WellLinked (accountMachine.after account run).log := by
  constructor
  · intro log n verified linked count fits spec buildable
    obtain ⟨unsigned, prepared, next⟩ := prepareNextEntry_linked entries verify opLaw builder
      lipmaaLaw seqnoLaw verified linked count fits buildable
    refine ⟨unsigned, prepared, next, ?_⟩
    intro signature signed log' committed
    exact committed_linked entries append linked count fits next committed
  · intro pubkeyMultibase ambient account summary run created
    have opened : account.Opened := .created pubkeyMultibase ambient summary created
    have first : Chained account :=
      ⟨opened.verified, (opened.reached []).pendingMatch append entries,
        fun _ => created_linked openFirst created⟩
    have chained : Chained (accountMachine.after account run) :=
      accountMachine.after_preserves first fun state action _ stillChained =>
        stillChained.next entries append verify action.1 action.2
    exact chained.linked

end

section
open Reference

def nicknameSpec : NextEntrySpec := { ops := [.useStr (⟨"/n", by decide⟩ : PathKey) "x"] }

theorem chain_stays_linked_nickname :
    (∃ unsigned, prepareNextEntry (openedLog rootKey [7]) nicknameSpec = .ok unsigned ∧
      NextInChain (openedLog rootKey [7]) 0 nicknameSpec unsigned.entry ∧
      ∀ signature signed log',
        commitWithMultisig (openedLog rootKey [7]) unsigned.entry signature = (.ok signed, log') →
        WellLinked log' ∧ log'.entries.length = 2) ∧
    WellLinked (accountMachine.after openedAccount
      [(.prepareDelegate "/a/" "u5wkJ", sampleAmbient 1 0),
        (.commitUpdate delegationChallenge.challengeId "uAQL8CM0U", sampleAmbient 2 9)]).log := by
  have stays := chain_stays_linked entryLaws appendLaws verifyLaws opLaw builderLaw lipmaaLaw seqnoLaw
    openFirstLaw
  constructor
  · have verified : FullyVerified (openedLog rootKey [7]) := openedAccount_opened.verified
    apply stays.1 (openedLog rootKey [7]) 0 verified (.singleton (by decide +kernel)) rfl (by decide)
    intro params member
    obtain rfl := List.mem_singleton.mp member
    exact ⟨_, rfl⟩
  · exact stays.2 "u5wEC" (sampleAmbient 0 9) openedAccount _ _ openedAccount_created
      (by decide +kernel)

end

end LogosAccounts
