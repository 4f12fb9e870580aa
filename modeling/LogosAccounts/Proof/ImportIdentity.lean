import LogosAccounts.Proof.VerifiedCache

/-! Whose account an import installs. Verification walks the entries; the VLAD and
the head that are reported, and the key the account is cached under, come from
the header. -/

namespace LogosAccounts
open BetterSign hiding mk
open Functional

section
variable [BetterSign]

/-- The header names the VLAD of every entry and the CID of the last one. -/
structure HeaderAgrees (log : Log) : Prop where
  vlad : ∀ entry ∈ log.entries, entry.vlad = log.vlad
  head : ∀ last, log.entries.getLast? = some last → entryCid last = log.head

/-- The summary reports, and the cache is keyed by, the VLAD that every verified
entry carries, and the head reported is the last verified entry. -/
structure FiledUnderChain (log : Log) (summary : AccountSummary) : Prop where
  vlad : ∀ entry ∈ verifiedEntries log, summary.vlad = encodeVlad entry.vlad
  key : ∀ entry ∈ verifiedEntries log,
    AccountCache.keyFromMultibase summary.vlad = .ok (vladHash entry.vlad)
  head : ∀ last, (verifiedEntries log).getLast? = some last →
    summary.headCid = encodeCid (entryCid last)

theorem encodeVlad_injective (law : VladLaw) {left right : Vlad}
    (same : encodeVlad left = encodeVlad right) : left = right := by
  have decoded := decode_encodeVlad law left
  rw [same, decode_encodeVlad law right] at decoded
  exact (Except.ok.inj decoded).symm

theorem filedUnderChain_iff (vladLaw : VladLaw) (cidLaw : CidLaw) (verify : VerifyLaws) {log : Log}
    {summary : AccountSummary} (summarised : summaryFromVerifiedPlog log = .ok summary) :
    FiledUnderChain log summary ↔ HeaderAgrees log := by
  obtain ⟨verified, vlad, head⟩ := summary_verified summarised
  have entries := verify.entries log verified.2
  constructor
  · intro filed
    constructor
    · intro entry member
      rw [← entries] at member
      exact encodeVlad_injective vladLaw ((filed.vlad entry member).symm.trans vlad)
    · intro last isLast
      rw [← entries] at isLast
      exact cidLaw ((filed.head last isLast).symm.trans head)
  · intro agrees
    have carried : ∀ entry ∈ verifiedEntries log, entry.vlad = log.vlad := by
      rw [entries]
      exact agrees.vlad
    constructor
    · intro entry member
      rw [vlad, carried entry member]
    · intro entry member
      rw [installed_key vladLaw summarised, carried entry member]
    · intro last isLast
      rw [entries] at isLast
      rw [head, agrees.head last isLast]

/-- For every cache and every string `import_plog` accepts, and every byte string
`import_bytes` accepts, the account is filed under its chain exactly when the header
agrees with the entries. Then no account of a VLAD that the entries do not carry is
replaced. -/
theorem import_filed_iff (vladLaw : VladLaw) (cidLaw : CidLaw) (verify : VerifyLaws) :
    (∀ cache plogB64 ambient summary,
      (AccountsModule.dispatch cache (.importPlog plogB64) ambient).2.response = .summary summary →
      ∃ log, decodePlog plogB64 = .ok log ∧
        (AccountsModule.dispatch cache (.importPlog plogB64) ambient).1 =
          FiniteMap.insert cache (vladHash log.vlad) { log, pending := ∅ } ∧
        (FiledUnderChain log summary ↔ HeaderAgrees log) ∧
        (HeaderAgrees log → ∀ vlad, (∀ entry ∈ log.entries, entry.vlad ≠ vlad) →
          (vladHash vlad = vladHash log.vlad → vlad = log.vlad) →
          (AccountsModule.dispatch cache (.importPlog plogB64) ambient).1.lookup (vladHash vlad) =
            cache.lookup (vladHash vlad))) ∧
    (∀ plogBytes account summary, PlogAccount.importBytes plogBytes = .ok (account, summary) →
      ∃ log, plogFromBytes plogBytes = .ok log ∧ account = { log, pending := ∅ } ∧
        (FiledUnderChain log summary ↔ HeaderAgrees log)) := by
  constructor
  · intro cache plogB64 ambient summary answered
    obtain ⟨account, key, imported, keyed, after⟩ := installs_answered rfl answered
    obtain ⟨log, decoded, imported⟩ := except_bind_ok.mp imported
    obtain ⟨_, summarised, imported⟩ := except_bind_ok.mp imported
    cases imported
    obtain rfl := Except.ok.inj (keyed.symm.trans (installed_key vladLaw summarised))
    refine ⟨log, decoded, after, filedUnderChain_iff vladLaw cidLaw verify summarised, ?_⟩
    intro agrees vlad elsewhere distinct
    obtain ⟨last, pairs, head⟩ := (summary_verified summarised).1.head
    have carried := agrees.vlad last (List.mem_of_getLast? (head.last_entry verify))
    have other : vladHash vlad ≠ vladHash log.vlad := by
      intro same
      apply elsewhere last (List.mem_of_getLast? (head.last_entry verify))
      rw [carried, distinct same]
    rw [after, FiniteMap.lookup_insert, if_neg other]
  · intro plogBytes account summary imported
    obtain ⟨log, decoded, imported⟩ := except_bind_ok.mp imported
    obtain ⟨_, summarised, imported⟩ := except_bind_ok.mp imported
    cases imported
    exact ⟨log, decoded, rfl, filedUnderChain_iff vladLaw cidLaw verify summarised⟩

end

section
open Reference

/-- The header of one account's log on the entries of another's is accepted, and
takes the place of the account it names. -/
theorem forged_header_replaces_account :
    (AccountsModule.dispatch (accountsModule.after ∅ (delegationCalls.take 1))
        (.exportPlog "uhwAA6eE") (sampleAmbient 1 9)).2.response = .plog "uBYcAAOnhBHgy-YN4MvmD" ∧
    (AccountsModule.dispatch (accountsModule.after ∅ (delegationCalls.take 1))
        (.importPlog "uBYcAAOnhBHgy-YN015i-") (sampleAmbient 1 9)).2.response =
      .summary { vlad := "uhwAA6eE", headCid := "ueDL5gw", pubkey := some "u5wME" } ∧
    (AccountsModule.dispatch (accountsModule.after ∅ (delegationCalls.take 1 ++
        [(.importPlog "uBYcAAOnhBHgy-YN015i-", sampleAmbient 1 9)]))
        (.exportPlog "uhwAA6eE") (sampleAmbient 2 9)).2.response = .plog "uBYcAAOnhBHgy-YN015i-" ∧
    decodePlog "uBYcAAOnhBHgy-YN015i-" = .ok forgedLog ∧
    (verifiedEntries forgedLog).map (fun entry =>
      (encodeVlad entry.vlad, encodeCid (BetterSign.entryCid entry))) = [("uhwAA6d8", "udNeYvg")] ∧
    ¬ FiledUnderChain forgedLog { vlad := "uhwAA6eE", headCid := "ueDL5gw", pubkey := some "u5wME" } := by
  have chain : (verifiedEntries forgedLog).map (fun entry =>
      (encodeVlad entry.vlad, encodeCid (BetterSign.entryCid entry))) =
        [("uhwAA6d8", "udNeYvg")] := by
    decide +kernel
  refine ⟨by decide +kernel, by decide +kernel, by decide +kernel, by decide +kernel, chain, ?_⟩
  intro filed
  obtain ⟨entry, member, same⟩ := List.mem_map.mp (chain ▸ List.mem_singleton_self ("uhwAA6d8", "udNeYvg"))
  have reported := filed.vlad entry member
  rw [(Prod.mk.inj same).1] at reported
  exact absurd reported (by decide)

theorem import_filed_iff_opened :
    ∃ log, decodePlog "uBYcAAOnhBHgy-YN4MvmD" = .ok log ∧
      (AccountsModule.dispatch ∅ (.importPlog "uBYcAAOnhBHgy-YN4MvmD") (sampleAmbient 0 9)).1 =
        FiniteMap.insert ∅ (vladHash log.vlad) { log, pending := ∅ } ∧
      (FiledUnderChain log { vlad := "uhwAA6eE", headCid := "ueDL5gw", pubkey := some "u5wEC" } ↔
        HeaderAgrees log) ∧
      (HeaderAgrees log → ∀ vlad, (∀ entry ∈ log.entries, entry.vlad ≠ vlad) →
        (vladHash vlad = vladHash log.vlad → vlad = log.vlad) →
        (AccountsModule.dispatch ∅ (.importPlog "uBYcAAOnhBHgy-YN4MvmD")
          (sampleAmbient 0 9)).1.lookup (vladHash vlad) = none) :=
  (import_filed_iff vladLaw cidLaw verifyLaws).1 ∅ "uBYcAAOnhBHgy-YN4MvmD" (sampleAmbient 0 9)
    { vlad := "uhwAA6eE", headCid := "ueDL5gw", pubkey := some "u5wEC" } (by decide +kernel)

end

end LogosAccounts
