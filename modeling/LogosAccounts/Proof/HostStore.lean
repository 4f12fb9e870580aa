import LogosAccounts.Proof.CacheJournal
import LogosAccounts.Proof.Contents
import LogosAccounts.Proof.HostRuns

/-! What a host reads of an account, from one end to the other: through the C entry
points, the shared handles, the cache and the verified log, it is what the operations
committed for that account have written. -/

namespace LogosAccounts
open BetterSign hiding mk
open Functional

section
variable [BetterSign]

def valueResponse : Except Error PlogPathValue → Response
  | .error e => .error e
  | .ok value => .value value

/-- A host that asks for a value or for the delegations of the account of `vlad` is
answered from `contents`. -/
structure HostReads (provider : Provider SharedCache) (vlad : String) (contents : Contents) :
    Prop where
  values : ∀ path argsJson ambient, Provider.readArgs argsJson = some [.str vlad, .str path] →
    ((providerHost accountsModuleImpl).reply provider
        (.dispatch (some "get_value") argsJson ambient)).1 =
      .text (some (jsonToString (.str (valueResponse (contents.read path)).text)))
  delegations : ∀ argsJson ambient, Provider.readArgs argsJson = some [.str vlad] →
    ((providerHost accountsModuleImpl).reply provider
        (.dispatch (some "list_delegations") argsJson ambient)).1 =
      .text (some (jsonToString (.str (Response.delegations contents.grants).text)))

theorem Provider.reads (law : JsonTextLaw) {provider : Provider SharedCache} {vlad : String}
    {key : VladHash} {account : PlogAccount}
    (found : AccountCache.get (provider.impOr accountsModuleImpl).view vlad = .ok (key, account))
    {contents : Contents} (reads : ReadsFrom account contents) : HostReads provider vlad contents := by
  have serves := provider.serves law
  constructor
  case values =>
    intro path argsJson ambient read
    have decoded : decodeCall "get_value" [.str vlad, .str path] = some (.getValue vlad path) := rfl
    have answered : (accountsModule.reply (provider.impOr accountsModuleImpl).view
        (.getValue vlad path, ambient)).response = valueResponse (contents.read path) := by
      change (AccountsModule.withAccount _ vlad _).2.response = _
      unfold AccountsModule.withAccount
      rw [found]
      simp only [reads.values]
      cases contents.read path <;> rfl
    rw [serves.replies, HostCall.asked_read read, decoded, Option.map_some, Option.map_some, answered]
  case delegations =>
    intro argsJson ambient read
    have decoded : decodeCall "list_delegations" [.str vlad] = some (.listDelegations vlad) := rfl
    have answered : (accountsModule.reply (provider.impOr accountsModuleImpl).view
        (.listDelegations vlad, ambient)).response = .delegations contents.grants := by
      change (AccountsModule.withAccount _ vlad _).2.response = _
      unfold AccountsModule.withAccount
      rw [found]
      simp only [reads.grants]
      rfl
    rw [serves.replies, HostCall.asked_read read, decoded, Option.map_some, Option.map_some, answered]

/-- After any run of the host, an account with a book is read as the committed operations
of its book, in order, have written it on the log it was installed with. -/
theorem host_reads_store (json : JsonTextLaw) (entries : EntryLaws) (opLaw : OpLaw)
    (append : AppendLaws) (verify : VerifyLaws) (run : List HostCall) {vlad : String} {key : VladHash}
    (keyed : AccountCache.keyFromMultibase vlad = .ok key) {book : AccountBook}
    (noted : CacheBooks.ofRun (run.filterMap HostCall.asked) key = some book) :
    ∃ contents, (book.journal.committed.map Prod.fst).foldlM Contents.commit
        (Contents.ofLog book.base) = some contents ∧
      HostReads ((providerHost accountsModuleImpl).after Provider.loaded run) vlad contents := by
  have own := books_agree append (run.filterMap HostCall.asked) key
  rw [noted] at own
  obtain ⟨account, present, kept⟩ : ∃ account,
      (accountsModule.after ∅ (run.filterMap HostCall.asked)).lookup key = some account ∧
        KeptInBook book account := by
    generalize (accountsModule.after ∅ (run.filterMap HostCall.asked)).lookup key = cached at own
    cases own with
    | some kept => exact ⟨_, rfl, kept⟩
  have written := serial_contents entries opLaw append verify kept.verified kept.serial
  have reached := (cached_reached ⟨run.filterMap HostCall.asked, rfl⟩ present).verified append
  refine ⟨_, written, ?_⟩
  obtain ⟨decoded, isVlad, rfl⟩ := AccountCache.keyFromMultibase_ok.mp keyed
  rw [← Provider.accounts_after] at present
  have found := AccountCache.get_ok.mpr ⟨decoded, isVlad, rfl, present⟩
  exact Provider.reads json found (readsFrom_ofLog verify reached)

end

namespace HostReference

theorem entryLaws : @EntryLaws backend := by
  obtain ⟨builds, proofOnly⟩ := Reference.entryLaws
  exact ⟨builds, proofOnly⟩

theorem opLaw : @OpLaw backend := Reference.opLaw

theorem appendLaws : @AppendLaws backend := by
  obtain ⟨atomic, adds, verified⟩ := Reference.appendLaws
  exact ⟨atomic, adds, verified⟩

theorem entry_same : @VerifyItem.entry backend = @VerifyItem.entry Reference.backend := by
  funext item
  cases item <;> rfl

theorem applyOp_same : @applyOp backend = @applyOp Reference.backend := by
  funext pairs op
  cases op <;> rfl

theorem verifyLaws : @VerifyLaws backend := by
  obtain ⟨entries, pairs, keysOnce⟩ := Reference.verifyLaws
  unfold verifiedEntries at entries
  unfold pairsAfter at pairs
  rw [← entry_same] at entries
  rw [← applyOp_same] at pairs
  exact ⟨entries, pairs, keysOnce⟩

end HostReference

section
open HostReference

theorem host_reads_store_delegated :
    ∃ base contents, (Contents.ofLog base).commit (.prepareDelegate "/a/" "u5wkJ") = some contents ∧
      HostReads ((providerHost accountsModuleImpl).after Provider.loaded hostRun) "uhwAA6eE"
        contents := by
  have committed : ((AccountCache.keyFromMultibase "uhwAA6eE").toOption.bind fun key =>
      (CacheBooks.ofRun (hostRun.filterMap HostCall.asked) key).map fun book =>
        book.journal.committed.map Prod.fst) = some [.prepareDelegate "/a/" "u5wkJ"] := by
    decide +kernel
  obtain ⟨key, keyed, committed⟩ := Option.bind_eq_some_iff.mp committed
  obtain ⟨book, noted, committed⟩ := Option.map_eq_some_iff.mp committed
  obtain ⟨contents, written, reads⟩ := host_reads_store jsonText entryLaws opLaw appendLaws verifyLaws
    hostRun (toOption_eq_some.mp keyed) noted
  rw [committed, List.foldlM_cons] at written
  obtain ⟨contents', written, rest⟩ := Option.bind_eq_some_iff.mp written
  obtain rfl := Option.some.inj rest
  exact ⟨book.base, contents', written, reads⟩

end

end LogosAccounts
