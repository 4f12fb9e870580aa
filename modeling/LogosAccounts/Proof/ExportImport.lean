import LogosAccounts.Proof.Isolation
import LogosAccounts.Proof.ReachedAccount

/-! Export and import. Every answer about an account but its challenges comes from its
log, and every reached log is one that an import accepts; so what was exported
comes back whole. -/

namespace LogosAccounts
open BetterSign hiding mk
open Functional

section
variable [BetterSign]

/-- What the peer is to sign, and the head it is prepared on. -/
def UpdateChallenge.toSign (challenge : UpdateChallenge) : String × String :=
  (challenge.messageMultibase, challenge.headCid)

def AccountReply.toSign : AccountReply → Option (Except Error (String × String))
  | .challenge result => some (result.map UpdateChallenge.toSign)
  | .committed _ | .cancelled _ => none

/-- `restored` has no challenges, reads as `account` does, and every prepare on it
asks for the same signature. -/
structure RestoredFrom (account restored : PlogAccount) : Prop where
  noPending : restored.pending = ∅
  vlad : restored.vlad = account.vlad
  summary : restored.summary = account.summary
  listDelegations : restored.listDelegations = account.listDelegations
  getValue : ∀ path, restored.getValue path = account.getValue path
  prepares : ∀ op ambient ambient',
    (restored.perform op ambient').2.toSign = (account.perform op ambient).2.toSign

namespace PlogAccount

/-- What is to be signed comes from the spec and the log. -/
theorem prepareWith_toSign (account : PlogAccount) (spec : Except Error PrepareEntrySpec)
    (ambient : Ambient) :
    (account.prepareWith spec ambient).1.map UpdateChallenge.toSign =
      (spec >>= fun input => (account.unsignedEntry input).map fun unsigned =>
        (encodeBytesMultibase unsigned.message, account.currentHeadCid)) := by
  have outcome := account.prepareWith_outcome spec ambient
  generalize account.prepareWith spec ambient = result at outcome ⊢
  cases outcome with
  | invalid e failed => rw [failed]; rfl
  | refused e input given failed => rw [given, except_ok_bind, failed]; rfl
  | issued input given unsigned built => rw [given, except_ok_bind, built]; rfl

theorem restoredFrom (account : PlogAccount) :
    RestoredFrom account { log := account.log, pending := ∅ } := by
  refine ⟨rfl, rfl, rfl, rfl, fun _ => rfl, ?_⟩
  intro op ambient ambient'
  have sameSpec : op.spec { log := account.log, pending := ∅ } = op.spec account := by
    cases op <;> rfl
  cases asked : op.spec account with
  | some spec =>
    rw [perform_prepared asked, perform_prepared (sameSpec.trans asked)]
    simp only [AccountReply.toSign, prepareWith_toSign]
    rfl
  | none =>
    cases op with
    | commitUpdate id signature => rfl
    | cancelUpdate id => rfl
    | prepareUpdate requestJson => cases asked
    | prepareDelegate path pubkeyMultibase => cases asked
    | prepareRevoke path => cases asked

/-- Both imports of an exported account make the account without its challenges. -/
theorem import_exported {account : PlogAccount} {summary : AccountSummary}
    (summarised : account.summary = .ok summary) (roundTrip : LogRoundTrip account.log) :
    PlogAccount.import account.exportPlog = .ok ({ log := account.log, pending := ∅ }, summary) ∧
      importBytes account.exportPlogBytes = .ok ({ log := account.log, pending := ∅ }, summary) := by
  have opened : ofLog account.log = .ok ({ log := account.log, pending := ∅ }, summary) := by
    unfold ofLog
    change summaryFromVerifiedPlog account.log = _ at summarised
    rw [summarised]
    rfl
  constructor
  · unfold PlogAccount.import exportPlog decodePlog encodePlog
    rw [roundTrip.encoded]
    exact opened
  · unfold importBytes exportPlogBytes plogFromBytes plogToBytes
    rw [roundTrip.bytes]
    exact opened

theorem Reached.summary (append : AppendLaws) {account : PlogAccount} (reached : account.Reached) :
    ∃ summary, account.summary = .ok summary := by
  obtain ⟨key, parses⟩ := reached.rootKeyParses
  obtain ⟨last, pairs, head⟩ := (reached.verified append).head
  exact ⟨_, head.summary parses⟩

end PlogAccount

/-- The account is back under its key, and the other accounts are those of `before`. -/
structure RestoredIn (before after : AccountCache) (key : VladHash) (account : PlogAccount) :
    Prop where
  own : ∃ restored, after.lookup key = some restored ∧ RestoredFrom account restored
  others : ∀ other, other ≠ key → after.lookup other = before.lookup other

theorem import_restores (law : VladLaw) {account : PlogAccount} {summary : AccountSummary}
    (summarised : account.summary = .ok summary) (roundTrip : LogRoundTrip account.log)
    {key : VladHash} (keyed : key = vladHash account.log.vlad) (cache : AccountCache)
    (ambient : Ambient) :
    RestoredIn cache
        (AccountsModule.dispatch cache (.importPlog account.exportPlog) ambient).1 key account ∧
      (AccountsModule.dispatch cache (.importPlog account.exportPlog) ambient).2 =
        silent (.summary summary) := by
  have installs : (Call.importPlog account.exportPlog).installs ambient =
      some (.ok ({ log := account.log, pending := ∅ }, summary)) :=
    congrArg some (PlogAccount.import_exported summarised roundTrip).1
  rw [dispatch_installs law cache installs]
  subst keyed
  refine ⟨⟨⟨_, ?_, account.restoredFrom⟩, ?_⟩, rfl⟩
  · rw [FiniteMap.lookup_insert, if_pos rfl]
  · intro other different
    rw [FiniteMap.lookup_insert, if_neg different]

/-- Every reached account comes back whole from its text and from its bytes; and in
every reachable state of the module, export, then removal or clearing, then import
of the exported text puts the account back without its challenges, and touches no
other. -/
theorem export_import_lossless (append : AppendLaws) (law : VladLaw) :
    (∀ account : PlogAccount, account.Reached → LogRoundTrip account.log →
      ∃ restored summary, PlogAccount.import account.exportPlog = .ok (restored, summary) ∧
        PlogAccount.importBytes account.exportPlogBytes = .ok (restored, summary) ∧
        RestoredFrom account restored) ∧
    ∀ cache, Reachable cache → ∀ vlad key account, cache.get vlad = .ok (key, account) →
      LogRoundTrip account.log → ∀ exporting dropping importing, ∃ text summary,
        AccountsModule.dispatch cache (.exportPlog vlad) exporting = (cache, silent (.plog text)) ∧
        (∀ vlad', AccountCache.keyFromMultibase vlad' = .ok key →
          (AccountsModule.dispatch cache (.removePlog vlad') dropping).2 = silent .removed ∧
          accountsModule.reply (AccountsModule.dispatch cache (.removePlog vlad') dropping).1
            (.importPlog text, importing) = silent (.summary summary) ∧
          RestoredIn cache (accountsModule.after cache [(.exportPlog vlad, exporting),
            (.removePlog vlad', dropping), (.importPlog text, importing)]) key account) ∧
        accountsModule.reply (AccountsModule.dispatch cache .clearCache dropping).1
          (.importPlog text, importing) = silent (.summary summary) ∧
        RestoredIn ∅ (accountsModule.after cache [(.exportPlog vlad, exporting),
          (.clearCache, dropping), (.importPlog text, importing)]) key account := by
  constructor
  · intro account reached roundTrip
    obtain ⟨summary, summarised⟩ := reached.summary append
    obtain ⟨fromText, fromBytes⟩ := PlogAccount.import_exported summarised roundTrip
    exact ⟨_, summary, fromText, fromBytes, account.restoredFrom⟩
  · intro cache reachable vlad key account found roundTrip exporting dropping importing
    obtain ⟨decodedVlad, decoded, sameKey, present⟩ := AccountCache.get_ok.mp found
    have keyed := reachable_wellKeyed append.keepsVlad law reachable key account present
    obtain ⟨summary, summarised⟩ := (cached_reached reachable present).summary append
    have restores (state : AccountCache) :=
      import_restores law summarised roundTrip keyed state importing
    have exported : AccountsModule.dispatch cache (.exportPlog vlad) exporting =
        (cache, silent (.plog account.exportPlog)) := by
      rw [dispatch_reader rfl]
      unfold AccountsModule.withAccount
      rw [found]
    have kept : accountsModule.next cache (.exportPlog vlad, exporting) = cache :=
      congrArg Prod.fst exported
    refine ⟨account.exportPlog, summary, exported, ?_, (restores ∅).2, ?_⟩
    · intro vlad' named
      obtain ⟨decodedVlad', decoded', sameKey'⟩ := AccountCache.keyFromMultibase_ok.mp named
      have found' : cache.get vlad' = .ok (key, account) :=
        AccountCache.get_ok.mpr ⟨decodedVlad', decoded', sameKey', present⟩
      have removed : AccountsModule.dispatch cache (.removePlog vlad') dropping =
          (FiniteMap.erase cache key, silent .removed) := by
        simp only [AccountsModule.dispatch, AccountsModule.removePlog, AccountCache.remove_eq, found']
        rfl
      rw [removed]
      refine ⟨rfl, (restores _).2, ?_⟩
      rw [Machine.after_cons, kept, Machine.after_cons]
      have dropped : accountsModule.next cache (.removePlog vlad', dropping) =
          FiniteMap.erase cache key := congrArg Prod.fst removed
      rw [dropped]
      obtain ⟨own, others⟩ := (restores (FiniteMap.erase cache key)).1
      refine ⟨own, ?_⟩
      intro other different
      refine (others other different).trans ?_
      rw [FiniteMap.lookup_erase, if_neg different]
    · rw [Machine.after_cons, kept]
      exact (restores ∅).1

end

section
open Reference

theorem openedLog_roundTrip : LogRoundTrip openedAccount.log := ⟨by decide +kernel, by decide +kernel⟩

def openedCalls : List (Call × Ambient) := [(.createAccount "u5wEC", sampleAmbient 0 9)]

theorem openedCalls_get : (accountsModule.after ∅ openedCalls).get "uhwAA6eE" =
    .ok (vladHash openedAccount.log.vlad, openedAccount) := by
  have installs : (Call.createAccount "u5wEC").installs (sampleAmbient 0 9) = some (.ok (openedAccount,
      { vlad := "uhwAA6eE", headCid := "ueDL5gw", pubkey := some "u5wEC" })) :=
    congrArg some openedAccount_created
  have cached : accountsModule.after ∅ openedCalls =
      FiniteMap.insert ∅ (vladHash openedAccount.log.vlad) openedAccount :=
    congrArg Prod.fst (dispatch_installs vladLaw ∅ installs)
  rw [cached]
  refine AccountCache.get_ok.mpr ⟨openedAccount.log.vlad, by decide +kernel, rfl, ?_⟩
  rw [FiniteMap.lookup_insert, if_pos rfl]

/-- The opened account, exported, removed or cleared, and imported again. -/
theorem export_import_lossless_opened :
    (∃ restored summary, PlogAccount.import openedAccount.exportPlog = .ok (restored, summary) ∧
      PlogAccount.importBytes openedAccount.exportPlogBytes = .ok (restored, summary) ∧
      RestoredFrom openedAccount restored) ∧
    ∃ text summary,
      AccountsModule.dispatch (accountsModule.after ∅ openedCalls) (.exportPlog "uhwAA6eE")
        (sampleAmbient 1 9) = (accountsModule.after ∅ openedCalls, silent (.plog text)) ∧
      accountsModule.reply (AccountsModule.dispatch (accountsModule.after ∅ openedCalls)
          (.removePlog "uhwAA6eE") (sampleAmbient 2 9)).1 (.importPlog text, sampleAmbient 3 9) =
        silent (.summary summary) ∧
      RestoredIn ∅ (accountsModule.after (accountsModule.after ∅ openedCalls)
        [(.exportPlog "uhwAA6eE", sampleAmbient 1 9), (.clearCache, sampleAmbient 2 9),
          (.importPlog text, sampleAmbient 3 9)]) (vladHash openedAccount.log.vlad) openedAccount := by
  have lossless := export_import_lossless appendLaws vladLaw
  refine ⟨lossless.1 openedAccount (openedAccount_opened.reached []) openedLog_roundTrip, ?_⟩
  obtain ⟨text, summary, exported, removed, _, cleared⟩ := lossless.2 _ ⟨openedCalls, rfl⟩ _ _ _
    openedCalls_get openedLog_roundTrip (sampleAmbient 1 9) (sampleAmbient 2 9) (sampleAmbient 3 9)
  have named : AccountCache.keyFromMultibase "uhwAA6eE" = .ok (vladHash openedAccount.log.vlad) := by
    decide +kernel
  exact ⟨text, summary, exported, (removed "uhwAA6eE" named).2.1, cleared⟩

end

end LogosAccounts
