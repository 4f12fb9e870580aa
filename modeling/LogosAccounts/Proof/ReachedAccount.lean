import LogosAccounts.Proof.VerifiedCache

/-! The accounts there can be: those that create or import open, and what a run of
operations makes of them. Every cached account is one. -/

namespace LogosAccounts
open BetterSign hiding mk
open Functional

section
variable [BetterSign]

namespace PlogAccount

/-- The account is what create or one of the imports returns. -/
inductive Opened (account : PlogAccount) : Prop where
  | created (pubkeyMultibase : String) (ambient : Ambient) (summary : AccountSummary)
      (success : PlogAccount.create pubkeyMultibase ambient = .ok (account, summary))
  | imported (plogMultibase : String) (summary : AccountSummary)
      (success : PlogAccount.import plogMultibase = .ok (account, summary))
  | importedBytes (plogBytes : Bytes) (summary : AccountSummary)
      (success : PlogAccount.importBytes plogBytes = .ok (account, summary))

/-- A run of operations on an opened account ends in this one. -/
def Reached (account : PlogAccount) : Prop :=
  ∃ start run, Opened start ∧ account = accountMachine.after start run

theorem Opened.summary {account : PlogAccount} (opened : account.Opened) :
    (∃ summary, summaryFromVerifiedPlog account.log = .ok summary) ∧ account.pending = ∅ := by
  have ofLog {log : Log} {summary : AccountSummary} (success : ofLog log = .ok (account, summary)) :
      (∃ summary, summaryFromVerifiedPlog account.log = .ok summary) ∧ account.pending = ∅ := by
    obtain ⟨found, summarised, success⟩ := except_bind_ok.mp success
    obtain ⟨rfl, _⟩ := Prod.mk.inj (Except.ok.inj success)
    exact ⟨⟨found, summarised⟩, rfl⟩
  cases opened with
  | created pubkeyMultibase ambient summary success =>
    obtain ⟨multikey, _, success⟩ := except_bind_ok.mp success
    obtain ⟨log, _, success⟩ := except_bind_ok.mp success
    exact ofLog success
  | imported plogMultibase summary success =>
    obtain ⟨log, _, success⟩ := except_bind_ok.mp success
    exact ofLog success
  | importedBytes plogBytes summary success =>
    obtain ⟨log, _, success⟩ := except_bind_ok.mp success
    exact ofLog success

theorem Opened.verified {account : PlogAccount} (opened : account.Opened) :
    FullyVerified account.log := by
  obtain ⟨⟨_, summarised⟩, _⟩ := opened.summary
  exact (summary_verified summarised).1

theorem Opened.rootKeyParses {account : PlogAccount} (opened : account.Opened) : RootKeyParses := by
  obtain ⟨⟨_, summarised⟩, _⟩ := opened.summary
  exact summary_rootKeyParses summarised

theorem after_verified (append : AppendLaws) {account : PlogAccount}
    (verified : FullyVerified account.log) (run : List (AccountOp × Ambient)) :
    FullyVerified (accountMachine.after account run).log := by
  let good (account : PlogAccount) : Prop := FullyVerified account.log
  have first : good account := verified
  exact accountMachine.after_preserves first fun state action _ stillVerified =>
    (state.perform_change append action.1 action.2).verified stillVerified

theorem Opened.reached {account : PlogAccount} (opened : account.Opened)
    (run : List (AccountOp × Ambient)) : Reached (accountMachine.after account run) :=
  ⟨account, run, opened, rfl⟩

theorem Reached.next {account : PlogAccount} (reached : account.Reached) (op : AccountOp)
    (ambient : Ambient) : Reached (account.perform op ambient).1 := by
  obtain ⟨start, run, opened, rfl⟩ := reached
  refine ⟨start, run ++ [(op, ambient)], opened, ?_⟩
  rw [Machine.after_snoc]
  rfl

theorem Reached.verified (append : AppendLaws) {account : PlogAccount} (reached : account.Reached) :
    FullyVerified account.log := by
  obtain ⟨start, run, opened, rfl⟩ := reached
  exact after_verified append opened.verified run

theorem Reached.rootKeyParses {account : PlogAccount} (reached : account.Reached) :
    RootKeyParses := by
  obtain ⟨_, _, opened, _⟩ := reached
  exact opened.rootKeyParses

end PlogAccount

theorem installs_opened {call : Call} {ambient : Ambient} {account : PlogAccount}
    {summary : AccountSummary} (installs : call.installs ambient = some (.ok (account, summary))) :
    account.Opened := by
  cases call with
  | createAccount pubkeyMultibase => exact .created pubkeyMultibase ambient summary (Option.some.inj installs)
  | importPlog plogB64 => exact .imported plogB64 summary (Option.some.inj installs)
  | _ => cases installs

/-- Every account in the cache of a reachable module state is a reached account,
so what holds of those holds of it. -/
theorem cached_reached {cache : AccountCache} (reachable : Reachable cache) {key : VladHash}
    {account : PlogAccount} (cached : cache.lookup key = some account) : account.Reached := by
  obtain ⟨run, rfl⟩ := reachable
  have each : FiniteMap.Each (accountsModule.after ∅ run) fun _ account => account.Reached := by
    apply run_each
    · intro call ambient _ account summary key installs _
      exact (installs_opened installs).reached []
    · intro call ambient _ vlad op key account _ reached
      exact reached.next op ambient
  exact each key account cached

end

section
open Reference

theorem openedAccount_created : PlogAccount.create "u5wEC" (sampleAmbient 0 9) =
    .ok (openedAccount, { vlad := "uhwAA6eE", headCid := "ueDL5gw", pubkey := some "u5wEC" }) := by
  have summarised : summaryFromVerifiedPlog (openedLog rootKey [7]) =
      .ok { vlad := "uhwAA6eE", headCid := "ueDL5gw", pubkey := some "u5wEC" } := by decide +kernel
  have decoded : decodeMultikey "u5wEC" = .ok rootKey := by decide +kernel
  have made : openPlogWithExternalPubkey rootKey ([7] : Bytes) = .ok (openedLog rootKey [7]) := by
    decide +kernel
  unfold PlogAccount.create
  rw [decoded, except_ok_bind]
  change (openPlogWithExternalPubkey rootKey ([7] : Bytes) >>= PlogAccount.ofLog) = _
  rw [made, except_ok_bind, PlogAccount.ofLog, summarised]
  rfl

theorem openedAccount_opened : openedAccount.Opened := .created _ _ _ openedAccount_created

end

end LogosAccounts
