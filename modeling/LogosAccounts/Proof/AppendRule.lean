import LogosAccounts.Proof.ReachedAccount

/-! A rule for runs whose operations are all of an allowed kind: what every prepare
of that kind gives its entry, and every such entry keeps when it is appended, the
log has after the run. -/

namespace LogosAccounts
open BetterSign hiding mk
open Functional
variable [BetterSign]

/-- An allowed prepare builds an entry that `fits` the log, and appending a signed
entry that fits keeps what `holds` of the log. -/
structure AppendRule (allowed : AccountOp → Prop) (fits : Log → Entry → Prop)
    (holds : Log → Prop) : Prop where
  prepared : ∀ account op input unsigned, FullyVerified (PlogAccount.log account) →
    holds account.log → allowed op → op.spec account = some (.ok input) →
    account.unsignedEntry input = .ok unsigned → fits account.log unsigned.entry
  appended : ∀ log unsigned entry, FullyVerified log → holds log → fits log unsigned →
    entry.unsigned = unsigned.unsigned → FullyVerified (log.push entry) → holds (log.push entry)

namespace AppendRule
variable {allowed : AccountOp → Prop} {fits : Log → Entry → Prop} {holds : Log → Prop}

/-- The log is as the rule says, and every pending entry fits it. -/
structure Kept (fits : Log → Entry → Prop) (holds : Log → Prop) (account : PlogAccount) : Prop where
  verified : FullyVerified account.log
  log : holds account.log
  pending : ∀ id p, account.pending.lookup id = some p → fits account.log p.unsigned.entry

theorem Kept.drop {account : PlogAccount} (kept : Kept fits holds account)
    {pending : FiniteMap String PendingUpdate} (part : pending.Submap account.pending) :
    Kept fits holds { account with pending } where
  verified := kept.verified
  log := kept.log
  pending id p stored := kept.pending id p (part id p stored)

theorem Kept.perform (rule : AppendRule allowed fits holds) (entries : EntryLaws)
    (append : AppendLaws) {account : PlogAccount} (kept : Kept fits holds account) {op : AccountOp}
    (member : allowed op) (ambient : Ambient) : Kept fits holds (account.perform op ambient).1 := by
  have effect := account.perform_effect append op ambient
  generalize account.perform op ambient = result at effect ⊢
  cases effect with
  | dropped pending part reply unissued uncommitted => exact kept.drop part
  | issued input asked unsigned built =>
    refine ⟨kept.verified, kept.log, ?_⟩
    intro id p stored
    rw [FiniteMap.lookup_insert] at stored
    by_cases drawn : id = newChallengeId ambient.challengeBytes
    · rw [if_pos drawn] at stored
      obtain rfl := Option.some.inj stored
      exact rule.prepared account op input unsigned kept.verified kept.log member asked built
    · rw [if_neg drawn] at stored
      exact kept.pending id p (account.purge_submap ambient.now id p stored)
  | appended id signature named p stored proof entry signed verified =>
    refine ⟨verified, ?_, ?_⟩
    · exact rule.appended account.log p.unsigned.entry entry kept.verified kept.log
        (kept.pending id p stored) (entries.proofOnly _ _ _ signed) verified
    · intro other q impossible
      cases impossible

theorem run (rule : AppendRule allowed fits holds) (entries : EntryLaws) (append : AppendLaws)
    {start : PlogAccount} (opened : start.Opened) (initial : holds start.log)
    {run : List (AccountOp × Ambient)} (every : ∀ action ∈ run, allowed action.1) :
    holds (accountMachine.after start run).log := by
  have first : Kept fits holds start := by
    refine ⟨opened.verified, initial, ?_⟩
    intro id p impossible
    rw [opened.summary.2] at impossible
    cases impossible
  have kept : Kept fits holds (accountMachine.after start run) := by
    apply accountMachine.after_preserves first
    intro state action member stillKept
    exact stillKept.perform rule entries append (every action member) action.2
  exact kept.log

end AppendRule

end LogosAccounts
