import LogosAccounts.Proof.ReachedAccount

/-! How many challenges an account can hold. Whenever an operation has cleared out the
expired ones, there is room taken only by challenges issued in the last 15 minutes and
since the last commit. -/

namespace LogosAccounts
open BetterSign hiding mk
open Functional

section
variable [BetterSign]

/-- The dates of the challenges issued since the last commit, read off the replies. -/
def observeDates (dates : List Nat) (action : AccountOp × Ambient) (reply : AccountReply) :
    List Nat :=
  match reply with
  | .challenge (.ok _) => dates ++ [action.2.issuedAt]
  | .committed (.ok _) => []
  | _ => dates

def issueDates (start : PlogAccount) (run : List (AccountOp × Ambient)) : List Nat :=
  accountMachine.notes observeDates start [] run

theorem observeDates_quiet (dates : List Nat) (action : AccountOp × Ambient) {reply : AccountReply}
    (unissued : ∀ challenge, reply ≠ .challenge (.ok challenge))
    (uncommitted : ∀ committed, reply ≠ .committed (.ok committed)) :
    observeDates dates action reply = dates := by
  unfold observeDates
  split
  · exact absurd rfl (unissued _)
  · exact absurd rfl (uncommitted _)
  · rfl

/-- Of the pending challenges with any dates, there are no more than were issued then. -/
def Accounted (account : PlogAccount) (dates : List Nat) : Prop :=
  ∀ keep : Nat → Bool,
    (account.pending.retain fun _ p => keep p.createdAt).size ≤ (dates.filter keep).length

theorem Accounted.next (append : AppendLaws) {account : PlogAccount} {dates : List Nat}
    (accounted : Accounted account dates) (action : AccountOp × Ambient) :
    Accounted (accountMachine.next account action)
      (observeDates dates action (accountMachine.reply account action)) := by
  obtain ⟨op, ambient⟩ := action
  change Accounted (account.perform op ambient).1
    (observeDates dates (op, ambient) (account.perform op ambient).2)
  have effect := account.perform_effect append op ambient
  generalize account.perform op ambient = result at effect
  cases effect with
  | dropped pending part reply unissued uncommitted =>
    intro keep
    rw [observeDates_quiet dates _ unissued uncommitted]
    exact (part.retain _).size_le.trans (accounted keep)
  | issued input asked unsigned built =>
    intro keep
    have old := ((account.purge_submap ambient.now).retain fun _ p => keep p.createdAt).size_le.trans
      (accounted keep)
    have new := (account.purgeExpiredChallenges ambient.now).pending.size_retain_insert_le
      (newChallengeId ambient.challengeBytes) (account.pendingUpdate input unsigned ambient)
      fun _ p => keep p.createdAt
    change _ ≤ ((dates ++ [ambient.issuedAt]).filter keep).length
    have last : ([ambient.issuedAt].filter keep).length = if keep ambient.issuedAt then 1 else 0 := by
      rw [List.filter_singleton]
      cases keep ambient.issuedAt <;> rfl
    rw [List.filter_append, List.length_append, last]
    exact new.trans (Nat.add_le_add_right old _)
  | appended id signature named p stored proof entry signed verified =>
    intro keep
    have none : ((∅ : FiniteMap String PendingUpdate).retain fun _ p => keep p.createdAt).size = 0 :=
      FiniteMap.size_eq_zero.mpr (FiniteMap.ext fun _ => rfl)
    exact none.symm ▸ Nat.zero_le _

/-- The operation gets as far as clearing out expired challenges: it is no prepare with a
bad argument. -/
def Purges (account : PlogAccount) (op : AccountOp) : Prop :=
  ∀ e, op.spec account ≠ some (.error e)

theorem perform_young (append : AppendLaws) {account : PlogAccount} {op : AccountOp}
    (purges : Purges account op) {ambient : Ambient} (clock : ambient.now ≤ ambient.issuedAt)
    {id : String} {p : PendingUpdate}
    (found : (account.perform op ambient).1.pending.lookup id = some p) :
    ambient.now - p.createdAt < challengeTtl := by
  have purged {id : String} {p : PendingUpdate}
      (found : (account.purgeExpiredChallenges ambient.now).pending.lookup id = some p) :
      ambient.now - p.createdAt < challengeTtl :=
    ((account.purge_lookup_some ambient.now id p).mp found).2
  have erased {id other : String} {p : PendingUpdate} (found : ((account.purgeExpiredChallenges
      ambient.now).pending.erase other).lookup id = some p) :
      ambient.now - p.createdAt < challengeTtl :=
    purged (FiniteMap.erase_submap _ other id p found)
  have outcome := account.perform_outcome append op ambient
  generalize account.perform op ambient = result at outcome found
  cases outcome with
  | prepared spec asked result prepared =>
    cases prepared with
    | invalid e failed => exact absurd (failed ▸ asked) (purges e)
    | refused e input given failed => exact purged found
    | issued input given unsigned built =>
      rw [FiniteMap.lookup_insert] at found
      by_cases new : id = newChallengeId ambient.challengeBytes
      · rw [if_pos new] at found
        obtain rfl := Option.some.inj found
        have fresh : ambient.now - ambient.issuedAt = 0 := Nat.sub_eq_zero_of_le clock
        change ambient.now - ambient.issuedAt < challengeTtl
        rw [fresh]
        decide
      · rw [if_neg new] at found
        exact purged found
  | committed other signature named result commit =>
    cases commit with
    | unknown missing => exact purged found
    | refused e p found' kind moved => exact erased found
    | appended p found' sameHead decodedSignature decoded entry signed verified => cases found
  | cancelled other named result cancel =>
    cases cancel with
    | unknown missing => exact purged found
    | dropped p found' => exact erased found

/-- An account never holds more challenges than were issued in the last 15 minutes and
since the last commit, each time an operation has cleared out the expired ones. -/
theorem pending_bounded (append : AppendLaws) {start : PlogAccount} (opened : start.Opened)
    (run : List (AccountOp × Ambient)) (action : AccountOp × Ambient)
    (purges : Purges (accountMachine.after start run) action.1)
    (clock : action.2.now ≤ action.2.issuedAt) :
    (accountMachine.after start (run ++ [action])).pending.size ≤
      ((issueDates start (run ++ [action])).filter fun date =>
        action.2.now - date < challengeTtl).length := by
  have first : Accounted start [] := by
    intro keep
    have none : start.pending.retain (fun _ p => keep p.createdAt) = ∅ := by
      rw [opened.summary.2]
      exact FiniteMap.ext fun _ => rfl
    rw [none]
    exact Nat.le_refl 0
  have accounted : Accounted (accountMachine.after start (run ++ [action]))
      (issueDates start (run ++ [action])) :=
    accountMachine.notes_preserve first fun _ _ step _ kept => kept.next append step
  have young : (accountMachine.after start (run ++ [action])).pending.Submap
      ((accountMachine.after start (run ++ [action])).pending.retain fun _ p =>
        action.2.now - p.createdAt < challengeTtl) := by
    intro id p found
    rw [FiniteMap.lookup_retain, found, Option.filter_some]
    rw [Machine.after_snoc] at found
    exact if_pos (decide_eq_true (perform_young append purges clock found))
  exact young.size_le.trans (accounted fun date => action.2.now - date < challengeTtl)

end

section
open Reference

/-- Two challenges, and 15 minutes after the first one a cancel of neither. -/
theorem pending_bounded_expired :
    (accountMachine.after openedAccount ([(.prepareRevoke "/b/", sampleAmbient 0 1),
      (.prepareDelegate "/a/" "u5wkJ", sampleAmbient 1 0)] ++
        [(.cancelUpdate "u", sampleAmbient challengeTtl 9)])).pending.size ≤ 1 := by
  have dates : issueDates openedAccount ([(.prepareRevoke "/b/", sampleAmbient 0 1),
      (.prepareDelegate "/a/" "u5wkJ", sampleAmbient 1 0)] ++
        [(.cancelUpdate "u", sampleAmbient challengeTtl 9)]) = [0, 1] := by decide +kernel
  have bound := pending_bounded appendLaws openedAccount_opened
    [(.prepareRevoke "/b/", sampleAmbient 0 1), (.prepareDelegate "/a/" "u5wkJ", sampleAmbient 1 0)]
    (.cancelUpdate "u", sampleAmbient challengeTtl 9) (by simp [Purges, AccountOp.spec])
    (Nat.le_refl _)
  rw [dates] at bound
  exact bound

end

end LogosAccounts
