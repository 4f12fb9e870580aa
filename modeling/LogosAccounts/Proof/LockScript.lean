import LogosAccounts.Functional.Lexing
import LogosAccounts.Proof.GrantEntry

/-! What the lock script of a delegation says. The path is put between quotes as
it is, so the script means what its author meant exactly for paths that a string
literal can spell unescaped. -/

namespace LogosAccounts
open BetterSign hiding mk
open Functional

def signatureCheck (keyPath : String) : List Token :=
  [.word "check_signature".toList, .mark '(', .literal keyPath.toList, .mark ',',
    .literal "/entry/".toList, .mark ')']

/-- The source is one call that checks the key at `keyPath` against `/entry/`. -/
def ChecksOnly (escape : List Char → EscapeStep) (source keyPath : String) : Prop :=
  tokens escape source = some (signatureCheck keyPath)

/-- Neither a double quote nor a backslash. -/
def PlainPath (path : String) : Prop := Plain path.toList

instance (path : String) : Decidable (PlainPath path) :=
  inferInstanceAs (Decidable (Plain path.toList))

theorem signatureCheck_injective {left right : String}
    (same : signatureCheck left = signatureCheck right) : left = right := by
  simp only [signatureCheck, List.cons.injEq, Token.literal.injEq, true_and, and_true] at same
  exact String.toList_injective same

theorem plain_pubkey {path : String} : Plain (path ++ "pubkey").toList ↔ PlainPath path := by
  have own : Plain "pubkey".toList := by decide +kernel
  rw [String.toList_append]
  constructor
  · intro plain c member
    exact plain c (List.mem_append_left _ member)
  · intro plain c member
    rcases List.mem_append.mp member with inPath | inOwn
    · exact plain c inPath
    · exact own c inOwn

section
variable [BetterSign] {escape : List Char → EscapeStep}

/-- The script is `check_signature(`, then a literal holding the key path as it is. -/
theorem tokens_delegatedLockCode (branch : Key) :
    tokens escape (delegatedLockCode branch) =
      (scan escape (.literal []) ((keyAsStr branch ++ "pubkey").toList ++
        '"' :: ',' :: " \"/entry/\")".toList)).map
        fun later => .word "check_signature".toList :: .mark '(' :: later := by
  have literal : "pubkey\", \"/entry/\")" = "pubkey" ++ "\", \"/entry/\")" := by simp
  have source : (delegatedLockCode branch).toList =
      "check_signature(\"".toList ++ ((keyAsStr branch ++ "pubkey").toList ++
        '"' :: ',' :: " \"/entry/\")".toList) := by
    unfold delegatedLockCode
    rw [literal]
    simp
  unfold tokens
  rw [source]
  generalize (keyAsStr branch ++ "pubkey").toList ++ '"' :: ',' :: " \"/entry/\")".toList = rest
  cases scanned : scan escape (.literal []) rest with
  | none => simp [scan, startToken, isQuote, isWordChar, scanned]
  | some later => simp [scan, startToken, isQuote, isWordChar, scanned]

/-- The script reads as the one check its author meant exactly for plain paths. -/
theorem checksOnly_iff (keys : KeyLaws) {path : String} {branch : Key}
    (accepted : parseBranchPath path = .ok branch) :
    ChecksOnly escape (delegatedLockCode branch) (path ++ "pubkey") ↔ PlainPath path := by
  have text : keyAsStr branch = path := keys.keeps path branch (parseBranchPath_ok.mp accepted).1
  have once : ',' ∉ " \"/entry/\")".toList := by decide
  have meant : scan escape .outside (',' :: " \"/entry/\")".toList) =
      some [.mark ',', .literal "/entry/".toList, .mark ')'] := by
    simp [scan, startToken, isQuote, isBackslash, isWordChar]
  unfold ChecksOnly signatureCheck
  rw [tokens_delegatedLockCode, text, ← plain_pubkey, ← spliced_literal meant once,
    Option.map_eq_some_iff]
  constructor
  · rintro ⟨later, scanned, same⟩
    rw [scanned]
    exact congrArg some (List.cons.inj (List.cons.inj same).2).2
  · intro scanned
    exact ⟨_, scanned, rfl⟩

/-- The only lock a prepared delegation leaves at its branch. -/
theorem delegate_lock (keys : KeyLaws) (entries : EntryLaws) {account : PlogAccount}
    (verified : FullyVerified account.log) {path pubkeyMultibase : String} {branch : Key}
    (accepted : parseBranchPath path = .ok branch) {ambient : Ambient} {challenge : UpdateChallenge}
    (success : (account.prepareDelegate path pubkeyMultibase ambient).1 = .ok challenge) :
    ∃ p, (account.prepareDelegate path pubkeyMultibase ambient).2.pending.lookup
        challenge.challengeId = some p ∧
      p.unsigned.entry.locks.filter (fun lock => lock.path = branch) =
        [.code branch (delegatedLockCode branch)] := by
  obtain ⟨input, unsigned, given, built, rfl, _, stored⟩ := account.prepareWith_issued success
  refine ⟨_, stored, ?_⟩
  obtain ⟨last, pairs, head⟩ := verified.head
  obtain ⟨multikey, decoded⟩ : ∃ multikey, decodeMultikey pubkeyMultibase = .ok multikey := by
    obtain ⟨branch', _, given⟩ := except_bind_ok.mp given
    obtain ⟨multikey, decoded, _⟩ := except_bind_ok.mp given
    exact ⟨multikey, decoded⟩
  obtain ⟨_, _, _, _, _, locks⟩ := delegate_entry keys entries head accepted decoded given built
  have others : (last.locks.filter fun lock => lock.path ≠ branch).filter
      (fun lock => lock.path = branch) = [] := by
    rw [List.filter_filter]
    apply List.filter_eq_nil_iff.mpr
    simp
  change unsigned.entry.locks.filter _ = _
  rw [locks, locksReplacingPath, List.filter_append, others]
  simp [delegatedBranchLockScript, Script.path]

/-- The script made for an accepted path is the one check of `{branch}pubkey`
exactly when the path is plain. Plain branches then get different scripts, none of
which checks another key, and it is this script that a delegation prepares. -/
theorem delegated_lock_unaltered (keys : KeyLaws) (entries : EntryLaws)
    (escape : List Char → EscapeStep) (path : String) (branch : Key)
    (accepted : parseBranchPath path = .ok branch) :
    (ChecksOnly escape (delegatedLockCode branch) (path ++ "pubkey") ↔ PlainPath path) ∧
    (PlainPath path →
      (∀ keyPath, ChecksOnly escape (delegatedLockCode branch) keyPath → keyPath = path ++ "pubkey") ∧
      ∀ other branch', parseBranchPath other = .ok branch' → PlainPath other → other ≠ path →
        tokens escape (delegatedLockCode branch') ≠ tokens escape (delegatedLockCode branch)) ∧
    ∀ account pubkeyMultibase ambient challenge, FullyVerified (PlogAccount.log account) →
      (account.prepareDelegate path pubkeyMultibase ambient).1 = .ok challenge →
      ∃ p, (account.prepareDelegate path pubkeyMultibase ambient).2.pending.lookup
          challenge.challengeId = some p ∧
        p.unsigned.entry.locks.filter (fun lock => lock.path = branch) =
          [.code branch (delegatedLockCode branch)] := by
  refine ⟨checksOnly_iff keys accepted, ?_, ?_⟩
  · intro plain
    have reads : tokens escape (delegatedLockCode branch) = some (signatureCheck (path ++ "pubkey")) :=
      (checksOnly_iff keys accepted).mpr plain
    constructor
    · intro keyPath checks
      have same : some (signatureCheck keyPath) = some (signatureCheck (path ++ "pubkey")) :=
        checks.symm.trans reads
      exact signatureCheck_injective (Option.some.inj same)
    · intro other branch' accepted' plain' different same
      have reads' : tokens escape (delegatedLockCode branch') =
          some (signatureCheck (other ++ "pubkey")) := (checksOnly_iff keys accepted').mpr plain'
      have sameCheck := Option.some.inj (reads'.symm.trans (same.trans reads))
      exact different ((String.append_left_inj _).mp (signatureCheck_injective sameCheck))
  · intro account pubkeyMultibase ambient challenge verified success
    exact delegate_lock keys entries verified accepted success

end

section
open Reference

/-- A backslash before a quote or a backslash stands for that character. -/
def sampleEscapes : List Char → EscapeStep
  | ['"'] => .stands '"'
  | ['\\'] => .stands '\\'
  | _ => .invalid

def splicedPath : String := "/x\", \"/entry/\") || check_signature(\"/y/"

/-- The path is accepted and delegated, and its lock lets the key at `/x` sign. -/
theorem delegated_lock_altered_by_path :
    ∃ branch, parseBranchPath splicedPath = .ok branch ∧
      (openedAccount.prepareDelegate splicedPath "u5wkJ" (sampleAmbient 1 0)).1.isOk = true ∧
      tokens sampleEscapes (delegatedLockCode branch) =
        some (signatureCheck "/x" ++ [.mark '|', .mark '|'] ++ signatureCheck "/y/pubkey") ∧
      ¬ ChecksOnly sampleEscapes (delegatedLockCode branch) (splicedPath ++ "pubkey") := by
  have reads : tokens sampleEscapes (delegatedLockCode (⟨splicedPath, by decide⟩ : PathKey)) =
      some (signatureCheck "/x" ++ [.mark '|', .mark '|'] ++ signatureCheck "/y/pubkey") := by
    decide +kernel
  refine ⟨(⟨splicedPath, by decide⟩ : PathKey), by decide +kernel, by decide +kernel, reads, ?_⟩
  intro checks
  unfold ChecksOnly at checks
  rw [reads] at checks
  revert checks
  decide +kernel

theorem delegated_lock_unaltered_delegation :
    ∃ branch branch', parseBranchPath "/a/" = .ok branch ∧ parseBranchPath "/b/" = .ok branch' ∧
      ChecksOnly sampleEscapes (delegatedLockCode branch) ("/a/" ++ "pubkey") ∧
      tokens sampleEscapes (delegatedLockCode branch') ≠ tokens sampleEscapes (delegatedLockCode branch) ∧
      ∃ p, (openedAccount.prepareDelegate "/a/" "u5wkJ" (sampleAmbient 1 0)).2.pending.lookup
          delegationChallenge.challengeId = some p ∧
        p.unsigned.entry.locks.filter (fun lock => lock.path = branch) =
          [.code branch (delegatedLockCode branch)] := by
  have accepted : parseBranchPath "/a/" = .ok (⟨"/a/", by decide⟩ : PathKey) := by decide +kernel
  have accepted' : parseBranchPath "/b/" = .ok (⟨"/b/", by decide⟩ : PathKey) := by decide +kernel
  have whole := delegated_lock_unaltered keyLaws entryLaws sampleEscapes "/a/" _ accepted
  refine ⟨_, _, accepted, accepted', whole.1.mpr (by decide +kernel), ?_, ?_⟩
  · exact (whole.2.1 (by decide +kernel)).2 "/b/" _ accepted' (by decide +kernel) (by decide)
  · have verified : FullyVerified openedAccount.log := ensurePlogVerified_iff.mp (by decide +kernel)
    exact whole.2.2 openedAccount "u5wkJ" (sampleAmbient 1 0) delegationChallenge verified
      (by decide +kernel)

end

end LogosAccounts
