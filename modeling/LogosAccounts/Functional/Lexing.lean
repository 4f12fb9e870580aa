import Mathlib.Data.List.Infix

/-! Splitting source text into words, marks and double-quoted literals. Blanks
separate; a literal ends at its first unescaped quote; what an escape stands for
is left to the language. -/

namespace LogosAccounts.Functional

inductive Token where
  | word (name : List Char)
  | mark (c : Char)
  | literal (text : List Char)
  deriving DecidableEq, Repr

/-- What the characters after a backslash mean so far. -/
inductive EscapeStep where
  | more
  | stands (c : Char)
  | invalid
  deriving DecidableEq, Repr

/-- Where a scan stands: outside, in a word, in a literal, or in an escape of a literal. -/
inductive ScanMode where
  | outside
  | word (name : List Char)
  | literal (text : List Char)
  | escape (text seen : List Char)
  deriving DecidableEq, Repr

def isQuote (c : Char) : Bool := c == '"'

def isBackslash (c : Char) : Bool := c == '\\'

def isWordChar (c : Char) : Bool := c.isAlphanum || c == '_'

/-- What a character outside a literal starts, and the mark it is. -/
def startToken (c : Char) : ScanMode × List Token :=
  if c.isWhitespace then (.outside, [])
  else if isQuote c then (.literal [], [])
  else if isWordChar c then (.word [c], [])
  else (.outside, [.mark c])

/-- The tokens of the rest of a text; `none` when it is not lexically valid. -/
def scan (escape : List Char → EscapeStep) : ScanMode → List Char → Option (List Token)
  | .outside, [] => some []
  | .word name, [] => some [.word name]
  | .literal _, [] => none
  | .escape _ _, [] => none
  | .outside, c :: rest =>
    (scan escape (startToken c).1 rest).map fun tokens => (startToken c).2 ++ tokens
  | .word name, c :: rest =>
    if isWordChar c then scan escape (.word (name ++ [c])) rest
    else (scan escape (startToken c).1 rest).map fun tokens =>
      .word name :: (startToken c).2 ++ tokens
  | .literal text, c :: rest =>
    if isQuote c then (scan escape .outside rest).map fun tokens => .literal text :: tokens
    else if isBackslash c then scan escape (.escape text []) rest
    else scan escape (.literal (text ++ [c])) rest
  | .escape text seen, c :: rest =>
    match escape (seen ++ [c]) with
    | .more => scan escape (.escape text (seen ++ [c])) rest
    | .stands d => scan escape (.literal (text ++ [d])) rest
    | .invalid => none

def tokens (escape : List Char → EscapeStep) (source : String) : Option (List Token) :=
  scan escape .outside source.toList

/-- Text that a literal spells as it is. -/
def Plain (text : List Char) : Prop := ∀ c ∈ text, isQuote c = false ∧ isBackslash c = false

instance (text : List Char) : Decidable (Plain text) :=
  decidable_of_iff ((text.all fun c => !isQuote c && !isBackslash c) = true) (by simp [Plain])

variable {escape : List Char → EscapeStep}

theorem scan_plain {text : List Char} (plain : Plain text) (read input : List Char) :
    scan escape (.literal read) (text ++ input) = scan escape (.literal (read ++ text)) input := by
  induction text generalizing read with
  | nil => simp
  | cons c rest ih =>
    obtain ⟨noQuote, noBackslash⟩ := plain c (by simp)
    have step : scan escape (.literal read) (c :: rest ++ input) =
        scan escape (.literal (read ++ [c])) (rest ++ input) := by
      rw [List.cons_append, scan, noQuote, noBackslash]
      simp
    rw [step, ih (fun d member => plain d (by simp [member])), List.append_assoc]
    rfl

@[simp] theorem scan_quote (read input : List Char) :
    scan escape (.literal read) ('"' :: input) =
      (scan escape .outside input).map fun tokens => .literal read :: tokens := rfl

@[simp] theorem scan_backslash (read input : List Char) :
    scan escape (.literal read) ('\\' :: input) = scan escape (.escape read []) input := rfl

/-- Text that is not plain is plain up to a quote or a backslash. -/
theorem not_plain_split {text : List Char} (dirty : ¬ Plain text) :
    ∃ before c after, text = before ++ c :: after ∧ Plain before ∧ (c = '"' ∨ c = '\\') := by
  induction text with
  | nil => exact absurd (by simp [Plain]) dirty
  | cons c rest ih =>
    by_cases stops : c = '"' ∨ c = '\\'
    · exact ⟨[], c, rest, rfl, by simp [Plain], stops⟩
    · have noStop : isQuote c = false ∧ isBackslash c = false := by
        simpa [isQuote, isBackslash] using stops
      obtain ⟨before, d, after, rfl, plain, isStop⟩ := ih (by
        intro plain
        apply dirty
        intro d member
        rcases List.mem_cons.mp member with rfl | later
        · exact noStop
        · exact plain d later)
      refine ⟨c :: before, d, after, rfl, ?_, isStop⟩
      intro e member
      rcases List.mem_cons.mp member with rfl | later
      · exact noStop
      · exact plain e later

/-- What is left of the input once a scan that stands in a literal has read it to
its end: a literal never denotes more characters than it is spelled with. -/
structure LiteralRead (escape : List Char → EscapeStep) (read input : List Char)
    (result : List Token) (text rest : List Char) : Prop where
  split : ∃ later, scan escape .outside rest = some later ∧ result = .literal (read ++ text) :: later
  suffix : rest <:+ input
  spelled : text.length + 1 + rest.length ≤ input.length

theorem scan_literal {read input : List Char} {result : List Token} :
    (scan escape (.literal read) input = some result →
      ∃ text rest, LiteralRead escape read input result text rest) ∧
    ∀ seen, scan escape (.escape read seen) input = some result →
      ∃ text rest, LiteralRead escape read input result text rest := by
  induction input generalizing read with
  | nil => exact ⟨fun impossible => by simp [scan] at impossible,
      fun seen impossible => by simp [scan] at impossible⟩
  | cons c input ih =>
    have onward {d : Char} (scanned : scan escape (.literal (read ++ [d])) input = some result) :
        ∃ text rest, LiteralRead escape read (c :: input) result text rest := by
      obtain ⟨text, rest, ⟨later, scannedRest, same⟩, suffix, spelled⟩ := ih.1 scanned
      refine ⟨d :: text, rest, ⟨later, scannedRest, by simpa using same⟩,
        suffix.trans (List.suffix_cons c input), ?_⟩
      simp only [List.length_cons]
      omega
    have skipped {seen : List Char} (scanned : scan escape (.escape read seen) input = some result) :
        ∃ text rest, LiteralRead escape read (c :: input) result text rest := by
      obtain ⟨text, rest, split, suffix, spelled⟩ := ih.2 seen scanned
      exact ⟨text, rest, split, suffix.trans (List.suffix_cons c input),
        spelled.trans (by simp)⟩
    constructor
    · intro scanned
      rw [scan] at scanned
      split at scanned
      · obtain ⟨later, scannedRest, rfl⟩ := Option.map_eq_some_iff.mp scanned
        exact ⟨[], input, ⟨later, scannedRest, by simp⟩, List.suffix_cons c input, by simp; omega⟩
      · split at scanned
        · exact skipped scanned
        · exact onward scanned
    · intro seen scanned
      rw [scan] at scanned
      split at scanned
      · exact skipped scanned
      · exact onward scanned
      · cases scanned

theorem startToken_mark {c d : Char} (starts : .mark c ∈ (startToken d).2) : c = d := by
  unfold startToken at starts
  split at starts
  · simp at starts
  · split at starts
    · simp at starts
    · split at starts
      · simp at starts
      · simpa using starts

theorem mark_mem_input {mode : ScanMode} {input : List Char} {result : List Token} {c : Char}
    (scanned : scan escape mode input = some result) (member : .mark c ∈ result) : c ∈ input := by
  induction input generalizing mode result with
  | nil =>
    cases mode with
    | outside =>
      obtain rfl := Option.some.inj scanned
      simp at member
    | word name =>
      obtain rfl := Option.some.inj scanned
      simp at member
    | literal text => cases scanned
    | escape text seen => cases scanned
  | cons d rest ih =>
    have started {later : List Token} (scannedRest : scan escape (startToken d).1 rest = some later)
        (member : .mark c ∈ (startToken d).2 ++ later) : c ∈ d :: rest := by
      rcases List.mem_append.mp member with isStart | isLater
      · simp [startToken_mark isStart]
      · exact List.mem_cons_of_mem d (ih scannedRest isLater)
    cases mode with
    | outside =>
      obtain ⟨later, scannedRest, rfl⟩ := Option.map_eq_some_iff.mp scanned
      exact started scannedRest member
    | word name =>
      rw [scan] at scanned
      split at scanned
      · exact List.mem_cons_of_mem d (ih scanned member)
      · obtain ⟨later, scannedRest, rfl⟩ := Option.map_eq_some_iff.mp scanned
        exact started scannedRest (by simpa using member)
    | literal text =>
      rw [scan] at scanned
      split at scanned
      · obtain ⟨later, scannedRest, rfl⟩ := Option.map_eq_some_iff.mp scanned
        exact List.mem_cons_of_mem d (ih scannedRest (by simpa using member))
      · split at scanned
        · exact List.mem_cons_of_mem d (ih scanned member)
        · exact List.mem_cons_of_mem d (ih scanned member)
    | escape text seen =>
      rw [scan] at scanned
      split at scanned
      · exact List.mem_cons_of_mem d (ih scanned member)
      · exact List.mem_cons_of_mem d (ih scanned member)
      · cases scanned

/-- Text that is not plain and still reads as itself has run over the quote meant
to end it, so that what follows is read from less than was meant. -/
theorem overrun {text after : List Char} {later : List Token} (dirty : ¬ Plain text)
    (scanned : scan escape (.literal []) (text ++ '"' :: after) = some (.literal text :: later)) :
    ∃ rest, rest <:+ after ∧ rest.length < after.length ∧ scan escape .outside rest = some later := by
  obtain ⟨before, c, inner, rfl, plain, stops⟩ := not_plain_split dirty
  rw [List.append_assoc, scan_plain plain, List.nil_append, List.cons_append] at scanned
  rcases stops with rfl | rfl
  · -- the literal ends inside the text
    rw [scan_quote, Option.map_eq_some_iff] at scanned
    obtain ⟨_, _, same⟩ := scanned
    have short := congrArg List.length (Token.literal.inj (List.cons.inj same).1)
    simp at short
  · rw [scan_backslash] at scanned
    obtain ⟨text, rest, ⟨later', scannedRest, same⟩, suffix, spelled⟩ := scan_literal.2 [] scanned
    obtain ⟨sameText, rfl⟩ := List.cons.inj same
    have length := congrArg List.length (Token.literal.inj sameText)
    simp only [List.length_append, List.length_cons] at length spelled
    have shorter : rest.length < after.length := by omega
    refine ⟨rest, ?_, shorter, scannedRest⟩
    have whole : after <:+ inner ++ '"' :: after := ⟨inner ++ ['"'], by simp⟩
    exact List.suffix_of_suffix_length_le suffix whole (by omega)

/-- A mark that stands in a text stands at its first occurrence or after it. -/
theorem mark_split {α : Type} {m : α} {before after text rest : List α} (clean : m ∉ before)
    (same : text ++ m :: rest = before ++ m :: after) :
    (text = before ∧ rest = after) ∨ ∃ more, text = before ++ m :: more ∧ after = more ++ m :: rest := by
  induction before generalizing text with
  | nil =>
    cases text with
    | nil => exact .inl ⟨rfl, (List.cons.inj same).2⟩
    | cons c text =>
      obtain ⟨rfl, tail⟩ := List.cons.inj same
      exact .inr ⟨text, rfl, tail.symm⟩
  | cons b before ih =>
    rw [List.mem_cons, not_or] at clean
    cases text with
    | nil => exact absurd (List.cons.inj same).1 clean.1
    | cons c text =>
      obtain ⟨rfl, tail⟩ := List.cons.inj same
      rcases ih clean.2 tail with ⟨rfl, rfl⟩ | ⟨more, rfl, rfl⟩
      · exact .inl ⟨rfl, rfl⟩
      · exact .inr ⟨more, rfl, rfl⟩

theorem suffix_after_mark {α : Type} {m : α} {ending before after : List α} (clean : m ∉ ending)
    (suffix : ending <:+ before ++ m :: after) : ending <:+ after := by
  obtain ⟨front, same⟩ := suffix
  rcases List.append_eq_append_iff.mp same with ⟨_, _, ends⟩ | ⟨middle, _, ends⟩
  · rw [ends] at clean
    simp at clean
  · cases middle with
    | nil =>
      rw [List.nil_append] at ends
      rw [← ends] at clean
      simp at clean
    | cons c middle =>
      obtain ⟨_, rfl⟩ := List.cons.inj ends
      exact List.suffix_append middle ending

/-- Text put between quotes unescaped, before a mark that occurs once: the source
reads as meant exactly when the text is plain. -/
theorem spliced_literal {text after : List Char} {c : Char} {later : List Token}
    (meant : scan escape .outside (c :: after) = some (.mark c :: later)) (once : c ∉ after) :
    scan escape (.literal []) (text ++ '"' :: c :: after) = some (.literal text :: .mark c :: later) ↔
      Plain text := by
  constructor
  · intro scanned
    by_contra dirty
    obtain ⟨rest, suffix, shorter, scannedRest⟩ := overrun dirty scanned
    have inRest := mark_mem_input scannedRest (List.mem_cons_self (a := Token.mark c))
    rcases List.suffix_cons_iff.mp suffix with rfl | inner
    · exact absurd shorter (lt_irrefl _)
    · exact once (inner.subset inRest)
  · intro plain
    rw [scan_plain plain, List.nil_append, scan_quote, meant]
    rfl

end LogosAccounts.Functional
