import Mathlib.Data.List.DropRight
import LogosAccounts.Functional.Except

/-! Text as a list of characters with the byte offsets of its UTF-8 form. A slice
between two offsets exists exactly when both are character boundaries. Reading a
text in slices of one width goes from boundary to boundary until a slice is
refused or cuts a character. Trimming and the unsigned number parser are those
that come with such texts. -/

namespace LogosAccounts.Functional

def byteLength : List Char → Nat
  | [] => 0
  | c :: rest => c.utf8Size + byteLength rest

/-- The text before a byte offset and the text after it; `none` past the end and
inside a character. -/
def splitAtByte : Nat → List Char → Option (List Char × List Char)
  | 0, text => some ([], text)
  | _ + 1, [] => none
  | n + 1, c :: rest =>
    if c.utf8Size ≤ n + 1 then
      (splitAtByte (n + 1 - c.utf8Size) rest).map fun parts => (c :: parts.1, parts.2)
    else none

def sliceBytes (text : List Char) (start stop : Nat) : Option (List Char) := do
  let (front, _) ← splitAtByte stop text
  let (_, middle) ← splitAtByte start front
  return middle

@[simp] theorem byteLength_nil : byteLength [] = 0 := rfl

@[simp] theorem byteLength_cons (c : Char) (rest : List Char) :
    byteLength (c :: rest) = c.utf8Size + byteLength rest := rfl

@[simp] theorem byteLength_append (front back : List Char) :
    byteLength (front ++ back) = byteLength front + byteLength back := by
  induction front with
  | nil => simp
  | cons c rest ih => simp [ih, Nat.add_assoc]

theorem byteLength_eq_zero {text : List Char} : byteLength text = 0 ↔ text = [] := by
  cases text with
  | nil => simp
  | cons c rest =>
    have positive := c.utf8Size_pos
    simp
    omega

private theorem splitAtByte_append (front back : List Char) :
    splitAtByte (byteLength front) (front ++ back) = some (front, back) := by
  induction front with
  | nil => simp [splitAtByte]
  | cons c rest ih =>
    obtain ⟨n, size⟩ := Nat.exists_eq_succ_of_ne_zero (Nat.ne_of_gt c.utf8Size_pos)
    have offset : byteLength (c :: rest) = n + byteLength rest + 1 := by
      rw [byteLength_cons, size]
      omega
    have remaining : n + byteLength rest + 1 - c.utf8Size = byteLength rest := by omega
    rw [offset, List.cons_append, splitAtByte, if_pos (by omega), remaining, ih]
    rfl

private theorem splitAtByte_sound {n : Nat} {text front back : List Char}
    (split : splitAtByte n text = some (front, back)) :
    text = front ++ back ∧ byteLength front = n := by
  fun_induction splitAtByte n text generalizing front with
  | case1 text =>
    cases split
    exact ⟨rfl, rfl⟩
  | case2 n => cases split
  | case3 n c rest fits ih =>
    obtain ⟨parts, found, same⟩ := Option.map_eq_some_iff.mp split
    obtain ⟨rfl, rfl⟩ := Prod.mk.inj same
    obtain ⟨joined, size⟩ := ih found
    refine ⟨by rw [joined, List.cons_append], ?_⟩
    rw [byteLength_cons, size]
    omega
  | case4 n c rest tooBig => cases split

/-- A text is split at an offset exactly when the offset is a character boundary. -/
theorem splitAtByte_some {n : Nat} {text front back : List Char} :
    splitAtByte n text = some (front, back) ↔ text = front ++ back ∧ byteLength front = n := by
  constructor
  · exact splitAtByte_sound
  · rintro ⟨rfl, rfl⟩
    exact splitAtByte_append front back

theorem sliceBytes_append (front rest : List Char) (width : Nat) :
    sliceBytes (front ++ rest) (byteLength front) (byteLength front + width) =
      (splitAtByte width rest).map Prod.fst := by
  unfold sliceBytes
  cases split : splitAtByte width rest with
  | some parts =>
    obtain ⟨middle, back⟩ := parts
    obtain ⟨rfl, size⟩ := splitAtByte_some.mp split
    have whole : splitAtByte (byteLength front + width) (front ++ (middle ++ back)) =
        some (front ++ middle, back) :=
      splitAtByte_some.mpr ⟨by simp, by simp [size]⟩
    have start := splitAtByte_append front middle
    simp [whole, start]
  | none =>
    cases whole : splitAtByte (byteLength front + width) (front ++ rest) with
    | none => rfl
    | some parts =>
      -- a boundary of the whole past the front is one of the rest
      obtain ⟨longer, back⟩ := parts
      obtain ⟨joined, size⟩ := splitAtByte_some.mp whole
      have found : ∃ middle, splitAtByte width rest = some (middle, back) := by
        rcases List.append_eq_append_iff.mp joined with ⟨middle, rfl, rfl⟩ | ⟨middle, rfl, rfl⟩
        · rw [byteLength_append] at size
          exact ⟨middle, splitAtByte_some.mpr ⟨rfl, by omega⟩⟩
        · rw [byteLength_append] at size
          obtain rfl : middle = [] := byteLength_eq_zero.mp (by omega)
          exact ⟨[], splitAtByte_some.mpr ⟨rfl, by simp at size ⊢; omega⟩⟩
      obtain ⟨middle, found⟩ := found
      rw [split] at found
      cases found

section
universe u v
variable {ε : Type u} {β : Type v}

/-- Read `count` slices of a width from the front of a text; `cut` is the error of a
slice that is not on character boundaries. -/
def readSlices (width : Nat) (read : List Char → Except ε β) (cut : ε) :
    Nat → List Char → Except ε (List β)
  | 0, _ => .ok []
  | count + 1, text =>
    match splitAtByte width text with
    | none => .error cut
    | some (slice, rest) => do
      let result ← read slice
      let results ← readSlices width read cut count rest
      return result :: results

variable {width : Nat} {read : List Char → Except ε β} {cut : ε}

theorem mapM_slices {f : List Char → Nat → Except ε β}
    (step : ∀ text start, f text start =
      match sliceBytes text start (start + width) with
      | none => .error cut
      | some slice => read slice) (count : Nat) (front rest : List Char) :
    (List.range' (byteLength front) count width).mapM (f (front ++ rest)) =
      readSlices width read cut count rest := by
  induction count generalizing front rest with
  | zero => rfl
  | succ count ih =>
    rw [List.range'_succ, List.mapM_cons, step, sliceBytes_append, readSlices]
    cases split : splitAtByte width rest with
    | none => rfl
    | some parts =>
      obtain ⟨slice, back⟩ := parts
      obtain ⟨rfl, size⟩ := splitAtByte_some.mp split
      have later := ih (front ++ slice) back
      rw [byteLength_append, size, List.append_assoc] at later
      simp only [Option.map_some, later]

theorem readSlices_ok {count : Nat} {text : List Char} {results : List β} :
    readSlices width read cut count text = .ok results ↔
      ∃ (slices : List (List Char)) (rest : List Char),
        text = slices.flatten ++ rest ∧ slices.length = count ∧
        List.Forall₂ (fun slice result => byteLength slice = width ∧ read slice = .ok result)
          slices results := by
  induction count generalizing text results with
  | zero =>
    constructor
    · intro success
      obtain rfl : [] = results := Except.ok.inj success
      exact ⟨[], text, rfl, rfl, .nil⟩
    · rintro ⟨slices, rest, _, none, paired⟩
      obtain rfl := List.length_eq_zero_iff.mp none
      cases paired
      rfl
  | succ count ih =>
    constructor
    · intro success
      rw [readSlices] at success
      cases split : splitAtByte width text with
      | none => simp [split] at success
      | some parts =>
        obtain ⟨slice, back⟩ := parts
        obtain ⟨rfl, size⟩ := splitAtByte_some.mp split
        simp only [split] at success
        obtain ⟨result, found, success⟩ := except_bind_ok.mp success
        obtain ⟨later, success', success⟩ := except_bind_ok.mp success
        obtain rfl := Except.ok.inj success
        obtain ⟨slices, rest, rfl, rfl, paired⟩ := ih.mp success'
        exact ⟨slice :: slices, rest, by simp, rfl, .cons ⟨size, found⟩ paired⟩
    · rintro ⟨slices, rest, rfl, many, paired⟩
      cases paired with
      | nil => cases many
      | @cons slice result slices results first paired =>
        obtain ⟨size, found⟩ := first
        have split : splitAtByte width ((slice :: slices).flatten ++ rest) =
            some (slice, slices.flatten ++ rest) := splitAtByte_some.mpr ⟨by simp, size⟩
        have later := ih.mpr ⟨slices, rest, rfl, Nat.succ.inj many, paired⟩
        simp only [readSlices, split, found, later, except_ok_bind, except_pure]

theorem readSlices_succ_error {count : Nat} {text : List Char} {failure : ε} :
    readSlices width read cut (count + 1) text = .error failure ↔
      (splitAtByte width text = none ∧ failure = cut) ∨
        ∃ slice back, splitAtByte width text = some (slice, back) ∧
          (read slice = .error failure ∨ ∃ result, read slice = .ok result ∧
            readSlices width read cut count back = .error failure) := by
  rw [readSlices]
  cases split : splitAtByte width text with
  | none => simp [eq_comm]
  | some parts =>
    obtain ⟨slice, back⟩ := parts
    cases found : read slice with
    | error other => simp [found]
    | ok result => cases later : readSlices width read cut count back <;> simp [found, later]

theorem readSlices_cut (unrelated : ∀ slice, read slice ≠ .error cut) {count : Nat}
    {text : List Char} :
    readSlices width read cut count text = .error cut ↔
      ∃ (slices : List (List Char)) (rest : List Char),
        text = slices.flatten ++ rest ∧ slices.length < count ∧
        (∀ slice ∈ slices, byteLength slice = width ∧ ∃ result, read slice = .ok result) ∧
        splitAtByte width rest = none := by
  induction count generalizing text with
  | zero =>
    constructor
    · intro failed
      cases failed
    · rintro ⟨slices, rest, _, impossible, _⟩
      cases impossible
  | succ count ih =>
    rw [readSlices_succ_error]
    constructor
    · intro failed
      rcases failed with ⟨stuck, _⟩ | ⟨slice, back, split, failed⟩
      · exact ⟨[], text, rfl, Nat.succ_pos count, by simp, stuck⟩
      · obtain ⟨result, found, later⟩ := failed.resolve_left (unrelated slice)
        obtain ⟨rfl, size⟩ := splitAtByte_some.mp split
        obtain ⟨slices, rest, rfl, few, every, stuck⟩ := ih.mp later
        refine ⟨slice :: slices, rest, by simp, Nat.succ_lt_succ few, ?_, stuck⟩
        intro other member
        rcases List.mem_cons.mp member with rfl | member
        · exact ⟨size, result, found⟩
        · exact every other member
    · rintro ⟨slices, rest, rfl, few, every, stuck⟩
      cases slices with
      | nil => exact .inl ⟨stuck, rfl⟩
      | cons slice slices =>
        obtain ⟨size, result, found⟩ := every slice List.mem_cons_self
        have split : splitAtByte width ((slice :: slices).flatten ++ rest) =
            some (slice, slices.flatten ++ rest) := splitAtByte_some.mpr ⟨by simp, size⟩
        have later := ih.mpr ⟨slices, rest, rfl, Nat.lt_of_succ_lt_succ few,
          fun other member => every other (List.mem_cons_of_mem _ member), stuck⟩
        exact .inr ⟨slice, _, split, .inr ⟨result, found, later⟩⟩

theorem readSlices_error {count : Nat} {text : List Char} {failure : ε}
    (failed : readSlices width read cut count text = .error failure) :
    failure = cut ∨ ∃ slice, read slice = .error failure := by
  induction count generalizing text with
  | zero => cases failed
  | succ count ih =>
    rcases readSlices_succ_error.mp failed with ⟨_, rfl⟩ | ⟨slice, back, _, refused | ⟨_, _, later⟩⟩
    · exact .inl rfl
    · exact .inr ⟨slice, refused⟩
    · exact ih later

end

/-- Unicode's `White_Space`. -/
def isWhiteSpace (c : Char) : Bool :=
  let n := c.toNat
  (9 ≤ n && n ≤ 13) || n == 0x20 || n == 0x85 || n == 0xa0 || n == 0x1680 ||
    (0x2000 ≤ n && n ≤ 0x200a) || n == 0x2028 || n == 0x2029 || n == 0x202f || n == 0x205f ||
    n == 0x3000

/-- The text without white space around it. -/
def trim (text : List Char) : List Char := (text.dropWhile isWhiteSpace).rdropWhile isWhiteSpace

/-- Only white space is taken away. -/
theorem trim_split (text : List Char) : ∃ before after, text = before ++ trim text ++ after ∧
    ∀ c ∈ before ++ after, isWhiteSpace c = true := by
  unfold trim
  refine ⟨text.takeWhile isWhiteSpace,
    (text.dropWhile isWhiteSpace).rtakeWhile isWhiteSpace, ?_, ?_⟩
  · rw [List.append_assoc, List.rdropWhile_append_rtakeWhile, List.takeWhile_append_dropWhile]
  · intro c member
    rcases List.mem_append.mp member with front | back
    · exact List.mem_takeWhile_imp front
    · exact List.mem_rtakeWhile_imp back

private theorem dropWhile_solid {text : List Char} (solid : ∀ c ∈ text, isWhiteSpace c = false) :
    text.dropWhile isWhiteSpace = text := by
  cases text with
  | nil => rfl
  | cons c rest => exact List.dropWhile_cons_of_neg (by simp [solid c List.mem_cons_self])

theorem trim_surrounded {before text after : List Char}
    (blankBefore : ∀ c ∈ before, isWhiteSpace c = true)
    (blankAfter : ∀ c ∈ after, isWhiteSpace c = true)
    (solid : ∀ c ∈ text, isWhiteSpace c = false) : trim (before ++ text ++ after) = text := by
  have front : (before ++ text ++ after).dropWhile isWhiteSpace = text ++ after ∨
      text = [] ∧ (before ++ text ++ after).dropWhile isWhiteSpace = [] := by
    rw [List.append_assoc, List.dropWhile_append_of_pos blankBefore]
    cases text with
    | nil => exact .inr ⟨rfl, List.dropWhile_eq_nil_iff.mpr blankAfter⟩
    | cons c rest =>
      exact .inl (List.dropWhile_cons_of_neg (by simp [solid c List.mem_cons_self]))
  unfold trim
  rcases front with front | ⟨rfl, front⟩
  · rw [front, List.rdropWhile, List.reverse_append,
      List.dropWhile_append_of_pos (by simpa using blankAfter),
      dropWhile_solid (by simpa using solid), List.reverse_reverse]
  · rw [front, List.rdropWhile_nil]

inductive ParseIntError where
  | empty
  | invalidDigit
  | posOverflow
  deriving DecidableEq, Repr

def ParseIntError.text : ParseIntError → String
  | .empty => "cannot parse integer from empty string"
  | .invalidDigit => "invalid digit found in string"
  | .posOverflow => "number too large to fit in target type"

def toDigit (radix : Nat) (c : Char) : Option Nat :=
  let n := c.toNat
  let value :=
    if 48 ≤ n ∧ n < 58 then some (n - 48)
    else if 97 ≤ n ∧ n < 123 then some (n - 87)
    else if 65 ≤ n ∧ n < 91 then some (n - 55)
    else none
  value.filter fun value => value < radix

def parseDigits (limit radix : Nat) (value : Nat) : List Char → Except ParseIntError Nat
  | [] => .ok value
  | c :: rest =>
    match toDigit radix c with
    | none => .error .invalidDigit
    | some digit =>
      if radix * value + digit < limit then parseDigits limit radix (radix * value + digit) rest
      else .error .posOverflow

/-- The number a text stands for, if it is below the limit: digits, after an optional
plus sign. -/
def fromStrRadix (limit radix : Nat) : List Char → Except ParseIntError Nat
  | [] => .error .empty
  | ['+'] => .error .invalidDigit
  | '+' :: digits => parseDigits limit radix 0 digits
  | text => parseDigits limit radix 0 text

/-- One character as `Debug` shows it in a string. `shows` is the Unicode table: a
character outside of ASCII that is printable and extends no other. -/
def escapeDebug (shows : Char → Bool) (c : Char) : String :=
  match c with
  | '\x00' => "\\0"
  | '\t' => "\\t"
  | '\r' => "\\r"
  | '\n' => "\\n"
  | '\\' => "\\\\"
  | '"' => "\\\""
  | c =>
    let plain := if c.toNat < 0x80 then 0x20 ≤ c.toNat && c.toNat < 0x7f else shows c
    if plain then c.toString
    else "\\u\x7b" ++ String.ofList (Nat.toDigits 16 c.toNat) ++ "\x7d"

/-- The `Debug` form of a string. -/
def debugText (shows : Char → Bool) (text : String) : String :=
  "\"" ++ String.join (text.toList.map (escapeDebug shows)) ++ "\""

end LogosAccounts.Functional
