import LogosAccounts.Encoding

/-! The hex codec over all texts. The decoder walks a text by byte offsets, so it
can cut a character, and its number parser takes more than digits; what it undoes
is the encoder. -/

namespace LogosAccounts
open Functional

/-- `0` to `9`, `a` to `f` and `A` to `F`. -/
def isHexDigit (c : Char) : Bool :=
  let n := c.toNat
  (48 ≤ n && n < 58) || (97 ≤ n && n < 103) || (65 ≤ n && n < 71)

theorem isHexDigit_ascii {c : Char} (digit : isHexDigit c = true) : c.toNat < 128 := by
  simp only [isHexDigit, Bool.or_eq_true, Bool.and_eq_true, decide_eq_true_iff] at digit
  omega

theorem toDigit_of_isHexDigit {c : Char} (digit : isHexDigit c = true) :
    ∃ value < 16, toDigit 16 c = some value ∧ hexDigit value = c.toLower := by
  have all : ∀ n < 128, isHexDigit (Char.ofNat n) = true →
      ∃ value < 16, toDigit 16 (Char.ofNat n) = some value ∧
        hexDigit value = (Char.ofNat n).toLower := by decide +kernel
  have found := all c.toNat (isHexDigit_ascii digit)
  rw [Char.ofNat_toNat] at found
  exact found digit

theorem isHexDigit_of_toDigit {c : Char} {value : Nat} (found : toDigit 16 c = some value) :
    isHexDigit c = true := by
  simp only [toDigit, Option.filter_eq_some_iff, decide_eq_true_iff] at found
  obtain ⟨found, small⟩ := found
  simp only [isHexDigit, Bool.or_eq_true, Bool.and_eq_true, decide_eq_true_iff]
  split at found
  · omega
  · split at found
    · obtain rfl := Option.some.inj found
      omega
    · split at found
      · obtain rfl := Option.some.inj found
        omega
      · cases found

theorem toDigit_hexDigit {value : Nat} (small : value < 16) {c : Char}
    (cased : c = hexDigit value ∨ c = (hexDigit value).toUpper) :
    isHexDigit c = true ∧ toDigit 16 c = some value := by
  have all : ∀ value < 16,
      (isHexDigit (hexDigit value) = true ∧ toDigit 16 (hexDigit value) = some value) ∧
        isHexDigit (hexDigit value).toUpper = true ∧
          toDigit 16 (hexDigit value).toUpper = some value := by decide +kernel
  rcases cased with rfl | rfl
  · exact (all value small).1
  · exact (all value small).2

/-- The two digits the encoder writes for a byte. -/
def bytePair (b : UInt8) : List Char := [hexDigit (b.toNat / 16), hexDigit (b.toNat % 16)]

theorem encodeHex_toList (bytes : Bytes) : (encodeHex bytes).toList = bytes.flatMap bytePair := by
  unfold encodeHex
  rw [String.toList_ofList]
  rfl

theorem toDigit_plus : toDigit 16 '+' = none := by decide

theorem isHexDigit_size {c : Char} (digit : isHexDigit c = true) : c.utf8Size = 1 := by
  apply Char.utf8Size_eq_one_iff.mpr
  have small := isHexDigit_ascii digit
  rw [UInt32.le_iff_toNat_le]
  exact Nat.le_of_lt_succ small

theorem toDigit_small {c : Char} {value : Nat} (found : toDigit 16 c = some value) : value < 16 := by
  obtain ⟨value', small, found', _⟩ := toDigit_of_isHexDigit (isHexDigit_of_toDigit found)
  obtain rfl := Option.some.inj (found.symm.trans found')
  exact small

/-- The slices of two bytes that are numbers: two digits, or a digit after a plus sign. -/
inductive PairValue : List Char → UInt8 → Prop where
  | digits (c d : Char) (high low : Nat) (first : toDigit 16 c = some high)
      (second : toDigit 16 d = some low) : PairValue [c, d] (UInt8.ofNat (16 * high + low))
  | signed (d : Char) (low : Nat) (second : toDigit 16 d = some low) :
      PairValue ['+', d] (UInt8.ofNat low)

theorem hexByte_of_fromStrRadix {slice : List Char} {value : Nat}
    (parsed : fromStrRadix 256 16 slice = .ok value) : hexByte slice = .ok (UInt8.ofNat value) := by
  unfold hexByte
  rw [parsed]
  rfl

private theorem fromStrRadix_pair (c d : Char) :
    fromStrRadix 256 16 [c, d] =
      if c = '+' then parseDigits 256 16 0 [d] else parseDigits 256 16 0 [c, d] := by
  by_cases plus : c = '+'
  · subst c
    rfl
  · simp [fromStrRadix, plus]

theorem PairValue.hexByte {slice : List Char} {b : UInt8} (value : PairValue slice b) :
    LogosAccounts.hexByte slice = .ok b := by
  cases value with
  | digits c d high low first second =>
    have highSmall := toDigit_small first
    have lowSmall := toDigit_small second
    have unsigned : c ≠ '+' := by
      rintro rfl
      rw [toDigit_plus] at first
      cases first
    apply hexByte_of_fromStrRadix
    rw [fromStrRadix_pair, if_neg unsigned]
    simp only [parseDigits, first, second]
    rw [if_pos (by omega), if_pos (by omega), Nat.mul_zero, Nat.zero_add]
  | signed d low second =>
    have lowSmall := toDigit_small second
    apply hexByte_of_fromStrRadix
    rw [fromStrRadix_pair, if_pos rfl]
    simp only [parseDigits, second]
    rw [if_pos (by omega), Nat.mul_zero, Nat.zero_add]

private theorem parseDigits_cons {limit radix value result : Nat} {c : Char} {rest : List Char}
    (parsed : parseDigits limit radix value (c :: rest) = .ok result) :
    ∃ digit, toDigit radix c = some digit ∧
      parseDigits limit radix (radix * value + digit) rest = .ok result := by
  rw [parseDigits] at parsed
  cases found : toDigit radix c with
  | none => simp [found] at parsed
  | some digit =>
    simp only [found] at parsed
    split at parsed
    · exact ⟨digit, rfl, parsed⟩
    · cases parsed

/-- The number parser takes these slices and no others. -/
theorem hexByte_ok {slice : List Char} {b : UInt8} (size : byteLength slice = 2) :
    hexByte slice = .ok b ↔ PairValue slice b := by
  constructor
  · intro parsed
    obtain ⟨value, found, same⟩ : ∃ value, fromStrRadix 256 16 slice = .ok value ∧
        UInt8.ofNat value = b := by
      unfold hexByte at parsed
      cases result : fromStrRadix 256 16 slice with
      | error e => simp [result, Except.map] at parsed
      | ok value =>
        rw [result] at parsed
        exact ⟨value, rfl, Except.ok.inj parsed⟩
    subst b
    match slice with
    | [] => cases size
    | [c] =>
      -- a character of two bytes is no digit and no plus sign
      have wide : c.utf8Size = 2 := size
      have unsigned : c ≠ '+' := by
        rintro rfl
        cases wide
      have single : fromStrRadix 256 16 [c] = parseDigits 256 16 0 [c] := by
        simp [fromStrRadix, unsigned]
      obtain ⟨digit, isDigit, _⟩ := parseDigits_cons (single.symm.trans found)
      have narrow := isHexDigit_size (isHexDigit_of_toDigit isDigit)
      omega
    | [c, d] =>
      rw [fromStrRadix_pair] at found
      split at found
      · rename_i plus
        subst c
        obtain ⟨low, second, ends⟩ := parseDigits_cons found
        obtain rfl : 16 * 0 + low = value := Except.ok.inj ends
        rw [Nat.mul_zero, Nat.zero_add]
        exact .signed d low second
      · obtain ⟨high, first, later⟩ := parseDigits_cons found
        obtain ⟨low, second, ends⟩ := parseDigits_cons later
        obtain rfl : 16 * (16 * 0 + high) + low = value := Except.ok.inj ends
        rw [Nat.mul_zero, Nat.zero_add]
        exact .digits c d high low first second
    | c :: d :: e :: rest =>
      have first := c.utf8Size_pos
      have second := d.utf8Size_pos
      have third := e.utf8Size_pos
      simp only [byteLength_cons] at size
      omega
  · exact PairValue.hexByte

theorem hexByte_no_panic (slice : List Char) (message : String) :
    hexByte slice ≠ .error (.panic message) := by
  unfold hexByte
  cases fromStrRadix 256 16 slice with
  | error e => simp [Except.map]
  | ok value => simp [Except.map]

theorem hexByte_not_cut (slice : List Char) : hexByte slice ≠ .error sliceCut :=
  hexByte_no_panic slice _

/-- The decoder reads the payload pair by pair. -/
theorem decodeHex_eq (s : String) :
    decodeHex s =
      if byteLength (hexPayload s) % 2 ≠ 0 then .error (.encoding "hex string has odd length")
      else readSlices 2 hexByte sliceCut (byteLength (hexPayload s) / 2) (hexPayload s) := by
  unfold decodeHex
  simp only
  split
  · rfl
  · rename_i even
    have half : (byteLength (hexPayload s) + 1) / 2 = byteLength (hexPayload s) / 2 := by omega
    rw [half]
    exact mapM_slices (fun _ _ => rfl) _ [] (hexPayload s)

/-- The result is a value or an error, not a panic. -/
def Returns {α : Type} (result : Except Error α) : Prop :=
  ∀ message, result ≠ .error (.panic message)

/-- Two characters the number parser takes: hexadecimal digits, or a plus sign and one. -/
def IsHexPair (pair : List Char) : Prop :=
  ∃ c d, pair = [c, d] ∧ (isHexDigit c = true ∨ c = '+') ∧ isHexDigit d = true

def CutsCharacter : List Char → Prop
  | [] => False
  | c :: rest => 2 < c.utf8Size ∨ (c.utf8Size = 1 ∧ ∃ d ∈ rest.head?, 1 < d.utf8Size)

/-- The text has an even number of bytes, and after some hexadecimal pairs the next
two bytes end inside a character. -/
def CutAfterPairs (text : List Char) : Prop :=
  byteLength text % 2 = 0 ∧ ∃ (pairs : List (List Char)) (rest : List Char),
    text = pairs.flatten ++ rest ∧ (∀ pair ∈ pairs, IsHexPair pair) ∧ CutsCharacter rest

theorem isHexPair_iff {slice : List Char} :
    IsHexPair slice ↔ byteLength slice = 2 ∧ ∃ b, hexByte slice = .ok b := by
  constructor
  · rintro ⟨c, d, rfl, first, second⟩
    obtain ⟨low, _, isLow, _⟩ := toDigit_of_isHexDigit second
    have secondSize := isHexDigit_size second
    rcases first with first | rfl
    · obtain ⟨high, _, isHigh, _⟩ := toDigit_of_isHexDigit first
      exact ⟨by simp [isHexDigit_size first, secondSize], _,
        (PairValue.digits c d high low isHigh isLow).hexByte⟩
    · refine ⟨?_, _, (PairValue.signed d low isLow).hexByte⟩
      rw [byteLength_cons, byteLength_cons, secondSize]
      rfl
  · rintro ⟨size, b, parsed⟩
    cases (hexByte_ok size).mp parsed with
    | digits c d high low first second =>
      exact ⟨c, d, rfl, .inl (isHexDigit_of_toDigit first), isHexDigit_of_toDigit second⟩
    | signed d low second => exact ⟨'+', d, rfl, .inr rfl, isHexDigit_of_toDigit second⟩

theorem splitAtByte_two_none {text : List Char} :
    splitAtByte 2 text = none ↔ CutsCharacter text ∨ byteLength text < 2 := by
  cases text with
  | nil => exact iff_of_true rfl (.inr Nat.zero_lt_two)
  | cons c rest =>
    have positive := c.utf8Size_pos
    by_cases narrow : c.utf8Size = 1
    · cases rest with
      | nil =>
        have short : byteLength [c] < 2 := by rw [byteLength_cons, byteLength_nil]; omega
        exact iff_of_true (by simp [splitAtByte, narrow]) (.inr short)
      | cons d more =>
        have positive' := d.utf8Size_pos
        by_cases both : d.utf8Size = 1
        · have long : ¬ byteLength (c :: d :: more) < 2 := by
            rw [byteLength_cons, byteLength_cons]
            omega
          have uncut : ¬ CutsCharacter (c :: d :: more) := by simp [CutsCharacter, narrow, both]
          exact iff_of_false (by simp [splitAtByte, narrow, both]) (not_or.mpr ⟨uncut, long⟩)
        · have wide : 1 < d.utf8Size := by omega
          have unfit : ¬ d.utf8Size ≤ 1 := by omega
          exact iff_of_true (by simp [splitAtByte, narrow, unfit]) (.inl (.inr ⟨narrow, d, rfl, wide⟩))
    · by_cases fits : c.utf8Size = 2
      · have long : ¬ byteLength (c :: rest) < 2 := by rw [byteLength_cons]; omega
        have uncut : ¬ CutsCharacter (c :: rest) := by simp [CutsCharacter, fits]
        exact iff_of_false (by simp [splitAtByte, fits]) (not_or.mpr ⟨uncut, long⟩)
      · have wide : 2 < c.utf8Size := by omega
        have unfit : ¬ c.utf8Size ≤ 2 := by omega
        exact iff_of_true (by simp [splitAtByte, unfit]) (.inl (.inl wide))

theorem CutsCharacter.size {text : List Char} (cuts : CutsCharacter text) : 2 < byteLength text := by
  cases text with
  | nil => cases cuts
  | cons c rest =>
    rw [byteLength_cons]
    rcases cuts with wide | ⟨narrow, d, next, wide⟩
    · omega
    · obtain ⟨more, rfl⟩ := List.head?_eq_some_iff.mp next
      rw [byteLength_cons]
      omega

theorem byteLength_pairs {slices : List (List Char)}
    (every : ∀ slice ∈ slices, byteLength slice = 2) :
    byteLength slices.flatten = 2 * slices.length := by
  induction slices with
  | nil => rfl
  | cons slice rest ih =>
    have later := ih fun other member => every other (List.mem_cons_of_mem slice member)
    rw [List.flatten_cons, byteLength_append, every slice List.mem_cons_self, later, List.length_cons]
    omega

/-- The decoder panics exactly on a text that is cut. -/
theorem decodeHex_panics {s : String} :
    (∃ message, decodeHex s = .error (.panic message)) ↔ CutAfterPairs (hexPayload s) := by
  rw [decodeHex_eq]
  unfold CutAfterPairs
  by_cases even : byteLength (hexPayload s) % 2 = 0
  · simp only [even, ne_eq, not_true_eq_false, if_false, true_and]
    constructor
    · rintro ⟨message, failed⟩
      have stopped : Error.panic message = sliceCut := by
        have ends : Error.panic message = sliceCut ∨
            ∃ slice, hexByte slice = .error (.panic message) := readSlices_error failed
        rcases ends with cut | ⟨slice, parsed⟩
        · exact cut
        · exact absurd parsed (hexByte_no_panic slice message)
      rw [stopped] at failed
      obtain ⟨slices, rest, joined, few, every, stuck⟩ := (readSlices_cut hexByte_not_cut).mp failed
      refine ⟨slices, rest, joined, fun slice member => isHexPair_iff.mpr (every slice member), ?_⟩
      have size := byteLength_pairs fun slice member => (every slice member).1
      rcases splitAtByte_two_none.mp stuck with cuts | short
      · exact cuts
      · -- an even number of bytes is left, and more than none
        have whole := congrArg byteLength joined
        rw [byteLength_append, size] at whole
        omega
    · rintro ⟨pairs, rest, joined, every, cuts⟩
      have read := fun pair member => isHexPair_iff.mp (every pair member)
      have size := byteLength_pairs fun pair member => (read pair member).1
      have left := cuts.size
      have whole := congrArg byteLength joined
      rw [byteLength_append, size] at whole
      have few : pairs.length < byteLength (hexPayload s) / 2 := by omega
      exact ⟨_, (readSlices_cut hexByte_not_cut).mpr
        ⟨pairs, rest, joined, few, read, splitAtByte_two_none.mpr (.inl cuts)⟩⟩
  · simp [even]

/-- `decode_hex` returns on exactly the texts that are not cut, and so does
`decode_hex32`. -/
theorem decode_hex_returns_iff (s : String) :
    (Returns (decodeHex s) ↔ ¬ CutAfterPairs (hexPayload s)) ∧
    (Returns (decodeHex32 s) ↔ ¬ CutAfterPairs (hexPayload s)) := by
  have panics := decodeHex_panics (s := s)
  have first : Returns (decodeHex s) ↔ ¬ CutAfterPairs (hexPayload s) := by
    rw [← panics]
    simp only [Returns, ne_eq, not_exists]
  refine ⟨first, ?_⟩
  rw [← first]
  unfold decodeHex32 Returns
  cases decoded : decodeHex s with
  | error e => simp
  | ok v =>
    simp only [except_ok_bind]
    split <;> simp

/-- Four bytes, of which the first slice takes the letter and half of the next one. -/
theorem decode_hex_cuts_character :
    byteLength "aéb".toList = 4 ∧
    (∃ message, decodeHex "aéb" = .error (.panic message)) ∧
    ¬ Returns (decodeHex "aéb") ∧ ¬ Returns (decodeHex32 "aéb") := by
  have cut : decodeHex "aéb" = .error sliceCut := by decide +kernel
  have cut' : decodeHex32 "aéb" = .error sliceCut := by decide +kernel
  exact ⟨by decide, ⟨_, cut⟩, fun returns => returns _ cut, fun returns => returns _ cut'⟩

/-- The text spells the bytes: two hexadecimal digits for each, as the encoder writes
them up to case. -/
structure Spells (text : List Char) (bytes : Bytes) : Prop where
  length : text.length = 2 * bytes.length
  digits : ∀ c ∈ text, isHexDigit c = true
  encoded : (encodeHex bytes).toList = text.map Char.toLower

theorem PairValue.size {slice : List Char} {b : UInt8} (value : PairValue slice b) :
    byteLength slice = 2 := by
  cases value with
  | digits c d high low first second =>
    have firstSize := isHexDigit_size (isHexDigit_of_toDigit first)
    have secondSize := isHexDigit_size (isHexDigit_of_toDigit second)
    simp [firstSize, secondSize]
  | signed d low second =>
    have secondSize := isHexDigit_size (isHexDigit_of_toDigit second)
    rw [byteLength_cons, byteLength_cons, secondSize]
    rfl

theorem decodeHex_ok {s : String} {bytes : Bytes} :
    decodeHex s = .ok bytes ↔
      ∃ slices, hexPayload s = slices.flatten ∧ List.Forall₂ PairValue slices bytes := by
  rw [decodeHex_eq]
  constructor
  · intro success
    split at success
    · cases success
    · rename_i even
      obtain ⟨slices, rest, joined, count, paired⟩ := readSlices_ok.mp success
      have every : ∀ slice ∈ slices, byteLength slice = 2 := by
        intro slice member
        obtain ⟨_, _, size, _⟩ := forall₂_partner paired member
        exact size
      have whole := congrArg byteLength joined
      rw [byteLength_append, byteLength_pairs every] at whole
      obtain rfl : rest = [] := byteLength_eq_zero.mp (by omega)
      refine ⟨slices, by rw [joined, List.append_nil], paired.imp ?_⟩
      rintro slice b ⟨size, parsed⟩
      exact (hexByte_ok size).mp parsed
  · rintro ⟨slices, joined, paired⟩
    have every : ∀ slice ∈ slices, byteLength slice = 2 := by
      intro slice member
      obtain ⟨b, _, value⟩ := forall₂_partner paired member
      exact value.size
    have size : byteLength (hexPayload s) = 2 * slices.length := by
      rw [joined, byteLength_pairs every]
    rw [size, if_neg (by omega), Nat.mul_div_cancel_left _ (by decide)]
    apply readSlices_ok.mpr
    refine ⟨slices, [], by rw [joined, List.append_nil], rfl, paired.imp ?_⟩
    exact fun slice b value => ⟨value.size, value.hexByte⟩

theorem bytePair_ofDigits {c d : Char} {high low : Nat} (first : toDigit 16 c = some high)
    (second : toDigit 16 d = some low) :
    bytePair (UInt8.ofNat (16 * high + low)) = [c.toLower, d.toLower] := by
  obtain ⟨high', highSmall, found, highText⟩ := toDigit_of_isHexDigit (isHexDigit_of_toDigit first)
  obtain rfl := Option.some.inj (first.symm.trans found)
  obtain ⟨low', lowSmall, found, lowText⟩ := toDigit_of_isHexDigit (isHexDigit_of_toDigit second)
  obtain rfl := Option.some.inj (second.symm.trans found)
  have value : (UInt8.ofNat (16 * high + low)).toNat = 16 * high + low :=
    UInt8.toNat_ofNat_of_lt' (by change _ < 256; omega)
  unfold bytePair
  rw [value, ← highText, ← lowText, Nat.mul_add_div (by decide), Nat.mul_add_mod,
    Nat.div_eq_of_lt lowSmall, Nat.mod_eq_of_lt lowSmall, Nat.add_zero]

theorem spells_of_slices {slices : List (List Char)} {bytes : Bytes}
    (paired : List.Forall₂ PairValue slices bytes) (unsigned : '+' ∉ slices.flatten) :
    Spells slices.flatten bytes := by
  induction paired with
  | nil => exact ⟨rfl, by simp, rfl⟩
  | @cons slice b slices bytes value _ ih =>
    rw [List.flatten_cons, List.mem_append, not_or] at unsigned
    obtain ⟨length, digits, encoded⟩ := ih unsigned.2
    cases value with
    | digits c d high low first second =>
      refine ⟨by simp at length ⊢; omega, ?_, ?_⟩
      · intro e member
        simp only [List.flatten_cons, List.cons_append, List.nil_append, List.mem_cons] at member
        rcases member with rfl | rfl | member
        · exact isHexDigit_of_toDigit first
        · exact isHexDigit_of_toDigit second
        · exact digits e member
      · rw [encodeHex_toList] at encoded ⊢
        rw [List.flatMap_cons, encoded, bytePair_ofDigits first second, List.flatten_cons,
          List.map_append]
        rfl
    | signed d low second => exact absurd List.mem_cons_self unsigned.1

/-- What is taken off a text holds no plus sign. -/
theorem plus_mem_hexPayload (s : String) : '+' ∈ hexPayload s ↔ '+' ∈ s.toList := by
  have trimmed : '+' ∈ s.toList ↔ '+' ∈ trim s.toList := by
    obtain ⟨before, after, split, blank⟩ := trim_split s.toList
    have solid : '+' ∉ before ++ after := by
      intro member
      have impossible := blank '+' member
      revert impossible
      decide
    rw [List.mem_append, not_or] at solid
    generalize trim s.toList = kept at split ⊢
    rw [split]
    simp [solid]
  rw [trimmed]
  unfold hexPayload
  match trim s.toList with
  | [] => rfl
  | [c] => by_cases zero : '0' = c <;> simp [List.isPrefixOf?, zero]
  | c :: d :: rest =>
    by_cases zero : '0' = c
    · by_cases mark : 'x' = d
      · subst c d
        simp [List.isPrefixOf?]
      · simp [List.isPrefixOf?, mark]
    · simp [List.isPrefixOf?, zero]

/-- An accepted text spells its bytes exactly when it holds no plus sign. -/
theorem decode_hex_accepts_iff (s : String) (bytes : Bytes) (accepted : decodeHex s = .ok bytes) :
    Spells (hexPayload s) bytes ↔ '+' ∉ s.toList := by
  obtain ⟨slices, joined, paired⟩ := decodeHex_ok.mp accepted
  rw [← plus_mem_hexPayload, joined]
  constructor
  · intro spells member
    have digit := spells.digits '+' member
    revert digit
    decide
  · exact spells_of_slices paired

theorem decode_hex_accepts_iff_key :
    Spells (hexPayload " 0xFf00") [0xff, 0] ↔ '+' ∉ " 0xFf00".toList :=
  decode_hex_accepts_iff " 0xFf00" [0xff, 0] (by decide +kernel)

/-- A signed number in the place of a byte. -/
theorem decode_hex_accepts_sign :
    decodeHex "+1" = .ok [1] ∧ ¬ Spells (hexPayload "+1") [1] ∧ (encodeHex [1]) = "01" := by
  have payload : hexPayload "+1" = ['+', '1'] := by decide +kernel
  refine ⟨by decide +kernel, ?_, by decide +kernel⟩
  intro spells
  rw [payload] at spells
  have digit := spells.digits '+' List.mem_cons_self
  revert digit
  decide

def Cased (c d : Char) : Prop := d = c ∨ d = c.toUpper

/-- The text is the encoding of the bytes with its letters in either case, after an
optional `0x` and between white space. -/
def Dresses (s : String) (bytes : Bytes) : Prop :=
  ∃ before mark digits after, s.toList = before ++ (mark ++ digits) ++ after ∧
    (∀ c ∈ before, isWhiteSpace c = true) ∧ (∀ c ∈ after, isWhiteSpace c = true) ∧
    (mark = [] ∨ mark = ['0', 'x']) ∧ List.Forall₂ Cased (encodeHex bytes).toList digits

theorem slices_of_cased {bytes : Bytes} {digits : List Char}
    (cased : List.Forall₂ Cased (encodeHex bytes).toList digits) :
    ∃ slices, digits = slices.flatten ∧ List.Forall₂ PairValue slices bytes := by
  rw [encodeHex_toList] at cased
  induction bytes generalizing digits with
  | nil =>
    cases cased
    exact ⟨[], rfl, .nil⟩
  | cons b rest ih =>
    change List.Forall₂ Cased
      (hexDigit (b.toNat / 16) :: hexDigit (b.toNat % 16) :: rest.flatMap bytePair) digits at cased
    cases cased with
    | @cons _ c _ _ first cased =>
      cases cased with
      | @cons _ d _ _ second cased =>
        obtain ⟨slices, rfl, paired⟩ := ih cased
        have bound := b.toNat_lt
        obtain ⟨_, high⟩ := toDigit_hexDigit (by omega) first
        obtain ⟨_, low⟩ := toDigit_hexDigit (by omega) second
        have value := PairValue.digits c d _ _ high low
        rw [Nat.div_add_mod, UInt8.ofNat_toNat] at value
        exact ⟨[c, d] :: slices, rfl, .cons value paired⟩

theorem cased_digits {bytes : Bytes} {digits : List Char}
    (cased : List.Forall₂ Cased (encodeHex bytes).toList digits) :
    ∀ d ∈ digits, isHexDigit d = true := by
  intro d member
  obtain ⟨c, written, same⟩ := forall₂_partner cased.flip member
  rw [encodeHex_toList] at written
  obtain ⟨b, _, written⟩ := List.mem_flatMap.mp written
  have bound := b.toNat_lt
  rcases List.mem_cons.mp written with rfl | written
  · exact (toDigit_hexDigit (by omega) same).1
  · obtain rfl := List.mem_singleton.mp written
    exact (toDigit_hexDigit (by omega) same).1

theorem isHexDigit_solid {c : Char} (digit : isHexDigit c = true) : isWhiteSpace c = false := by
  have all : ∀ n < 128, isHexDigit (Char.ofNat n) = true → isWhiteSpace (Char.ofNat n) = false := by
    decide +kernel
  have found := all c.toNat (isHexDigit_ascii digit)
  rw [Char.ofNat_toNat] at found
  exact found digit

theorem hexPayload_dressed {s : String} {before mark digits after : List Char}
    (dressed : s.toList = before ++ (mark ++ digits) ++ after)
    (blankBefore : ∀ c ∈ before, isWhiteSpace c = true)
    (blankAfter : ∀ c ∈ after, isWhiteSpace c = true) (marks : mark = [] ∨ mark = ['0', 'x'])
    (every : ∀ d ∈ digits, isHexDigit d = true) : hexPayload s = digits := by
  have solid : ∀ c ∈ mark ++ digits, isWhiteSpace c = false := by
    intro c member
    rcases List.mem_append.mp member with ofMark | digit
    · rcases marks with rfl | rfl
      · cases ofMark
      · rcases List.mem_pair.mp ofMark with rfl | rfl <;> rfl
    · exact isHexDigit_solid (every c digit)
  have trimmed : trim s.toList = mark ++ digits := by
    rw [dressed]
    exact trim_surrounded blankBefore blankAfter solid
  unfold hexPayload
  rw [trimmed]
  rcases marks with rfl | rfl
  · -- the digits hold no `x`, so they do not start with another mark
    match digits with
    | [] => rfl
    | [c] => simp [List.isPrefixOf?]
    | c :: d :: rest =>
      have second : 'x' ≠ d := by
        rintro rfl
        have digit := every 'x' (by simp)
        revert digit
        decide
      simp [List.isPrefixOf?, second]
  · rfl

/-- `decode_hex` gives back the bytes of an encoding in any dress, and `decode_hex32`
gives them when there are 32. -/
theorem decode_hex_undoes_encode (s : String) (bytes : Bytes) (dressed : Dresses s bytes) :
    decodeHex s = .ok bytes ∧ ((∃ key, decodeHex32 s = .ok key) ↔ bytes.length = 32) ∧
      ∀ key, decodeHex32 s = .ok key → key.toList = bytes := by
  obtain ⟨before, mark, digits, after, split, blankBefore, blankAfter, marks, cased⟩ := dressed
  have payload := hexPayload_dressed split blankBefore blankAfter marks (cased_digits cased)
  obtain ⟨slices, joined, paired⟩ := slices_of_cased cased
  have decoded : decodeHex s = .ok bytes :=
    decodeHex_ok.mpr ⟨slices, payload.trans joined, paired⟩
  refine ⟨decoded, ?_⟩
  unfold decodeHex32
  rw [decoded, except_ok_bind]
  by_cases size : bytes.length = 32
  · rw [dif_pos size]
    refine ⟨⟨fun _ => size, fun _ => ⟨_, rfl⟩⟩, ?_⟩
    intro key same
    obtain rfl := Except.ok.inj same
    rfl
  · simp [size]

/-- White space, the mark and letters of both cases. -/
theorem decode_hex_undoes_encode_mixed :
    decodeHex "\u00a0 0xFf00aB\n" = .ok [0xff, 0, 0xab] ∧
    ((∃ key, decodeHex32 "\u00a0 0xFf00aB\n" = .ok key) ↔ [0xff, 0, 0xab].length = 32) ∧
    ∀ key, decodeHex32 "\u00a0 0xFf00aB\n" = .ok key → key.toList = [0xff, 0, 0xab] := by
  apply decode_hex_undoes_encode
  have written : (encodeHex [0xff, 0, 0xab]).toList = ['f', 'f', '0', '0', 'a', 'b'] := by
    decide +kernel
  refine ⟨['\u00a0', ' '], ['0', 'x'], ['F', 'f', '0', '0', 'a', 'B'], ['\n'], by decide,
    List.all_eq_true.mp rfl, List.all_eq_true.mp rfl, .inr rfl, ?_⟩
  rw [written]
  exact .cons (.inr rfl) (.cons (.inl rfl) (.cons (.inl rfl) (.cons (.inl rfl) (.cons (.inl rfl)
    (.cons (.inr rfl) .nil)))))

end LogosAccounts
