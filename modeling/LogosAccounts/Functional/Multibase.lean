import Mathlib.Data.List.Basic

/-! Two self-describing text encodings of bytes: lowercase base 16 and unpadded
URL-safe base 64, each marked by its first character. -/

namespace LogosAccounts.Functional

inductive TextBase where
  | base16
  | base64Url
  deriving DecidableEq, Repr

namespace TextBase

def digit16 (n : Nat) : Char := Char.ofNat (if n < 10 then 48 + n else 87 + n)

def value16 (c : Char) : Option Nat :=
  let n := c.toNat
  if 48 ≤ n ∧ n < 58 then some (n - 48)
  else if 97 ≤ n ∧ n < 103 then some (n - 87)
  else none

def digit64 (n : Nat) : Char :=
  Char.ofNat (if n < 26 then 65 + n else if n < 52 then 71 + n else if n < 62 then n - 4
    else if n = 62 then 45 else 95)

def value64 (c : Char) : Option Nat :=
  let n := c.toNat
  if 65 ≤ n ∧ n < 91 then some (n - 65)
  else if 97 ≤ n ∧ n < 123 then some (n - 71)
  else if 48 ≤ n ∧ n < 58 then some (n + 4)
  else if n = 45 then some 62
  else if n = 95 then some 63
  else none

theorem value16_digit16 {n : Nat} (bound : n < 16) : value16 (digit16 n) = some n := by
  have all : ∀ n : Fin 16, value16 (digit16 n) = some n.val := by decide
  exact all ⟨n, bound⟩

theorem value64_digit64 {n : Nat} (bound : n < 64) : value64 (digit64 n) = some n := by
  have all : ∀ n : Fin 64, value64 (digit64 n) = some n.val := by decide
  exact all ⟨n, bound⟩

private theorem ofNat_eq {n : Nat} {b : UInt8} (same : n = b.toNat) : UInt8.ofNat n = b := by
  rw [same, UInt8.ofNat_toNat]

def encode16 : List UInt8 → List Char
  | b :: rest => digit16 (b.toNat / 16) :: digit16 (b.toNat % 16) :: encode16 rest
  | [] => []

def decode16 : List Char → Option (List UInt8)
  | high :: low :: rest => do
    let high ← value16 high
    let low ← value16 low
    let bytes ← decode16 rest
    return UInt8.ofNat (high * 16 + low) :: bytes
  | [] => some []
  | [_] => none

theorem decode16_encode16 (bytes : List UInt8) : decode16 (encode16 bytes) = some bytes := by
  induction bytes with
  | nil => rfl
  | cons b rest ih =>
    have bound := b.toNat_lt
    simp (disch := omega) only [encode16, decode16, value16_digit16, ih, Option.bind_eq_bind,
      Option.bind_some, Option.pure_def, Option.some.injEq, List.cons.injEq, and_true]
    exact ofNat_eq (by omega)

def encode64 : List UInt8 → List Char
  | a :: b :: c :: rest =>
    let n := a.toNat * 65536 + b.toNat * 256 + c.toNat
    digit64 (n / 262144) :: digit64 (n / 4096 % 64) :: digit64 (n / 64 % 64) ::
      digit64 (n % 64) :: encode64 rest
  | [a, b] =>
    let n := (a.toNat * 256 + b.toNat) * 4
    [digit64 (n / 4096), digit64 (n / 64 % 64), digit64 (n % 64)]
  | [a] =>
    let n := a.toNat * 16
    [digit64 (n / 64), digit64 (n % 64)]
  | [] => []

def decode64 : List Char → Option (List UInt8)
  | w :: x :: y :: z :: rest => do
    let n := (← value64 w) * 262144 + (← value64 x) * 4096 + (← value64 y) * 64 + (← value64 z)
    let bytes ← decode64 rest
    return UInt8.ofNat (n / 65536) :: UInt8.ofNat (n / 256 % 256) :: UInt8.ofNat (n % 256) :: bytes
  | [w, x, y] => do
    let n := (← value64 w) * 4096 + (← value64 x) * 64 + (← value64 y)
    return [UInt8.ofNat (n / 1024), UInt8.ofNat (n / 4 % 256)]
  | [w, x] => do
    let n := (← value64 w) * 64 + (← value64 x)
    return [UInt8.ofNat (n / 16)]
  | [] => some []
  | [_] => none

theorem decode64_encode64 (bytes : List UInt8) : decode64 (encode64 bytes) = some bytes := by
  induction bytes using encode64.induct with
  | case1 a b c rest ih =>
    have boundA := a.toNat_lt
    have boundB := b.toNat_lt
    have boundC := c.toNat_lt
    simp (disch := omega) only [encode64, decode64, value64_digit64, ih, Option.bind_eq_bind,
      Option.bind_some, Option.pure_def, Option.some.injEq, List.cons.injEq, and_true]
    refine ⟨ofNat_eq ?_, ofNat_eq ?_, ofNat_eq ?_⟩ <;> omega
  | case2 a b =>
    have boundA := a.toNat_lt
    have boundB := b.toNat_lt
    simp (disch := omega) only [encode64, decode64, value64_digit64, Option.bind_eq_bind,
      Option.bind_some, Option.pure_def, Option.some.injEq, List.cons.injEq, and_true]
    refine ⟨ofNat_eq ?_, ofNat_eq ?_⟩ <;> omega
  | case3 a =>
    have boundA := a.toNat_lt
    simp (disch := omega) only [encode64, decode64, value64_digit64, Option.bind_eq_bind,
      Option.bind_some, Option.pure_def, Option.some.injEq, List.cons.injEq, and_true]
    exact ofNat_eq (by omega)
  | case4 => rfl

def encode : TextBase → List UInt8 → String
  | base16, bytes => String.ofList ('f' :: encode16 bytes)
  | base64Url, bytes => String.ofList ('u' :: encode64 bytes)

def decode (text : String) : Option (TextBase × List UInt8) :=
  match text.toList with
  | 'f' :: digits => (decode16 digits).map fun bytes => (base16, bytes)
  | 'u' :: digits => (decode64 digits).map fun bytes => (base64Url, bytes)
  | _ => none

theorem decode_encode (base : TextBase) (bytes : List UInt8) :
    decode (base.encode bytes) = some (base, bytes) := by
  cases base with
  | base16 => simp [decode, encode, decode16_encode16]
  | base64Url => simp [decode, encode, decode64_encode64]

theorem encode_injective (base : TextBase) : Function.Injective base.encode := by
  intro left right same
  have decoded := congrArg decode same
  rw [decode_encode, decode_encode] at decoded
  exact congrArg Prod.snd (Option.some.inj decoded)

end TextBase
end LogosAccounts.Functional
