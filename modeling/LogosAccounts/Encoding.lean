import LogosAccounts.BetterSign.Interface
import LogosAccounts.Functional.Utf8Text

namespace LogosAccounts
open BetterSign hiding mk
open Functional
variable [BetterSign]

def encodeBytesMultibase (bytes : Bytes) : String := multibaseEncode base64Url bytes

def decodeBytesMultibase (s : String) : Except Error Bytes := do
  let (_, data) ← (multibaseDecode s false).mapError .encoding
  return data

def encodePlog (log : Log) : String := logToEncoded log

def decodePlog (s : String) : Except Error Log := (logFromEncoded s).mapError .encoding

def plogToBytes (log : Log) : Bytes := logToBytes log

def plogFromBytes (bytes : Bytes) : Except Error Log := (logTryFrom bytes).mapError .transparent

def encodeVlad (vlad : Vlad) : String := vladToEncoded vlad

def decodeVlad (s : String) : Except Error Vlad := (vladTryFrom s).mapError .encoding

def encodeCid (cid : Cid) : String := cidToEncoded cid

def encodeMultikey (mk : Multikey) : String := multikeyToEncoded mk

def decodeMultikey (s : String) : Except Error Multikey := (multikeyFromEncoded s).mapError .encoding

def decodeMultisig (s : String) : Except Error Multisig := (multisigFromEncoded s).mapError .encoding

omit [BetterSign] in
def hexDigit (nibble : Nat) : Char := Char.ofNat (if nibble < 10 then 48 + nibble else 87 + nibble)

omit [BetterSign] in
def encodeHex (bytes : Bytes) : String :=
  String.ofList (bytes.flatMap fun b => [hexDigit (b.toNat / 16), hexDigit (b.toNat % 16)])

omit [BetterSign] in
/-- The text without white space around it and without one `0x` in front. -/
def hexPayload (s : String) : List Char :=
  (List.isPrefixOf? ['0', 'x'] (trim s.toList)).getD (trim s.toList)

omit [BetterSign] in
/-- `u8::from_str_radix` in base 16, on a slice of two bytes. -/
def hexByte (slice : List Char) : Except Error UInt8 :=
  ((fromStrRadix 256 16 slice).map UInt8.ofNat).mapError fun e =>
    .encoding ("invalid hex: " ++ e.text)

omit [BetterSign] in
/-- A slice that is not on character boundaries panics. -/
def sliceCut : Error := .panic "byte index is not a char boundary"

omit [BetterSign] in
/-- One round of the loop, on the bytes from the offset `i`. -/
def decodeHexByte (s : List Char) (i : Nat) : Except Error UInt8 :=
  match sliceBytes s i (i + 2) with
  | none => .error sliceCut
  | some slice => hexByte slice

omit [BetterSign] in
/-- Decode a hex string (optional `0x` prefix) to bytes. -/
def decodeHex (s : String) : Except Error Bytes :=
  let s := hexPayload s
  if byteLength s % 2 ≠ 0 then .error (.encoding "hex string has odd length")
  else (List.range' 0 ((byteLength s + 1) / 2) 2).mapM (decodeHexByte s)

omit [BetterSign] in
def decodeHex32 (s : String) : Except Error (Vector UInt8 32) := do
  let v ← decodeHex s
  if size : v.length = 32 then return ⟨v.toArray, size⟩
  else throw (.encoding ("expected 32 bytes, got " ++ toString v.length))

def asBytes (s : String) : Bytes := s.toUTF8.data.toList

abbrev VladHash := Vector UInt8 32

def vladHashFromMultibase (vladMultibase : String) : VladHash := sha256 (asBytes vladMultibase)

def vladHash (vlad : Vlad) : VladHash := vladHashFromMultibase (encodeVlad vlad)

end LogosAccounts
