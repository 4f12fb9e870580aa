import LogosAccounts.BetterSign.Data
import LogosAccounts.Error
import LogosAccounts.Json

/-! Every upstream function the crate calls, as a parameter of the model. A
fallible call returns the text its error shows. -/

namespace LogosAccounts

/-- The key manager and signer that `open_plog` calls back. -/
structure OpenCallbacks [Upstream] where
  getKey : Key → Except Error Multikey
  prepareEphemeralSigning : Codec → Nat → Nat → Rng →
    Except Error (Multikey × (Bytes → Except Error Multisig))

class BetterSign extends Upstream where
  -- multibase, sha2 and serde_json
  base64Url : Base
  multibaseEncode : Base → Bytes → String
  multibaseDecode : String → Bool → Except String (Base × Bytes)
  sha256 : Bytes → Vector UInt8 32
  jsonFromStr : String → Except String Json
  jsonToString : Json → String
  /-- The text serde gives for a tree that does not fit the expected type. -/
  serdeErrorText : String → String
  /-- Whether `Debug` shows a character outside of ASCII as it is. -/
  debugShows : Char → Bool
  -- provenance_log::Key
  keyTryFrom : String → Except String Key
  keyAsStr : Key → String
  keyToString : Key → String
  keyIsBranch : Key → Bool
  keyParentOf : Key → Key → Bool
  keyDefault : Key
  pubkeyParamsKeyPath : Key
  -- multicid, multikey and multisig
  vladToEncoded : Vlad → String
  vladTryFrom : String → Except String Vlad
  cidToEncoded : Cid → String
  cidToBytes : Cid → Bytes
  multikeyToEncoded : Multikey → String
  multikeyFromEncoded : String → Except String Multikey
  multikeyToBytes : Multikey → Bytes
  multikeyTryFrom : Bytes → Except String Multikey
  isSecretKey : Multikey → Except String Bool
  toPublicKey : Multikey → Except String Multikey
  secp256K1Priv : Codec
  codecDebug : Codec → String
  newFromRandomBytes : Codec → Nat → Nat → Rng → Except String Multikey
  sign : Multikey → Bytes → Except String Multisig
  multisigFromEncoded : String → Except String Multisig
  multisigToBytes : Multisig → Bytes
  -- provenance_log::{Entry, Log} and bs::ops
  entryVersion : UInt64
  entryCid : Entry → Cid
  entryToBytes : Entry → Bytes
  opTryBuild : Op → Except String Op
  prepareUnsignedEntry : Entry → Except String Entry
  tryBuildWithProof : Entry → Bytes → Except String Entry
  isLipmaa : UInt64 → Bool
  lipmaa : UInt64 → UInt64
  logToEncoded : Log → String
  logFromEncoded : String → Except String Log
  logToBytes : Log → Bytes
  logTryFrom : Bytes → Except String Log
  logVerify : Log → List VerifyItem
  logSeqno : Log → UInt64 → Except String Entry
  /-- The result, and the log afterwards. -/
  logTryAppend : Log → Entry → Except String Unit × Log
  openPlog : OpenConfig → OpenCallbacks → Rng → Except Error Log

end LogosAccounts
