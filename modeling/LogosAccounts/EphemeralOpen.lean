import LogosAccounts.Config

namespace LogosAccounts
open BetterSign hiding mk
variable [BetterSign]

/-- One-shot open: software ephemerals and an injected public root Multikey. -/
structure EphemeralOpenHelper where
  rootPubkey : Multikey

def ensurePublicMultikey (mk : Multikey) : Except Error Multikey := do
  if ← (isSecretKey mk).mapError Error.transparent then
    (toPublicKey mk).mapError .transparent
  else
    return mk

def requireSecp256k1Priv (codec : Codec) : Except Error Unit :=
  if codec = secp256K1Priv then .ok () else .error (.unsupportedCodec (codecDebug codec))

namespace EphemeralOpenHelper

def new (rootPubkey : Multikey) : Except Error EphemeralOpenHelper := do
  let rootPubkey ← ensurePublicMultikey rootPubkey
  return { rootPubkey }

/-- A fresh key pair: the public key, and a closure that signs with the secret one. -/
def prepareEphemeralInner (codec : Codec) (threshold limit : Nat) (rng : Rng) :
    Except Error (Multikey × (Bytes → Except Error Multisig)) := do
  requireSecp256k1Priv codec
  let secretKey ← (newFromRandomBytes codec threshold limit rng).mapError .transparent
  let publicKey ← (toPublicKey secretKey).mapError .transparent
  return (publicKey, fun data => (sign secretKey data).mapError .transparent)

def getRootOrErr (helper : EphemeralOpenHelper) (keyPath : Key) : Except Error Multikey :=
  if keyPath = pubkeyKeyPath then .ok helper.rootPubkey
  else .error (.invalidOp ("ephemeral open helper has no long-lived key for " ++
    keyToString keyPath ++ " (only /pubkey is injected)"))

end EphemeralOpenHelper

/-- Open a new log with a peer-provided root Multikey and software ephemerals. -/
def openPlogWithExternalPubkey (rootPubkey : Multikey) (rng : Rng) : Except Error Log := do
  let helper ← EphemeralOpenHelper.new rootPubkey
  openPlog defaultOpenConfig {
    getKey := helper.getRootOrErr
    prepareEphemeralSigning := EphemeralOpenHelper.prepareEphemeralInner } rng

end LogosAccounts
