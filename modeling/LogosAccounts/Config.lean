import LogosAccounts.BetterSign.Interface

namespace LogosAccounts
open BetterSign hiding mk
variable [BetterSign]

def defaultEntryLock : String := "check_signature(\"/pubkey\", \"/entry/\")"

def defaultEntryUnlock : String := "push(\"/entry/\"); push(\"/entry/proof\")"

/-- The path stands absolutely and unescaped in the script. -/
def delegatedLockCode (branch : Key) : String :=
  "check_signature(\"" ++ keyAsStr branch ++ "pubkey\", \"/entry/\")"

def defaultUnlockScript : Script := .code keyDefault defaultEntryUnlock

def defaultOpenConfig : OpenConfig where
  vladCodec := secp256K1Priv
  firstEntryCodec := secp256K1Priv
  pubkeyCodec := secp256K1Priv
  lock := .code keyDefault defaultEntryLock
  unlock := defaultUnlockScript

def delegatedBranchLockScript (branch : Key) : Script := .code branch (delegatedLockCode branch)

def pubkeyKeyPath : Key := pubkeyParamsKeyPath

/-- Logical key for the delegate Multikey under a branch (`{branch}pubkey`). -/
def delegatePubkeyKey (branch : Key) : Except Error Key :=
  if !keyIsBranch branch then
    .error (.invalidOp ("delegation path must be a branch (trailing '/'), got " ++ keyToString branch))
  else
    (keyTryFrom (keyAsStr branch ++ "pubkey")).mapError .invalidOp

/-- Validate a delegation branch path: a key that ends with `/` and is not the root. -/
def parseBranchPath (path : String) : Except Error Key := do
  let key ← (keyTryFrom path).mapError fun e => .invalidOp ("invalid key path " ++ path ++ ": " ++ e)
  if !keyIsBranch key then
    throw (.invalidOp ("delegation path must be a branch ending with '/', got " ++ path))
  if keyAsStr key == "/" then
    throw (.invalidOp "cannot delegate the root path '/'")
  return key

/-- Whether `opKey` is under the delegated branch. -/
def keyUnderBranch (opKey branch : Key) : Bool := keyParentOf branch opKey

end LogosAccounts
