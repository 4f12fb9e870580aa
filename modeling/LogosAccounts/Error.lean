namespace LogosAccounts

/-- The error type of the crate. Every transparent variant wraps an upstream
error and shows its text; they are one constructor here. `panic` is no value of
the source's enum: it marks a failed `expect` or slice. -/
inductive Error where
  | transparent (text : String)
  | unsupportedCodec (codec : String)
  | accountNotCached (hash : String)
  | plogVerifyFailed (detail : String)
  | pathNotFound (path : String)
  | encoding (detail : String)
  | invalidOp (detail : String)
  | challengeNotFound (challengeId : String)
  | headMismatch (expected current : String)
  | panic (message : String)
  deriving DecidableEq, Repr

/-- The `#[error("…")]` texts. -/
def Error.text : Error → String
  | .transparent text => text
  | .unsupportedCodec codec =>
    "Unsupported codec: " ++ codec ++ " (secp256k1 only for ephemeral open)"
  | .accountNotCached hash =>
    "no cached p-log for this VLAD (hash " ++ hash ++ "): call create_account or import_plog first"
  | .plogVerifyFailed detail => "p-log verification failed: " ++ detail
  | .pathNotFound path => "no value at path " ++ path
  | .encoding detail => "encoding error: " ++ detail
  | .invalidOp detail => "invalid operation: " ++ detail
  | .challengeNotFound challengeId => "unknown or expired path-update challenge: " ++ challengeId
  | .headMismatch expected current =>
    "p-log head changed since prepare (expected " ++ expected ++ ", current " ++ current ++ ")"
  | .panic message => message

def expect (message : String) : Option α → Except Error α
  | some value => .ok value
  | none => .error (.panic message)

end LogosAccounts
