import OciTransfer.Records
import Mathlib.Data.List.Infix

/-!
How the transfer service reports the errors of registry operations.

`classify` looks for certain texts in an error, in a fixed order, and from the
first it finds takes the code and whether the operation may be retried.
-/

namespace OciTransfer

/-- A Go error as `classify` tells them apart. -/
inductive ServiceError where
  | canceled
  | deadlineExceeded
  | other (text : String)
  deriving DecidableEq, Repr

/-- `strings.ToLower`, as far as an ASCII text can be found in the result. -/
def goLower (text : String) : List Char :=
  text.toList.map fun char => if char = 'İ' then 'i' else char.toLower

def mentions (lower : List Char) (word : String) : Bool :=
  decide (word.toList <:+: lower)

/-- The code and the retryability of an error. -/
def classification : ServiceError → String × Bool
  | .canceled => ("cancelled", false)
  | .deadlineExceeded => ("timeout", true)
  | .other text =>
      let lower := goLower text
      if mentions lower "401" || mentions lower "authentication" then
        ("authentication_failed", false)
      else if mentions lower "403" || mentions lower "denied" then ("authorization_denied", false)
      else if mentions lower "429" then ("rate_limited", true)
      else if mentions lower "timeout" then ("timeout", true)
      else if mentions lower "digest" then ("digest_mismatch", false)
      else if mentions lower "connection" || mentions lower "temporary" then ("network_error", true)
      else ("transfer_failed", false)

def classify (error : ServiceError) (message : String) : Event :=
  { kind := .failed
    digest := none
    phase := none
    offset := none
    networkBytes := none
    bytesPerSecond := none
    disposition := none
    code := some (classification error).1
    message := some message
    retryable := (classification error).2
    retryAfter := none }

end OciTransfer
