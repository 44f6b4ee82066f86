import SolidPod.Foundation.Utf8

/-!
# The crate-wide error

`PodError` is the error of every fallible function, with the text that each
variant carries, and `display` is the message it is shown with.
-/

namespace SolidPod

open Foundation

inductive PodError where
  | notFound (path : Str)
  | alreadyExists (path : Str)
  | forbidden
  | unauthenticated
  | io (msg : Str)
  | invalidPath (path : Str)
  | invalidContentType (ct : Str)
  | json (msg : Str)
  | urlParse (msg : Str)
  | base64 (msg : Str)
  | hex (msg : Str)
  | aclParse (msg : Str)
  | nip98 (msg : Str)
  | watch (msg : Str)
  | backend (msg : Str)
  | preconditionFailed (msg : Str)
  | unsupported (msg : Str)
  | badRequest (msg : Str)
  | payloadTooLarge (msg : Str)
  deriving DecidableEq

def PodError.display : PodError → Str
  | .notFound p => "resource not found: " ++ p
  | .alreadyExists p => "resource already exists: " ++ p
  | .forbidden => "access forbidden"
  | .unauthenticated => "authentication required"
  | .io m => "I/O error: " ++ m
  | .invalidPath p => "invalid path: " ++ p
  | .invalidContentType c => "invalid content type: " ++ c
  | .json m => "JSON error: " ++ m
  | .urlParse m => "URL parse error: " ++ m
  | .base64 m => "base64 decode error: " ++ m
  | .hex m => "hex decode error: " ++ m
  | .aclParse m => "ACL parse error: " ++ m
  | .nip98 m => "NIP-98: " ++ m
  | .watch m => "watch subsystem error: " ++ m
  | .backend m => "backend error: " ++ m
  | .preconditionFailed m => "precondition failed: " ++ m
  | .unsupported m => "unsupported: " ++ m
  | .badRequest m => "bad request: " ++ m
  | .payloadTooLarge m => "payload too large: " ++ m

/-- A number in decimal, as `format!` writes it. -/
def decimal (n : Nat) : Str := Nat.toDigits 10 n

end SolidPod
