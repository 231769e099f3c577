/-!
Failures that a store reports for a request, or that a request ends with on its way.
-/

namespace ObjectFlush

inductive RequestError where
  | timeout
  | network (reason : String)
  | http (status : Nat) (reason : String)
  | noSuchUpload (upload : String)
  | noSuchKey (key : String)
  | invalidPart (number : Nat) (reason : String)
  | entityTooSmall (number : Nat)
  | io (reason : String)
  deriving DecidableEq, Repr

namespace RequestError

def message : RequestError → String
  | .timeout => "request timed out"
  | .network reason => s!"network error: {reason}"
  | .http status reason => s!"HTTP {status}: {reason}"
  | .noSuchUpload upload => s!"no such upload: {upload}"
  | .noSuchKey key => s!"no such key: {key}"
  | .invalidPart number reason => s!"invalid part {number}: {reason}"
  | .entityTooSmall number => s!"part {number} is smaller than the minimum allowed size"
  | .io reason => s!"store IO error: {reason}"

/-- Whether the same request may succeed when it is repeated: after a timeout, a failed connection,
a failure of the server, or a refusal for the number of requests. All else refuses the request
itself. -/
def retryable : RequestError → Bool
  | .timeout | .network _ => true
  | .http status _ => 500 ≤ status || status == 429
  | _ => false

end RequestError

end ObjectFlush
