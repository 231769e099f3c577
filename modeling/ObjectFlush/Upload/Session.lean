import ObjectFlush.Upload.Dialogue

/-!
One multipart upload of one object as a transaction: it is begun, its parts are sent, and it is
completed or aborted. The session moves forward only, and what it is not ready for it refuses
without a word to the store.
-/

namespace ObjectFlush

structure Session where
  key : ObjectKey
  policy : PartPolicy
  /-- The signal that cancels its part runs; an abort raises it. -/
  cancel : Option Signal := none
  stage : SessionStage := .idle
  /-- The name the store gave the upload. -/
  upload : Option String := none
  receipts : List Receipt := []

namespace Session

/-- The session at a later stage, and the name of its upload, if a step leads there. -/
def enter (s : Session) (target : SessionStage) : Except SessionError (Session × String) :=
  match s.stage.leadsTo target, s.upload with
  | true, some name => .ok ({ s with stage := target }, name)
  | _, _ => .error (.invalidTransition s.stage target)

/-- Starts the upload. A refused start leaves the session as it was. -/
def start (s : Session) : Dialogue (Session × Except SessionError String) :=
  if s.stage.leadsTo .initiated then do
    match ← Dialogue.request (.initiate s.key) with
    | .ok name => return ({ s with stage := .initiated, upload := some name }, .ok name)
    | .error e => return (s, .error (.initFailed e))
  else return (s, .error (.invalidTransition s.stage .initiated))

/-- Sends the parts and keeps their receipts. -/
def sendParts (s : Session) (parts : List BoundPart) :
    Dialogue (Session × Except SessionError Unit) :=
  match s.enter .uploading with
  | .error e => return (s, .error e)
  | .ok (s, name) => do
    match ← Dialogue.sendParts
      (.start s.policy name s.cancel (parts.map BoundPart.toRequest)) with
    | .ok receipts => return ({ s with receipts }, .ok ())
    | .error e => return (s, .error (.upload e))

/-- Has the object assembled from the parts that were sent. -/
def complete (s : Session) : Dialogue (Session × Except SessionError ObjectSummary) :=
  match s.enter .completing with
  | .error e => return (s, .error e)
  | .ok (s, name) => do
    match ← Dialogue.persist s.policy.retry (.complete name s.receipts) with
    | .ok written => return ({ s with stage := .completed }, .ok written)
    | .error e => return (s, .error (.completeFailed e))

/-- Discards the upload. The session is over even if the store refuses. -/
def abort (s : Session) : Dialogue (Session × Except SessionError Unit) :=
  match s.enter .aborting with
  | .error e => return (s, .error e)
  | .ok (s, name) => do
    Dialogue.signal s.cancel
    match ← Dialogue.request (.abort name) with
    | .ok () => return ({ s with stage := .aborted }, .ok ())
    | .error e => return ({ s with stage := .aborted }, .error (.abortFailed name e))

/-- The whole transaction. What fails after the start has the upload discarded, and the first
failure is what is reported. -/
def execute (s : Session) (parts : List BoundPart) :
    Dialogue (Session × Except SessionError ObjectSummary) := do
  match ← s.start with
  | (s, .error e) => return (s, .error e)
  | (s, .ok _) =>
    match ← s.sendParts parts with
    | (s, .error e) => return ((← s.abort).1, .error e)
    | (s, .ok ()) =>
      match ← s.complete with
      | (s, .error e) => return ((← s.abort).1, .error e)
      | (s, .ok written) => return (s, .ok written)

end Session

end ObjectFlush
