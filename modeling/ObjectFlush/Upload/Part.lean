import ObjectFlush.Part.Basic
import ObjectFlush.Exchange.Link
import ObjectFlush.Upload.Error
import ObjectFlush.Upload.Repeat

/-!
Sending one part. A part is attempted until a request succeeds, is refused for good, or the policy
allows no further attempt; a request that takes longer than the policy allows is given up and
counts as timed out. Between its turns a part waits: for an answer, for the time limit, or for the
end of a pause.
-/

namespace ObjectFlush

structure PartPolicy where
  /-- How many parts are sent at once; none counts as one. -/
  concurrency : Nat
  retry : RepeatPolicy
  /-- How long one request may take, in milliseconds. -/
  timeout : Nat
  deriving DecidableEq, Repr

/-- What a part request carries. -/
inductive Payload where
  | bytes (data : Bytes)
  | copy (source : StoredRange)

namespace Payload

def request (p : Payload) (upload : String) (number : Nat) : Request :=
  match p with
  | .bytes data => .uploadPart upload number data
  | .copy source => .copyPart upload number source

/-- The tag in the answer to a part request. -/
def tag (upload : String) (number : Nat) :
    (p : Payload) → (p.request upload number).Answer → String
  | .bytes _, tag => tag
  | .copy _, tag => tag

end Payload

/-- A part to send: its number, and what it carries, if that can be read. -/
structure PartRequest where
  number : Nat
  payload : Except FileError Payload

/-- The part as a request: bytes are read, a copy is only named. -/
def BoundPart.toRequest (p : BoundPart) : PartRequest :=
  { number := p.number
    payload :=
      match p.source with
      | .copy source => .ok (.copy source)
      | _ => p.read.map .bytes }

/-- What a started part is doing. -/
inductive Stage where
  /-- Its request is under way; `late` if it is going to be given up. -/
  | calling (ticket : Ticket) (late : Bool)
  /-- It is about to make an attempt, or pauses before the next one. -/
  | pausing

/-- A part that was started, with the repetitions it has left and its next pause. -/
structure ActivePart where
  /-- Its place among the parts in the order given. -/
  slot : Nat
  number : Nat
  payload : Payload
  left : Nat
  backoff : Nat
  stage : Stage

/-- What one turn of a part comes to. -/
inductive Turn where
  | waits (time : Nat) (part : ActivePart)
  | done (tag : String)
  | failed (error : PartRunError)

namespace ActivePart

variable {σ : Type} [Endpoint σ]

/-- A part before its first attempt. -/
def first (policy : PartPolicy) (slot number : Nat) (payload : Payload) : ActivePart :=
  { slot, number, payload
    left := policy.retry.limit
    backoff := policy.retry.pause
    stage := .pausing }

/-- The request of the part. -/
def request (part : ActivePart) (upload : String) : Request :=
  part.payload.request upload part.number

/-- Starts a request for a part: its answer, if it comes at once, and else the part waiting for
the answer or for the time limit. -/
def call (policy : PartPolicy) (upload : String) (part : ActivePart) (l : Link σ) :
    Link σ × (Except RequestError String ⊕ Nat × ActivePart) :=
  let (l, ticket) := l.start (part.request upload)
  let delay := ticket.reaction.delay
  if delay = 0 then
    let (l, answer) := l.finish (part.request upload) ticket
    (l, .inl (answer.map (part.payload.tag upload part.number)))
  else if policy.timeout = 0 then (l, .inl (.error .timeout))
  else
    (l, .inr (l.now + min delay policy.timeout,
      { part with stage := .calling ticket (policy.timeout < delay) }))

/-- What a part does about the answer to its request, `left` repetitions being left: it is done,
it fails, or it goes on to the next attempt after a pause. -/
def conclude (policy : PartPolicy) (upload : String) (part : ActivePart) :
    (left : Nat) → (backoff : Nat) → Link σ → Except RequestError String → Link σ × Turn
  | _, _, l, .ok tag => (l, .done tag)
  | 0, _, l, .error e => (l, .failed (.partFailed part.number e))
  | left + 1, backoff, l, .error e =>
    if e.retryable then
      let (l, pause) := l.drawPause backoff
      let part := { part with left, backoff := policy.retry.next backoff }
      if pause = 0 then
        match part.call policy upload l with
        | (l, .inl answer) => conclude policy upload part left (policy.retry.next backoff) l answer
        | (l, .inr (time, part)) => (l, .waits time part)
      else (l, .waits (l.now + pause) { part with stage := .pausing })
    else (l, .failed (.partFailed part.number e))

/-- Makes the next attempt of a part. -/
def attempt (policy : PartPolicy) (upload : String) (part : ActivePart) (l : Link σ) :
    Link σ × Turn :=
  match part.call policy upload l with
  | (l, .inl answer) => part.conclude policy upload part.left part.backoff l answer
  | (l, .inr (time, part)) => (l, .waits time part)

/-- The turn of a part that waited. -/
def wake (policy : PartPolicy) (upload : String) (part : ActivePart) (l : Link σ) :
    Link σ × Turn :=
  match part.stage with
  | .pausing => part.attempt policy upload l
  | .calling ticket late =>
    if late then part.conclude policy upload part.left part.backoff l (.error .timeout)
    else
      let (l, answer) := l.finish (part.request upload) ticket
      part.conclude policy upload part.left part.backoff l
        (answer.map (part.payload.tag upload part.number))

/-- A bound on the turns that a waiting part still takes. -/
def weight (part : ActivePart) : Nat :=
  match part.stage with
  | .calling .. => 4 * part.left + 2
  | .pausing => 4 * part.left + 4

theorem call_alarms (policy : PartPolicy) (upload : String) (part : ActivePart) (l : Link σ) :
    (part.call policy upload l).1.alarms = l.alarms := by
  simp only [call]
  repeat' split
  all_goals rfl

theorem weight_of_call {policy : PartPolicy} {upload : String} {part next : ActivePart}
    {l : Link σ} {time : Nat} (h : (part.call policy upload l).2 = .inr (time, next)) :
    next.weight = 4 * part.left + 2 := by
  simp only [call] at h
  split at h
  · cases h
  · split at h
    · cases h
    · cases h; rfl

theorem conclude_alarms (policy : PartPolicy) (upload : String) (left : Nat) :
    ∀ (part : ActivePart) (backoff : Nat) (l : Link σ) (answer : Except RequestError String),
      (part.conclude policy upload left backoff l answer).1.alarms = l.alarms := by
  induction left with
  | zero => intro part backoff l answer; cases answer <;> rfl
  | succ left ih =>
    intro part backoff l answer
    cases answer with
    | ok tag => rfl
    | error e =>
      simp only [conclude]
      split
      · split
        · have h := call_alarms policy upload
            { part with left, backoff := policy.retry.next backoff } (l.drawPause backoff).1
          split
          · next hc => rw [ih]; rw [hc] at h; exact h
          · next hc => rw [hc] at h; exact h
        · rfl
      · rfl

theorem weight_of_conclude (policy : PartPolicy) (upload : String) (left : Nat) :
    ∀ (part : ActivePart) (backoff : Nat) (l : Link σ) (answer : Except RequestError String)
      (time : Nat) (next : ActivePart),
      (part.conclude policy upload left backoff l answer).2 = .waits time next →
        next.weight ≤ 4 * left := by
  induction left with
  | zero => intro part backoff l answer time next h; cases answer <;> cases h
  | succ left ih =>
    intro part backoff l answer time next h
    cases answer with
    | ok tag => cases h
    | error e =>
      simp only [conclude] at h
      split at h
      · split at h
        · split at h
          · exact Nat.le_trans (ih _ _ _ _ _ _ h) (by omega)
          · next hc =>
            cases h
            rw [weight_of_call (congrArg Prod.snd hc)]
            simp only; omega
        · cases h; simp only [weight]; omega
      · cases h

theorem attempt_alarms (policy : PartPolicy) (upload : String) (part : ActivePart) (l : Link σ) :
    (part.attempt policy upload l).1.alarms = l.alarms := by
  have h := call_alarms policy upload part l
  simp only [attempt]
  split
  · next hc => rw [conclude_alarms]; rw [hc] at h; exact h
  · next hc => rw [hc] at h; exact h

theorem weight_of_attempt {policy : PartPolicy} {upload : String} {part next : ActivePart}
    {l : Link σ} {time : Nat} (h : (part.attempt policy upload l).2 = .waits time next) :
    next.weight ≤ 4 * part.left + 2 := by
  simp only [attempt] at h
  split at h
  · exact Nat.le_trans (weight_of_conclude policy upload _ _ _ _ _ _ _ h) (by omega)
  · next hc => cases h; exact Nat.le_of_eq (weight_of_call (congrArg Prod.snd hc))

theorem wake_alarms (policy : PartPolicy) (upload : String) (part : ActivePart) (l : Link σ) :
    (part.wake policy upload l).1.alarms = l.alarms := by
  simp only [wake]
  split
  · exact attempt_alarms ..
  · split
    · exact conclude_alarms ..
    · rw [conclude_alarms]; rfl

theorem weight_of_wake {policy : PartPolicy} {upload : String} {part next : ActivePart}
    {l : Link σ} {time : Nat} (h : (part.wake policy upload l).2 = .waits time next) :
    next.weight + 1 < part.weight := by
  simp only [wake] at h
  split at h
  · next hs => have := weight_of_attempt h; simp only [weight, hs] at *; omega
  · next hs =>
    have : next.weight ≤ 4 * part.left := by
      split at h <;> exact weight_of_conclude policy upload _ _ _ _ _ _ _ h
    simp only [weight, hs] at *; omega

end ActivePart

end ObjectFlush
