import ObjectFlush.Exchange.Request

/-!
The connection to an endpoint: a clock in milliseconds, the conditions under which requests travel,
and the log of every call. A call is logged when it starts; its answer is drawn when it ends, so a
call that is given up before that never reaches the endpoint. The conditions are data, so that a
statement about them can range over all of them.
-/

namespace ObjectFlush

/-- What happens to one call: how long it takes, the failure it ends with in place of an answer,
and the tag it answers with in place of the endpoint's. -/
structure Reaction where
  delay : Nat := 0
  failure : Option RequestError := none
  tag : Option String := none
  deriving DecidableEq, Repr

/-- What happens to the calls of each lane, first to last, and how much is added to each pause. -/
structure Conditions where
  reaction : Request.Lane → Nat → Reaction := fun _ _ => {}
  jitter : Nat → Nat := fun _ => 0

/-- A call of the log: when it started, and when and how it ended, if its caller waited for that. -/
structure Call where
  request : Request
  started : Nat
  finish : Option (Nat × Except RequestError request.Answer) := none

/-- A switch that cancels the part runs that watch it. -/
abbrev Signal := Nat

/-- A signal that is going to be raised. -/
structure Alarm where
  time : Nat
  signal : Signal
  deriving DecidableEq, Repr

structure Link (σ : Type) where
  endpoint : σ
  conditions : Conditions := {}
  now : Nat := 0
  calls : List Call := []
  /-- How many pauses were taken. -/
  pauses : Nat := 0
  /-- The signals that were raised. -/
  raised : List Signal := []
  /-- The signals that are going to be raised. -/
  alarms : List Alarm := []

/-- A call that has started: its place in the log, and what is going to happen to it. -/
structure Ticket where
  place : Nat
  started : Nat
  reaction : Reaction

namespace Link

variable {σ : Type}

/-- Raises a signal. -/
def raise (l : Link σ) (s : Signal) : Link σ := { l with raised := s :: l.raised }

def isRaised (l : Link σ) (s : Signal) : Bool := l.raised.contains s

/-- Raises every signal that is due at or before `time`. -/
def ring (l : Link σ) (time : Nat) : Link σ :=
  { l with
    raised := ((l.alarms.filter (·.time ≤ time)).map (·.signal)) ++ l.raised
    alarms := l.alarms.filter (time < ·.time) }

/-- When the next signal is going to be raised. -/
def nextAlarm? (l : Link σ) : Option Nat := (l.alarms.map (·.time)).min?

/-- Lets the clock run to `time`. A signal due on the way is raised; one due at `time` itself waits
until all work that is due then has run. -/
def passTo (l : Link σ) (time : Nat) : Link σ :=
  if l.now < time then { l.ring (time - 1) with now := time } else l

/-- How many calls of a lane were made. -/
def callsIn (l : Link σ) (lane : Request.Lane) : Nat :=
  l.calls.countP (·.request.lane = lane)

/-- Starts a call. -/
def start (l : Link σ) (r : Request) : Link σ × Ticket :=
  ({ l with calls := l.calls ++ [{ request := r, started := l.now }] },
    ⟨l.calls.length, l.now, l.conditions.reaction r.lane (l.callsIn r.lane)⟩)

/-- What a call ends with now: the failure that was in store for it, or the answer of the
endpoint. -/
def answer [Endpoint σ] (l : Link σ) (r : Request) (reaction : Reaction) :
    σ × Except RequestError r.Answer :=
  match reaction.failure with
  | some e => (l.endpoint, .error e)
  | none =>
    let (endpoint, answer) := Endpoint.serve l.endpoint r
    match reaction.tag with
    | some tag => (endpoint, answer.map (r.retag tag))
    | none => (endpoint, answer)

/-- Ends a call now. -/
def finish [Endpoint σ] (l : Link σ) (r : Request) (t : Ticket) :
    Link σ × Except RequestError r.Answer :=
  let (endpoint, answer) := l.answer r t.reaction
  ({ l with
      endpoint
      calls := l.calls.set t.place ⟨r, t.started, some (l.now, answer)⟩ }, answer)

/-- Makes a call and waits for its end, however long it takes. -/
def ask [Endpoint σ] (l : Link σ) (r : Request) : Link σ × Except RequestError r.Answer :=
  let (l, t) := l.start r
  (l.passTo (l.now + t.reaction.delay)).finish r t

/-- Takes the next pause: `base` milliseconds and at most half as many on top of them. -/
def drawPause (l : Link σ) (base : Nat) : Link σ × Nat :=
  ({ l with pauses := l.pauses + 1 }, base + min (l.conditions.jitter l.pauses) (base / 2))

/-- Pauses. -/
def pause (l : Link σ) (base : Nat) : Link σ :=
  let (l, length) := l.drawPause base
  l.passTo (l.now + length)

theorem length_alarms_ring (l : Link σ) (time : Nat) :
    (l.ring time).alarms.length ≤ l.alarms.length := List.length_filter_le ..

theorem length_alarms_passTo (l : Link σ) (time : Nat) :
    (l.passTo time).alarms.length ≤ l.alarms.length := by
  simp only [passTo]
  split
  · exact length_alarms_ring ..
  · exact Nat.le_refl _

/-- Passing to the next alarm and raising it leaves fewer alarms. -/
theorem length_alarms_ring_next {l : Link σ} {time : Nat} (h : l.nextAlarm? = some time) :
    ((l.passTo time).ring time).alarms.length < l.alarms.length := by
  obtain ⟨alarm, halarm, rfl⟩ := List.mem_map.1 (List.min?_mem h)
  have hpass : ((l.passTo alarm.time).ring alarm.time).alarms = (l.ring alarm.time).alarms := by
    simp only [passTo]
    split
    · simp only [ring, List.filter_filter]
      congr 1; funext x; simp; omega
    · rfl
  rw [hpass]
  exact List.length_filter_lt_length_iff_exists.2 ⟨alarm, halarm, by simp⟩

end Link

end ObjectFlush
