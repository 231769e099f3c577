import ObjectFlush.Upload.Dialogue
import ObjectFlush.Upload.Leases

/-!
Dialogues held side by side over one link, each under the lease of its key. At every instant each
errand goes on, in their order, until it waits for its lease, an answer or the clock; the clock
runs when all of them wait. An errand lets go of its lease at the instant at which it ends. One that
lasts until its alarm raises the signal of the alarm as soon as its work due then has run.
-/

namespace ObjectFlush

/-- A dialogue that needs the lease of a key, and the time from which on it asks for it. -/
structure Errand (α : Type) where
  key : ObjectKey
  start : Nat := 0
  dialogue : Dialogue α
  /-- The signal that is raised if the errand has not ended by then. -/
  alarm : Option Alarm := none

/-- What an errand ended with, when, and whether its key was claimed by others then. -/
structure Finish (α : Type) where
  value : α
  time : Nat
  contended : Bool

/-- What an errand waits for. -/
inductive Standing (α : Type) where
  /-- Its first turn. -/
  | fresh (start : Nat) (dialogue : Dialogue α)
  /-- Its lease. -/
  | queued (dialogue : Dialogue α)
  /-- The answer to a request. -/
  | calling (request : Request) (ticket : Ticket) (due : Nat)
      (next : Except RequestError request.Answer → Dialogue α)
  | pausing (due : Nat) (next : Dialogue α)
  /-- The parts of a run. -/
  | sending (run : PartRun) (due : Nat) (next : PartRun.Outcome → Dialogue α)
  /-- Nothing: the dialogue is over, the lease still held. -/
  | over (value : α)
  | finished (finish : Finish α)

namespace Standing

variable {σ α : Type} [Endpoint σ]

/-- Goes on with a dialogue until it waits or is over. -/
def talk : Dialogue α → Link σ → Link σ × Standing α
  | .done a, l => (l, .over a)
  | .ask r next, l =>
    let (l, ticket) := l.start r
    if ticket.reaction.delay = 0 then
      let (l, answer) := l.finish r ticket
      talk (next answer) l
    else (l, .calling r ticket (l.now + ticket.reaction.delay) next)
  | .pause base next, l =>
    let (l, length) := l.drawPause base
    if length = 0 then talk next l else (l, .pausing (l.now + length) next)
  | .parts run next, l =>
    match run.settle l with
    | (l, run, .inl due) => (l, .sending run due next)
    | (l, _, .inr outcome) => talk (next outcome) l
  | .raise s next, l => talk next (l.raise s)

/-- Whether the dialogue is over. -/
def isOver : Standing α → Bool
  | .over _ | .finished _ => true
  | _ => false

/-- When the clock next gives the errand a turn. -/
def due? : Standing α → Option Nat
  | .fresh due _ | .calling _ _ due _ | .pausing due _ | .sending _ due _ => some due
  | _ => none

/-- Goes on with an errand that holds its lease. -/
def proceed (s : Standing α) (l : Link σ) : Link σ × Standing α :=
  match s with
  | .calling r ticket due next =>
    if due ≤ l.now then
      let (l, answer) := l.finish r ticket
      talk (next answer) l
    else (l, s)
  | .pausing due next => if due ≤ l.now then talk next l else (l, s)
  | .sending run _ next =>
    match (run.rouse l.now).settle l with
    | (l, run, .inl due) => (l, .sending run due next)
    | (l, _, .inr outcome) => talk (next outcome) l
  | s => (l, s)

end Standing

/-- An errand under way: where it stands, and the alarm that has not rung yet. -/
structure Course (α : Type) where
  key : ObjectKey
  alarm : Option Alarm
  standing : Standing α

/-- When the clock next gives the errand a turn: when what it waits for is due, or when its alarm
rings. -/
def Course.due? {α : Type} (c : Course α) : Option Nat :=
  if c.standing.isOver then none
  else (c.standing.due?.toList ++ c.alarm.toList.map (·.time)).min?

/-- Errands under way: the link they share, the leases of their keys, and where each stands. -/
structure Schedule (σ α : Type) where
  link : Link σ
  leases : Leases Nat := {}
  errands : List (Course α)
  /-- The errand behind each call made since the start, in the order of the log. -/
  callers : List Nat := []

namespace Schedule

variable {σ α : Type} [Endpoint σ]

/-- The errands before their first turn. -/
def start (l : Link σ) (errands : List (Errand α)) : Schedule σ α :=
  { link := l, errands := errands.map fun e => ⟨e.key, e.alarm, .fresh e.start e.dialogue⟩ }

/-- What an errand does as far as it can: it asks for its lease, looks whether it was handed over,
or goes on. -/
def goOn (leases : Leases Nat) (i : Nat) (key : ObjectKey) (s : Standing α) (l : Link σ) :
    Leases Nat × Link σ × Standing α :=
  match s with
  | .fresh start dialogue =>
    if start ≤ l.now then
      match leases.acquire i key with
      | (leases, true) => (leases, Standing.talk dialogue l)
      | (leases, false) => (leases, l, .queued dialogue)
    else (leases, l, s)
  | .queued dialogue =>
    match leases.poll i with
    | some (leases, true) => (leases, Standing.talk dialogue l)
    | _ => (leases, l, s)
  | s => (leases, s.proceed l)

/-- The turn of an errand. If it is not over by the time of its alarm, the alarm rings, and the
errand goes on at once. -/
def attend (leases : Leases Nat) (i : Nat) (c : Course α) (l : Link σ) :
    Leases Nat × Link σ × Course α :=
  let (leases, l, standing) := goOn leases i c.key c.standing l
  match c.alarm with
  | some alarm =>
    if alarm.time ≤ l.now && !standing.isOver then
      let (leases, l, standing) := goOn leases i c.key standing (l.raise alarm.signal)
      (leases, l, { c with alarm := none, standing })
    else (leases, l, { c with standing })
  | none => (leases, l, { c with standing })

/-- Lets go of the lease of an errand that is over. -/
def leave (leases : Leases Nat) (i : Nat) (c : Course α) (now : Nat) : Leases Nat × Course α :=
  match c.standing with
  | .over value =>
    let leases := (leases.release i).getD leases
    (leases, { c with standing := .finished ⟨value, now, leases.isActive c.key⟩ })
  | _ => (leases, c)

/-- Gives the `i`-th errand a turn. -/
def turn (s : Schedule σ α) (i : Nat) : Schedule σ α :=
  match s.errands[i]? with
  | none => s
  | some course =>
    let (leases, link, course) := attend s.leases i course s.link
    let (leases, course) := leave leases i course link.now
    { link, leases
      errands := s.errands.set i course
      callers := s.callers ++ List.replicate (link.calls.length - s.link.calls.length) i }

/-- Gives each errand a turn, in their order. -/
def sweep (s : Schedule σ α) : Schedule σ α := (List.range s.errands.length).foldl turn s

/-- How many errands have not ended and how many alarms have not rung, together. -/
def pending (s : Schedule σ α) : Nat :=
  (s.errands.filter (!·.standing.isOver)).length + (s.errands.filter (·.alarm.isSome)).length

/-- Gives turns until a round of them ends no errand and rings no alarm, for at most `n` rounds. -/
def rounds (s : Schedule σ α) : (n : Nat) → Schedule σ α
  | 0 => s
  | n + 1 => if s.sweep.pending < s.pending then s.sweep.rounds n else s.sweep

/-- Takes all turns there are at this instant. A turn lets another errand go on only by handing it a
lease or by raising a signal, so there are no more rounds than errands and alarms. -/
def settle (s : Schedule σ α) : Schedule σ α := s.rounds (s.pending + 1)

/-- When the clock next gives an errand a turn. -/
def due? (s : Schedule σ α) : Option Nat := (s.errands.filterMap Course.due?).min?

/-- Lets the clock run until an errand is due. -/
def await (s : Schedule σ α) (due : Nat) : Schedule σ α := { s with link := s.link.passTo due }

/-- Runs until no errand waits for the clock, for at most `fuel` instants. -/
def runFor (s : Schedule σ α) : (fuel : Nat) → Schedule σ α
  | 0 => s
  | fuel + 1 =>
    let s := s.settle
    match s.due? with
    | some due => (s.await due).runFor fuel
    | none => s

/-- What each errand ended with, if all of them have. -/
def finishes? (s : Schedule σ α) : Option (List (Finish α)) :=
  s.errands.mapM fun e =>
    match e.standing with
    | .finished f => some f
    | _ => none

end Schedule

end ObjectFlush
