import ObjectFlush.Total
import ObjectFlush.Upload.Part

/-!
Sending the parts of one upload. Parts are started in the order of their numbers, no more at once
than the policy allows; a part keeps its place while it waits. The first part that fails for good
ends the run, and so does a raised signal: requests still under way are given up, and parts still
waiting for a place are never started.

A run advances by steps that each take one turn of one part, and lets the clock run when no part
has a turn. `weight` bounds the turns that are left, so every run ends.
-/

namespace ObjectFlush

/-- Where a part is in a run. -/
inductive PartStatus where
  | pending
  | inFlight
  | done
  | failed
  deriving DecidableEq, Repr

def PartStatus.name : PartStatus → String
  | .pending => "Pending"
  | .inFlight => "InFlight"
  | .done => "Done"
  | .failed => "Failed"

/-- A part whose turn it is: one that is about to start, or one that was woken. -/
inductive ReadyPart where
  | fresh (slot : Nat) (part : PartRequest)
  | woken (part : ActivePart)

namespace ReadyPart

def slot : ReadyPart → Nat
  | .fresh slot _ => slot
  | .woken part => part.slot

def number : ReadyPart → Nat
  | .fresh _ part => part.number
  | .woken part => part.number

variable {σ : Type} [Endpoint σ]

/-- The turn of a part. One whose bytes cannot be read fails without a request. -/
def look (policy : PartPolicy) (upload : String) (part : ReadyPart) (l : Link σ) : Link σ × Turn :=
  match part with
  | .woken part => part.wake policy upload l
  | .fresh slot part =>
    match part.payload with
    | .error e => (l, .failed (.unreadable part.number e.message))
    | .ok payload => (ActivePart.first policy slot part.number payload).attempt policy upload l

/-- A bound on the turns that the part still takes. -/
def weight (policy : PartPolicy) : ReadyPart → Nat
  | .fresh .. => 4 * policy.retry.limit + 5
  | .woken part => part.weight - 1

theorem weight_pos (policy : PartPolicy) (part : ReadyPart) : 0 < part.weight policy := by
  cases part with
  | fresh => simp [weight]
  | woken part => cases h : part.stage <;> simp [weight, ActivePart.weight, h]

theorem look_alarms (policy : PartPolicy) (upload : String) (part : ReadyPart) (l : Link σ) :
    (part.look policy upload l).1.alarms = l.alarms := by
  cases part with
  | woken part => exact part.wake_alarms ..
  | fresh slot part =>
    simp only [look]
    split
    · rfl
    · exact ActivePart.attempt_alarms ..

theorem weight_of_look {policy : PartPolicy} {upload : String} {part : ReadyPart} {l : Link σ}
    {time : Nat} {next : ActivePart} (h : (part.look policy upload l).2 = .waits time next) :
    next.weight < part.weight policy := by
  cases part with
  | woken part => have := part.weight_of_wake h; simp only [weight]; omega
  | fresh slot part =>
    simp only [look] at h
    split at h
    · cases h
    · have := ActivePart.weight_of_attempt h
      simp only [ActivePart.first] at this
      simp only [weight]; omega

end ReadyPart

structure PartRun where
  policy : PartPolicy
  upload : String
  /-- The signal that ends the run. -/
  cancel : Option Signal := none
  /-- Not started, in the order of their numbers. -/
  queue : List (Nat × PartRequest)
  /-- To be looked at now, in turn. -/
  ready : List ReadyPart := []
  /-- Waiting until a time, in the order in which they began to wait. -/
  asleep : List (Nat × ActivePart) := []
  /-- By the places of the parts in the order given. -/
  statuses : List PartStatus
  /-- In the order in which the parts were done. -/
  receipts : List Receipt := []

namespace PartRun

/-- How a run ends: with the receipts by part number, or with the failure that ended it. -/
abbrev Outcome := Except PartRunError (List Receipt)

/-- What a step of a run comes to. -/
inductive Step where
  | moved
  /-- No part has a turn before the clock runs to `due`. -/
  | idle (due : Nat)
  | ended (outcome : Outcome)

/-- The run of the given parts, before it starts. Parts of one number keep the order given. -/
def start (policy : PartPolicy) (upload : String) (cancel : Option Signal)
    (parts : List PartRequest) : PartRun :=
  { policy, upload, cancel
    queue := (parts.zipIdx.map fun p => (p.2, p.1)).mergeSort fun a b =>
      a.2.number ≤ b.2.number
    statuses := parts.map fun _ => .pending }

/-- How many parts may be under way at once. -/
def limit (r : PartRun) : Nat := max 1 r.policy.concurrency

/-- The places that are free. -/
def free (r : PartRun) : Nat := r.limit - (r.ready.length + r.asleep.length)

/-- Gives the free places to parts of the queue. -/
def fill (r : PartRun) : PartRun :=
  { r with
    ready := r.ready ++ (r.queue.take r.free).map fun p => .fresh p.1 p.2
    queue := r.queue.drop r.free }

/-- Records where a part is. -/
def mark (r : PartRun) (slot : Nat) (status : PartStatus) : PartRun :=
  { r with statuses := r.statuses.set slot status }

/-- The receipts by part number. -/
def sorted (r : PartRun) : List Receipt :=
  r.receipts.mergeSort fun a b => a.number ≤ b.number

variable {σ : Type}

/-- Whether the signal that ends the run was raised. -/
def isCancelled (r : PartRun) (l : Link σ) : Bool :=
  match r.cancel with
  | some s => l.isRaised s
  | none => false

/-- The turn of the first part that has one, `rest` being the others. -/
def turn [Endpoint σ] (r : PartRun) (l : Link σ) (part : ReadyPart) (rest : List ReadyPart) :
    Link σ × PartRun × Step :=
  let r := { r.mark part.slot .inFlight with ready := rest }
  match part.look r.policy r.upload l with
  | (l, .waits time next) => (l, { r with asleep := r.asleep ++ [(time, next)] }, .moved)
  | (l, .done tag) =>
    (l, { r.mark part.slot .done with receipts := r.receipts ++ [⟨part.number, tag⟩] }, .moved)
  | (l, .failed e) => (l, r.mark part.slot .failed, .ended (.error e))

/-- When the first waiting part is due. -/
def due? (r : PartRun) : Option Nat := (r.asleep.map (·.1)).min?

/-- One step of a run. The signal is looked at before any part is. -/
def step [Endpoint σ] (r : PartRun) (l : Link σ) : Link σ × PartRun × Step :=
  if r.isCancelled l then (l, r, .ended (.error .cancelled))
  else
    let r := r.fill
    match r.ready, r.due? with
    | part :: rest, _ => r.turn l part rest
    | [], none => (l, r, .ended (.ok r.sorted))
    | [], some due => (l, r, .idle due)

/-- Wakes every part that is due at or before `time`. -/
def rouse (r : PartRun) (time : Nat) : PartRun :=
  { r with
    ready := r.ready ++ (r.asleep.filter (·.1 ≤ time)).map fun p => .woken p.2
    asleep := r.asleep.filter (time < ·.1) }

/-- Lets the clock run until a part is due, or until a signal is raised before that. -/
def await (r : PartRun) (l : Link σ) (due : Nat) : Link σ × PartRun :=
  match l.nextAlarm? with
  | some alarm =>
    if alarm < due then ((l.passTo alarm).ring alarm, r) else (l.passTo due, r.rouse due)
  | none => (l.passTo due, r.rouse due)

/-- A bound on the turns that are left. -/
def weight (r : PartRun) : Nat :=
  r.queue.length * (4 * r.policy.retry.limit + 6) + total (·.weight r.policy) r.ready +
    total (·.2.weight) r.asleep

theorem weight_fill (r : PartRun) : r.fill.weight ≤ r.weight := by
  have h : total (·.weight r.policy) ((r.queue.take r.free).map fun p => ReadyPart.fresh p.1 p.2) ≤
      (r.queue.take r.free).length * (4 * r.policy.retry.limit + 6) := by
    generalize r.queue.take r.free = parts
    induction parts with
    | nil => simp
    | cons p rest ih =>
      simp only [List.map_cons, total_cons, List.length_cons, ReadyPart.weight, Nat.add_mul]
      simp only [ReadyPart.weight] at ih
      omega
  have hlen : r.queue.length = (r.queue.take r.free).length + (r.queue.drop r.free).length := by
    rw [← List.length_append, List.take_append_drop]
  simp only [weight, fill, total_append]
  rw [hlen, Nat.add_mul]
  omega

theorem turn_alarms [Endpoint σ] (r : PartRun) (l : Link σ) (part : ReadyPart)
    (rest : List ReadyPart) : (r.turn l part rest).1.alarms = l.alarms := by
  have h := part.look_alarms r.policy r.upload l
  simp only [turn, mark]
  split <;> · next heq => rw [heq] at h; exact h

theorem weight_turn [Endpoint σ] {r : PartRun} {l : Link σ} {part : ReadyPart}
    {rest : List ReadyPart} (h : r.ready = part :: rest) :
    (r.turn l part rest).2.1.weight < r.weight := by
  have hpos := part.weight_pos r.policy
  simp only [turn, mark]
  split
  · next heq =>
    have := ReadyPart.weight_of_look (congrArg Prod.snd heq)
    simp only [weight, h, total_append, total_cons, total_nil]
    omega
  all_goals
    simp only [weight, h, total_cons]
    omega

theorem step_alarms [Endpoint σ] (r : PartRun) (l : Link σ) :
    (r.step l).1.alarms = l.alarms := by
  simp only [step]
  split
  · rfl
  · split
    · exact turn_alarms ..
    · rfl
    · rfl

theorem weight_step [Endpoint σ] {r : PartRun} {l : Link σ} (h : (r.step l).2.2 = .moved) :
    (r.step l).2.1.weight < r.weight := by
  simp only [step] at h ⊢
  split
  · next hc => simp [hc] at h
  · next hc =>
    split
    · next heq => exact Nat.lt_of_lt_of_le (weight_turn heq) r.weight_fill
    · next h₁ h₂ => simp [hc, h₁, h₂] at h
    · next h₁ h₂ => simp [hc, h₁, h₂] at h

theorem weight_step_idle [Endpoint σ] {r : PartRun} {l : Link σ} {due : Nat}
    (h : (r.step l).2.2 = .idle due) :
    (r.step l).2.1.weight ≤ r.weight ∧ (r.step l).2.1.due? = some due := by
  simp only [step] at h ⊢
  split
  · next hc => simp [hc] at h
  · next hc =>
    split
    · next heq =>
      simp only [hc, Bool.false_eq_true, if_false, heq, turn] at h
      split at h <;> cases h
    · next h₁ h₂ => simp [hc, h₁, h₂] at h
    · next h₁ h₂ =>
      simp only [hc, Bool.false_eq_true, if_false, h₁, h₂, Step.idle.injEq] at h
      exact ⟨r.weight_fill, h ▸ h₂⟩

theorem weight_rouse_le (time : Nat) (policy : PartPolicy) (asleep : List (Nat × ActivePart)) :
    total (·.weight policy) ((asleep.filter (·.1 ≤ time)).map fun p => ReadyPart.woken p.2) +
        total (·.2.weight) (asleep.filter (time < ·.1)) + (asleep.filter (·.1 ≤ time)).length ≤
      total (·.2.weight) asleep := by
  induction asleep with
  | nil => simp
  | cons p rest ih =>
    have hpos := ReadyPart.weight_pos policy (.woken p.2)
    simp only [ReadyPart.weight] at hpos ih ⊢
    by_cases hp : p.1 ≤ time
    · have hlt : ¬time < p.1 := by omega
      simp only [List.filter_cons, hp, hlt, decide_true, decide_false, if_true, Bool.false_eq_true,
        if_false, List.map_cons, total_cons, List.length_cons]
      omega
    · have hlt : time < p.1 := by omega
      simp only [List.filter_cons, hp, hlt, decide_true, decide_false, if_true, Bool.false_eq_true,
        if_false, total_cons]
      omega

theorem weight_rouse {r : PartRun} {time : Nat} (h : r.due? = some time) :
    (r.rouse time).weight < r.weight := by
  obtain ⟨p, hp, htime⟩ := List.mem_map.1 (List.min?_mem h)
  have hlen : 0 < (r.asleep.filter (·.1 ≤ time)).length :=
    List.length_pos_of_mem (List.mem_filter.2 ⟨hp, by simp [htime]⟩)
  have := weight_rouse_le time r.policy r.asleep
  simp only [weight, rouse, total_append]
  omega

theorem weight_await {r : PartRun} {l : Link σ} {due : Nat} (h : r.due? = some due) :
    (r.await l due).2.weight + (r.await l due).1.alarms.length < r.weight + l.alarms.length := by
  have hrouse := weight_rouse h
  have hpass := l.length_alarms_passTo due
  simp only [await]
  split
  · next alarm halarm =>
    split
    · have := Link.length_alarms_ring_next halarm
      simp only; omega
    · simp only; omega
  · simp only; omega

theorem measure_moved [Endpoint σ] {r r' : PartRun} {l l' : Link σ}
    (h : r.step l = (l', r', .moved)) :
    r'.weight + l'.alarms.length < r.weight + l.alarms.length := by
  have ha := r.step_alarms l
  have hw := weight_step (r := r) (l := l) (by rw [h])
  rw [h] at ha hw
  simp only at ha hw
  rw [ha]; omega

theorem measure_idle [Endpoint σ] {r r' : PartRun} {l l' : Link σ} {due : Nat}
    (h : r.step l = (l', r', .idle due)) :
    (r'.await l' due).2.weight + (r'.await l' due).1.alarms.length <
      r.weight + l.alarms.length := by
  have ha := r.step_alarms l
  have hw := weight_step_idle (r := r) (l := l) (by rw [h])
  rw [h] at ha hw
  simp only at ha hw
  have := weight_await (l := l') hw.2
  rw [ha] at this; omega

/-- Runs to the end: the final state of the run, and how it ended. -/
def run [Endpoint σ] (r : PartRun) (l : Link σ) : Link σ × PartRun × Outcome :=
  match _hstep : r.step l with
  | (l', r', .ended outcome) => (l', r', outcome)
  | (l', r', .moved) => run r' l'
  | (l', r', .idle due) => run (r'.await l' due).2 (r'.await l' due).1
termination_by r.weight + l.alarms.length
decreasing_by
  · exact measure_moved _hstep
  · exact measure_idle _hstep

/-- Takes all turns there are at this instant: the run when no part has a turn before the clock
runs, or its end. -/
def settle [Endpoint σ] (r : PartRun) (l : Link σ) : Link σ × PartRun × (Nat ⊕ Outcome) :=
  match _hstep : r.step l with
  | (l', r', .ended outcome) => (l', r', .inr outcome)
  | (l', r', .moved) => settle r' l'
  | (l', r', .idle due) => (l', r', .inl due)
termination_by r.weight
decreasing_by
  have hw := weight_step (r := r) (l := l) (by rw [_hstep])
  rw [_hstep] at hw
  exact hw

end PartRun

end ObjectFlush
