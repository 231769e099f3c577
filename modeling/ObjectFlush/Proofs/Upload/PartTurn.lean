import ObjectFlush.Proofs.Upload.Attempts
import ObjectFlush.Upload.PartRun

/-!
One part over its turns, told by its attempts. While it is under way, all its attempts failed in ways that
may pass, but for the one that it waits for (`ActivePart.Underway`). A turn makes calls of its own request
only, and leaves the part under way or its last attempt deciding what it comes to
(`ReadyPart.look_spec`): the part is done by a success within the time limit, and fails by a failure that
is for good or that was one too many.
-/

namespace ObjectFlush

/-- All attempts so far failed in ways that may pass, and `left` repetitions are left. -/
structure RepeatPolicy.Tried (p : RepeatPolicy) (left : Nat) (failed : List Attempt) : Prop where
  count : failed.length + left = p.limit
  passing : ∀ a ∈ failed, ∃ e, a.outcome = .error e ∧ e.retryable = true

theorem RepeatPolicy.Tried.next {p : RepeatPolicy} {left : Nat} {failed : List Attempt}
    (h : p.Tried (left + 1) failed) {last : Attempt} {e : RequestError}
    (hlast : last.outcome = .error e) (he : e.retryable = true) : p.Tried left (failed ++ [last]) := by
  refine ⟨?_, ?_⟩
  · have := h.count
    simp only [List.length_append, List.length_singleton]; omega
  · intro a ha
    rcases List.mem_append.1 ha with ha | ha
    · exact h.passing a ha
    · rw [List.mem_singleton.1 ha]
      exact ⟨e, hlast, he⟩

/-- The attempt came to `answer`; if that is a tag, it was given within `timeout`. -/
structure Attempt.CameTo (timeout : Nat) (answer : Except RequestError String) (a : Attempt) :
    Prop where
  outcome : a.outcome = answer
  inTime : ∀ tag, answer = .ok tag →
    ∃ time, a.finish = some (time, .ok tag) ∧ time ≤ a.started + timeout

theorem Attempt.cameTo_error {timeout : Nat} {e : RequestError} {a : Attempt}
    (h : a.outcome = .error e) : a.CameTo timeout (.error e) := ⟨h, fun _ h => by cases h⟩

namespace PartPolicy

variable {policy : PartPolicy}

/-- The last attempt decided: it came to `answer`, those before it failed in ways that may pass, and if
it failed in such a way too, no repetition was left. -/
def Concluded (policy : PartPolicy) (answer : Except RequestError String) (as : List Attempt) : Prop :=
  ∃ failed last left, as = failed ++ [last] ∧ policy.retry.Tried left failed ∧
    last.CameTo policy.timeout answer ∧ ∀ e, answer = .error e → e.retryable = true → left = 0

end PartPolicy

namespace ActivePart

variable {σ : Type} {policy : PartPolicy} {upload : String} {base : Nat}

/-- How a part under way stands. -/
def Underway (policy : PartPolicy) (upload : String) (base : Nat) (l : Link σ) (part : ActivePart) :
    Prop :=
  match part.stage with
  | .pausing => policy.retry.Tried part.left (attempts (l.since base) part.number)
  | .calling ticket late =>
    l.Open base (part.request upload) ticket ∧ late = decide (policy.timeout < ticket.reaction.delay) ∧
      ∃ failed, attempts (l.since base) part.number =
          failed ++ [⟨upload, part.payload, ticket.started, none⟩] ∧
        policy.retry.Tried part.left failed

/-- A part that waits for an answer is due at `time`, by its answer or by the time limit. -/
def DueAt (policy : PartPolicy) (time : Nat) (part : ActivePart) : Prop :=
  ∀ ticket late, part.stage = .calling ticket late →
    time = ticket.started + min ticket.reaction.delay policy.timeout

/-- Two stages of one part. -/
def Same (part next : ActivePart) : Prop :=
  next.slot = part.slot ∧ next.number = part.number ∧ next.payload = part.payload

/-- What a turn of a part may come to. -/
def TurnsTo (policy : PartPolicy) (upload : String) (base : Nat) (l : Link σ) (part : ActivePart)
    (out : Link σ × Turn) : Prop :=
  l.Makes base (part.request upload) out.1 ∧
    match out.2 with
    | .waits time next =>
      part.Same next ∧ out.1.now ≤ time ∧ next.DueAt policy time ∧
        next.Underway policy upload base out.1
    | .done tag => policy.Concluded (.ok tag) (attempts (out.1.since base) part.number)
    | .failed e => ∃ cause, e = .partFailed part.number cause ∧
        policy.Concluded (.error cause) (attempts (out.1.since base) part.number)

/-- Calls in other lanes do not change how a part stands. -/
theorem Underway.frame {part : ActivePart} {l l' : Link σ} {r : Request}
    (h : part.Underway policy upload base l) (hmakes : l.Makes base r l')
    (hlane : r.lane ≠ .part part.number) : part.Underway policy upload base l' := by
  have hothers := hmakes.others part.number hlane
  unfold Underway at *
  split at h
  · rw [hothers]
    exact h
  · obtain ⟨hopen, hlate, hattempts⟩ := h
    rw [hothers]
    refine ⟨hmakes.opened _ _ ?_ hopen, hlate, hattempts⟩
    rw [request, Payload.lane_request]
    exact hlane.symm

variable [Endpoint σ] {part : ActivePart} {l : Link σ}

variable (policy upload) in
/-- A call is one more attempt. Either its outcome is known at once, or the part waits for it. -/
theorem call_spec (hbase : base ≤ l.calls.length) {failed : List Attempt}
    (hattempts : attempts (l.since base) part.number = failed)
    (htried : policy.retry.Tried part.left failed) :
    l.Makes base (part.request upload) (part.call policy upload l).1 ∧
      match (part.call policy upload l).2 with
      | .inl answer => ∃ last,
          attempts ((part.call policy upload l).1.since base) part.number = failed ++ [last] ∧
            last.CameTo policy.timeout answer
      | .inr (time, next) =>
        part.Same next ∧ (part.call policy upload l).1.now ≤ time ∧ next.DueAt policy time ∧
          next.Underway policy upload base (part.call policy upload l).1 := by
  have hstart := l.makes_start (part.request upload) hbase
  have hopen := Link.open_start (part.request upload) hbase
  have hattempt : attempts ((l.start (part.request upload)).1.since base) part.number =
      failed ++ [⟨upload, part.payload, l.now, none⟩] := by
    rw [← hattempts]
    exact Link.attempts_start hbase
  simp only [call]
  split
  · -- The answer comes at once.
    refine ⟨hstart.trans (Link.makes_finish hopen), _, hopen.attempts_finish hattempt, rfl, ?_⟩
    intro tag htag
    exact ⟨_, congrArg (fun answer => some (_, answer)) htag, Nat.le_add_right ..⟩
  · split
    · -- The call is given up at once; in the log it has no end.
      exact ⟨hstart, _, hattempt, Attempt.cameTo_error rfl⟩
    · refine ⟨hstart, ⟨rfl, rfl, rfl⟩, Nat.le_add_right .., ?_, hopen, rfl, failed, hattempt, htried⟩
      intro ticket late hstage
      cases hstage
      rfl

variable (policy upload) in
theorem conclude_spec (left : Nat) :
    ∀ (part : ActivePart) (backoff : Nat) {l : Link σ} (answer : Except RequestError String)
      {failed : List Attempt} {last : Attempt}, base ≤ l.calls.length →
      attempts (l.since base) part.number = failed ++ [last] → last.CameTo policy.timeout answer →
      policy.retry.Tried left failed →
        part.TurnsTo policy upload base l (part.conclude policy upload left backoff l answer) := by
  -- The induction is on the repetitions left: only a failure that may pass leads on, and it costs one.
  induction left with
  | zero =>
    intro part backoff l answer failed last hbase hattempts hlast htried
    cases answer with
    | ok tag => exact ⟨.refl .., failed, last, 0, hattempts, htried, hlast, fun _ h => by cases h⟩
    | error e =>
      exact ⟨.refl .., e, rfl, failed, last, 0, hattempts, htried, hlast, fun _ _ _ => rfl⟩
  | succ left ih =>
    intro part backoff l answer failed last hbase hattempts hlast htried
    cases answer with
    | ok tag =>
      exact ⟨.refl .., failed, last, left + 1, hattempts, htried, hlast, fun _ h => by cases h⟩
    | error e =>
      simp only [conclude]
      split
      · next he =>
        have hpause := l.makes_drawPause base (part.request upload) backoff
        have htried' := htried.next hlast.outcome he
        split
        · -- The pause takes no time: the part calls again within the same turn.
          let again : ActivePart := { part with left, backoff := policy.retry.next backoff }
          have hcall := again.call_spec policy upload (l := (l.drawPause backoff).1) hbase
            hattempts htried'
          split
          · next l' answer hc =>
            rw [hc] at hcall
            obtain ⟨hmakes, next, hnext, hcame⟩ := hcall
            have hrest := ih again (policy.retry.next backoff) answer
              (Nat.le_trans hbase hmakes.length_le) hnext hcame htried'
            exact ⟨(hpause.trans hmakes).trans hrest.1, hrest.2⟩
          · next l' time next hc =>
            rw [hc] at hcall
            obtain ⟨hmakes, hsame, hwaits⟩ := hcall
            exact ⟨hpause.trans hmakes, hsame, hwaits⟩
        · refine ⟨hpause, ⟨rfl, rfl, rfl⟩, Nat.le_add_right .., ?_, ?_⟩
          · intro ticket late hstage
            cases hstage
          · show policy.retry.Tried left (attempts (l.since base) part.number)
            rw [hattempts]
            exact htried'
      · next he =>
        refine ⟨.refl .., e, rfl, failed, last, left + 1, hattempts, htried, hlast, ?_⟩
        intro e' heq hretry
        cases heq
        exact absurd hretry he

theorem attempt_spec (hbase : base ≤ l.calls.length)
    (htried : policy.retry.Tried part.left (attempts (l.since base) part.number)) :
    part.TurnsTo policy upload base l (part.attempt policy upload l) := by
  have hcall := part.call_spec policy upload hbase rfl htried
  simp only [attempt]
  split
  · next l' answer hc =>
    rw [hc] at hcall
    obtain ⟨hmakes, last, hattempts, hcame⟩ := hcall
    have hrest := conclude_spec policy upload part.left part part.backoff answer
      (Nat.le_trans hbase hmakes.length_le) hattempts hcame htried
    exact ⟨hmakes.trans hrest.1, hrest.2⟩
  · next l' time next hc =>
    rw [hc] at hcall
    exact hcall

/-- The turn of a part under way, at the time at which it is due. -/
theorem wake_spec (hbase : base ≤ l.calls.length) (h : part.Underway policy upload base l)
    (hdue : part.DueAt policy l.now) :
    part.TurnsTo policy upload base l (part.wake policy upload l) := by
  unfold Underway at h
  simp only [wake]
  split
  · next hstage =>
    rw [hstage] at h
    exact attempt_spec hbase h
  · next ticket late hstage =>
    rw [hstage] at h
    obtain ⟨hopen, hlate, failed, hattempts, htried⟩ := h
    split
    · exact conclude_spec _ _ _ _ _ _ hbase hattempts (Attempt.cameTo_error rfl) htried
    · next hnot =>
      -- The call is not late, so its answer is there within the time limit.
      have htime := hdue ticket late hstage
      have hle : ticket.reaction.delay ≤ policy.timeout := by
        rw [hlate, decide_eq_true_eq] at hnot
        exact Nat.le_of_not_lt hnot
      have hmakes := Link.makes_finish hopen
      have hrest := conclude_spec policy upload part.left part part.backoff
        ((l.finish (part.request upload) ticket).2.map (part.payload.tag upload part.number))
        (Nat.le_trans hbase hmakes.length_le) (hopen.attempts_finish hattempts)
        ⟨rfl, fun tag htag => ⟨l.now, congrArg (fun answer => some (l.now, answer)) htag, by
          show l.now ≤ ticket.started + policy.timeout
          omega⟩⟩ htried
      exact ⟨hmakes.trans hrest.1, hrest.2⟩

end ActivePart

/-- The request sends the part, under the name of its upload. -/
def PartRequest.Sends (part : PartRequest) (upload : String) (r : Request) : Prop :=
  ∃ payload, part.payload = .ok payload ∧ r = payload.request upload part.number

/-- The failure is that of the part: what its last attempt came to, or that it has nothing to send and
was never attempted. -/
def PartRequest.Fails (policy : PartPolicy) (part : PartRequest) (as : List Attempt)
    (e : PartRunError) : Prop :=
  (∃ cause, e = .partFailed part.number cause ∧ policy.Concluded (.error cause) as) ∨
    ∃ reason, part.payload = .error reason ∧ e = .unreadable part.number reason.message ∧ as = []

namespace ReadyPart

/-- The part as it was given to the run. -/
def part : ReadyPart → PartRequest
  | .fresh _ part => part
  | .woken part => ⟨part.number, .ok part.payload⟩

/-- Where the run has the part, until it is done or failed. -/
def status : ReadyPart → PartStatus
  | .fresh .. => .pending
  | .woken _ => .inFlight

variable {σ : Type} {policy : PartPolicy} {upload : String} {base : Nat}

/-- How the part stands: it was not attempted yet, or is under way. -/
def Stands (policy : PartPolicy) (upload : String) (base : Nat) (l : Link σ) :
    ReadyPart → Prop
  | .fresh _ part => attempts (l.since base) part.number = []
  | .woken part => part.Underway policy upload base l

/-- A part that waited is due now. -/
def Due (policy : PartPolicy) (now : Nat) : ReadyPart → Prop
  | .fresh .. => True
  | .woken part => part.DueAt policy now

theorem Stands.frame {part : ReadyPart} {l l' : Link σ} {r : Request}
    (h : part.Stands policy upload base l) (hmakes : l.Makes base r l')
    (hlane : r.lane ≠ .part part.number) : part.Stands policy upload base l' := by
  cases part with
  | fresh slot part => exact (hmakes.others part.number hlane).trans h
  | woken part => exact ActivePart.Underway.frame h hmakes hlane

/-- The part under way, if it has something to send. -/
def active (policy : PartPolicy) : ReadyPart → Except FileError ActivePart
  | .fresh slot part => part.payload.map (ActivePart.first policy slot part.number)
  | .woken part => .ok part

theorem active_eq_ok {part : ReadyPart} {active : ActivePart} {l : Link σ}
    (h : part.active policy = .ok active) (hstands : part.Stands policy upload base l)
    (hdue : part.Due policy l.now) :
    active.slot = part.slot ∧ (⟨active.number, .ok active.payload⟩ : PartRequest) = part.part ∧
      active.Underway policy upload base l ∧ active.DueAt policy l.now := by
  cases part with
  | woken part =>
    cases h
    exact ⟨rfl, rfl, hstands, hdue⟩
  | fresh slot part =>
    obtain ⟨number, payload⟩ := part
    cases payload with
    | error e => cases h
    | ok payload =>
      cases h
      refine ⟨rfl, rfl, ?_, fun _ _ h => by cases h⟩
      have hnone : attempts (l.since base) number = [] := hstands
      show policy.retry.Tried policy.retry.limit (attempts (l.since base) number)
      rw [hnone]
      exact ⟨Nat.zero_add _, fun _ h => by cases h⟩

theorem active_eq_error {part : ReadyPart} {e : FileError} {l : Link σ}
    (h : part.active policy = .error e) (hstands : part.Stands policy upload base l) :
    part.part.payload = .error e ∧ attempts (l.since base) part.number = [] := by
  cases part with
  | woken part => cases h
  | fresh slot part =>
    obtain ⟨number, payload⟩ := part
    cases payload with
    | error e' => cases h; exact ⟨rfl, hstands⟩
    | ok payload => cases h

@[simp] theorem number_part (part : ReadyPart) : part.part.number = part.number := by
  cases part <;> rfl

/-- All that a turn of the part does to the link: it makes requests for this part, and none that it does not send. -/
structure Asks (upload : String) (base : Nat) (part : ReadyPart) (l l' : Link σ) : Prop where
  makes : ∃ q, q.lane = .part part.number ∧ l.Makes base q l'
  sent : ∀ c ∈ l'.since base, part.part.Sends upload c.request ∨ ∃ c' ∈ l.since base, c'.request = c.request

theorem Asks.now {part : ReadyPart} {l l' : Link σ} (h : part.Asks upload base l l') : l'.now = l.now := by
  obtain ⟨q, -, hmakes⟩ := h.makes
  exact hmakes.now

variable [Endpoint σ]

/-- The first turn of a part is the turn of one that has paused. -/
theorem look_eq (policy : PartPolicy) (upload : String) (part : ReadyPart) (l : Link σ) :
    part.look policy upload l =
      match part.active policy with
      | .ok active => active.wake policy upload l
      | .error e => (l, .failed (.unreadable part.number e.message)) := by
  cases part with
  | woken part => rfl
  | fresh slot part =>
    obtain ⟨number, payload⟩ := part
    cases payload <;> rfl

/-- What a turn of a part comes to. -/
theorem look_spec {part : ReadyPart} {l : Link σ} (hbase : base ≤ l.calls.length)
    (hstands : part.Stands policy upload base l) (hdue : part.Due policy l.now) :
    part.Asks upload base l (part.look policy upload l).1 ∧
      match (part.look policy upload l).2 with
      | .waits time next =>
        (next.slot = part.slot ∧ (⟨next.number, .ok next.payload⟩ : PartRequest) = part.part) ∧
          (part.look policy upload l).1.now ≤ time ∧ next.DueAt policy time ∧
          next.Underway policy upload base (part.look policy upload l).1
      | .done tag => policy.Concluded (.ok tag)
          (attempts ((part.look policy upload l).1.since base) part.number)
      | .failed e => part.part.Fails policy
          (attempts ((part.look policy upload l).1.since base) part.number) e := by
  rw [look_eq]
  cases hactive : part.active policy with
  | error e =>
    obtain ⟨hpayload, hnone⟩ := active_eq_error hactive hstands
    refine ⟨⟨⟨.uploadPart upload part.number [], rfl, .refl ..⟩, fun c hc => .inr ⟨c, hc, rfl⟩⟩, ?_⟩
    exact .inr ⟨e, hpayload, by rw [number_part], hnone⟩
  | ok active =>
    obtain ⟨hslot, hpart, hunderway, hdue'⟩ := active_eq_ok hactive hstands hdue
    have hnumber : active.number = part.number := by
      rw [← number_part, ← hpart]
    obtain ⟨hmakes, hturn⟩ := active.wake_spec hbase hunderway hdue'
    refine ⟨⟨⟨_, ?_, hmakes⟩, ?_⟩, ?_⟩
    · rw [ActivePart.request, Payload.lane_request, hnumber]
    · intro c hc
      rcases hmakes.request_of_mem hbase hc with hr | hold
      · refine .inl ⟨active.payload, ?_, ?_⟩
        · rw [← hpart]
        · rw [hr, number_part, ← hnumber]
          rfl
      · exact .inr hold
    · rw [hnumber] at hturn
      cases hout : (active.wake policy upload l).2 with
      | waits time next =>
        rw [hout] at hturn
        obtain ⟨⟨hs, hn, hp⟩, hwaits⟩ := hturn
        refine ⟨⟨hs.trans hslot, ?_⟩, hwaits⟩
        rw [← hpart, hn, hp]
      | done tag =>
        rw [hout] at hturn
        exact hturn
      | failed e =>
        rw [hout] at hturn
        obtain ⟨cause, rfl, hconcluded⟩ := hturn
        exact .inl ⟨cause, by rw [number_part], hconcluded⟩

end ReadyPart

end ObjectFlush
