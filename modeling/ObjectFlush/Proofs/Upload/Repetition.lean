import ObjectFlush.Proofs.Plan.Filling
import ObjectFlush.Proofs.Upload.Route
import ObjectFlush.Proofs.Upload.RunCalls

/-!
What is requested how often. Completions and puts are repeated by the policy, each part of a run is, and so all that
a write sends is, lane by lane (`RepeatPolicy.Governs`). `repetition_law` puts this together with the law itself.
-/

namespace ObjectFlush

/-- Of each lane of the log there are as many calls as the policy allows, and none after a success or a failure that
is for good. -/
def RepeatPolicy.Governs (p : RepeatPolicy) (log : List Call) : Prop :=
  ∀ lane, p.Allows ((log.filter (·.request.lane = lane)).map Call.failure?)

namespace RepeatPolicy

variable {p : RepeatPolicy} {log log' : List Call}

theorem governs_nil (p : RepeatPolicy) : p.Governs [] := fun _ => p.spent_nil.allows

/-- Calls of a single request need to keep to the policy only once. -/
theorem governs_of_request {r : Request} (hrequest : ∀ c ∈ log, c.request = r)
    (hallows : p.Allows (log.map Call.failure?)) : p.Governs log := by
  intro lane
  by_cases hlane : r.lane = lane
  · rw [List.filter_eq_self.2 fun c hc => decide_eq_true (hrequest c hc ▸ hlane)]
    exact hallows
  · rw [List.filter_eq_nil_iff.2 fun c hc heq => hlane (hrequest c hc ▸ of_decide_eq_true heq)]
    exact p.spent_nil.allows

theorem governs_singleton (p : RepeatPolicy) (c : Call) : p.Governs [c] :=
  governs_of_request (r := c.request) (fun _ hd => List.mem_singleton.1 hd ▸ rfl) (p.spent_nil.reached _).allows

theorem Governs.append (h : p.Governs log) (h' : p.Governs log')
    (hlanes : ∀ c ∈ log, ∀ c' ∈ log', c.request.lane ≠ c'.request.lane) : p.Governs (log ++ log') := by
  intro lane
  rw [List.filter_append]
  by_cases hlane : ∃ c ∈ log, c.request.lane = lane
  · obtain ⟨c, hc, rfl⟩ := hlane
    rw [List.filter_eq_nil_iff.2 fun c' hc' heq => hlanes c hc c' hc' (of_decide_eq_true heq).symm, List.append_nil]
    exact h _
  · rw [List.filter_eq_nil_iff.2 fun c hc heq => hlane ⟨c, hc, of_decide_eq_true heq⟩, List.nil_append]
    exact h' lane

end RepeatPolicy

/-- When calls of the lane are made in a write: the steps of an upload one after another, or else a put. -/
def Request.Lane.step : Request.Lane → Nat
  | .initiate => 0
  | .part _ => 1
  | .complete => 2
  | .abort => 3
  | .put => 4

namespace Link

variable {σ : Type} {p : RepeatPolicy} {first middle last : Nat} {l l' l'' : Link σ}

/-- The calls from `l` to `l'` keep to the policy, and belong to the steps from `first` to before `last`. -/
def Obeys (p : RepeatPolicy) (first last : Nat) (l l' : Link σ) : Prop :=
  ∃ log, l'.calls = l.calls ++ log ∧ p.Governs log ∧
    ∀ c ∈ log, first ≤ c.request.lane.step ∧ c.request.lane.step < last

namespace Obeys

theorem refl (p : RepeatPolicy) (first last : Nat) (l : Link σ) : l.Obeys p first last l :=
  ⟨[], (List.append_nil _).symm, p.governs_nil, List.forall_mem_nil _⟩

theorem mono (h : l.Obeys p first last l') {first' last' : Nat} (hfirst : first' ≤ first) (hlast : last ≤ last') :
    l.Obeys p first' last' l' := by
  obtain ⟨log, hlog, hgoverns, hsteps⟩ := h
  refine ⟨log, hlog, hgoverns, fun c hc => ?_⟩
  have := hsteps c hc
  omega

theorem trans (h : l.Obeys p first middle l') (h' : l'.Obeys p middle last l'') (hfirst : first ≤ middle)
    (hlast : middle ≤ last) : l.Obeys p first last l'' := by
  obtain ⟨log, hlog, hgoverns, hsteps⟩ := h
  obtain ⟨log', hlog', hgoverns', hsteps'⟩ := h'
  refine ⟨log ++ log', by rw [hlog', hlog, List.append_assoc], hgoverns.append hgoverns' ?_, fun c hc => ?_⟩
  · intro c hc c' hc' heq
    have := hsteps c hc
    have := hsteps' c' hc'
    rw [heq] at *
    omega
  · rcases List.mem_append.1 hc with hc | hc
    · have := hsteps c hc
      omega
    · have := hsteps' c hc
      omega

end Obeys

end Link

/-! ## The parts of an upload -/

/-- If no two parts are of one number, the calls in the lane of a part are its calls. -/
theorem filter_lane_eq {upload : String} {parts : List PartRequest} {senders : List Nat} {log : List Call}
    (hnumbers : (parts.map (·.number)).Nodup)
    (hsends : List.Forall₂ (fun i (c : Call) => ∃ p, parts[i]? = some p ∧ p.Sends upload c.request) senders log)
    {i : Nat} {p : PartRequest} (hp : parts[i]? = some p) :
    log.filter (·.request.lane = .part p.number) = entriesOf senders log i := by
  have hzip : log = (senders.zip log).map (·.2) := (List.map_snd_zip (Nat.le_of_eq hsends.length_eq.symm)).symm
  rw [entriesOf]
  conv_lhs => rw [hzip, List.filter_map]
  refine congrArg _ (List.filter_congr fun x hx => decide_eq_decide.2 ?_)
  obtain ⟨q, hq, payload, -, hrequest⟩ := List.forall₂_zip hsends (show (x.1, x.2) ∈ _ from hx)
  rw [hrequest, Payload.lane_request]
  constructor
  · intro hlane
    have hsame : (parts.map (·.number))[x.1]? = (parts.map (·.number))[i]? := by
      rw [List.getElem?_map, List.getElem?_map, hq, hp]
      exact congrArg some (Request.Lane.part.inj hlane)
    exact (List.getElem?_inj (by simpa using (List.getElem?_eq_some_iff.1 hq).1) hnumbers).1 hsame
  · rintro rfl
    cases hp.symm.trans hq
    rfl

/-- In a run of parts that no two of one number are, the calls for each number keep to the policy. -/
theorem PartRun.obeys_run {σ : Type} [Endpoint σ] (policy : PartPolicy) (upload : String) (cancel : Option Signal)
    {parts : List PartRequest} (hnumbers : (parts.map (·.number)).Nodup) (l : Link σ) :
    l.Obeys policy.retry 1 2 ((PartRun.start policy upload cancel parts).run l).1 := by
  obtain ⟨log, hlog, hsends, hrepeats, -, -⟩ := part_run_repeats policy upload cancel parts l
  obtain ⟨_, hsame, hparts⟩ := sends_of_run policy upload cancel parts l
  obtain rfl := List.append_cancel_left (hlog.symm.trans hsame)
  have hlanes : ∀ c ∈ log, ∃ (i : Nat) (p : PartRequest), parts[i]? = some p ∧
      c.request.lane = .part p.number := by
    intro c hc
    obtain ⟨p, hp, payload, -, hrequest⟩ := hparts c hc
    obtain ⟨i, hi⟩ := List.mem_iff_getElem?.1 hp
    exact ⟨i, p, hi, hrequest ▸ payload.lane_request upload p.number⟩
  refine ⟨log, hlog, fun lane => ?_, fun c hc => ?_⟩
  · by_cases hlane : ∃ c ∈ log, c.request.lane = lane
    · obtain ⟨c, hc, rfl⟩ := hlane
      obtain ⟨i, p, hp, hcall⟩ := hlanes c hc
      obtain ⟨status, -, hrepeat⟩ := hrepeats i p hp
      rw [hcall, filter_lane_eq hnumbers hsends hp]
      exact hrepeat.allows
    · rw [List.filter_eq_nil_iff.2 fun c hc heq => hlane ⟨c, hc, of_decide_eq_true heq⟩]
      exact policy.retry.spent_nil.allows
  · obtain ⟨i, p, -, hlane⟩ := hlanes c hc
    rw [hlane]
    exact ⟨Nat.le_refl _, Nat.lt_succ_self _⟩

namespace Session

variable {σ : Type} [Endpoint σ]

/-- A completion is refused without a call, or is repeated by the policy of the session. -/
theorem complete_repeats (s : Session) (l : Link σ) :
    ∃ log, (s.complete.run l).1.calls = l.calls ++ log ∧
      ((s.complete.run l).2.2 = .error (.invalidTransition s.stage .completing) ∧ log = [] ∨
        ∃ name answer, (s.complete.run l).2.2 = answer.mapError .completeFailed ∧
          (∀ c ∈ log, c.request = .complete name s.receipts) ∧
          s.policy.retry.Settles (failureOf answer) (log.map Call.failure?)) := by
  rcases s.enter_cases .completing with ⟨-, henter⟩ | ⟨-, name, -, henter⟩
  · refine ⟨[], ?_, .inl ⟨?_, rfl⟩⟩
    · rw [complete, henter, List.append_nil]
      rfl
    · rw [complete, henter]
      rfl
  · obtain ⟨log, hlog, hrequests, hsettles, -⟩ :=
      Dialogue.settles_persist s.policy.retry (.complete name s.receipts) l
    rw [complete, henter]
    simp only [Dialogue.run_after]
    refine ⟨log, ?_, .inr ⟨name, _, ?_, hrequests, hsettles⟩⟩
    · rw [← hlog]
      cases ((Dialogue.persist s.policy.retry (.complete name s.receipts)).run l).2 <;> rfl
    · cases ((Dialogue.persist s.policy.retry (.complete name s.receipts)).run l).2 <;> rfl

theorem obeys_start (s : Session) (p : RepeatPolicy) (l : Link σ) : l.Obeys p 0 1 (s.start.run l).1 := by
  have hask : l.Obeys p 0 1 (l.ask (.initiate s.key)).1 := by
    obtain ⟨c, hc, hcalls⟩ := l.calls_ask (.initiate s.key)
    refine ⟨[c], hcalls, p.governs_singleton c, List.forall_mem_singleton.2 ?_⟩
    rw [hc.request_eq]
    exact ⟨Nat.le_refl _, Nat.lt_succ_self _⟩
  rcases s.start_cases l with ⟨-, hstart⟩ | ⟨-, ⟨e, -, hstart⟩ | ⟨name, -, hstart⟩⟩
  · rw [hstart]
    exact .refl ..
  · rw [hstart]
    exact hask
  · rw [hstart]
    exact hask

theorem policy_start (s : Session) (l : Link σ) : (s.start.run l).2.1.policy = s.policy := by
  rcases s.start_cases l with ⟨-, hstart⟩ | ⟨-, ⟨e, -, hstart⟩ | ⟨name, -, hstart⟩⟩ <;> rw [hstart]

theorem obeys_sendParts (s : Session) {jobs : List BoundPart}
    (hnumbers : ((jobs.map BoundPart.toRequest).map (·.number)).Nodup) (l : Link σ) :
    l.Obeys s.policy.retry 1 2 ((s.sendParts jobs).run l).1 := by
  rcases s.sendParts_cases jobs l with ⟨-, hsent⟩ | ⟨-, name, -, ⟨e, -, hsent⟩ | ⟨receipts, -, hsent⟩⟩
  · rw [hsent]
    exact .refl ..
  · rw [hsent]
    exact PartRun.obeys_run s.policy name s.cancel hnumbers l
  · rw [hsent]
    exact PartRun.obeys_run s.policy name s.cancel hnumbers l

theorem policy_sendParts (s : Session) (jobs : List BoundPart) (l : Link σ) :
    ((s.sendParts jobs).run l).2.1.policy = s.policy := by
  rcases s.sendParts_cases jobs l with ⟨-, hsent⟩ | ⟨-, name, -, ⟨e, -, hsent⟩ |
    ⟨receipts, -, hsent⟩⟩ <;> rw [hsent]

theorem obeys_complete (s : Session) (l : Link σ) : l.Obeys s.policy.retry 2 3 (s.complete.run l).1 := by
  obtain ⟨log, hlog, ⟨-, rfl⟩ | ⟨name, answer, -, hrequests, hsettles⟩⟩ := s.complete_repeats l
  · exact ⟨[], hlog, RepeatPolicy.governs_nil _, List.forall_mem_nil _⟩
  · refine ⟨log, hlog, RepeatPolicy.governs_of_request hrequests hsettles.allows, fun c hc => ?_⟩
    rw [hrequests c hc]
    exact ⟨Nat.le_refl _, Nat.lt_succ_self _⟩

theorem obeys_abort (s : Session) (p : RepeatPolicy) (l : Link σ) : l.Obeys p 3 4 (s.abort.run l).1 := by
  rcases s.abort_cases l with ⟨-, habort⟩ | ⟨-, name, -, c, answer, hcalls, hc, -⟩
  · rw [habort]
    exact .refl ..
  · refine ⟨[c], hcalls, p.governs_singleton c, List.forall_mem_singleton.2 ?_⟩
    rw [hc.request_eq]
    exact ⟨Nat.le_refl _, Nat.lt_succ_self _⟩

/-- A transaction goes through its steps one after another, and each keeps to the policy. -/
theorem obeys_execute (s : Session) {jobs : List BoundPart}
    (hnumbers : ((jobs.map BoundPart.toRequest).map (·.number)).Nodup) (l : Link σ) :
    l.Obeys s.policy.retry 0 4 ((s.execute jobs).run l).1 := by
  have hstart := s.obeys_start s.policy.retry l
  have hpolicy := s.policy_start l
  rw [execute_run]
  rcases hrun : s.start.run l with ⟨l₁, s₁, e | name⟩ <;> rw [hrun] at hstart hpolicy
  · exact hstart.mono (Nat.le_refl 0) (Nat.le_add_left 1 3)
  · dsimp only at hstart hpolicy ⊢
    have hsend := s₁.obeys_sendParts hnumbers l₁
    have hpolicy' := s₁.policy_sendParts jobs l₁
    rw [hpolicy] at hsend hpolicy'
    rcases hrun : (s₁.sendParts jobs).run l₁ with ⟨l₂, s₂, e | ⟨⟩⟩ <;> rw [hrun] at hsend hpolicy'
    · have hsent := (hstart.trans hsend (Nat.zero_le 1) (Nat.le_succ 1)).mono (Nat.le_refl 0) (Nat.le_succ 2)
      exact hsent.trans (s₂.obeys_abort _ l₂) (Nat.zero_le 3) (Nat.le_succ 3)
    · dsimp only at hsend hpolicy' ⊢
      have hcomplete := s₂.obeys_complete l₂
      rw [hpolicy'] at hcomplete
      have hsent := hstart.trans hsend (Nat.zero_le 1) (Nat.le_succ 1)
      rcases hrun : s₂.complete.run l₂ with ⟨l₃, s₃, e | written⟩ <;> rw [hrun] at hcomplete
      · have hdone := hsent.trans hcomplete (Nat.zero_le 2) (Nat.le_succ 2)
        exact hdone.trans (s₃.obeys_abort _ l₃) (Nat.zero_le 3) (Nat.le_succ 3)
      · exact (hsent.trans hcomplete (Nat.zero_le 2) (Nat.le_succ 2)).mono (Nat.le_refl 0) (Nat.le_succ 3)

end Session

namespace Flusher

variable {σ : Type} [Endpoint σ] (f : Flusher)

/-- A put is repeated by the policy of the settings. -/
theorem send_repeats (key : ObjectKey) (data : Bytes) (l : Link σ) :
    ∃ log answer, ((f.send key data).run l).1.calls = l.calls ++ log ∧
      ((f.send key data).run l).2 = answer.mapError .request ∧ (∀ c ∈ log, c.request = .put key data) ∧
      f.settings.repeatPolicy.Settles (failureOf answer) (log.map Call.failure?) := by
  obtain ⟨log, hlog, hrequests, hsettles, -⟩ :=
    Dialogue.settles_persist f.settings.repeatPolicy (.put key data) l
  rw [run_send]
  exact ⟨log, _, hlog, rfl, hrequests, hsettles⟩

/-- What the dialogue sends keeps to the policy of the settings, over whatever link. -/
def Disciplined (f : Flusher) {α : Type} (d : Dialogue α) : Prop :=
  ∀ l : Link σ, f.settings.repeatPolicy.Governs (d.sent l)

theorem disciplined_pure {α : Type} (a : α) : f.Disciplined (σ := σ) (pure a) := by
  intro l
  rw [Dialogue.sent_pure]
  exact RepeatPolicy.governs_nil _

theorem disciplined_send (key : ObjectKey) (data : Bytes) : f.Disciplined (σ := σ) (f.send key data) := by
  intro l
  obtain ⟨log, answer, hlog, -, hrequests, hsettles⟩ := f.send_repeats key data l
  rw [Dialogue.sent_eq hlog]
  exact RepeatPolicy.governs_of_request hrequests hsettles.allows

theorem disciplined_sendFile (key : ObjectKey) (source : LocalFile) (size : Nat) :
    f.Disciplined (σ := σ) (f.sendFile key source size) := by
  unfold sendFile
  split
  · exact f.disciplined_pure _
  · split
    · exact f.disciplined_send key _
    · exact f.disciplined_pure _

theorem disciplined_sendParts (key : ObjectKey) {size : Nat} {ranges : List DirtyRange} {b : PartBounds}
    {parts : List Portion} (hplan : plan size ranges b = .ok parts) (source : FreshContent) (cancel : Option Signal) :
    f.Disciplined (σ := σ) (f.sendParts key parts source cancel) := by
  intro l
  have hnumbers : (((bindPortions parts source key).map BoundPart.toRequest).map (·.number)).Nodup := by
    rw [numbers_bindPortions]
    exact ((cut_of_plan hplan).wellPlanned (numbers_of_plan hplan)).nodup_numbers
  obtain ⟨log, hlog, hgoverns, -⟩ := (f.session key cancel).obeys_execute hnumbers l
  rw [Dialogue.sent_eq (d := f.sendParts key parts source cancel) (by rw [run_sendParts]; exact hlog)]
  exact hgoverns

/-- Whichever way a file is written, each lane keeps to the policy. -/
theorem disciplined_flush (order : FlushOrder) : f.Disciplined (σ := σ) (f.flush order) := by
  rw [flush_eq]
  exact f.choose_of_ways (P := f.Disciplined) (f.disciplined_sendFile order.key order.source order.size)
    (fun _ hplan => f.disciplined_sendParts order.key hplan (.file order.source) order.cancel)
    fun _ => f.disciplined_pure _

theorem disciplined_flushBuffer (key : ObjectKey) (data : Bytes) :
    f.Disciplined (σ := σ) (f.flushBuffer key data) := by
  rw [flushBuffer_eq]
  exact f.choose_of_ways (P := f.Disciplined) (f.disciplined_send key data)
    (fun _ hplan => f.disciplined_sendParts key hplan (.buffer data) none) fun _ => f.disciplined_pure _

end Flusher

/-- **The law of repetition.** Attempts end with the first that does not fail in a way that may pass, or with the last
that the policy allows; its outcome is theirs, and there is a pause before each but the first. By this law each part of
a run is sent, whatever the numbers of the parts, where a call that takes longer than it may has timed out; and so are
a completion and a put. In all that a write sends, no lane has more calls than that, nor any after a success or a
failure that is for good. -/
theorem repetition_law {σ : Type} [Endpoint σ] :
    (∀ (α : Type) (p : RepeatPolicy) (outcome : Nat → Except RequestError α),
      ∃ n ≤ p.limit, (∀ i < n, MayPass (failureOf (outcome i))) ∧
        (MayPass (failureOf (outcome n)) → n = p.limit) ∧ (p.trace outcome).1 = outcome n ∧
        (p.trace outcome).2.attempts = n + 1 ∧ (p.trace outcome).2.pauses.length = n) ∧
    (∀ (policy : PartPolicy) (upload : String) (cancel : Option Signal) (parts : List PartRequest) (l : Link σ),
      let r := PartRun.start policy upload cancel parts
      ∃ log, (r.run l).1.calls = l.calls ++ log ∧ PartRun.Repeats policy upload parts l.calls.length
        (callers (r.history l)) log (r.run l).1 (r.run l).2.1) ∧
    (∀ (s : Session) (l : Link σ), ∃ log, (s.complete.run l).1.calls = l.calls ++ log ∧
      ((s.complete.run l).2.2 = .error (.invalidTransition s.stage .completing) ∧ log = [] ∨
        ∃ name answer, (s.complete.run l).2.2 = answer.mapError .completeFailed ∧
          (∀ c ∈ log, c.request = .complete name s.receipts) ∧
          s.policy.retry.Settles (failureOf answer) (log.map Call.failure?))) ∧
    (∀ (f : Flusher) (key : ObjectKey) (data : Bytes) (l : Link σ), ∃ log answer,
      ((f.send key data).run l).1.calls = l.calls ++ log ∧
        ((f.send key data).run l).2 = answer.mapError .request ∧ (∀ c ∈ log, c.request = .put key data) ∧
        f.settings.repeatPolicy.Settles (failureOf answer) (log.map Call.failure?)) ∧
    ∀ (f : Flusher) (l : Link σ),
      (∀ order, f.settings.repeatPolicy.Governs ((f.flush order).sent l)) ∧
        ∀ key data, f.settings.repeatPolicy.Governs ((f.flushBuffer key data).sent l) :=
  ⟨fun _ p outcome => p.trace_spec outcome, part_run_repeats, Session.complete_repeats, Flusher.send_repeats,
    fun f l => ⟨fun order => f.disciplined_flush order l, fun key data => f.disciplined_flushBuffer key data l⟩⟩

/-- Two parts of one number. The first call for one of them takes too long and is repeated, once the other part is
done. Where no repetition is allowed, a single attempt is made. -/
theorem late_part_repeated :
    let retry : RepeatPolicy := { limit := 1, pause := 10, longestPause := 10 }
    let policy : PartPolicy := { concurrency := 2, retry, timeout := 5 }
    let slow : Conditions := { reaction := fun _ n => { delay := if n = 0 then 9 else 2 } }
    let link : Link DryRun := { endpoint := {}, conditions := slow }
    let r := PartRun.start policy "u" none [⟨1, .ok (.bytes [7])⟩, ⟨1, .ok (.bytes [8])⟩]
    let once : RepeatPolicy := { retry with limit := 0 }
    (once.trace fun _ => (.error .timeout : Except RequestError Unit)).2.attempts = 1 ∧
      callers (r.history link) = [0, 1, 0] ∧ (r.run link).1.calls.map Call.failure? = [some .timeout, none, none] ∧
      retry.Settles none ((entriesOf [0, 1, 0] (r.run link).1.calls 0).map Call.failure?) := by
  intro retry policy slow link r once
  obtain ⟨htrace, hruns, -⟩ := repetition_law (σ := DryRun)
  obtain ⟨n, hn, -, -, -, hattempts, -⟩ := htrace Unit once fun _ => .error .timeout
  obtain rfl := Nat.le_zero.1 hn
  have hcallers : callers (r.history link) = [0, 1, 0] := by
    unfold r link slow policy retry
    cbv
  have hfailures : (r.run link).1.calls.map Call.failure? = [some .timeout, none, none] := by
    unfold r link slow policy retry
    cbv
  have hdone : (r.run link).2.1.statuses[0]? = some .done := by
    unfold r link slow policy retry
    cbv
  obtain ⟨log, hlog, hrepeats⟩ := hruns policy "u" none [⟨1, .ok (.bytes [7])⟩, ⟨1, .ok (.bytes [8])⟩] link
  obtain ⟨status, hstatus, hpart⟩ := hrepeats.parts 0 _ rfl
  cases hdone.symm.trans hstatus
  obtain rfl : (r.run link).1.calls = log := hlog
  refine ⟨hattempts, hcallers, hfailures, ?_⟩
  rw [← hcallers]
  exact hpart.done rfl

end ObjectFlush
