import ObjectFlush.Proofs.Upload.Cancellation

/-!
A part run whose answers are settled in advance: what becomes of the `n`-th request for a part is told by a
script, whatever else is under way, and no request takes longer than it may (`Link.Scripted`). Then the
attempts at a part follow its script from the first on, in every schedule: at each step of a turn
(`ActivePart.call_plays` to `ReadyPart.look_plays`), so at each turn of a run and at its end
(`PartRun.Played.run`).
-/

namespace ObjectFlush

/-- What becomes of the requests for each part, first to last. -/
abbrev Script := Nat → Nat → Except RequestError String

/-- The attempts were answered, each as the script says. -/
def Follows (script : Nat → Except RequestError String) (as : List Attempt) : Prop :=
  ∀ (i : Nat) a, as[i]? = some a → ∃ time, a.finish = some (time, script i)

namespace Follows

variable {script : Nat → Except RequestError String} {as : List Attempt}

theorem nil : Follows script [] := fun i a h => by cases h

theorem concat (h : Follows script as) {a : Attempt} {time : Nat}
    (ha : a.finish = some (time, script as.length)) : Follows script (as ++ [a]) := by
  intro i b hb
  rcases Nat.lt_trichotomy i as.length with hlt | rfl | hgt
  · rw [List.getElem?_append_left hlt] at hb
    exact h i b hb
  · rw [List.getElem?_concat_length] at hb
    cases hb
    exact ⟨time, ha⟩
  · rw [List.getElem?_eq_none (by simp only [List.length_append, List.length_singleton]; omega)] at hb
    cases hb

theorem outcome (h : Follows script as) {i : Nat} {a : Attempt} (ha : as[i]? = some a) :
    a.outcome = script i := by
  obtain ⟨time, hfinish⟩ := h i a ha
  rw [Attempt.outcome, hfinish]

end Follows

namespace Link

variable {σ : Type} [Endpoint σ] {base timeout : Nat} {upload : String} {number : Nat} {payload : Payload}
  {script : Nat → Except RequestError String} {l l' : Link σ}

/-- What becomes of the requests for a part that are made after the first `base` calls: none takes longer
than `timeout`, and each is answered as the script says, whatever state the endpoint is in. -/
def Scripted (base timeout : Nat) (upload : String) (number : Nat) (payload : Payload)
    (script : Nat → Except RequestError String) (l : Link σ) : Prop :=
  ∀ (n : Nat) (endpoint : σ),
    let reaction := l.conditions.reaction (.part number)
      ((l.calls.take base).countP (·.request.lane = .part number) + n)
    reaction.delay ≤ timeout ∧
      (({ l with endpoint }).answer (payload.request upload number) reaction).2.map
        (payload.tag upload number) = script n

namespace Scripted

theorem congr (h : l.Scripted base timeout upload number payload script)
    (hconditions : l'.conditions = l.conditions) (hcalls : l'.calls.take base = l.calls.take base) :
    l'.Scripted base timeout upload number payload script := by
  intro n endpoint
  rw [hconditions, hcalls]
  exact h n endpoint

theorem makes (h : l.Scripted base timeout upload number payload script) {r : Request}
    (hmakes : l.Makes base r l') : l'.Scripted base timeout upload number payload script :=
  h.congr hmakes.conditions hmakes.earlier

end Scripted

end Link

/-- An attempt is a call in the lane of its part. -/
theorem length_attempts (log : List Call) (number : Nat) :
    (attempts log number).length = log.countP (·.request.lane = .part number) := by
  rw [attempts, List.length_filterMap_eq_countP]
  congr 1
  funext c
  obtain ⟨r, started, finish⟩ := c
  cases r with
  | uploadPart upload n data =>
    by_cases hn : n = number
    · simp [Call.attempt?, Request.lane, hn]
    · simp [Call.attempt?, Request.lane, hn]
  | copyPart upload n source =>
    by_cases hn : n = number
    · simp [Call.attempt?, Request.lane, hn]
    · simp [Call.attempt?, Request.lane, hn]
  | _ => rfl

/-- The calls in the lane of a part are those that were there before, and the attempts since. -/
theorem Link.callsIn_part {σ : Type} (l : Link σ) (base number : Nat) :
    l.callsIn (.part number) = (l.calls.take base).countP (·.request.lane = .part number) +
      (attempts (l.since base) number).length := by
  rw [length_attempts, callsIn, since, ← List.countP_append, List.take_append_drop]

namespace ActivePart

variable {σ : Type} {policy : PartPolicy} {upload : String} {base : Nat}
  {script : Nat → Except RequestError String}

/-- The attempts of a part under way follow the script, but for the one that it waits for; and that one will. -/
def Plays (script : Nat → Except RequestError String) (base : Nat) (l : Link σ) (part : ActivePart) : Prop :=
  match part.stage with
  | .pausing => Follows script (attempts (l.since base) part.number)
  | .calling ticket late =>
    late = false ∧ ∃ played last, attempts (l.since base) part.number = played ++ [last] ∧
      Follows script played ∧ ticket.reaction = l.conditions.reaction (.part part.number)
        ((l.calls.take base).countP (·.request.lane = .part part.number) + played.length)

/-- Calls in other lanes do not matter to it. -/
theorem Plays.frame {part : ActivePart} {l l' : Link σ} {r : Request} (h : part.Plays script base l)
    (hmakes : l.Makes base r l') (hlane : r.lane ≠ .part part.number) : part.Plays script base l' := by
  have hothers := hmakes.others part.number hlane
  unfold Plays at *
  split at h
  · rw [hothers]
    exact h
  · rw [hothers, hmakes.conditions, hmakes.earlier]
    exact h

end ActivePart

/-- A turn leaves the attempts of the part with that number as the script says. -/
def Turn.Plays {σ : Type} (script : Nat → Except RequestError String) (base number : Nat) (l : Link σ) :
    Turn → Prop
  | .waits _ next => next.Plays script base l
  | .done _ | .failed _ => Follows script (attempts (l.since base) number)

namespace ActivePart

variable {σ : Type} [Endpoint σ] {policy : PartPolicy} {upload : String} {base : Nat}
  {script : Nat → Except RequestError String} {part : ActivePart} {l : Link σ}

/-- A request that ends now is answered as the script says. -/
theorem answer_of_scripted {number : Nat} {payload : Payload}
    (hscripted : l.Scripted base policy.timeout upload number payload script) {ticket : Ticket} {n : Nat}
    (hreaction : ticket.reaction = l.conditions.reaction (.part number)
      ((l.calls.take base).countP (·.request.lane = .part number) + n)) :
    ticket.reaction.delay ≤ policy.timeout ∧
      (l.finish (payload.request upload number) ticket).2.map (payload.tag upload number) = script n := by
  have hanswer := hscripted n l.endpoint
  rw [← hreaction] at hanswer
  exact hanswer

/-- A call is answered as the script says, at once or in the end. -/
theorem call_plays (hbase : base ≤ l.calls.length)
    (hscripted : l.Scripted base policy.timeout upload part.number part.payload script)
    (hfollows : Follows script (attempts (l.since base) part.number)) :
    match (part.call policy upload l).2 with
    | .inl _ => Follows script (attempts ((part.call policy upload l).1.since base) part.number)
    | .inr (_, next) => next.Plays script base (part.call policy upload l).1 := by
  have hstart := l.makes_start (part.request upload) hbase
  have hopen := Link.open_start (part.request upload) hbase
  have hattempts : attempts ((l.start (part.request upload)).1.since base) part.number =
      attempts (l.since base) part.number ++ [⟨upload, part.payload, l.now, none⟩] :=
    Link.attempts_start hbase
  have hreaction : (l.start (part.request upload)).2.reaction =
      (l.start (part.request upload)).1.conditions.reaction (.part part.number)
        (((l.start (part.request upload)).1.calls.take base).countP
          (·.request.lane = .part part.number) + (attempts (l.since base) part.number).length) := by
    rw [hstart.conditions, hstart.earlier, ← l.callsIn_part]
    simp only [Link.start, request, Payload.lane_request]
  obtain ⟨hdelay, hanswer⟩ := answer_of_scripted (hscripted.makes hstart) hreaction
  by_cases hnow : (l.start (part.request upload)).2.reaction.delay = 0
  · simp only [call, if_pos hnow]
    show Follows script (attempts (((l.start (part.request upload)).1.finish
      (part.payload.request upload part.number) (l.start (part.request upload)).2).1.since base) part.number)
    rw [hopen.attempts_finish hattempts]
    exact hfollows.concat (congrArg (fun answer => some (l.now, answer)) hanswer)
  · have htimeout : policy.timeout ≠ 0 := by omega
    simp only [call, if_neg hnow, if_neg htimeout]
    exact ⟨decide_eq_false (Nat.not_lt.2 hdelay), _, _, hattempts, hfollows, hreaction⟩

theorem conclude_plays (left : Nat) :
    ∀ (part : ActivePart) (backoff : Nat) {l : Link σ} (answer : Except RequestError String)
      {failed : List Attempt} {last : Attempt}, base ≤ l.calls.length →
      attempts (l.since base) part.number = failed ++ [last] → last.CameTo policy.timeout answer →
      policy.retry.Tried left failed →
      l.Scripted base policy.timeout upload part.number part.payload script →
      Follows script (attempts (l.since base) part.number) →
        (part.conclude policy upload left backoff l answer).2.Plays script base part.number
          (part.conclude policy upload left backoff l answer).1 := by
  -- The induction is that of the turn itself: a failure that may pass leads on, at the cost of a repetition.
  induction left with
  | zero =>
    intro part backoff l answer failed last _ _ _ _ _ hfollows
    cases answer with
    | ok tag => exact hfollows
    | error e => exact hfollows
  | succ left ih =>
    intro part backoff l answer failed last hbase hattempts hlast htried hscripted hfollows
    cases answer with
    | ok tag => exact hfollows
    | error e =>
      simp only [conclude]
      split
      · next he =>
        have htried' : policy.retry.Tried left (attempts (l.since base) part.number) := by
          rw [hattempts]
          exact htried.next hlast.outcome he
        split
        · let again : ActivePart := { part with left, backoff := policy.retry.next backoff }
          have hpaused : (l.drawPause backoff).1.Scripted base policy.timeout upload part.number part.payload
              script := hscripted.congr rfl rfl
          have hcall := again.call_spec policy upload (l := (l.drawPause backoff).1) hbase rfl htried'
          have hplays := again.call_plays (l := (l.drawPause backoff).1) hbase hpaused hfollows
          split
          · next l' answer hc =>
            rw [hc] at hcall hplays
            obtain ⟨hmakes, next, hnext, hcame⟩ := hcall
            exact ih again (policy.retry.next backoff) answer (Nat.le_trans hbase hmakes.length_le) hnext hcame
              htried' (hpaused.makes hmakes) hplays
          · next l' time next hc =>
            rw [hc] at hplays
            exact hplays
        · exact hfollows
      · exact hfollows

theorem attempt_plays (hbase : base ≤ l.calls.length)
    (htried : policy.retry.Tried part.left (attempts (l.since base) part.number))
    (hscripted : l.Scripted base policy.timeout upload part.number part.payload script)
    (hfollows : Follows script (attempts (l.since base) part.number)) :
    (part.attempt policy upload l).2.Plays script base part.number (part.attempt policy upload l).1 := by
  have hcall := part.call_spec policy upload hbase rfl htried
  have hplays := part.call_plays hbase hscripted hfollows
  simp only [attempt]
  split
  · next l' answer hc =>
    rw [hc] at hcall hplays
    obtain ⟨hmakes, last, hattempts, hcame⟩ := hcall
    exact conclude_plays part.left part part.backoff answer (Nat.le_trans hbase hmakes.length_le) hattempts hcame
      htried (hscripted.makes hmakes) hplays
  · next l' time next hc =>
    rw [hc] at hplays
    exact hplays

/-- A part under way plays on at its turn. -/
theorem wake_plays (hbase : base ≤ l.calls.length) (hunderway : part.Underway policy upload base l)
    (hdue : part.DueAt policy l.now)
    (hscripted : l.Scripted base policy.timeout upload part.number part.payload script)
    (hplays : part.Plays script base l) :
    (part.wake policy upload l).2.Plays script base part.number (part.wake policy upload l).1 := by
  unfold Underway at hunderway
  unfold Plays at hplays
  simp only [wake]
  split
  · next hstage =>
    rw [hstage] at hunderway hplays
    exact attempt_plays hbase hunderway hscripted hplays
  · next ticket late hstage =>
    rw [hstage] at hunderway hplays
    obtain ⟨hopen, -, failed, hattempts, htried⟩ := hunderway
    obtain ⟨rfl, played, last, hattempts', hfollows, hreaction⟩ := hplays
    obtain ⟨rfl, -⟩ := List.append_inj' (hattempts.symm.trans hattempts') rfl
    obtain ⟨hdelay, hanswer⟩ := answer_of_scripted hscripted hreaction
    have hmakes := Link.makes_finish hopen
    have htime := hdue ticket false hstage
    have hfinished := hopen.attempts_finish hattempts
    rw [if_neg Bool.false_ne_true]
    refine conclude_plays part.left part part.backoff _ (Nat.le_trans hbase hmakes.length_le) hfinished
      ⟨rfl, fun tag htag => ⟨l.now, congrArg (fun answer => some (l.now, answer)) htag, ?_⟩⟩ htried
      (hscripted.makes hmakes) ?_
    · show l.now ≤ ticket.started + policy.timeout
      omega
    · show Follows script (attempts ((l.finish (part.payload.request upload part.number) ticket).1.since base)
        part.number)
      rw [hfinished]
      exact hfollows.concat (congrArg (fun answer => some (l.now, answer)) hanswer)

end ActivePart

namespace ReadyPart

variable {σ : Type} {policy : PartPolicy} {upload : String} {base : Nat} {script : Script}

/-- How far the part has played: not at all yet, or up to what it waits for. -/
def Plays (script : Script) (base : Nat) (l : Link σ) : ReadyPart → Prop
  | .fresh .. => True
  | .woken part => part.Plays (script part.number) base l

theorem Plays.frame {part : ReadyPart} {l l' : Link σ} {r : Request} (h : part.Plays script base l)
    (hmakes : l.Makes base r l') (hlane : r.lane ≠ .part part.number) : part.Plays script base l' := by
  cases part with
  | fresh slot part => trivial
  | woken part => exact ActivePart.Plays.frame h hmakes hlane

variable [Endpoint σ]

theorem look_plays {part : ReadyPart} {l : Link σ} (hbase : base ≤ l.calls.length)
    (hstands : part.Stands policy upload base l) (hdue : part.Due policy l.now)
    (hscripted : ∀ payload, part.part.payload = .ok payload →
      l.Scripted base policy.timeout upload part.number payload (script part.number))
    (hplays : part.Plays script base l) :
    (part.look policy upload l).2.Plays (script part.number) base part.number (part.look policy upload l).1 := by
  cases part with
  | woken part =>
    exact ActivePart.wake_plays hbase hstands hdue (hscripted _ rfl) hplays
  | fresh slot part =>
    have hnone : attempts (l.since base) part.number = [] := hstands
    have hfollows : Follows (script part.number) (attempts (l.since base) part.number) := by
      rw [hnone]
      exact .nil
    simp only [look]
    split
    · exact hfollows
    · next payload hpayload =>
      refine ActivePart.attempt_plays hbase ?_ (hscripted payload hpayload) hfollows
      show policy.retry.Tried policy.retry.limit (attempts (l.since base) part.number)
      rw [hnone]
      exact ⟨Nat.zero_add _, List.forall_mem_nil _⟩

end ReadyPart

namespace PartRun

variable {σ : Type} {policy : PartPolicy} {upload : String} {parts : List PartRequest} {script : Script}
  {base : Nat} {origin l l' : Link σ} {r r' : PartRun}

/-- The answers to all requests of a run are settled in advance, for each part that has something to send. -/
def Rehearsed [Endpoint σ] (script : Script) (policy : PartPolicy) (upload : String) (parts : List PartRequest)
    (base : Nat) (l : Link σ) : Prop :=
  ∀ p ∈ parts, ∀ payload, p.payload = .ok payload →
    l.Scripted base policy.timeout upload p.number payload (script p.number)

/-- Each part that the run holds has played so far, and each other one to its end. -/
structure Played (script : Script) (parts : List PartRequest) (base : Nat) (l : Link σ) (r : PartRun) :
    Prop where
  held : ∀ x ∈ r.held, x.Plays script base l
  ended : ∀ (i : Nat) p, parts[i]? = some p → i ∈ r.held.map (·.slot) ∨
    Follows (script p.number) (attempts (l.since base) p.number)

theorem Rehearsed.congr [Endpoint σ] (h : Rehearsed script policy upload parts base l)
    (hconditions : l'.conditions = l.conditions) (hcalls : l'.calls.take base = l.calls.take base) :
    Rehearsed script policy upload parts base l' :=
  fun p hp payload hpayload => (h p hp payload hpayload).congr hconditions hcalls

namespace Played

theorem start (script : Script) (policy : PartPolicy) (upload : String) (cancel : Option Signal)
    (parts : List PartRequest) (l : Link σ) :
    Played script parts l.calls.length l (.start policy upload cancel parts) := by
  have htracks := Tracks.start policy upload cancel parts l
  refine ⟨fun x hx => ?_, fun i p hp => ?_⟩
  · obtain ⟨q, -, rfl⟩ := List.mem_map.1 hx
    trivial
  · rcases htracks.ended i p hp with hin | ⟨hstatus, receipt, hreceipt, -⟩ | ⟨-, e, he, -⟩
    · exact .inl hin
    · cases hreceipt
    · cases he

/-- Only what the run holds matters. -/
theorem of_perm (h : Played script parts base l r) (hheld : r'.held.Perm r.held) :
    Played script parts base l r' := by
  refine ⟨fun x hx => h.held x (hheld.mem_iff.1 hx), fun i p hp => ?_⟩
  rw [(hheld.map _).mem_iff]
  exact h.ended i p hp

/-- The clock does not matter. -/
theorem pass (h : Played script parts base l r) (hcalls : l'.calls = l.calls)
    (hconditions : l'.conditions = l.conditions) : Played script parts base l' r := by
  have hsince : l'.since base = l.since base := by rw [Link.since, hcalls, Link.since]
  refine ⟨fun x hx => ?_, fun i p hp => ?_⟩
  · have hplays := h.held x hx
    cases x with
    | fresh slot part => trivial
    | woken part =>
      simp only [ReadyPart.Plays, ActivePart.Plays] at hplays ⊢
      rw [hsince, hconditions, hcalls]
      exact hplays
  · rw [hsince]
    exact h.ended i p hp

theorem await (h : Played script parts base l r) (htracks : Tracks policy upload parts origin none l r)
    {due : Nat} (hdue : r.due? = some due) :
    Played script parts base (r.await l due).1 (r.await l due).2 := by
  obtain ⟨hconditions, -, -, hrun⟩ := await_spec l hdue fun p hp => (htracks.later p hp).1
  have hpassed := h.pass (r.calls_await l due) hconditions
  rcases hrun with hrun | ⟨-, hrun⟩
  · rw [hrun]
    exact hpassed
  · rw [hrun]
    exact hpassed.of_perm (r.held_rouse due)

/-- A turn of `part` leaves it as `again`, or played to its end. -/
theorem after_turn (h : Played script parts origin.calls.length l r)
    (htracks : Tracks policy upload parts origin none l r) (hdistinct : (parts.map (·.number)).Nodup)
    {part : ReadyPart} {others : List ReadyPart} (hheld : r.held = part :: others)
    (hasks : part.Asks upload origin.calls.length l l') {again : Option ReadyPart}
    (hplace : InPlaceOf part others again r') (hagain : ∀ x ∈ again, x.Plays script origin.calls.length l')
    (hover : again = none →
      Follows (script part.number) (attempts (l'.since origin.calls.length) part.number)) :
    Played script parts origin.calls.length l' r' := by
  obtain ⟨⟨q, hlane, hmakes⟩, -⟩ := hasks
  have hmem : part ∈ r.held := by rw [hheld]; exact List.mem_cons_self ..
  have hslots := htracks.slots
  rw [hheld, List.map_cons, List.nodup_cons] at hslots
  have hlanes : ∀ (i : Nat) p, parts[i]? = some p → i ≠ part.slot → q.lane ≠ .part p.number := by
    intro i p hp hi heq
    rw [hlane] at heq
    exact htracks.number_ne hdistinct hmem hp hi (Request.Lane.part.inj heq).symm
  refine ⟨hplace.forall_held hagain fun x hx => ?_, fun i p hp => ?_⟩
  · have hin : x ∈ r.held := by rw [hheld]; exact List.mem_cons_of_mem _ hx
    have hne : x.slot ≠ part.slot := fun heq => hslots.1 (heq ▸ List.mem_map_of_mem hx)
    apply (h.held x hin).frame hmakes
    rw [← ReadyPart.number_part]
    exact hlanes x.slot x.part (htracks.part x hin) hne
  · rw [hplace.mem_slots_iff]
    by_cases hi : i = part.slot
    · cases again with
      | some x => exact .inl (.inl ⟨rfl, hi⟩)
      | none =>
        rw [hi, htracks.part part hmem] at hp
        cases hp
        rw [ReadyPart.number_part]
        exact .inr (hover rfl)
    · rcases h.ended i p hp with hin | hfollows
      · rw [hheld, List.map_cons] at hin
        exact .inl (.inr ((List.mem_cons.1 hin).resolve_left hi))
      · rw [hmakes.others p.number (hlanes i p hp hi)]
        exact .inr hfollows

variable [Endpoint σ]

theorem turn (h : Played script parts origin.calls.length l r)
    (htracks : Tracks policy upload parts origin none l r) (hdistinct : (parts.map (·.number)).Nodup)
    (hrehearsed : Rehearsed script policy upload parts origin.calls.length l) {part : ReadyPart}
    {rest : List ReadyPart} (hready : r.ready = part :: rest) :
    Played script parts origin.calls.length (r.turn l part rest).1 (r.turn l part rest).2.1 := by
  have hheld := held_eq_cons hready
  have hmem : part ∈ r.held := by rw [hheld]; exact List.mem_cons_self ..
  have hpart := htracks.part part hmem
  have hdue := htracks.due part (by simp [hready])
  obtain ⟨hasks, hlook⟩ := ReadyPart.look_spec htracks.base_le (htracks.stands part hmem) hdue
  have hplays := ReadyPart.look_plays htracks.base_le (htracks.stands part hmem) hdue
    (fun payload hpayload => part.number_part ▸ hrehearsed _ (List.mem_of_getElem? hpart) payload hpayload)
    (h.held part hmem)
  obtain rfl := htracks.samePolicy
  obtain rfl := htracks.sameUpload
  unfold PartRun.turn
  simp only [mark]
  generalize part.look r.policy r.upload l = out at hasks hlook hplays
  obtain ⟨l', turn⟩ := out
  cases turn with
  | waits time next =>
    obtain ⟨hsame, -⟩ := hlook
    refine h.after_turn htracks hdistinct hheld hasks (.waiting rfl rfl rfl hsame) (fun x hx => ?_)
      fun hnone => by cases hnone
    cases hx
    have hnumber : next.number = part.number := by rw [← part.number_part, ← hsame.2]
    show next.Plays (script next.number) _ l'
    rw [hnumber]
    exact hplays
  | done tag =>
    exact h.after_turn htracks hdistinct hheld hasks (.gone rfl rfl rfl) (fun x hx => by cases hx) fun _ => hplays
  | failed e =>
    exact h.after_turn htracks hdistinct hheld hasks (.gone rfl rfl rfl) (fun x hx => by cases hx) fun _ => hplays

/-- A run whose answers are settled in advance has followed its script at its end, part by part. -/
theorem run (h : Played script parts origin.calls.length l r)
    (htracks : Tracks policy upload parts origin none l r) (hdistinct : (parts.map (·.number)).Nodup)
    (hrehearsed : Rehearsed script policy upload parts origin.calls.length l) :
    Played script parts origin.calls.length (r.run l).1 (r.run l).2.1 := by
  fun_induction PartRun.run r l with
  | case1 r l l' r' outcome hstep =>
    rcases of_step_ended hstep with ⟨-, rfl, rfl, -⟩ | ⟨-, hends⟩
    · exact h
    rcases hends with ⟨part, rest, hready, hturn⟩ | ⟨-, -, rfl, rfl, -⟩
    · have hplayed := (h.of_perm r.held_fill).turn htracks.fill hdistinct hrehearsed hready
      rw [hturn] at hplayed
      exact hplayed
    · exact h.of_perm r.held_fill
  | case2 r l l' r' hstep ih =>
    have hnext := htracks.step hdistinct
    rw [hstep] at hnext
    obtain ⟨-, part, rest, hready, hturn⟩ := of_step_moved hstep
    have hplayed := (h.of_perm r.held_fill).turn htracks.fill hdistinct hrehearsed hready
    rw [hturn] at hplayed
    exact ih hplayed hnext (hrehearsed.congr (hnext.conditions.trans htracks.conditions.symm)
      (hnext.earlier.trans htracks.earlier.symm))
  | case3 r l l' r' due hstep ih =>
    obtain ⟨-, hready, hdue, rfl, rfl⟩ := of_step_idle hstep
    have hawaited := htracks.fill.await hready hdue
    exact ih ((h.of_perm r.held_fill).await htracks.fill hdue) hawaited
      (hrehearsed.congr (hawaited.conditions.trans htracks.conditions.symm)
        (hawaited.earlier.trans htracks.earlier.symm))

end Played

end PartRun

end ObjectFlush
