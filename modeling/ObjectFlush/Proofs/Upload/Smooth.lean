import ObjectFlush.Proofs.Exchange.Healthy
import ObjectFlush.Proofs.Upload.SessionCall

/-!
A part run under healthy conditions, of parts that the endpoint grants whenever it is asked for them
(`PartRequest.Granted`). Then a part makes one call and is done with its answer, so the run ends well, after one
call for each part in the order of their numbers: `granted_run`. Calls may take their time, and end in any order.
-/

namespace ObjectFlush

section

variable {σ : Type} [Endpoint σ] (I : List Receipt → σ → Prop) (upload : String)

/-- The part can be read, and the endpoint grants it whatever receipts were given before. `I` says what
the endpoint has to hold for the receipts, and the grant keeps that true with one more receipt. -/
def PartRequest.Granted (p : PartRequest) : Prop :=
  ∃ payload, p.payload = .ok payload ∧ ∀ receipts s, I receipts s →
    ∃ tag, (Endpoint.serve s (payload.request upload p.number)).2.map (payload.tag upload p.number) = .ok tag ∧
      I (receipts ++ [⟨p.number, tag⟩]) (Endpoint.serve s (payload.request upload p.number)).1

end

/-- The part makes its first call, or its call is under way and will be answered by the endpoint in time. -/
def ReadyPart.Prompt : ReadyPart → Prop
  | .fresh .. => True
  | .woken part => ∃ ticket, part.stage = .calling ticket false ∧ ticket.reaction.Plain

namespace Link

variable {σ : Type}

/-- All but the clock, the log and the endpoint is the same. -/
structure Alike (l l' : Link σ) : Prop where
  conditions : l'.conditions = l.conditions
  raised : l'.raised = l.raised
  alarms : l'.alarms = l.alarms

end Link

section

variable {σ : Type} [Endpoint σ] {I : List Receipt → σ → Prop} {upload : String} {l : Link σ}
  {receipts : List Receipt}

/-- What the turn of a prompt part comes to that is granted: its call is made, unless it was made before, and
the part waits for the answer or is done with it. -/
structure Turn.Goes (I : List Receipt → σ → Prop) (receipts : List Receipt) (part : ReadyPart) (l : Link σ)
    (out : Link σ × Turn) : Prop where
  alike : l.Alike out.1
  calls : out.1.calls.length = l.calls.length + part.fresh?.toList.length
  unfailed : ∀ e, out.2 ≠ .failed e
  waits : ∀ time next, out.2 = .waits time next → (ReadyPart.woken next).Prompt ∧ I receipts out.1.endpoint
  done : ∀ tag, out.2 = .done tag → I (receipts ++ [⟨part.number, tag⟩]) out.1.endpoint

namespace ActivePart

variable {policy : PartPolicy} {part : ActivePart} {ready : ReadyPart}

/-- A call that the endpoint answers ends a part that is granted. -/
theorem goes_finish (before l : Link σ) {t : Ticket} (hnumber : ready.number = part.number) (hplain : t.reaction.Plain)
    (hgranted : (⟨part.number, .ok part.payload⟩ : PartRequest).Granted I upload) (hI : I receipts l.endpoint)
    (halike : before.Alike l) (hcalls : l.calls.length = before.calls.length + ready.fresh?.toList.length)
    (left backoff : Nat) :
    Turn.Goes I receipts ready before
      (part.conclude policy upload left backoff (l.finish (part.request upload) t).1
        ((l.finish (part.request upload) t).2.map (part.payload.tag upload part.number))) := by
  obtain ⟨payload, hpayload, hserve⟩ := hgranted
  cases hpayload
  obtain ⟨tag, htag, hkept⟩ := hserve receipts l.endpoint hI
  have hserved : l.answer (part.request upload) t.reaction = Endpoint.serve l.endpoint (part.request upload) :=
    l.answer_of_plain (part.request upload) hplain
  have hanswer : (l.finish (part.request upload) t).2.map (part.payload.tag upload part.number) = .ok tag :=
    (congrArg (fun out => out.2.map (part.payload.tag upload part.number)) hserved).trans htag
  have hendpoint : (l.finish (part.request upload) t).1.endpoint =
      (Endpoint.serve l.endpoint (part.request upload)).1 := congrArg Prod.fst hserved
  have hdone : ∀ link : Link σ, part.conclude policy upload left backoff link (.ok tag) = (link, .done tag) := by
    intro link
    cases left <;> rfl
  rw [hanswer, hdone]
  refine ⟨⟨halike.conditions, halike.raised, halike.alarms⟩, ?_, fun e h => (by cases h),
    fun _ _ h => (by cases h), fun _ h => ?_⟩
  · show (l.calls.set _ _).length = _
    rw [List.length_set, hcalls]
  · cases h
    rw [hendpoint, hnumber]
    exact hkept

theorem goes_attempt (hhealthy : l.conditions.Healthy policy.timeout)
    (hgranted : (⟨part.number, .ok part.payload⟩ : PartRequest).Granted I upload) (hI : I receipts l.endpoint)
    {slot : Nat} {p : PartRequest} (hnumber : (ReadyPart.fresh slot p).number = part.number) :
    Turn.Goes I receipts (.fresh slot p) l (part.attempt policy upload l) := by
  have hlane : (part.request upload).lane = .part part.number := part.payload.lane_request upload part.number
  have hplain := hhealthy.plain (part.request upload).lane (l.callsIn (part.request upload).lane)
  have hprompt := hhealthy.prompt part.number (l.callsIn (.part part.number))
  have hcalls : (l.start (part.request upload)).1.calls.length = l.calls.length + 1 := List.length_append
  rw [← hlane] at hprompt
  unfold attempt call
  split
  · next hcall =>
    dsimp only at hcall
    split at hcall
    · cases hcall
      exact goes_finish l (l.start (part.request upload)).1 (t := (l.start (part.request upload)).2) hnumber
        hplain hgranted hI ⟨rfl, rfl, rfl⟩ hcalls _ _
    · next hdelay =>
      split at hcall
      · next hzero =>
        rw [hzero] at hprompt
        exact absurd (Nat.le_zero.1 hprompt) hdelay
      · cases hcall
  · next hcall =>
    dsimp only at hcall
    split at hcall
    · cases hcall
    · split at hcall
      · cases hcall
      · cases hcall
        refine ⟨⟨rfl, rfl, rfl⟩, hcalls, fun e h => (by cases h), fun time next h => ?_,
          fun _ h => (by cases h)⟩
        cases h
        exact ⟨⟨_, congrArg _ (decide_eq_false (Nat.not_lt.2 hprompt)), hplain⟩, hI⟩

end ActivePart

/-- The turn of a prompt part goes on under healthy conditions. -/
theorem ReadyPart.goes_look {policy : PartPolicy} {part : ReadyPart} (hhealthy : l.conditions.Healthy policy.timeout)
    (hprompt : part.Prompt) (hgranted : part.part.Granted I upload) (hI : I receipts l.endpoint) :
    Turn.Goes I receipts part l (part.look policy upload l) := by
  cases part with
  | fresh slot p =>
    obtain ⟨payload, hpayload, hserve⟩ := hgranted
    unfold look
    dsimp only
    split
    · next e he => cases hpayload.symm.trans he
    · next payload' hp =>
      cases hpayload.symm.trans hp
      exact ActivePart.goes_attempt hhealthy ⟨payload, rfl, hserve⟩ hI rfl
  | woken active =>
    obtain ⟨ticket, hstage, hplain⟩ := hprompt
    unfold look ActivePart.wake
    dsimp only
    split
    · next hpausing => cases hstage.symm.trans hpausing
    · next t late hcalling =>
      cases hstage.symm.trans hcalling
      exact ActivePart.goes_finish l l rfl hplain hgranted hI ⟨rfl, rfl, rfl⟩ rfl _ _

namespace PartRun

variable {r : PartRun} {part : ReadyPart} {rest : List ReadyPart} {policy : PartPolicy}
  {parts : List PartRequest} {order : List Nat} {origin : Link σ}

/-- Nothing stands in the way of the run: its signal is quiet, the conditions are healthy, the parts that it holds
are prompt, and the endpoint is as `I` says of the receipts. -/
structure Smooth (I : List Receipt → σ → Prop) (l : Link σ) (r : PartRun) : Prop where
  quiet : l.Quiet r.cancel
  healthy : l.conditions.Healthy r.policy.timeout
  prompt : ∀ part ∈ r.held, part.Prompt
  endpoint : I r.receipts l.endpoint

theorem Serves.granted (h : Serves policy upload parts order origin l r)
    (hgranted : ∀ p ∈ parts, p.Granted I upload) (hready : r.ready = part :: rest) :
    part.part.Granted I r.upload := by
  rw [h.sameUpload]
  exact hgranted part.part (List.mem_of_getElem? (h.seated.part part (by simp [held, hready])))

namespace Smooth

omit [Endpoint σ] in
theorem fill (h : Smooth I l r) : Smooth I l r.fill :=
  ⟨h.quiet, h.healthy, fun x hx => h.prompt x (r.held_fill.mem_iff.1 hx), h.endpoint⟩

omit [Endpoint σ] in
theorem not_cancelled (h : Smooth I l r) : r.isCancelled l = false := by
  unfold isCancelled
  split
  · next s hs => simpa [Link.isRaised] using (h.quiet s hs).1
  · rfl

omit [Endpoint σ] in
theorem await (h : Smooth I l r) (due : Nat) : Smooth I (r.await l due).1 (r.await l due).2 := by
  have hpass : ∀ time, Smooth I (l.passTo time) r := fun time =>
    ⟨h.quiet.passTo time, by rw [l.conditions_passTo]; exact h.healthy, h.prompt,
      by rw [l.endpoint_passTo]; exact h.endpoint⟩
  have hrouse : Smooth I (l.passTo due) (r.rouse due) :=
    ⟨(hpass due).quiet, (hpass due).healthy, fun x hx => h.prompt x ((r.held_rouse due).mem_iff.1 hx),
      (hpass due).endpoint⟩
  unfold PartRun.await
  split
  · next alarm _ =>
    split
    · exact ⟨(hpass alarm).quiet.ring alarm, (hpass alarm).healthy, h.prompt, (hpass alarm).endpoint⟩
    · exact hrouse
  · exact hrouse

/-- The turn of a part that is granted does not end the run. It makes a call if it is the first of the part. -/
theorem turn (h : Smooth I l r) (hready : r.ready = part :: rest) (hgranted : part.part.Granted I r.upload) :
    (r.turn l part rest).2.2 = .moved ∧
      Smooth I (r.turn l part rest).1 (r.turn l part rest).2.1 ∧
      Moment.callers ⟨l, r.begun part rest, some part⟩ = part.fresh?.toList := by
  have hprompt : part.Prompt := h.prompt part (by simp [held, hready])
  have hgoes := ReadyPart.goes_look h.healthy hprompt hgranted h.endpoint
  have hothers : ∀ x ∈ (r.begun part rest).held, x.Prompt := by
    intro x hx
    refine h.prompt x ?_
    rw [held, hready]
    exact List.mem_cons_of_mem _ hx
  have hcallers : Moment.callers ⟨l, r.begun part rest, some part⟩ = part.fresh?.toList := by
    have hlength := hgoes.calls
    show ((part.look r.policy r.upload l).1.calls.drop l.calls.length).map (fun _ => part.slot) = _
    rw [List.map_const', List.length_drop, hlength, Nat.add_sub_cancel_left]
    cases part <;> rfl
  have hquiet := h.quiet.congr hgoes.alike.raised hgoes.alike.alarms
  have hhealthy : (part.look r.policy r.upload l).1.conditions.Healthy r.policy.timeout := by
    rw [hgoes.alike.conditions]
    exact h.healthy
  refine (and_rotate.1 ⟨hcallers, ?_⟩ : _ ∧ _ ∧ _)
  unfold PartRun.turn
  simp only [mark]
  generalize part.look r.policy r.upload l = out at *
  obtain ⟨l', turn⟩ := out
  cases turn with
  | waits time next =>
    obtain ⟨hnext, hI⟩ := hgoes.waits time next rfl
    refine ⟨rfl, hquiet, hhealthy, fun x hx => ?_, hI⟩
    have hx : x ∈ (r.begun part rest).held ∨ x = .woken next := by
      simp only [held, List.mem_append, List.map_append, List.map_cons, List.map_nil, List.mem_singleton] at hx ⊢
      tauto
    rcases hx with hx | rfl
    · exact hothers x hx
    · exact hnext
  | done tag => exact ⟨rfl, hquiet, hhealthy, hothers, hgoes.done tag rfl⟩
  | failed e => exact absurd rfl (hgoes.unfailed e)

/-- A smooth run of parts that are granted ends well, when none is left. It makes one call for each part that it
starts, as it starts it. -/
theorem run (h : Smooth I l r) (hserves : Serves policy upload parts order origin l r)
    (hgranted : ∀ p ∈ parts, p.Granted I upload) :
    callers (r.history l) = dispatched (r.history l) ∧ (r.run l).2.2 = .ok (r.run l).2.1.sorted ∧
      (r.run l).2.1.awaiting = [] ∧ Smooth I (r.run l).1 (r.run l).2.1 := by
  fun_induction PartRun.history r l with
  | case1 r l l' r' outcome hstep =>
    rw [run_of_ended hstep]
    rcases of_step_ended hstep with ⟨hcancel, -⟩ | ⟨-, ⟨part, rest, hready, hturn⟩ |
      ⟨hready, hdue, rfl, rfl, rfl⟩⟩
    · cases h.not_cancelled.symm.trans hcancel
    · have hended := (h.fill.turn hready (hserves.fill.granted hgranted hready)).1
      rw [hturn] at hended
      cases hended
    · rw [moments_of_no_turn (.inr hready)]
      refine ⟨rfl, rfl, ?_, h.fill⟩
      obtain ⟨hqueue, hready', -⟩ := nothing_left hready hdue
      rw [awaiting_fill, awaiting, hqueue, hready']
      rfl
  | case2 r l l' r' hstep ih =>
    rw [run_of_moved hstep]
    obtain ⟨-, part, rest, hready, hturn⟩ := of_step_moved hstep
    obtain ⟨-, hsmooth, hcallers⟩ := h.fill.turn hready (hserves.fill.granted hgranted hready)
    have hnext := (hserves.fill.turn hready).2.2
    rw [hturn] at hsmooth hnext
    obtain ⟨hcalls, hrest⟩ := ih hsmooth hnext
    rw [moments_of_turn h.not_cancelled hready]
    refine ⟨?_, hrest⟩
    calc callers (⟨l, r, none⟩ :: ⟨l, r.fill.begun part rest, some part⟩ :: r'.history l')
        = part.fresh?.toList ++ callers (r'.history l') := congrArg (· ++ callers (r'.history l')) hcallers
      _ = part.fresh?.toList ++ dispatched (r'.history l') := by rw [hcalls]
      _ = dispatched (⟨l, r, none⟩ :: ⟨l, r.fill.begun part rest, some part⟩ :: r'.history l') := by
          cases part <;> rfl
  | case3 r l l' r' due hstep ih =>
    rw [run_of_idle hstep]
    obtain ⟨-, hready, hdue, rfl, rfl⟩ := of_step_idle hstep
    rw [moments_of_no_turn (.inr hready)]
    exact ih (h.fill.await due) (hserves.fill.await hready hdue)

end Smooth

end PartRun

/-- **A run under healthy conditions, of parts that are granted, ends well.** It makes one call for each part, in the
order of their numbers. -/
theorem granted_run (policy : PartPolicy) (upload : String) (cancel : Option Signal) {parts : List PartRequest}
    (hgranted : ∀ p ∈ parts, p.Granted I upload) (hhealthy : l.conditions.Healthy policy.timeout)
    (hquiet : l.Quiet cancel) (hI : I [] l.endpoint) :
    let out := (PartRun.start policy upload cancel parts).run l
    ∃ receipts given order log, out.2.2 = .ok receipts ∧ PartRun.Complete parts receipts ∧
      given.Perm receipts ∧ I given out.1.endpoint ∧ out.1.conditions.Healthy policy.timeout ∧
      StableOrder parts order ∧ out.1.calls = l.calls ++ log ∧
      List.Forall₂ (fun i (c : Call) => ∃ p, parts[i]? = some p ∧ p.Sends upload c.request) order log := by
  intro out
  let r := PartRun.start policy upload cancel parts
  have hserves := PartRun.Serves.start policy upload cancel parts l
  have hprompt : ∀ part ∈ r.held, part.Prompt := by
    intro part hpart
    obtain ⟨p, -, rfl⟩ := List.mem_map.1 hpart
    trivial
  obtain ⟨hcallers, hok, hnone, hend⟩ := (⟨hquiet, hhealthy, hprompt, hI⟩ : r.Smooth I l).run hserves hgranted
  obtain ⟨log, hlog, hcalls⟩ := PartRun.log_of_run policy upload cancel parts l
  have horder := hserves.awaiting_eq
  rw [hnone, List.append_nil, ← hcallers] at horder
  have hpolicy := hserves.bounded.2.samePolicy
  refine ⟨out.2.1.sorted, out.2.1.receipts, callers (r.history l), log, hok, PartRun.complete_of_run hok,
    (List.mergeSort_perm ..).symm, hend.endpoint, hpolicy ▸ hend.healthy, ?_, hlog, hcalls⟩
  rw [← horder]
  exact PartRun.stableOrder_start policy upload cancel parts

end

end ObjectFlush
