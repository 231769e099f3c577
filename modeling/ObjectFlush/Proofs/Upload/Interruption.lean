import ObjectFlush.Proofs.Exchange.Alarm
import ObjectFlush.Proofs.Exchange.Healthy
import ObjectFlush.Proofs.Upload.Chronicle
import ObjectFlush.Proofs.Upload.SessionCall

/-!
A part run that is cancelled on its way. No turn of a part looks at the signals, so up to the time at which the
signal of the run is raised the run does what it does over the link without it. Then it ends, there and then:
`PartRun.Going.cut`.
-/

namespace ObjectFlush

section Hush

variable {σ : Type} [Endpoint σ] (s : Signal) (policy : PartPolicy) (upload : String)

/-! ## A turn over a hushed link -/

theorem Link.drawPause_hush {σ : Type} (s : Signal) (l : Link σ) (length : Nat) :
    (l.hush s).drawPause length = (l.drawPause length).map (Link.hush s) id := rfl

namespace ActivePart

theorem call_hush (part : ActivePart) (l : Link σ) :
    part.call policy upload (l.hush s) = (part.call policy upload l).map (Link.hush s) id := by
  have hdelay : ((l.hush s).start (part.request upload)).2.reaction.delay =
      (l.start (part.request upload)).2.reaction.delay := rfl
  simp only [call, hdelay]
  split
  · rfl
  · split <;> rfl

theorem conclude_hush (left : Nat) :
    ∀ (part : ActivePart) (backoff : Nat) (l : Link σ) (answer : Except RequestError String),
      part.conclude policy upload left backoff (l.hush s) answer =
        (part.conclude policy upload left backoff l answer).map (Link.hush s) id := by
  induction left with
  | zero =>
    intro part backoff l answer
    cases answer <;> rfl
  | succ left ih =>
    intro part backoff l answer
    cases answer with
    | ok tag => rfl
    | error e =>
      let again : ActivePart := { part with left, backoff := policy.retry.next backoff }
      have hcall := call_hush s policy upload again (l.drawPause backoff).1
      simp only [conclude, Link.drawPause_hush, Prod.map_fst, Prod.map_snd, id_eq]
      by_cases hretry : e.retryable = true
      · by_cases hzero : (l.drawPause backoff).2 = 0
        · -- The pause takes no time: the part calls again within the same turn.
          simp only [hretry, hzero, if_true]
          rw [hcall]
          generalize again.call policy upload (l.drawPause backoff).1 = out
          obtain ⟨l', answer | next⟩ := out
          · exact ih again _ l' answer
          · rfl
        · simp only [hretry, hzero, if_true, if_false]
          rfl
      · simp only [hretry]
        rfl

theorem attempt_hush (part : ActivePart) (l : Link σ) :
    part.attempt policy upload (l.hush s) = (part.attempt policy upload l).map (Link.hush s) id := by
  simp only [attempt, call_hush]
  generalize part.call policy upload l = out
  obtain ⟨l', answer | next⟩ := out
  · exact conclude_hush s policy upload _ part _ l' answer
  · rfl

theorem wake_hush (part : ActivePart) (l : Link σ) :
    part.wake policy upload (l.hush s) = (part.wake policy upload l).map (Link.hush s) id := by
  simp only [wake]
  split
  · exact attempt_hush s policy upload part l
  · next ticket late _ =>
    split
    · exact conclude_hush s policy upload _ part _ l _
    · exact conclude_hush s policy upload _ part _ (l.finish (part.request upload) ticket).1 _

end ActivePart

theorem ReadyPart.look_hush (part : ReadyPart) (l : Link σ) :
    part.look policy upload (l.hush s) = (part.look policy upload l).map (Link.hush s) id := by
  rw [look_eq, look_eq]
  split
  · exact ActivePart.wake_hush s policy upload _ l
  · rfl

theorem PartRun.turn_hush (r : PartRun) (l : Link σ) (part : ReadyPart) (rest : List ReadyPart) :
    r.turn (l.hush s) part rest = (r.turn l part rest).map (Link.hush s) id := by
  simp only [turn, mark, ReadyPart.look_hush]
  generalize part.look r.policy r.upload l = out
  obtain ⟨l', turn⟩ := out
  cases turn <;> rfl

theorem PartRun.step_hush (r : PartRun) (l : Link σ) :
    r.step (l.hush s) = (r.step l).map (Link.hush s) id := by
  have hcancel : r.isCancelled (l.hush s) = r.isCancelled l := rfl
  simp only [step, hcancel]
  split
  · rfl
  · cases r.fill.ready with
    | cons part rest => exact turn_hush s r.fill l part rest
    | nil => cases r.fill.due? <;> rfl

end Hush

namespace PartRun

variable {σ : Type} {policy : PartPolicy} {upload : String} {parts : List PartRequest} {order : List Nat}
  {s : Signal} {t due : Nat} {origin l : Link σ} {r : PartRun}

/-! ## The cut -/

theorem await_of_alarm {m : Nat} (hm : l.nextAlarm? = some m) (hlt : m < due) :
    r.await l due = ((l.passTo m).ring m, r) := by
  rw [await, hm]
  exact if_pos hlt

theorem await_of_due (h : ∀ m, l.nextAlarm? = some m → due ≤ m) :
    r.await l due = (l.passTo due, r.rouse due) := by
  rw [await]
  split
  · next m hm => exact if_neg (Nat.not_lt.2 (h m hm))
  · rfl

/-- A run waits as over the hushed link, unless it waits for a time after the one at which the signal is raised. -/
theorem await_cases (h : l.RaisedAt s t) (r : PartRun) (due : Nat) :
    ((r.await l due).1.RaisedAt s t ∧ r.await (l.hush s) due = (r.await l due).map (Link.hush s) id) ∨
      t < due ∧ r.await l due = ((l.passTo t).ring t, r) := by
  have hdueFirst : due ≤ t → (∀ m, l.nextAlarm? = some m → due ≤ m) →
      (∀ m, (l.hush s).nextAlarm? = some m → due ≤ m) →
      (r.await l due).1.RaisedAt s t ∧ r.await (l.hush s) due = (r.await l due).map (Link.hush s) id := by
    intro hle hall hall'
    rw [await_of_due hall, await_of_due hall', h.hush_passTo hle]
    exact ⟨h.passTo hle, rfl⟩
  rcases h.nextAlarm with ⟨m, hlt, hm, hm'⟩ | ⟨hm, hlater⟩
  · refine .inl ?_
    by_cases hdue : m < due
    · have hpassed := h.passTo (Nat.le_of_lt hlt)
      rw [await_of_alarm hm hdue, await_of_alarm hm' hdue, h.hush_passTo (Nat.le_of_lt hlt), hpassed.hush_ring hlt]
      exact ⟨hpassed.ring hlt, rfl⟩
    · have hle := Nat.not_lt.1 hdue
      refine hdueFirst (Nat.le_trans hle (Nat.le_of_lt hlt)) (fun m' h' => ?_) fun m' h' => ?_
      · cases hm.symm.trans h'
        exact hle
      · cases hm'.symm.trans h'
        exact hle
  · by_cases hdue : t < due
    · exact .inr ⟨hdue, await_of_alarm hm hdue⟩
    · have hle := Nat.not_lt.1 hdue
      refine .inl (hdueFirst hle (fun m' h' => ?_) fun m' h' => Nat.le_trans hle (hlater m' h'))
      cases hm.symm.trans h'
      exact hle

variable [Endpoint σ]

/-- Once its signal is raised, a run ends there and then. -/
theorem run_of_raised (hcancel : r.cancel = some s) (hraised : l.isRaised s = true) :
    r.run l = (l, r, .error .cancelled) := by
  have hcancelled : r.isCancelled l = true := by rw [isCancelled, hcancel]; exact hraised
  exact run_of_ended (by rw [step, hcancelled]; rfl)

/-- A turn that does not end the run leaves no part failed. -/
theorem unfailed_turn {part : ReadyPart} {rest : List ReadyPart} (h : .failed ∉ r.statuses)
    (hmoved : (r.turn l part rest).2.2 = .moved) : .failed ∉ (r.turn l part rest).2.1.statuses := by
  have hset : ∀ {statuses : List PartStatus} {i : Nat} {status}, .failed ∉ statuses → status ≠ .failed →
      PartStatus.failed ∉ statuses.set i status := by
    intro statuses i status hnot hstatus hmem
    rcases List.mem_or_eq_of_mem_set hmem with hmem | heq
    · exact hnot hmem
    · exact hstatus heq.symm
  simp only [turn, mark] at hmoved ⊢
  split at hmoved
  · exact hset h (by decide)
  · exact hset (hset h (by decide)) (by decide)
  · cases hmoved

/-- A run that is still going, begun over `origin`: its signal is the one of `cancel`, and no part has failed. -/
structure Going (policy : PartPolicy) (upload : String) (cancel : Option Signal) (parts : List PartRequest)
    (order : List Nat) (origin l : Link σ) (r : PartRun) : Prop where
  serves : Serves policy upload parts order origin l r
  log : r.Chronicled origin.calls.length l
  cancel : r.cancel = cancel
  unfailed : .failed ∉ r.statuses

namespace Going

variable {cancel : Option Signal} {part : ReadyPart} {rest : List ReadyPart}

omit [Endpoint σ] in
theorem start (policy : PartPolicy) (upload : String) (cancel : Option Signal) (parts : List PartRequest)
    (l : Link σ) :
    Going policy upload cancel parts ((PartRun.start policy upload cancel parts).queue.map (·.1)) l l
      (PartRun.start policy upload cancel parts) := by
  refine ⟨.start policy upload cancel parts l, .start policy upload cancel parts l, rfl, fun hmem => ?_⟩
  obtain ⟨p, -, hp⟩ := List.mem_map.1 hmem
  cases hp

omit [Endpoint σ] in
theorem fill (h : Going policy upload cancel parts order origin l r) :
    Going policy upload cancel parts order origin l r.fill :=
  ⟨h.serves.fill, h.log.fill, h.cancel, h.unfailed⟩

theorem turn (h : Going policy upload cancel parts order origin l r) (hready : r.ready = part :: rest)
    (hmoved : (r.turn l part rest).2.2 = .moved) :
    Going policy upload cancel parts order origin (r.turn l part rest).1 (r.turn l part rest).2.1 := by
  refine ⟨(h.serves.turn hready).2.2, (h.serves.takesTurn h.log hready).log, ?_, unfailed_turn h.unfailed hmoved⟩
  rw [← h.cancel]
  simp only [PartRun.turn, mark]
  split <;> rfl

omit [Endpoint σ] in
theorem await (h : Going policy upload cancel parts order origin l r) (hready : r.ready = [])
    (hdue : r.due? = some due) :
    Going policy upload cancel parts order origin (r.await l due).1 (r.await l due).2 := by
  have hcancel : (r.await l due).2.cancel = r.cancel := by
    unfold PartRun.await
    split
    · split <;> rfl
    · rfl
  exact ⟨h.serves.await hready hdue, h.log.await due, hcancel.trans h.cancel, r.statuses_await l due ▸ h.unfailed⟩

/-- What a run comes to after a step that does not end it. -/
theorem moved {l' : Link σ} {r' : PartRun} (h : Going policy upload cancel parts order origin l r)
    (hstep : r.step l = (l', r', .moved)) :
    Going policy upload cancel parts order origin l' r' ∧ l'.now = l.now ∧ l'.raised = l.raised ∧
      l'.alarms = l.alarms := by
  obtain ⟨-, part, rest, hready, hturn⟩ := of_step_moved hstep
  have hnext := h.fill.turn (l := l) hready (by rw [hturn])
  have hturned := h.serves.fill.takesTurn h.log.fill hready
  rw [hturn] at hnext hturned
  exact ⟨hnext, hturned.now, hturned.raised, hturned.alarms⟩

/-- No time passes in the step that ends a run. -/
theorem ended {l' : Link σ} {r' : PartRun} {outcome : Outcome}
    (h : Going policy upload cancel parts order origin l r) (hstep : r.step l = (l', r', .ended outcome)) :
    l'.now = l.now := by
  rcases of_step_ended hstep with ⟨-, rfl, -, -⟩ | ⟨-, ⟨part, rest, hready, hturn⟩ | ⟨-, -, rfl, -, -⟩⟩
  · rfl
  · have hturned := h.serves.fill.takesTurn h.log.fill hready
    rw [hturn] at hturned
    exact hturned.now
  · rfl

end Going

/-- Between its steps, a run is going. -/
theorem Going.history {cancel : Option Signal} (h : Going policy upload cancel parts order origin l r) :
    ∀ m ∈ r.history l, m.turn = none → Going policy upload cancel parts order origin m.link m.run := by
  have hmoments : ∀ {l : Link σ} {r : PartRun}, Going policy upload cancel parts order origin l r →
      ∀ m ∈ r.moments l, m.turn = none → Going policy upload cancel parts order origin m.link m.run := by
    intro l r h m hm hturn
    rcases List.mem_cons.1 hm with rfl | hm
    · exact h
    · split at hm
      · cases hm
      · split at hm
        · cases hm
        · obtain rfl := List.mem_singleton.1 hm
          cases hturn
  fun_induction PartRun.history r l with
  | case1 r l l' r' outcome hstep => exact hmoments h
  | case2 r l l' r' hstep ih =>
    intro m hm
    exact (List.mem_append.1 hm).elim (hmoments h m) (ih (h.moved hstep).1 m)
  | case3 r l l' r' due hstep ih =>
    obtain ⟨-, hready, hdue, rfl, rfl⟩ := of_step_idle hstep
    intro m hm
    exact (List.mem_append.1 hm).elim (hmoments h m) (ih (h.fill.await hready hdue) m)

/-- A run whose signal is raised at `t` goes as over the hushed link until then, unless that run ends by then. -/
theorem Going.cut (h : Going policy upload (some s) parts order origin l r) (hraised : l.RaisedAt s t)
    (hend : t < (r.run (l.hush s)).1.now) :
    ∃ l' r', Going policy upload (some s) parts order origin l' r' ∧ l'.RaisedAt s t ∧ r'.RestsUntil t l' ∧
      r.run l = ((l'.passTo t).ring t, r', .error .cancelled) ∧ r.run (l.hush s) = r'.run (l'.hush s) := by
  have hhush : ∀ {l l' : Link σ} {r r' : PartRun} {step : Step}, r.step l = (l', r', step) →
      r.step (l.hush s) = (l'.hush s, r', step) := by
    intro l l' r r' step hstep
    rw [step_hush, hstep]
    rfl
  fun_induction PartRun.run r l with
  | case1 r l l' r' outcome hstep =>
    -- Over the hushed link the run would end here too, which is not after `t`.
    rw [run_of_ended (hhush hstep)] at hend
    have : t < l'.now := hend
    have := h.ended hstep
    have := hraised.ahead
    omega
  | case2 r l l' r' hstep ih =>
    obtain ⟨hgoing, hnow, hsame, halarms⟩ := h.moved hstep
    rw [run_of_moved (hhush hstep)] at hend ⊢
    exact ih hgoing (hraised.congr hsame halarms (Nat.le_trans (Nat.le_of_eq hnow) hraised.ahead)) hend
  | case3 r l l' r' due hstep ih =>
    have hundisturbed := run_of_idle (hhush hstep)
    obtain ⟨-, hready, hdue, rfl, rfl⟩ := of_step_idle hstep
    rcases await_cases hraised r.fill due with ⟨hstill, hawait⟩ | ⟨hlt, hawait⟩
    · rw [hawait] at hundisturbed
      rw [hundisturbed] at hend ⊢
      exact ih (h.fill.await hready hdue) hstill hend
    · -- The clock would run past `t`, and the signal stops it.
      have hsame := fill_eq_self hready
      refine ⟨l', r, h, hraised, .inr ⟨hready, fun p hp => ?_⟩, ?_, rfl⟩
      · exact Nat.lt_of_lt_of_le hlt (due_le (hsame ▸ hdue) p hp)
      · rw [hawait, hsame]
        exact run_of_raised h.cancel hraised.raised.1

end PartRun

end ObjectFlush
