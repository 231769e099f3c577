import ObjectFlush.Exchange.DryRun
import ObjectFlush.Proofs.Upload.Interruption

/-!
Cancelling a part run, and with it the session that it belongs to: `part_run_cancels`. A raised signal wins over all
that the run could do next. What the run has done by then stays in the log, no part fails for it, and the session
ends with the abort of its upload.
-/

namespace ObjectFlush

/-- What a run comes to whose signal is raised at `t`, and that would be `undisturbed` if it were not: it is cancelled
then. Its log is that of the undisturbed run as it stands at `t`: no call starts later, and those under way at
that time have no end. -/
structure PartRun.Interrupted {σ : Type} (t : Nat) (l : Link σ) (undisturbed out : Link σ × PartRun × Outcome) :
    Prop where
  outcome : out.2.2 = .error .cancelled
  now : out.1.now = t
  unfailed : .failed ∉ out.2.1.statuses
  log : ∃ log, undisturbed.1.calls = l.calls ++ log ∧ out.1.calls = l.calls ++ cutAt t log

namespace ActivePart

variable {σ : Type} [Endpoint σ] (policy : PartPolicy) (upload : String)

theorem conclude_ne_cancelled (left : Nat) :
    ∀ (part : ActivePart) (backoff : Nat) (l : Link σ) (answer : Except RequestError String),
      (part.conclude policy upload left backoff l answer).2 ≠ .failed .cancelled := by
  induction left with
  | zero =>
    intro part backoff l answer
    cases answer <;> exact fun h => by cases h
  | succ left ih =>
    intro part backoff l answer
    cases answer with
    | ok tag => exact fun h => by cases h
    | error e =>
      simp only [conclude]
      split
      · split
        · split
          · exact ih _ _ _ _
          · exact fun h => by cases h
        · exact fun h => by cases h
      · exact fun h => by cases h

theorem wake_ne_cancelled (part : ActivePart) (l : Link σ) : (part.wake policy upload l).2 ≠ .failed .cancelled := by
  simp only [wake, attempt]
  split
  · split
    · exact conclude_ne_cancelled policy upload _ _ _ _ _
    · exact fun h => by cases h
  · split
    · exact conclude_ne_cancelled policy upload _ _ _ _ _
    · exact conclude_ne_cancelled policy upload _ _ _ _ _

end ActivePart

namespace PartRun

variable {σ : Type} [Endpoint σ] {policy : PartPolicy} {upload : String} {cancel : Option Signal}
  {parts : List PartRequest} {order : List Nat} {s : Signal} {t : Nat} {origin l : Link σ} {r : PartRun}

/-- No part fails because a run is cancelled. -/
theorem turn_ne_cancelled (r : PartRun) (l : Link σ) (part : ReadyPart) (rest : List ReadyPart) :
    (r.turn l part rest).2.2 ≠ .ended (.error .cancelled) := by
  have hlook : (part.look r.policy r.upload l).2 ≠ .failed .cancelled := by
    rw [ReadyPart.look_eq]
    split
    · exact ActivePart.wake_ne_cancelled _ _ _ l
    · exact fun h => by cases h
  simp only [turn]
  split
  · exact fun h => by cases h
  · exact fun h => by cases h
  · next l' e heq =>
    rintro ⟨⟩
    exact hlook (congrArg Prod.snd heq)

omit [Endpoint σ] in
theorem quiet_await (h : l.Quiet cancel) (r : PartRun) (due : Nat) : (r.await l due).1.Quiet cancel := by
  unfold await
  split
  · split
    · exact (h.passTo _).ring _
    · exact h.passTo due
  · exact h.passTo due

/-- A run whose signal nobody raises is not cancelled. -/
theorem Going.not_cancelled (h : Going policy upload cancel parts order origin l r) (hquiet : l.Quiet cancel) :
    (r.run l).2.2 ≠ .error .cancelled := by
  fun_induction PartRun.run r l with
  | case1 r l l' r' outcome hstep =>
    rintro rfl
    rcases of_step_ended hstep with ⟨hcancelled, -⟩ | ⟨-, ⟨part, rest, -, hturn⟩ | ⟨-, -, -, -, hok⟩⟩
    · unfold isCancelled at hcancelled
      split at hcancelled
      · next s hs => exact (hquiet s (h.cancel ▸ hs)).1 (Link.isRaised_iff.1 hcancelled)
      · cases hcancelled
    · exact turn_ne_cancelled r.fill l part rest (by rw [hturn])
    · cases hok
  | case2 r l l' r' hstep ih =>
    obtain ⟨hgoing, -, hraised, halarms⟩ := h.moved hstep
    exact ih hgoing (hquiet.congr hraised halarms)
  | case3 r l l' r' due hstep ih =>
    obtain ⟨-, hready, hdue, rfl, rfl⟩ := of_step_idle hstep
    exact ih (h.fill.await hready hdue) (quiet_await hquiet r.fill due)

/-- The signal raised on the way shows in the log from its time on, and in nothing else. -/
theorem Going.interrupted (h : Going policy upload (some s) parts order l l r) (hraised : l.RaisedAt s t)
    (hend : t < (r.run (l.hush s)).1.now) : Interrupted t l (r.run (l.hush s)) (r.run l) := by
  obtain ⟨l', r', hgoing, hraised', hrests, hrun, hundisturbed⟩ := h.cut hraised hend
  have hready : r'.ready = [] := by
    rcases hrests with hlt | ⟨hnone, -⟩
    · exact absurd hraised'.ahead (Nat.not_le.2 hlt)
    · exact fill_eq_self hnone ▸ hnone
  have hserves : Serves policy upload parts order l (l'.hush s) r' :=
    hgoing.serves.pass hready rfl (Nat.le_refl _) fun p hp => (hgoing.serves.later p hp).1
  have hlog : r'.Chronicled l.calls.length (l'.hush s) := hgoing.log.congr rfl (Nat.le_refl _) (.refl _)
  have hcut : cutAt t ((r'.run (l'.hush s)).1.since l.calls.length) = l'.since l.calls.length :=
    (hserves.follows hlog hrests).cutAt_since hlog.past hraised'.ahead hserves.base_le
  rw [hrun, hundisturbed]
  refine ⟨rfl, hraised'.raised.2, hgoing.unfailed, _, hserves.bounded.2.calls_eq, ?_⟩
  rw [hcut, ← hgoing.serves.calls_eq]
  exact l'.calls_passTo t

/-- The signal of the run ends it: it was raised before, or is raised before the run would end without it. -/
def CutShort (s : Signal) (l : Link σ) (r : PartRun) : Prop :=
  l.isRaised s = true ∨ ∃ t, l.RaisedAt s t ∧ t < (r.run (l.hush s)).1.now

theorem Going.cutShort (h : Going policy upload (some s) parts order l l r) (hcut : r.CutShort s l) :
    (r.run l).2.2 = .error .cancelled := by
  rcases hcut with hraised | ⟨t, hraised, hend⟩
  · rw [run_of_raised h.cancel hraised]
  · exact (h.interrupted hraised hend).outcome

end PartRun

/-- A transaction whose parts are cut short is aborted, and nothing of it is completed. -/
structure Session.Cancelled {σ : Type} (s : Session) (name : String) (jobs : List BoundPart) (l : Link σ)
    (out : Link σ × Session × Except SessionError ObjectSummary) : Prop where
  result : out.2.2 = .error (.upload .cancelled)
  session : out.2.1 = { s with stage := .aborted, upload := some name }
  log : ∃ opening parts closing answer, out.1.calls = l.calls ++ opening :: (parts ++ [closing]) ∧
    opening.Answered (.initiate s.key) (.ok name) ∧ (∀ c ∈ parts, ∃ job ∈ jobs, job.SentBy name c.request) ∧
    closing.Answered (.abort name) answer

theorem Session.execute_cancelled {σ : Type} [Endpoint σ] (s : Session) (hidle : s.stage = .idle) {signal : Signal}
    (hcancel : s.cancel = some signal) (jobs : List BoundPart) (l : Link σ) {name : String}
    (hopened : (l.ask (.initiate s.key)).2 = .ok name)
    (hcut : (PartRun.start s.policy name (some signal) (jobs.map BoundPart.toRequest)).CutShort signal
      (l.ask (.initiate s.key)).1) :
    s.Cancelled name jobs l ((s.execute jobs).run l) := by
  obtain ⟨opening, parts, rest, hopening, hlog, hparts, hconcludes⟩ := s.execute_concludes hidle jobs l hopened
  rw [hcancel, (PartRun.Going.start ..).cutShort hcut] at hconcludes
  generalize (s.execute jobs).run l = out at hlog hconcludes ⊢
  obtain ⟨l', out⟩ := out
  cases hconcludes with
  | unsent hclosing => exact ⟨rfl, rfl, opening, parts, _, _, hlog, hopening, hparts, hclosing⟩

/-- **A raised signal cancels a run at once.** If it was raised before, the run does nothing at all. If it is raised
while the run would still go on, the run is cancelled there and then: its log stays as it stands at that time, and
no part has failed. This holds between any two steps of the run, whatever is due next. A session whose start
succeeds is then aborted, by the one call that still follows. And no run is cancelled whose signal nobody raises. -/
theorem part_run_cancels {σ : Type} [Endpoint σ] (policy : PartPolicy) (upload : String) (s : Signal)
    (jobs : List BoundPart) (l : Link σ) :
    let parts := jobs.map BoundPart.toRequest
    let r := PartRun.start policy upload (some s) parts
    (l.isRaised s = true → r.run l = (l, r, .error .cancelled) ∧ ∀ status ∈ r.statuses, status = .pending) ∧
    (∀ t, l.RaisedAt s t → t < (r.run (l.hush s)).1.now →
      PartRun.Interrupted t l (r.run (l.hush s)) (r.run l)) ∧
    (∀ m ∈ r.history l, m.turn = none →
      m.run.run (m.link.raise s) = (m.link.raise s, m.run, .error .cancelled) ∧ .failed ∉ m.run.statuses) ∧
    (∀ key name, (l.ask (.initiate key)).2 = .ok name →
      (PartRun.start policy name (some s) parts).CutShort s (l.ask (.initiate key)).1 →
        let session : Session := { key, policy, cancel := some s }
        session.Cancelled name jobs l ((session.execute jobs).run l)) ∧
    ∀ cancel, l.Quiet cancel → ((PartRun.start policy upload cancel parts).run l).2.2 ≠ .error .cancelled := by
  intro parts r
  have hgoing := PartRun.Going.start policy upload (some s) parts l
  refine ⟨fun hraised => ⟨PartRun.run_of_raised rfl hraised, fun status hstatus => ?_⟩,
    fun t hraised hend => hgoing.interrupted hraised hend, fun m hm hturn => ?_,
    fun key name hopened hcut => ?_, fun cancel hquiet => ?_⟩
  · obtain ⟨p, -, rfl⟩ := List.mem_map.1 hstatus
    rfl
  · have hm := hgoing.history m hm hturn
    exact ⟨PartRun.run_of_raised hm.cancel (Link.isRaised_iff.2 List.mem_cons_self), hm.unfailed⟩
  · exact Session.execute_cancelled { key, policy, cancel := some s } rfl rfl jobs l hopened hcut
  · exact (PartRun.Going.start policy upload cancel parts l).not_cancelled hquiet

/-- Of two parts one is sent at a time. The signal is raised while the second is under way. -/
theorem second_part_cut_off :
    let policy : PartPolicy :=
      { concurrency := 1, retry := { limit := 3, pause := 10, longestPause := 100 }, timeout := 50 }
    let slow : Conditions := { reaction := fun lane _ =>
      match lane with
      | .part _ => { delay := 10 }
      | _ => {} }
    let l : Link DryRun := { endpoint := {}, conditions := slow, alarms := [⟨15, 7⟩] }
    let key : ObjectKey := ⟨"k", by decide⟩
    let jobs : List BoundPart := [⟨1, 1, .buffer [1] 0⟩, ⟨2, 1, .buffer [2] 0⟩]
    let r := PartRun.start policy "u" (some 7) (jobs.map BoundPart.toRequest)
    let session : Session := { key, policy, cancel := some 7 }
    l.RaisedAt 7 15 ∧ (r.run (l.hush 7)).1.now = 20 ∧ (r.run (l.hush 7)).1.calls.length = 2 ∧
      PartRun.Interrupted 15 l (r.run (l.hush 7)) (r.run l) ∧
      session.Cancelled "upload-0" jobs l ((session.execute jobs).run l) := by
  intro policy slow l key jobs r session
  have hraised : l.RaisedAt 7 15 := ⟨by decide, by decide, by decide, by decide⟩
  have hraisedOpened : (l.ask (.initiate key)).1.RaisedAt 7 15 := ⟨by decide, by decide, by decide, by decide⟩
  have hnow : (r.run (l.hush 7)).1.now = 20 := by
    unfold r l slow policy jobs
    cbv
  have hcalls : (r.run (l.hush 7)).1.calls.length = 2 := by
    unfold r l slow policy jobs
    cbv
  have hname : (l.ask (.initiate key)).2 = .ok "upload-0" := by
    unfold l slow key
    cbv
  have hopened : ((PartRun.start policy "upload-0" (some 7) (jobs.map BoundPart.toRequest)).run
      ((l.ask (.initiate key)).1.hush 7)).1.now = 20 := by
    unfold l slow policy jobs key
    cbv
  obtain ⟨-, hinterrupted, -, hcancelled, -⟩ := part_run_cancels policy "u" 7 jobs l
  refine ⟨hraised, hnow, hcalls, hinterrupted 15 hraised (by rw [hnow]; decide),
    hcancelled key "upload-0" hname (.inr ⟨15, hraisedOpened, ?_⟩)⟩
  rw [hopened]
  decide

end ObjectFlush
