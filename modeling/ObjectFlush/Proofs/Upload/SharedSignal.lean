import ObjectFlush.Exchange.DryRun
import ObjectFlush.Proofs.Upload.Opening
import ObjectFlush.Proofs.Upload.SignalUse

/-!
Sessions and flushes that share one signal, side by side or one after the other. The signal is raised exactly if one
of them makes an abort, so an abort cancels the others, and whatever is begun after it (`shared_signal`).
-/

namespace ObjectFlush

namespace Link

variable {σ : Type} {signal : Signal} {l : Link σ}

/-- While time passes, a signal without an alarm is not raised. -/
theorem mem_raised_passTo (h : ∀ a ∈ l.alarms, a.signal ≠ signal) (time : Nat) :
    signal ∈ (l.passTo time).raised ↔ signal ∈ l.raised := by
  unfold passTo
  split
  · refine List.mem_append.trans (or_iff_right fun hin => ?_)
    obtain ⟨a, ha, hsignal⟩ := List.mem_map.1 hin
    exact h a (List.mem_filter.1 ha).1 hsignal
  · rfl

theorem mem_alarms_of_passTo {time : Nat} {a : Alarm} (h : a ∈ (l.passTo time).alarms) : a ∈ l.alarms := by
  unfold passTo at h
  split at h
  · exact (List.mem_filter.1 h).1
  · exact h

end Link

namespace Standing

variable {σ α : Type} [Endpoint σ] {l : Link σ} {s s' : Standing α}

/-- What becomes of an errand at once: nothing as far as its dialogue is concerned, or it holds its lease and goes
on. -/
inductive Progress (l : Link σ) (s : Standing α) : Standing α → Prop
  | rests {s' : Standing α} (left : s'.left = s.left) (begun : s.Begun → s'.Begun) : Progress l s s'
  | proceeds (holds : s.claim? = some true) : Progress l s (s.proceed l).2

theorem Progress.unbegun (h : s.Progress l s') {d : Dialogue α} (hs : s.Begun ∨ s.left = d) :
    s'.Begun ∨ s'.left = d := by
  cases h with
  | rests hleft hbegun => exact hs.imp hbegun hleft.trans
  | proceeds holds => exact .inl (.inl (claim?_proceed holds l))

theorem Progress.doomed (h : s.Progress l s') {signal : Signal} {fate : α → Prop} (hs : s.left.Doomed signal fate)
    (hraised : signal ∈ l.raised) : s'.left.Doomed signal fate := by
  cases h with
  | rests hleft _ =>
    rw [hleft]
    exact hs
  | proceeds _ => exact doomed_proceed hs hraised

end Standing

namespace Schedule

variable {σ α : Type} {s s' : Schedule σ α} {base i j : Nat} {signal : Signal}

/-- The errand has made an abort. -/
def Aborted (base : Nat) (s : Schedule σ α) (i : Nat) : Prop := Aborts (s.requests base i)

theorem aborted_put {leases : Leases Nat} {link : Link σ} {course : Course α} {added : List (Request × Nat)}
    (hcounted : s.link.calls.length = base + s.callers.length) (hadded : link.heads = s.link.heads ++ added) (j : Nat) :
    (s.put i leases link course).Aborted base j ↔ s.Aborted base j ∨ i = j ∧ Aborts (added.map (·.1)) := by
  rw [Aborted, requests_put hcounted hadded, aborts_append, Aborted]
  split
  · next heq => rw [and_iff_right heq]
  · next hne => exact or_congr_right (iff_of_false aborts_nil fun h => hne h.1)

/-- Errands that share a signal which nobody else raises. Each keeps to it, has made an abort as its requests say, and
may be cancelled only if another has made one. -/
structure Shares (signal : Signal) (post : Nat → Bool → Prop → α → Prop) (base : Nat)
    (s : Schedule σ α) : Prop where
  raised : signal ∈ s.link.raised ↔ ∃ i, s.Aborted base i
  quiet : ∀ a ∈ s.link.alarms, a.signal ≠ signal
  silent : ∀ (i : Nat) (course : Course α), s.errands[i]? = some course →
    ∀ a, course.alarm = some a → a.signal ≠ signal
  heeds : ∀ (i : Nat) (course : Course α), s.errands[i]? = some course → ∃ aborted blamed,
    (aborted = true ↔ s.Aborted base i) ∧ (blamed → ∃ j, j ≠ i ∧ s.Aborted base j) ∧
      course.standing.Heeds signal (post i) aborted blamed

namespace Shares

variable {post : Nat → Bool → Prop → α → Prop} {aborted aborted' : Bool} {blamed' : Prop} {leases : Leases Nat}
  {link : Link σ} {course course' : Course α}

/-- What an errand does keeps to the signal, if the signal is raised just if it has made an abort. -/
theorem put (h : s.Shares signal post base) (hs : s.Orderly base) (hc : s.errands[i]? = some course)
    (haborted : aborted = true ↔ s.Aborted base i) (hraises : s.link.Raises signal aborted aborted' link)
    (hblamed : blamed' → ∃ j, j ≠ i ∧ s.Aborted base j)
    (halarm : ∀ a, course'.alarm = some a → a.signal ≠ signal)
    (hheeds : course'.standing.Heeds signal (post i) aborted' blamed') :
    (s.put i leases link course').Shares signal post base := by
  obtain ⟨added, hadded, hraised, haborted'⟩ := hraises.heads
  have hput : ∀ j, (s.put i leases link course').Aborted base j ↔
      s.Aborted base j ∨ i = j ∧ Aborts (added.map (·.1)) := aborted_put hs.counted hadded
  have hothers : ∀ k, (∃ j, j ≠ k ∧ s.Aborted base j) →
      ∃ j, j ≠ k ∧ (s.put i leases link course').Aborted base j :=
    fun k ⟨j, hne, hj⟩ => ⟨j, hne, (hput j).2 (.inl hj)⟩
  refine ⟨?_, fun a ha => h.quiet a (hraises.alarms ▸ ha), fun j c hj => ?_, fun j c hj => ?_⟩
  · show signal ∈ link.raised ↔ _
    simp only [hraised, h.raised, hput, exists_or, exists_eq_left']
  · rw [errands_put hc] at hj
    split at hj
    · cases hj
      exact halarm
    · exact h.silent j c hj
  · rw [errands_put hc] at hj
    split at hj
    · next heq =>
      subst heq
      cases hj
      refine ⟨aborted', blamed', ?_, fun hb => hothers i (hblamed hb), hheeds⟩
      rw [haborted', haborted, hput, and_iff_right rfl]
    · next hne =>
      obtain ⟨aborted₀, blamed₀, haborted₀, hblamed₀, hheeds₀⟩ := h.heeds j c hj
      refine ⟨aborted₀, blamed₀, ?_, fun hb => hothers j (hblamed₀ hb), hheeds₀⟩
      rw [haborted₀, hput, or_iff_left fun hij => hne hij.1]

variable [Endpoint σ]

theorem step (h : s.Shares signal post base) (hs : s.Orderly base) (hstep : Step i s s') :
    s'.Shares signal post base := by
  -- But for going on, an errand says nothing, and stands where it stood as far as the signal is concerned.
  have hquiet : ∀ {leases : Leases Nat} {link : Link σ} {course course' : Course α}, s.errands[i]? = some course →
      (∀ aborted, s.link.Raises signal aborted aborted link) →
        (∀ a, course'.alarm = some a → course.alarm = some a) →
        (∀ {aborted blamed}, course.standing.Heeds signal (post i) aborted blamed →
          course'.standing.Heeds signal (post i) aborted blamed) →
            (s.put i leases link course').Shares signal post base := by
    intro leases link course course' hc hraises halarm hheeds
    obtain ⟨aborted, blamed, haborted, hblamed, hold⟩ := h.heeds i course hc
    exact h.put hs hc haborted (hraises aborted) hblamed (fun a ha => h.silent i course hc a (halarm a ha))
      (hheeds hold)
  cases hstep with
  | join errand _ => exact hquiet errand (fun _ => .same rfl rfl rfl) (fun _ => id) id
  | grant errand _ => exact hquiet errand (fun _ => .same rfl rfl rfl) (fun _ => id) id
  | notice errand _ => exact hquiet errand (fun _ => .same rfl rfl rfl) (fun _ => id) id
  | go errand _ =>
    obtain ⟨aborted, blamed, haborted, hblamed, hheeds⟩ := h.heeds i _ errand
    obtain ⟨aborted', blamed', hraises, hblamed', hnext⟩ :=
      Standing.heeds_proceed hheeds (hs.sound.issues _ (List.mem_of_getElem? errand))
    refine h.put hs errand haborted hraises (fun hb => ?_) (fun a ha => h.silent i _ errand a ha) hnext
    rcases hblamed' hb with hb | ⟨hfalse, hin⟩
    · exact hblamed hb
    · -- The signal was raised by an errand, and not by this one.
      obtain ⟨j, hj⟩ := h.raised.1 hin
      refine ⟨j, ?_, hj⟩
      rintro rfl
      cases hfalse.symm.trans (haborted.2 hj)
  | ring errand _ => exact hquiet errand (fun _ => .raise (h.silent i _ errand _ rfl)) nofun id
  | leave errand _ => exact hquiet errand (fun _ => .same rfl rfl rfl) (fun _ => id) id

omit [Endpoint σ] in
theorem await (h : s.Shares signal post base) (due : Nat) : (s.await due).Shares signal post base := by
  have haborted : ∀ j, (s.await due).Aborted base j ↔ s.Aborted base j := fun j => by
    rw [Aborted, requests_await, Aborted]
  refine ⟨?_, fun a ha => h.quiet a (Link.mem_alarms_of_passTo ha), h.silent, fun i course hc => ?_⟩
  · simp only [haborted]
    exact (Link.mem_raised_passTo h.quiet due).trans h.raised
  · simp only [haborted]
    exact h.heeds i course hc

end Shares

omit α in
theorem shares_start {α : Type} {post : Nat → Bool → Prop → α → Prop} {l : Link σ}
    (hquiet : l.Quiet (some signal))
    {errands : List (Errand α)}
    (halarms : ∀ e ∈ errands, ∀ a, e.alarm = some a → a.signal ≠ signal)
    (hheeds : ∀ (i : Nat) (e : Errand α), errands[i]? = some e → e.dialogue.Heeds signal (post i) false False) :
    (start l errands).Shares signal post l.calls.length := by
  obtain ⟨hraised, halarm⟩ := hquiet signal rfl
  have hnone : ∀ i, ¬(start l errands).Aborted l.calls.length i := fun i h => by
    obtain ⟨r, hr, -⟩ := h
    cases hr
  refine ⟨iff_of_false hraised fun ⟨i, hi⟩ => hnone i hi, halarm, fun i course hc => ?_, fun i course hc => ?_⟩
  · obtain ⟨e, he, rfl⟩ := getElem?_start hc
    exact halarms e (List.mem_of_getElem? he)
  · obtain ⟨e, he, rfl⟩ := getElem?_start hc
    exact ⟨false, False, iff_of_false nofun (hnone i), nofun, hheeds i e he⟩

section

variable [Endpoint σ]

/-- What a step makes of where an errand stands. -/
theorem Step.progress (h : Step i s s') {course' : Course α} (hj : s'.errands[j]? = some course') :
    ∃ course, s.errands[j]? = some course ∧ course.standing.Progress s.link course'.standing := by
  have hput : ∀ {leases : Leases Nat} {link : Link σ} {old new : Course α}, s.errands[i]? = some old →
      (s.put i leases link new).errands[j]? = some course' → old.standing.Progress s.link new.standing →
        ∃ course, s.errands[j]? = some course ∧ course.standing.Progress s.link course'.standing := by
    intro leases link old new hold hnew hprogress
    rw [errands_put hold] at hnew
    split at hnew
    · next heq =>
      subst heq
      cases hnew
      exact ⟨old, hold, hprogress⟩
    · exact ⟨course', hnew, .rests rfl id⟩
  cases h with
  | join errand _ =>
    refine hput errand hj (.rests rfl ?_)
    rintro (h | ⟨f, h⟩) <;> cases h
  | grant errand _ => exact hput errand hj (.rests rfl fun _ => .inl rfl)
  | notice errand _ => exact hput errand hj (.rests rfl fun _ => .inl rfl)
  | go errand holds => exact hput errand hj (.proceeds holds)
  | ring errand _ => exact hput errand hj (.rests rfl id)
  | leave errand _ => exact hput errand hj (.rests rfl fun _ => .inr ⟨_, rfl⟩)

theorem left_of_unbegun {l : Link σ} {errands : List (Errand α)}
    (honly : ∀ e ∈ errands, e.dialogue.Only fun _ => True)
    (moves : List Move) {e : Errand α} (he : errands[i]? = some e) {course : Course α}
    (hc : ((start l errands).follow moves).errands[i]? = some course) (hbegun : ¬course.standing.Begun) :
    course.standing.left = e.dialogue := by
  have hfirst : ∀ course, (start l errands).errands[i]? = some course →
      course.standing.Begun ∨ course.standing.left = e.dialogue := by
    intro course hc
    obtain ⟨e', he', rfl⟩ := getElem?_start hc
    cases he.symm.trans he'
    exact .inr rfl
  have hlast := ((orderly_start l honly).follow (I := fun s => ∀ course, s.errands[i]? = some course →
    course.standing.Begun ∨ course.standing.left = e.dialogue) hfirst ?step (fun _ _ _ h => h) moves).2
  case step =>
    intro j s s' _ hI hstep course' hc'
    obtain ⟨course, hc, hprogress⟩ := hstep.progress hc'
    exact hprogress.unbegun (hI course hc)
  exact (hlast course hc).resolve_left hbegun

theorem Aborted.step (h : s.Aborted base j) (hs : s.Orderly base) (hstep : Step i s s') : s'.Aborted base j := by
  obtain ⟨leases, link, course, course', rfl, hchanges⟩ := hstep.changes hs.sound
  obtain ⟨added, hadded, -⟩ := hchanges.touches.heads
  exact (aborted_put hs.counted hadded j).2 (.inl h)

/-- After an abort, what is doomed meets its fate. -/
theorem Shares.of_doomed {post : Nat → Bool → Prop → α → Prop} {fate : α → Prop} {course : Course α}
    (h : s.Shares signal post base) (hs : s.Orderly base) (haborted : ∃ j, s.Aborted base j)
    (hc : s.errands[i]? = some course) (hdoomed : course.standing.left.Doomed signal fate) (moves : List Move)
    {f : Finish α} (hf : (s.follow moves).finish? i = some f) : fate f.value := by
  have hfirst : ∀ course, s.errands[i]? = some course → course.standing.left.Doomed signal fate := by
    intro course' hc'
    cases hc.symm.trans hc'
    exact hdoomed
  have hlast := (hs.follow (I := fun s => s.Shares signal post base ∧ (∃ j, s.Aborted base j) ∧
    ∀ course, s.errands[i]? = some course → course.standing.left.Doomed signal fate) ⟨h, haborted, hfirst⟩
    ?step ?pass moves).2.2.2
  case step =>
    intro k s s' hs hI hstep
    obtain ⟨hshares, ⟨j, hj⟩, hdoomed⟩ := hI
    refine ⟨hshares.step hs hstep, ⟨j, hj.step hs hstep⟩, fun course' hc' => ?_⟩
    obtain ⟨course, hc, hprogress⟩ := hstep.progress hc'
    exact hprogress.doomed (hdoomed course hc) (hshares.raised.2 ⟨j, hj⟩)
  case pass =>
    intro s due _ hI
    obtain ⟨hshares, ⟨j, hj⟩, hdoomed⟩ := hI
    refine ⟨hshares.await due, ⟨j, ?_⟩, hdoomed⟩
    rw [Aborted, requests_await]
    exact hj
  obtain ⟨course', hc', hf'⟩ := Option.bind_eq_some_iff.1 hf
  exact Standing.of_doomed (hlast course' hc') hf'

end

end Schedule

/-! ## Uses of one signal -/

/-- A use of a signal: the key whose lease it needs, the time from which on it asks for it, and an alarm that may
ring while it lasts. -/
structure SharedUse where
  use : SignalUse
  key : ObjectKey
  start : Nat := 0
  alarm : Option Alarm := none

namespace SharedUse

def errand (signal : Signal) (u : SharedUse) : Errand (List FlushError) where
  key := u.key
  start := u.start
  dialogue := u.use.dialogue signal
  alarm := u.alarm

/-- Uses of one signal, before their first turns. -/
def schedule {σ : Type} (signal : Signal) (l : Link σ) (uses : List SharedUse) : Schedule σ (List FlushError) :=
  .start l (uses.map (errand signal))

end SharedUse

/-- **A shared signal tells of every abort.** However uses of one signal that its owner never raises have their turns,
and whatever becomes of their requests: the signal is raised if and only if one of them has made an abort, and a
transaction that fails after its start has made one. A use is cancelled only because another one has made an abort;
and a transaction that is begun after an abort is cancelled, unless its start is refused. -/
theorem shared_signal {σ : Type} [Endpoint σ] (signal : Signal) (l : Link σ) (hquiet : l.Quiet (some signal))
    (uses : List SharedUse) (howner : ∀ u ∈ uses, ∀ a, u.alarm = some a → a.signal ≠ signal)
    (moves : List Move) :
    let base := l.calls.length
    let s := (SharedUse.schedule signal l uses).follow moves
    (s.link.isRaised signal = true ↔ ∃ i, s.Aborted base i) ∧
    (∀ i u f, uses[i]? = some u → s.finish? i = some f →
      (.session (.upload .cancelled) ∈ f.value → ∃ j, j ≠ i ∧ s.Aborted base j) ∧
      (u.use.Transacts → ∀ e ∈ f.value, (∃ cause, e = .session (.initFailed cause)) ∨ s.Aborted base i)) ∧
    ∀ i u course, uses[i]? = some u → s.errands[i]? = some course → u.use.Transacts →
      ¬course.standing.Begun → (∃ j, s.Aborted base j) → ∀ more f, (s.follow more).finish? i = some f →
        f.value = [.session (.upload .cancelled)] ∨ ∃ cause, f.value = [.session (.initFailed cause)] := by
  intro base s
  have huses : ∀ {i : Nat} {e : Errand (List FlushError)}, (uses.map (SharedUse.errand signal))[i]? = some e →
      ∃ u, uses[i]? = some u ∧ u.errand signal = e := fun he => by
    rw [List.getElem?_map] at he
    exact Option.map_eq_some_iff.1 he
  have hheeds : ∀ (i : Nat) (e : Errand (List FlushError)), (uses.map (SharedUse.errand signal))[i]? = some e →
      e.dialogue.Heeds signal (fun aborted blamed fs => ∀ u, uses[i]? = some u → u.use.Ends aborted blamed fs) false
        False := by
    intro i e he
    obtain ⟨u, hu, rfl⟩ := huses he
    refine (SignalUse.heeds_dialogue signal u.use).mono fun aborted blamed fs hends u' hu' => ?_
    cases hu.symm.trans hu'
    exact hends
  have honly : ∀ e ∈ uses.map (SharedUse.errand signal), e.dialogue.Only fun _ => True := fun e he => by
    obtain ⟨i, hi⟩ := List.mem_iff_getElem?.1 he
    exact (hheeds i e hi).only
  obtain ⟨horderly, hshares⟩ := (Schedule.orderly_start l honly).follow
    (Schedule.shares_start hquiet (List.forall_mem_map.2 howner) hheeds)
    (fun _ _ _ hs hI hstep => hI.step hs hstep) (fun _ due _ hI => hI.await due) moves
  refine ⟨Link.isRaised_iff.trans hshares.raised, fun i u f hu hf => ?_,
    fun i u course hu hc htransacts hbegun hany => ?_⟩
  · obtain ⟨course, hc, hend⟩ := Option.bind_eq_some_iff.1 hf
    obtain ⟨aborted, blamed, haborted, hblamed, hheeds⟩ := hshares.heeds i course hc
    have hends := hheeds.of_finish hend u hu
    exact ⟨fun hin => hblamed (hends.blames hin), fun ht e he => (hends.aborts ht e he).imp_right haborted.1⟩
  · intro more f hf
    have he : (uses.map (SharedUse.errand signal))[i]? = some (u.errand signal) := by
      rw [List.getElem?_map, hu, Option.map_some]
    have hleft : course.standing.left = u.use.dialogue signal := Schedule.left_of_unbegun honly moves he hc hbegun
    have hdoomed := SignalUse.doomed_dialogue signal htransacts
    rw [← hleft] at hdoomed
    exact hshares.of_doomed horderly hany hc hdoomed more hf

/-- The first of three sessions fails while the second one is sending, which is cancelled; and so is the third, which is
begun later. -/
theorem failed_session_cancels_others :
    let policy : PartPolicy := ⟨1, ⟨0, 1, 1⟩, 100⟩
    let transaction : SignalUse := .session ⟨"s", by decide⟩ policy [(0, .execute [⟨1, 2, .buffer [1, 2] 0⟩])]
    let uses : List SharedUse :=
      [{ use := transaction, key := ⟨"a", by decide⟩ }, { use := transaction, key := ⟨"b", by decide⟩ },
       { use := transaction, key := ⟨"c", by decide⟩, start := 3 }]
    let denied : Reaction := { delay := 1, failure := some (.http 403 "denied") }
    let reaction (lane : Request.Lane) (n : Nat) : Reaction :=
      if lane = .part 1 then if n = 0 then denied else { delay := 5 } else {}
    let l : Link DryRun := { endpoint := {}, conditions := { reaction } }
    let s := (SharedUse.schedule 0 l uses).follow [.turn 0, .turn 1, .pass 1, .turn 0, .turn 1]
    let last := s.follow [.pass 3, .turn 2]
    l.Quiet (some 0) ∧ (∀ u ∈ uses, ∀ a, u.alarm = some a → a.signal ≠ 0) ∧ s.link.isRaised 0 = true ∧
      (∃ f, s.finish? 1 = some f ∧ f.value = [.session (.upload .cancelled)]) ∧
        (∃ j, j ≠ 1 ∧ s.Aborted 0 j) ∧
      ∃ f, last.finish? 2 = some f ∧
        (f.value = [.session (.upload .cancelled)] ∨ ∃ cause, f.value = [.session (.initFailed cause)]) := by
  intro policy transaction uses denied reaction l s last
  have hquiet : l.Quiet (some 0) := fun _ _ => ⟨nofun, nofun⟩
  have howner : ∀ u ∈ uses, ∀ a, u.alarm = some a → a.signal ≠ 0 := by
    simp [uses]
  have hraised : s.link.isRaised 0 = true := by
    unfold s l uses transaction reaction denied policy
    decide +kernel
  have hcancelled : (s.finish? 1).map (·.value) = some [.session (.upload .cancelled)] := by
    unfold s l uses transaction reaction denied policy
    decide +kernel
  have hended : (last.finish? 2).isSome := by
    unfold last s l uses transaction reaction denied policy
    decide +kernel
  have hfresh : s.errands[2]? = some ⟨⟨"c", by decide⟩, none, .fresh 3 (transaction.dialogue 0)⟩ := by
    unfold s l uses transaction reaction denied policy
    rfl
  obtain ⟨hiff, hends, hlater⟩ := shared_signal 0 l hquiet uses howner
    [.turn 0, .turn 1, .pass 1, .turn 0, .turn 1]
  obtain ⟨f, hf, hvalue⟩ := Option.map_eq_some_iff.1 hcancelled
  obtain ⟨g, hg⟩ := Option.isSome_iff_exists.1 hended
  have hblamed := (hends 1 _ f rfl hf).1 (by rw [hvalue]; exact List.mem_cons_self)
  have hunbegun : ¬(Standing.fresh 3 (transaction.dialogue 0)).Begun := by
    rintro (h | ⟨f, h⟩) <;> cases h
  exact ⟨hquiet, howner, hraised, ⟨f, hf, hvalue⟩, hblamed, g, hg,
    hlater 2 _ _ rfl hfresh ⟨_, _, rfl⟩ hunbegun (hiff.1 hraised) [.pass 3, .turn 2] g hg⟩

/-- Two sessions one after the other. The first fails, and though nobody raises their signal, it is raised, and the
second is cancelled, which would have succeeded alone. -/
theorem failed_session_cancels_another :
    let policy : PartPolicy := ⟨1, ⟨0, 1, 1⟩, 100⟩
    let transaction (part : Nat) : SignalUse :=
      .session ⟨"s", by decide⟩ policy [(0, .execute [⟨part, 2, .buffer [1, 2] 0⟩])]
    let first : SharedUse := { use := transaction 1, key := ⟨"a", by decide⟩ }
    let second : SharedUse := { use := transaction 2, key := ⟨"b", by decide⟩ }
    let reaction (lane : Request.Lane) (_ : Nat) : Reaction :=
      if lane = .part 1 then { failure := some (.http 403 "denied") } else {}
    let l : Link DryRun := { endpoint := {}, conditions := { reaction } }
    let s := (SharedUse.schedule 0 l [first, second]).follow [.turn 0, .turn 1]
    let alone := (SharedUse.schedule 0 l [second]).follow [.turn 0]
    l.Quiet (some 0) ∧ (∀ u ∈ [first, second], u.alarm = none) ∧
      (s.finish? 0).map (·.value) = some [.session (.upload (.partFailed 1 (.http 403 "denied")))] ∧
      s.link.isRaised 0 = true ∧ (s.finish? 1).map (·.value) = some [.session (.upload .cancelled)] ∧
      (alone.finish? 0).map (·.value) = some [] := by
  intro policy transaction first second reaction l s alone
  refine ⟨fun _ _ => ⟨nofun, nofun⟩, by simp [first, second], ?_, ?_, ?_, ?_⟩
  · unfold s l first second transaction reaction policy
    decide +kernel
  · unfold s l first second transaction reaction policy
    decide +kernel
  · unfold s l first second transaction reaction policy
    decide +kernel
  · unfold alone l second transaction reaction policy
    decide +kernel

end ObjectFlush
