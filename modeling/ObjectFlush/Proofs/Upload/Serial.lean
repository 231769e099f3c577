import ObjectFlush.Proofs.Upload.Turns

/-!
The log of a schedule, in whatever order its errands have their turns and the clock runs. Every call is made by
an errand that holds the lease of its key, and is over when the errand lets go of it. So of two errands for one
key, all calls of the one are over before the first of the other is made (`Schedule.Orderly.apart`).
-/

namespace ObjectFlush

/-- By that time the call has started, and if it has ended, it had ended by then. -/
def Call.OverBy (c : Call) (time : Nat) : Prop :=
  c.started ≤ time ∧ ∀ ended answer, c.finish = some (ended, answer) → ended ≤ time

theorem Call.OverBy.mono {c : Call} {time time' : Nat} (h : c.OverBy time) (hle : time ≤ time') : c.OverBy time' :=
  ⟨Nat.le_trans h.1 hle, fun ended answer hend => Nat.le_trans (h.2 ended answer hend) hle⟩

/-- The errand has been given its lease, now or before. -/
def Standing.Begun {α : Type} (s : Standing α) : Prop := s.claim? = some true ∨ ∃ f, s.finish? = some f

/-- One thing that happens to a schedule: an errand has a turn, or the clock runs. -/
inductive Move where
  | turn (i : Nat)
  | pass (due : Nat)

namespace Schedule

variable {σ α : Type}

/-- The key of an errand. -/
def key? (s : Schedule σ α) (i : Nat) : Option ObjectKey := s.errands[i]?.map (·.key)

/-- What an errand has ended with. -/
def finish? (s : Schedule σ α) (i : Nat) : Option (Finish α) := s.errands[i]?.bind (·.standing.finish?)

/-- The calls made since there were `base`, each with the errand that made it. -/
def calls (s : Schedule σ α) (base : Nat) : List (Nat × Call) := s.callers.zip (s.link.calls.drop base)

/-- The `p`-th of these calls was made by the `i`-th errand. -/
def Made (s : Schedule σ α) (base i p : Nat) (c : Call) : Prop :=
  s.callers[p]? = some i ∧ s.link.calls[base + p]? = some c

variable {s s' : Schedule σ α} {base i j p q : Nat} {c d : Call}

theorem calls_eq_some_iff : (s.calls base)[p]? = some (i, c) ↔ s.Made base i p c := by
  rw [calls, List.getElem?_zip_eq_some, List.getElem?_drop, Made]

theorem finish?_of_errand {course : Course α} (h : s.errands[i]? = some course) :
    s.finish? i = course.standing.finish? := by
  rw [finish?, h, Option.bind_some]

theorem Changes.finish?_eq {course course' : Course α} {link : Link σ} (h : s.Changes i course course' link) :
    s.finish? i = none :=
  (finish?_of_errand h.errand).trans h.unfinished

theorem key?_of_errand {course : Course α} (h : s.errands[i]? = some course) : s.key? i = some course.key := by
  rw [key?, h, Option.map_some]

theorem key?_put {leases : Leases Nat} {link : Link σ} {course course' : Course α}
    (h : s.errands[i]? = some course) (hkey : course'.key = course.key) (j : Nat) :
    (s.put i leases link course').key? j = s.key? j := by
  rw [key?, errands_put h]
  split
  · next heq =>
    subst heq
    rw [key?_of_errand h, Option.map_some, hkey]
  · rfl

theorem finish?_put {leases : Leases Nat} {link : Link σ} {course course' : Course α}
    (h : s.errands[i]? = some course) (j : Nat) :
    (s.put i leases link course').finish? j = if i = j then course'.standing.finish? else s.finish? j := by
  rw [finish?, errands_put h]
  split <;> rfl

variable [Endpoint σ]

def move (s : Schedule σ α) : Move → Schedule σ α
  | .turn i => s.turn i
  | .pass due => s.await due

/-- The schedule after a course of moves. -/
def follow (s : Schedule σ α) (moves : List Move) : Schedule σ α := moves.foldl move s

/-! ## The log -/

omit [Endpoint σ] in
/-- The log is that of the errands: each call is made by one that has begun, and all that becomes of it happens
before the errand lets go of its lease. -/
structure Orderly (base : Nat) (s : Schedule σ α) : Prop where
  sound : s.Sound
  seated : ∃ lines, s.Seated lines
  counted : s.link.calls.length = base + s.callers.length
  awaited : ∀ i course, s.errands[i]? = some course → ∀ x ∈ course.standing.pending,
    ∃ p, x.2.place = base + p ∧ s.callers[p]? = some i
  begun : ∀ i p c, s.Made base i p c → ∃ course, s.errands[i]? = some course ∧ course.standing.Begun
  past : ∀ i p c, s.Made base i p c → c.OverBy s.link.now
  finished : ∀ i f, s.finish? i = some f → f.time ≤ s.link.now ∧ ∀ p c, s.Made base i p c → c.OverBy f.time
  apart : ∀ p q i j c d, p < q → s.Made base i p c → s.Made base j q d → i ≠ j → s.key? i = s.key? j →
    (∃ f, s.finish? i = some f ∧ f.time ≤ d.started) ∧ ∀ r e, s.Made base i r e → r < q

omit [Endpoint σ] in
/-- What becomes of the log in one step of the `i`-th errand. -/
theorem Orderly.made_put (h : s.Orderly base) {course course' : Course α} {leases : Leases Nat} {link : Link σ}
    {P : Request → Prop} (hc : s.errands[i]? = some course)
    (htouches : s.link.Touches P course.standing.pending course'.standing.pending link)
    (hmade : (s.put i leases link course').Made base j p c) :
    s.Made base j p c ∨ (j = i ∧ (∀ time answer, c.finish = some (time, answer) → time = s.link.now) ∧
      ((∃ old, s.Made base i p old ∧ old.head = c.head) ∨
        (s.callers.length ≤ p ∧ c.started = s.link.now ∧ P c.request))) := by
  obtain ⟨hcaller, hcall⟩ := hmade
  change (s.callers ++ _)[p]? = some j at hcaller
  change link.calls[base + p]? = some c at hcall
  have hcounted := h.counted
  by_cases hp : p < s.callers.length
  · rw [List.getElem?_append_left hp] at hcaller
    rcases htouches.spares (base + p) c hcall with hsame | ⟨hown, htime⟩
    · exact .inl ⟨hcaller, hsame⟩
    · -- The call was one that the errand waited for.
      have hplace := hown.resolve_right (by omega)
      obtain ⟨x, hx, hxp⟩ := List.mem_map.1 hplace
      obtain ⟨p', hp', hcaller'⟩ := h.awaited i course hc x hx
      obtain rfl : p' = p := by omega
      obtain rfl := Option.some.inj (hcaller.symm.trans hcaller')
      obtain ⟨old, hold, hhead⟩ := htouches.head_of_lt (by omega) hcall
      exact .inr ⟨rfl, htime, .inl ⟨old, ⟨hcaller, hold⟩, hhead⟩⟩
  · rw [List.getElem?_append_right (Nat.le_of_not_lt hp)] at hcaller
    have hj := List.eq_of_mem_replicate (List.mem_of_getElem? hcaller)
    obtain ⟨hrequest, hstarted⟩ := htouches.head_of_le (by omega) hcall
    refine .inr ⟨hj, fun time answer hend => ?_, .inr ⟨Nat.le_of_not_lt hp, hstarted, hrequest⟩⟩
    rcases htouches.spares (base + p) c hcall with hsame | ⟨-, htime⟩
    · rw [List.getElem?_eq_none (by omega)] at hsame
      cases hsame
    · exact htime time answer hend

omit [Endpoint σ] in
/-- What the errand has not made is left as it is. -/
theorem Orderly.made_put_iff (h : s.Orderly base) {course course' : Course α} {leases : Leases Nat} {link : Link σ}
    {P : Request → Prop} (hc : s.errands[i]? = some course)
    (htouches : s.link.Touches P course.standing.pending course'.standing.pending link) (hj : i ≠ j) :
    (s.put i leases link course').Made base j p c ↔ s.Made base j p c := by
  constructor
  · intro hmade
    rcases h.made_put hc htouches hmade with hold | ⟨rfl, -⟩
    · exact hold
    · exact absurd rfl hj
  · rintro ⟨hcaller, hcall⟩
    have hp := (List.getElem?_eq_some_iff.1 hcaller).1
    have hcounted := h.counted
    refine ⟨?_, ?_⟩
    · show (s.callers ++ _)[p]? = some j
      rw [List.getElem?_append_left hp]
      exact hcaller
    · show link.calls[base + p]? = some c
      rw [htouches.spared (by omega) fun hin => ?_]
      · exact hcall
      · obtain ⟨x, hx, hxp⟩ := List.mem_map.1 hin
        obtain ⟨p', hp', hcaller'⟩ := h.awaited i course hc x hx
        obtain rfl : p' = p := by omega
        exact hj (Option.some.inj (hcaller'.symm.trans hcaller))

namespace Orderly

section

variable {course course' : Course α} {leases : Leases Nat} {link : Link σ}

omit [Endpoint σ] in
theorem past_put (h : s.Orderly base) (hchanges : s.Changes i course course' link)
    (hmade : (s.put i leases link course').Made base j p c) : c.OverBy link.now := by
  have hnow : link.now = s.link.now := hchanges.touches.now
  rw [hnow]
  rcases h.made_put hchanges.errand hchanges.touches hmade with hold |
    ⟨rfl, htime, ⟨old, hold, hhead⟩ | ⟨-, hstarted, -⟩⟩
  · exact h.past j p c hold
  · refine ⟨?_, fun time answer hend => Nat.le_of_eq (htime time answer hend)⟩
    have hsame : old.started = c.started := congrArg Prod.snd hhead
    rw [← hsame]
    exact (h.past _ p old hold).1
  · exact ⟨Nat.le_of_eq hstarted, fun time answer hend => Nat.le_of_eq (htime time answer hend)⟩

omit [Endpoint σ] in
theorem callers_put (leases : Leases Nat) (link : Link σ) (course : Course α) {k : Nat}
    (hp : s.callers[p]? = some k) :
    (s.put i leases link course).callers[p]? = some k := by
  show (s.callers ++ _)[p]? = some k
  rw [List.getElem?_append_left (List.getElem?_eq_some_iff.1 hp).1]
  exact hp

omit [Endpoint σ] in
theorem awaited_put (h : s.Orderly base) (hchanges : s.Changes i course course' link) {course₀ : Course α}
    (hj : (s.put i leases link course').errands[j]? = some course₀) {x : Pending}
    (hx : x ∈ course₀.standing.pending) :
    ∃ p, x.2.place = base + p ∧ (s.put i leases link course').callers[p]? = some j := by
  have hc := hchanges.errand
  have hcounted := h.counted
  rw [errands_put hc] at hj
  split at hj
  · next heq =>
    subst heq
    cases hj
    rcases hchanges.touches.own x hx with hx | hnew
    · obtain ⟨p, hp, hcaller⟩ := h.awaited i course hc x hx
      exact ⟨p, hp, callers_put leases link course' hcaller⟩
    · -- A call that the errand has just made.
      have hlt := hchanges.touches.issues.place_lt hx
      refine ⟨x.2.place - base, by omega, ?_⟩
      show (s.callers ++ List.replicate _ i)[_]? = some i
      rw [List.getElem?_append_right (by omega), List.getElem?_replicate_of_lt (by omega)]
  · obtain ⟨p, hp, hcaller⟩ := h.awaited j course₀ hj x hx
    exact ⟨p, hp, callers_put leases link course' hcaller⟩

omit [Endpoint σ] in
/-- Whoever makes a call holds its lease. -/
theorem holds_of_new (h : s.Orderly base) (hchanges : s.Changes i course course' link)
    (hp : s.callers.length ≤ p) (hmade : (s.put i leases link course').Made base j p c) :
    course.standing.claim? = some true := by
  refine hchanges.holds.resolve_right fun heq => ?_
  have hlt : base + p < link.calls.length := (List.getElem?_eq_some_iff.1 hmade.2).1
  have hcounted := h.counted
  rw [heq] at hlt
  omega

omit [Endpoint σ] in
theorem begun_put (h : s.Orderly base) (hchanges : s.Changes i course course' link)
    (hmade : (s.put i leases link course').Made base j p c) :
    ∃ course₀, (s.put i leases link course').errands[j]? = some course₀ ∧ course₀.standing.Begun := by
  have hc := hchanges.errand
  have hkept : (∃ course₀, s.errands[j]? = some course₀ ∧ course₀.standing.Begun) →
      ∃ course₀, (s.put i leases link course').errands[j]? = some course₀ ∧ course₀.standing.Begun := by
    rintro ⟨course₀, hj, hb⟩
    rw [errands_put hc]
    split
    · next heq =>
      subst heq
      obtain rfl := Option.some.inj (hc.symm.trans hj)
      refine ⟨course', rfl, ?_⟩
      rcases hb with hclaim | ⟨f, hf⟩
      · exact hchanges.begun hclaim
      · rw [hchanges.unfinished] at hf
        cases hf
    · exact ⟨course₀, hj, hb⟩
  apply hkept
  rcases h.made_put hc hchanges.touches hmade with hold | ⟨rfl, -, ⟨old, hold, -⟩ | ⟨hp, -, -⟩⟩
  · exact h.begun j p c hold
  · exact h.begun j p old hold
  · exact ⟨course, hc, .inl (h.holds_of_new hchanges hp hmade)⟩

omit [Endpoint σ] in
theorem finished_put (h : s.Orderly base) (hchanges : s.Changes i course course' link) {f : Finish α}
    (hf : (s.put i leases link course').finish? j = some f) :
    f.time ≤ link.now ∧ ∀ p c, (s.put i leases link course').Made base j p c → c.OverBy f.time := by
  have hnow : link.now = s.link.now := hchanges.touches.now
  rw [finish?_put hchanges.errand] at hf
  split at hf
  · obtain ⟨-, htime, -⟩ := hchanges.ends f hf
    rw [htime, ← hnow]
    exact ⟨Nat.le_refl _, fun p c hmade => h.past_put hchanges hmade⟩
  · next hne =>
    obtain ⟨htime, hover⟩ := h.finished j f hf
    exact ⟨Nat.le_trans htime (Nat.le_of_eq hnow.symm), fun p c hmade =>
      hover p c ((h.made_put_iff hchanges.errand hchanges.touches hne).1 hmade)⟩

omit [Endpoint σ] in
/-- When another errand for the key has made a call, and this one makes one now, that errand has ended. -/
theorem finished_of_made (h : s.Orderly base) (hchanges : s.Changes i course course' link)
    (hholds : course.standing.claim? = some true) (hj : j ≠ i) (hkey : s.key? j = some course.key)
    (hmade : s.Made base j p c) : ∃ f, s.finish? j = some f := by
  obtain ⟨lines, hseated⟩ := h.seated
  obtain ⟨other, hother, hb⟩ := h.begun j p c hmade
  rcases hb with hclaim | ⟨f, hf⟩
  · rw [key?_of_errand hother] at hkey
    have hmine : s.claim i = some (course.key, true) := by
      rw [claim_of_errand hchanges.errand, hholds, Option.map_some]
    have htheirs : s.claim j = some (course.key, true) := by
      rw [claim_of_errand hother, hclaim, Option.map_some, Option.some.inj hkey]
    exact absurd (hseated.exclusive htheirs hmine) hj
  · exact ⟨f, (finish?_of_errand hother).trans hf⟩

omit [Endpoint σ] in
theorem apart_put (h : s.Orderly base) (hchanges : s.Changes i course course' link) {a b : Nat} (hpq : p < q)
    (hp : (s.put i leases link course').Made base a p c) (hq : (s.put i leases link course').Made base b q d)
    (hab : a ≠ b) (hkeys : s.key? a = s.key? b) :
    (∃ f, (s.put i leases link course').finish? a = some f ∧ f.time ≤ d.started) ∧
      ∀ r e, (s.put i leases link course').Made base a r e → r < q := by
  have hc := hchanges.errand
  have htouches := hchanges.touches
  -- An errand that has ended makes no calls any more.
  have hkept : (∃ f, s.finish? a = some f ∧ f.time ≤ d.started) → (∀ r e, s.Made base a r e → r < q) →
      (∃ f, (s.put i leases link course').finish? a = some f ∧ f.time ≤ d.started) ∧
        ∀ r e, (s.put i leases link course').Made base a r e → r < q := by
    rintro ⟨f, hf, htime⟩ hbefore
    have hne : i ≠ a := by
      rintro rfl
      rw [hchanges.finish?_eq] at hf
      cases hf
    rw [finish?_put hc, if_neg hne]
    exact ⟨⟨f, hf, htime⟩, fun r e hr => hbefore r e ((h.made_put_iff hc htouches hne).1 hr)⟩
  have hbefore : ∀ {d₀}, s.Made base b q d₀ → d₀.started = d.started →
      (∃ f, s.finish? a = some f ∧ f.time ≤ d.started) ∧ ∀ r e, s.Made base a r e → r < q := by
    -- A later call that was there before: so was the earlier one.
    intro d₀ hd₀ hstarted
    have hlt := (List.getElem?_eq_some_iff.1 hd₀.1).1
    rcases h.made_put hc htouches hp with hp | ⟨rfl, -, ⟨old, hold, -⟩ | ⟨hnew, -, -⟩⟩
    · exact hstarted ▸ h.apart p q a b c d₀ hpq hp hd₀ hab hkeys
    · exact hstarted ▸ h.apart p q a b old d₀ hpq hold hd₀ hab hkeys
    · omega
  rcases h.made_put hc htouches hq with hold | ⟨rfl, -, ⟨old, hold, hhead⟩ | ⟨hnew, hstarted, -⟩⟩
  · obtain ⟨hf, hr⟩ := hbefore hold rfl
    exact hkept hf hr
  · obtain ⟨hf, hr⟩ := hbefore hold (congrArg Prod.snd hhead)
    exact hkept hf hr
  · -- A call of this moment: its errand holds the lease, so the other has let go of it.
    have hp := (h.made_put_iff hc htouches (Ne.symm hab)).1 hp
    obtain ⟨f, hf⟩ := h.finished_of_made hchanges (h.holds_of_new hchanges hnew hq) hab
      (hkeys.trans (key?_of_errand hc)) hp
    refine hkept ⟨f, hf, hstarted ▸ (h.finished a f hf).1⟩ fun r e hr => ?_
    exact Nat.lt_of_lt_of_le (List.getElem?_eq_some_iff.1 hr.1).1 hnew

end

theorem step (h : s.Orderly base) (hstep : Step i s s') : s'.Orderly base := by
  obtain ⟨lines, hseated⟩ := h.seated
  obtain ⟨lines', hseated', -⟩ := hseated.step hstep
  have hsound := h.sound.step hstep
  obtain ⟨leases, link, course, course', rfl, hchanges⟩ := hstep.changes h.sound
  have hcounted := h.counted
  have hlength := hchanges.touches.length_le
  refine ⟨hsound, ⟨lines', hseated'⟩, ?_, fun _ _ hj _ hx => h.awaited_put hchanges hj hx,
    fun _ _ _ hmade => h.begun_put hchanges hmade, fun _ _ _ hmade => h.past_put hchanges hmade,
    fun _ _ hf => h.finished_put hchanges hf, fun p q a b c d hpq hp hq hab hkeys => ?_⟩
  · show link.calls.length = base + (s.callers ++ List.replicate _ i).length
    rw [List.length_append, List.length_replicate]
    omega
  · rw [key?_put hchanges.errand hchanges.key, key?_put hchanges.errand hchanges.key] at hkeys
    exact h.apart_put hchanges hpq hp hq hab hkeys

end Orderly

omit [Endpoint σ] in
theorem made_await (due : Nat) : (s.await due).Made base i p c ↔ s.Made base i p c := by
  show s.callers[p]? = some i ∧ (s.link.passTo due).calls[base + p]? = some c ↔ _
  rw [Link.calls_passTo]
  rfl

omit [Endpoint σ] in
theorem Orderly.await (h : s.Orderly base) (due : Nat) : (s.await due).Orderly base := by
  obtain ⟨lines, hseated⟩ := h.seated
  have hcalls : (s.await due).link.calls = s.link.calls := Link.calls_passTo ..
  have hnow : s.link.now ≤ (s.await due).link.now := s.link.now_le_passTo due
  refine ⟨⟨h.sound.only, fun course hc x hx => (h.sound.issues course hc x hx).of_calls_eq hcalls⟩,
    ⟨lines, hseated⟩, (congrArg List.length hcalls).trans h.counted, h.awaited, fun i p c hm => ?_,
    fun i p c hm => ?_, fun i f hf => ?_, fun p q i j c d hpq hc hd => ?_⟩
  · exact h.begun i p c ((made_await due).1 hm)
  · exact (h.past i p c ((made_await due).1 hm)).mono hnow
  · obtain ⟨htime, hover⟩ := h.finished i f hf
    exact ⟨Nat.le_trans htime hnow, fun p c hm => hover p c ((made_await due).1 hm)⟩
  · exact fun hij hkeys => ⟨(h.apart p q i j c d hpq ((made_await due).1 hc) ((made_await due).1 hd) hij hkeys).1,
      fun r e hr => (h.apart p q i j c d hpq ((made_await due).1 hc) ((made_await due).1 hd) hij hkeys).2 r e
        ((made_await due).1 hr)⟩

omit [Endpoint σ] in
theorem getElem?_start {l : Link σ} {errands : List (Errand α)} {course : Course α}
    (h : (start l errands).errands[i]? = some course) :
    ∃ e, errands[i]? = some e ∧ course = ⟨e.key, e.alarm, .fresh e.start e.dialogue⟩ := by
  change (errands.map _)[i]? = some course at h
  rw [List.getElem?_map] at h
  obtain ⟨e, he, rfl⟩ := Option.map_eq_some_iff.1 h
  exact ⟨e, he, rfl⟩

omit [Endpoint σ] in
theorem errands_start {l : Link σ} {errands : List (Errand α)} {course : Course α}
    (h : course ∈ (start l errands).errands) :
    ∃ e ∈ errands, course = ⟨e.key, e.alarm, .fresh e.start e.dialogue⟩ := by
  obtain ⟨i, hi⟩ := List.mem_iff_getElem?.1 h
  obtain ⟨e, he, rfl⟩ := getElem?_start hi
  exact ⟨e, List.mem_of_getElem? he, rfl⟩

omit [Endpoint σ] in
theorem finish?_start (l : Link σ) (errands : List (Errand α)) (i : Nat) : (start l errands).finish? i = none := by
  rw [finish?, Option.bind_eq_none_iff]
  intro course hc
  obtain ⟨e, -, rfl⟩ := getElem?_start hc
  rfl

omit [Endpoint σ] in
theorem orderly_start (l : Link σ) {errands : List (Errand α)}
    (h : ∀ e ∈ errands, e.dialogue.Only fun _ => True) : (start l errands).Orderly l.calls.length := by
  have hnone : ∀ i p c, ¬ (start l errands).Made l.calls.length i p c := fun i p c hm => by cases hm.1
  have hclaim : (start l errands).claim = fun _ => none := by
    funext i
    rw [claim]
    cases hc : (start l errands).errands[i]? with
    | none => rfl
    | some course =>
      obtain ⟨e, -, rfl⟩ := errands_start (List.mem_of_getElem? hc)
      rfl
  refine ⟨⟨fun course hc => ?_, fun course hc => ?_⟩, ⟨fun _ => none, ?_⟩, rfl, fun i course hc x hx => ?_,
    fun i p c hm => absurd hm (hnone i p c), fun i p c hm => absurd hm (hnone i p c), fun i f hf => ?_,
    fun p q i j c d _ hc => absurd hc (hnone i p c)⟩
  · obtain ⟨e, he, rfl⟩ := errands_start hc
    exact h e he
  · obtain ⟨e, -, rfl⟩ := errands_start hc
    exact List.forall_mem_nil _
  · rw [Seated, hclaim]
    exact Leases.seats_empty
  · obtain ⟨e, -, rfl⟩ := errands_start (List.mem_of_getElem? hc)
    cases hx
  · rw [finish?_start] at hf
    cases hf

/-- What every step and every passing of time keeps, a course of moves keeps. -/
theorem Orderly.follow {I : Schedule σ α → Prop} (h : s.Orderly base) (hI : I s)
    (hstep : ∀ i s s', s.Orderly base → I s → Step i s s' → I s')
    (hpass : ∀ s due, s.Orderly base → I s → I (s.await due)) (moves : List Move) :
    (s.follow moves).Orderly base ∧ I (s.follow moves) := by
  have hsteps : ∀ {i s s'}, s.Orderly base → I s → Steps i s s' → s'.Orderly base ∧ I s' := by
    intro i s s' h hI hsteps
    induction hsteps with
    | refl => exact ⟨h, hI⟩
    | tail _ hlast ih => exact ⟨ih.1.step hlast, hstep _ _ _ ih.1 ih.2 hlast⟩
  induction moves generalizing s with
  | nil => exact ⟨h, hI⟩
  | cons m rest ih =>
    have hmove : (s.move m).Orderly base ∧ I (s.move m) := by
      cases m with
      | turn i =>
        obtain ⟨lines, hseated⟩ := h.seated
        exact hsteps h hI (hseated.turn h.sound i).1
      | pass due => exact ⟨h.await due, hpass s due h hI⟩
    exact ih hmove.1 hmove.2

/-- When an errand has ended, it stays so, and nothing more becomes of its calls. -/
theorem Orderly.of_finished (h : s.Orderly base) {f : Finish α} (hf : s.finish? i = some f) (moves : List Move) :
    (s.follow moves).finish? i = some f ∧ ∀ p c, (s.follow moves).Made base i p c ↔ s.Made base i p c := by
  refine (h.follow (I := fun s' => s'.finish? i = some f ∧ ∀ p c, s'.Made base i p c ↔ s.Made base i p c)
    ⟨hf, fun _ _ => Iff.rfl⟩ ?_ ?_ moves).2
  · intro j s₁ s₂ h ⟨hf, hm⟩ hstep
    obtain ⟨leases, link, course, course', rfl, hchanges⟩ := hstep.changes h.sound
    have hne : j ≠ i := by
      rintro rfl
      rw [hchanges.finish?_eq] at hf
      cases hf
    rw [finish?_put hchanges.errand, if_neg hne]
    exact ⟨hf, fun p c => (h.made_put_iff hchanges.errand hchanges.touches hne).trans (hm p c)⟩
  · intro s₁ due _ hI
    exact ⟨hI.1, fun p c => (made_await due).trans (hI.2 p c)⟩

/-- What a move of one errand leaves alone. -/
theorem Orderly.frame_turn (h : s.Orderly base) (i : Nat) :
    (∀ j, (s.turn i).key? j = s.key? j) ∧ ∀ j, i ≠ j → (s.turn i).errands[j]? = s.errands[j]? := by
  obtain ⟨lines, hseated⟩ := h.seated
  obtain ⟨-, hkeys, hothers⟩ := (hseated.turn h.sound i).1.frame h.sound
  refine ⟨fun j => ?_, hothers⟩
  rw [key?, key?, ← List.getElem?_map, ← List.getElem?_map, hkeys]

theorem Orderly.key?_follow (h : s.Orderly base) (moves : List Move) (j : Nat) :
    (s.follow moves).key? j = s.key? j := by
  refine (h.follow (I := fun s' => s'.key? j = s.key? j) rfl ?_ (fun _ _ _ hI => hI) moves).2
  intro i s₁ s₂ h hI hstep
  obtain ⟨leases, link, course, course', rfl, hchanges⟩ := hstep.changes h.sound
  exact (key?_put hchanges.errand hchanges.key j).trans hI

/-- The log only grows. -/
theorem callers_follow (s : Schedule σ α) (moves : List Move) :
    ∃ more, (s.follow moves).callers = s.callers ++ more := by
  induction moves generalizing s with
  | nil => exact ⟨[], (List.append_nil _).symm⟩
  | cons m rest ih =>
    obtain ⟨more, hmore⟩ := ih (s.move m)
    have hmove : ∃ first, (s.move m).callers = s.callers ++ first := by
      cases m with
      | turn i =>
        show ∃ first, (s.turn i).callers = s.callers ++ first
        unfold Schedule.turn
        split
        · exact ⟨[], (List.append_nil _).symm⟩
        · exact ⟨_, rfl⟩
      | pass due => exact ⟨[], (List.append_nil _).symm⟩
    obtain ⟨first, hfirst⟩ := hmove
    refine ⟨first ++ more, ?_⟩
    show ((s.move m).follow rest).callers = _
    rw [hmore, hfirst, List.append_assoc]

omit [Endpoint σ] in
/-- An errand makes one call after the other, but for those for parts. -/
structure Sequential (base : Nat) (s : Schedule σ α) : Prop where
  waited : ∀ i p c, s.Made base i p c → c.finish = none → ¬ c.request.IsPart →
    ∃ course, s.errands[i]? = some course ∧ base + p ∈ Pending.places course.standing.pending
  latest : ∀ i course, s.errands[i]? = some course → ∀ x ∈ course.standing.pending,
    x.1.IsPart ∨ ∀ q d, s.Made base i q d → base + q ≤ x.2.place
  ended : ∀ p q i c d, p < q → s.Made base i p c → s.Made base i q d → ¬ c.request.IsPart →
    ∃ time answer, c.finish = some (time, answer) ∧ time ≤ d.started

namespace Sequential

section

variable {course course' : Course α} {leases : Leases Nat} {link : Link σ}

omit [Endpoint σ] in
theorem waited_put (hs : s.Sequential base) (h : s.Orderly base) (hchanges : s.Changes i course course' link)
    (hmade : (s.put i leases link course').Made base i p c) (hnone : c.finish = none) (hpart : ¬ c.request.IsPart) :
    base + p ∈ Pending.places course'.standing.pending := by
  have hc := hchanges.errand
  have hold : ∀ {old}, s.Made base i p old → old = c → base + p ∈ Pending.places course.standing.pending := by
    rintro old hm rfl
    obtain ⟨course₀, hc₀, hin⟩ := hs.waited i p old hm hnone hpart
    obtain rfl := Option.some.inj (hc.symm.trans hc₀)
    exact hin
  rcases hchanges.touches.leaves _ c hmade.2 hnone with ⟨hsame, hnot⟩ | hin | hin
  · have hlt := (List.getElem?_eq_some_iff.1 hsame).1
    have hcounted := h.counted
    rcases h.made_put hc hchanges.touches hmade with hm | ⟨-, -, ⟨old, hm, -⟩ | ⟨hp, -, -⟩⟩
    · exact absurd (hold hm rfl) hnot
    · exact absurd (hold hm (Option.some.inj (hm.2.symm.trans hsame))) hnot
    · omega
  · exact hin
  · exact absurd hin hpart

omit [Endpoint σ] in
theorem latest_put (hs : s.Sequential base) (h : s.Orderly base) (hchanges : s.Changes i course course' link)
    {x : Pending} (hx : x ∈ course'.standing.pending) :
    x.1.IsPart ∨ ∀ q d, (s.put i leases link course').Made base i q d → base + q ≤ x.2.place := by
  have hc := hchanges.errand
  have hcounted := h.counted
  have hplace : ∀ {q d}, (s.put i leases link course').Made base i q d → base + q < link.calls.length :=
    fun hm => (List.getElem?_eq_some_iff.1 hm.2).1
  rcases hchanges.touches.last x hx with hpart | ⟨hold, hlength⟩ | hlast
  · exact .inl hpart
  · refine (hs.latest i course hc x hold).imp_right fun hle q d hd => ?_
    have hlt := hplace hd
    rcases h.made_put hc hchanges.touches hd with hd | ⟨-, -, ⟨old, hold, -⟩ | ⟨hq, -, -⟩⟩
    · exact hle q d hd
    · exact hle q old hold
    · omega
  · refine .inr fun q d hd => ?_
    have hlt := hplace hd
    omega

omit [Endpoint σ] in
/-- A call that was not the last is left as it is. -/
theorem made_of_lt (hs : s.Sequential base) (h : s.Orderly base) (hchanges : s.Changes i course course' link)
    (hpq : p < q) (hp : (s.put i leases link course').Made base i p c) (hq : s.Made base i q d)
    (hpart : ¬ c.request.IsPart) : s.Made base i p c := by
  have hcounted := h.counted
  have hlt := (List.getElem?_eq_some_iff.1 hq.1).1
  have hcaller : s.callers[p]? = some i := by
    have hcaller := hp.1
    change (s.callers ++ _)[p]? = some i at hcaller
    rwa [List.getElem?_append_left (by omega)] at hcaller
  refine ⟨hcaller, ?_⟩
  rw [← hchanges.touches.spared (by omega)]
  · exact hp.2
  · intro hin
    obtain ⟨x, hx, hxp⟩ := List.mem_map.1 hin
    obtain ⟨old, hold, hhead⟩ := hchanges.touches.head_of_lt (p := base + p) (by omega) hp.2
    have hrequest : old.request = c.request := congrArg Prod.fst hhead
    have hissues := h.sound.issues course (List.mem_of_getElem? hchanges.errand)
    rcases hs.latest i course hchanges.errand x hx with hx' | hle
    · exact hpart (hrequest ▸ hissues.request_eq hx (hxp ▸ hold) ▸ hx')
    · have := hle q d hq
      omega

end

theorem step (hs : s.Sequential base) (h : s.Orderly base) (hstep : Step i s s') : s'.Sequential base := by
  have hpast := (h.step hstep).past
  obtain ⟨leases, link, course, course', rfl, hchanges⟩ := hstep.changes h.sound
  have hc := hchanges.errand
  have hother : ∀ {j p c}, i ≠ j → ((s.put i leases link course').Made base j p c ↔ s.Made base j p c) :=
    fun hne => h.made_put_iff hc hchanges.touches hne
  refine ⟨fun j p c hm hnone hpart => ?_, fun j course₀ hj x hx => ?_, fun p q j c d hpq hm hd hpart => ?_⟩
  · rw [errands_put hc]
    split
    · next heq =>
      subst heq
      exact ⟨course', rfl, hs.waited_put h hchanges hm hnone hpart⟩
    · next hne => exact hs.waited j p c ((hother hne).1 hm) hnone hpart
  · rw [errands_put hc] at hj
    split at hj
    · next heq =>
      subst heq
      cases hj
      exact hs.latest_put h hchanges hx
    · next hne =>
      exact (hs.latest j course₀ hj x hx).imp_right fun hle q d hd => hle q d ((hother hne).1 hd)
  · by_cases hne : i = j
    · subst hne
      have hend : c.finish ≠ none := fun hnone => by
        obtain ⟨x, hx, hxp⟩ := List.mem_map.1 (hs.waited_put h hchanges hm hnone hpart)
        have hlatest : x.1.IsPart ∨ ∀ q d, (s.put i leases link course').Made base i q d →
            base + q ≤ x.2.place :=
          hs.latest_put h hchanges hx
        rcases hlatest with hx' | hle
        · exact hpart (hchanges.touches.issues.request_eq hx (hxp ▸ hm.2) ▸ hx')
        · have := hle q d hd
          omega
      rcases h.made_put hc hchanges.touches hd with hold | ⟨-, -, ⟨old, hold, hhead⟩ | ⟨-, hstarted, -⟩⟩
      · exact hs.ended p q i c d hpq (hs.made_of_lt h hchanges hpq hm hold hpart) hold hpart
      · have hsame : old.started = d.started := congrArg Prod.snd hhead
        rw [← hsame]
        exact hs.ended p q i c old hpq (hs.made_of_lt h hchanges hpq hm hold hpart) hold hpart
      · obtain ⟨⟨time, answer⟩, hfinish⟩ := Option.ne_none_iff_exists'.1 hend
        refine ⟨time, answer, hfinish, ?_⟩
        rw [hstarted, ← hchanges.touches.now]
        exact (hpast i p c hm).2 time answer hfinish
    · exact hs.ended p q j c d hpq ((hother hne).1 hm) ((hother hne).1 hd) hpart

end Sequential

omit [Endpoint σ] in
theorem sequential_start (l : Link σ) (errands : List (Errand α)) : (start l errands).Sequential l.calls.length := by
  refine ⟨fun i p c hm => ?_, fun i course hc x hx => ?_, fun p q i c d _ hm => ?_⟩
  · cases hm.1
  · obtain ⟨e, -, rfl⟩ := getElem?_start hc
    cases hx
  · cases hm.1

omit [Endpoint σ] in
theorem Sequential.await (hs : s.Sequential base) (due : Nat) : (s.await due).Sequential base := by
  refine ⟨fun i p c hm => hs.waited i p c ((made_await due).1 hm), fun i course hc x hx => ?_,
    fun p q i c d hpq hm hd => hs.ended p q i c d hpq ((made_await due).1 hm) ((made_await due).1 hd)⟩
  exact (hs.latest i course hc x hx).imp_right fun hle q d hd => hle q d ((made_await due).1 hd)

end Schedule

end ObjectFlush
