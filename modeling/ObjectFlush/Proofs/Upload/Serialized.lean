import ObjectFlush.Proofs.Upload.Written

/-!
Flushes of one key are serialized (`flushes_of_one_key_serialized`): any number of them, through uploaders of any
settings that share their leases, in whatever order they have their turns. The lease keeps the calls for one key
apart, nobody waits for it but for others of the same key, and it is free when all have ended; so in a local store
every object is, in the end, what the last to hold its lease with success had to write.
-/

namespace ObjectFlush

namespace Schedule

variable {σ α : Type} [Endpoint σ] {s : Schedule σ α} {base i j : Nat}

/-! ## Runs as courses of moves -/

theorem follow_append (s : Schedule σ α) (first rest : List Move) :
    s.follow (first ++ rest) = (s.follow first).follow rest := List.foldl_append ..

theorem follow_turns (s : Schedule σ α) (order : List Nat) : s.follow (order.map .turn) = order.foldl turn s :=
  List.foldl_map ..

theorem exists_settle_eq (s : Schedule σ α) : ∃ moves, s.settle = s.follow moves := by
  suffices hrounds : ∀ n (s : Schedule σ α), ∃ moves, s.rounds n = s.follow moves from hrounds _ s
  intro n
  induction n with
  | zero => exact fun s => ⟨[], rfl⟩
  | succ n ih =>
    intro s
    -- A round is one turn of each errand, in order.
    have hsweep : s.sweep = s.follow ((List.range s.errands.length).map .turn) := (s.follow_turns _).symm
    rw [rounds]
    split
    · obtain ⟨moves, hmoves⟩ := ih s.sweep
      exact ⟨_, by rw [hmoves, hsweep, ← follow_append]⟩
    · exact ⟨_, hsweep⟩

/-- Whatever happens in a run is a course of moves. -/
theorem exists_runFor_eq (s : Schedule σ α) (fuel : Nat) : ∃ moves, s.runFor fuel = s.follow moves := by
  induction fuel generalizing s with
  | zero => exact ⟨[], rfl⟩
  | succ fuel ih =>
    obtain ⟨first, hfirst⟩ := s.exists_settle_eq
    simp only [runFor]
    split
    · next due _ =>
      obtain ⟨rest, hrest⟩ := ih (s.settle.await due)
      refine ⟨first ++ .pass due :: rest, ?_⟩
      rw [hrest, follow_append, ← hfirst]
      rfl
    · exact ⟨first, hfirst⟩

theorem Orderly.follow_orderly (h : s.Orderly base) (moves : List Move) : (s.follow moves).Orderly base :=
  (h.follow (I := fun _ => True) trivial (fun _ _ _ _ _ _ => trivial) (fun _ _ _ _ => trivial) moves).1

/-- At most one errand ends with a move. -/
theorem Orderly.eq_of_ends (h : s.Orderly base) {m : Move} (hi : s.finish? i = none) (hj : s.finish? j = none)
    {f g : Finish α} (hf : (s.move m).finish? i = some f) (hg : (s.move m).finish? j = some g) : i = j := by
  cases m with
  | pass due =>
    have hsame : (s.move (.pass due)).finish? i = s.finish? i := rfl
    rw [hsame, hi] at hf
    cases hf
  | turn k =>
    have hsame : ∀ n, k ≠ n → (s.move (.turn k)).finish? n = s.finish? n :=
      fun n hn => congrArg (Option.bind · _) ((h.frame_turn k).2 n hn)
    by_contra hij
    by_cases hk : k = i
    · rw [hsame j (hk ▸ hij), hj] at hg
      cases hg
    · rw [hsame i hk, hi] at hf
      cases hf

/-! ## Who held the lease last -/

section

variable {β ε : Type} {s : Schedule σ (Except ε β)} {moves : List Move} {key : ObjectKey} {m : Nat}

/-- Of the errands for the key that have succeeded, this one has let go of its lease last: there was a time when all
others had. -/
structure HeldLast (s : Schedule σ (Except ε β)) (moves : List Move) (key : ObjectKey) (m : Nat) : Prop where
  succeeded : (s.follow moves).Succeeded m
  ofKey : s.key? m = some key
  last : ∃ before after, moves = before ++ after ∧ (s.follow before).finish? m = none ∧
    ∀ i, i ≠ m → s.key? i = some key → (s.follow moves).Succeeded i →
      ∃ f, (s.follow before).finish? i = some f

/-- Whoever lets go of the lease last has made its calls last. -/
theorem HeldLast.wroteLast (h : s.HeldLast moves key m) (hs : s.Orderly base) :
    (s.follow moves).WroteLast base key m := by
  obtain ⟨before, after, rfl, hunfinished, hothers⟩ := h.last
  have hfirst := hs.follow_orderly before
  have hlast := hs.follow_orderly (before ++ after)
  refine ⟨h.succeeded, (hs.key?_follow _ m).trans h.ofKey, fun j hj hkey hsucc p q c d hp hq => ?_⟩
  have hkeys : (s.follow before).key? m = (s.follow before).key? j := by
    rw [hs.key?_follow, hs.key?_follow, h.ofKey, ← hkey, hs.key?_follow]
  obtain ⟨f, hf⟩ := hothers j hj ((hs.key?_follow _ j).symm.trans hkey) hsucc
  -- All calls of the other had been made before.
  rw [follow_append] at hp hq
  have hp := ((hfirst.of_finished hf after).2 p c).1 hp
  have hlt := (List.getElem?_eq_some_iff.1 hp.1).1
  obtain ⟨more, hmore⟩ := (s.follow before).callers_follow after
  rcases Nat.lt_trichotomy p q with hpq | rfl | hpq
  · exact hpq
  · have hcaller := hq.1
    rw [hmore, List.getElem?_append_left hlt] at hcaller
    exact absurd (Option.some.inj (hp.1.symm.trans hcaller)) hj
  · have hcaller := hq.1
    rw [hmore, List.getElem?_append_left (by omega)] at hcaller
    have hcounted := hfirst.counted
    have hplace : base + q < (s.follow before).link.calls.length := by omega
    obtain ⟨⟨f', hf', -⟩, -⟩ :=
      hfirst.apart q p m j _ c hpq ⟨hcaller, List.getElem?_eq_getElem hplace⟩ hp (Ne.symm hj) hkeys
    rw [hunfinished] at hf'
    cases hf'

/-- Whether an errand that has ended has succeeded does not change any more. -/
theorem Orderly.succeeded_follow (hs : s.Orderly base) {f : Finish (Except ε β)} (hf : s.finish? i = some f)
    (moves : List Move) : (s.follow moves).Succeeded i ↔ s.Succeeded i := by
  rw [Succeeded, Succeeded, hf, (hs.of_finished hf moves).1]

/-- If any errand for the key has succeeded, one has held the lease last. -/
theorem Orderly.exists_heldLast (hs : s.Orderly base) (hstart : ∀ i, s.finish? i = none) (moves : List Move)
    (h : ∃ i, s.key? i = some key ∧ (s.follow moves).Succeeded i) : ∃ m, s.HeldLast moves key m := by
  induction moves using List.reverseRecOn with
  | nil =>
    obtain ⟨i, -, f, written, hf, -⟩ := h
    change s.finish? i = some f at hf
    rw [hstart] at hf
    cases hf
  | append_singleton first move ih =>
    have hfirst := hs.follow_orderly first
    have hfollow : s.follow (first ++ [move]) = (s.follow first).follow [move] := follow_append ..
    by_cases hnew : ∃ i, s.key? i = some key ∧ (s.follow (first ++ [move])).Succeeded i ∧
        (s.follow first).finish? i = none
    · -- An errand that succeeds with the last move is the only one.
      obtain ⟨m, hkey, hsucc, hunfinished⟩ := hnew
      refine ⟨m, hsucc, hkey, first, [move], rfl, hunfinished, fun j hj _ hsuccj => ?_⟩
      refine Option.ne_none_iff_exists'.1 fun hnone => hj ?_
      obtain ⟨f, -, hf, -⟩ := hsuccj
      obtain ⟨g, -, hg, -⟩ := hsucc
      rw [hfollow] at hf hg
      exact hfirst.eq_of_ends hnone hunfinished hf hg
    · -- All that have succeeded had done so before.
      have hbefore : ∀ i, s.key? i = some key → (s.follow (first ++ [move])).Succeeded i →
          (s.follow first).Succeeded i := by
        intro i hkey hsucc
        obtain ⟨f, hf⟩ := Option.ne_none_iff_exists'.1 fun hnone => hnew ⟨i, hkey, hsucc, hnone⟩
        rw [hfollow] at hsucc
        exact (hfirst.succeeded_follow hf [move]).1 hsucc
      obtain ⟨i, hkey, hsucc⟩ := h
      obtain ⟨m, hm⟩ := ih ⟨i, hkey, hbefore i hkey hsucc⟩
      obtain ⟨f, -, hf, -⟩ := id hm.succeeded
      obtain ⟨before, after, hsplit, hunfinished, hothers⟩ := hm.last
      refine ⟨m, ?_, hm.ofKey, before, after ++ [move], ?_, hunfinished, ?_⟩
      · rw [hfollow]
        exact (hfirst.succeeded_follow hf [move]).2 hm.succeeded
      · rw [hsplit, List.append_assoc]
      · exact fun j hj hkey hsucc => hothers j hj hkey (hbefore j hkey hsucc)

end

/-! ## What the leases make of it -/

/-- All calls of one errand are over, and it has ended, before the other makes its first. -/
def Precedes (base : Nat) (s : Schedule σ α) (i j : Nat) : Prop :=
  ∀ p q c d, s.Made base i p c → s.Made base j q d →
    p < q ∧ ∃ f, s.finish? i = some f ∧ c.OverBy f.time ∧ f.time ≤ d.started

/-- By that time the call, of that errand, holds its object open no longer: the errand has ended, or the call is a
put and answered. -/
def ClosedBy (s : Schedule σ α) (made : Nat × Call) (time : Nat) : Prop :=
  (∃ f, s.finish? made.1 = some f ∧ f.time ≤ time) ∨
    ∃ key ended answer, made.2.request.Puts key ∧ made.2.finish = some (ended, answer) ∧ ended ≤ time

/-- The errand has the lease of the key: it knows that it holds it, or learns so when it next looks. -/
def Has (s : Schedule σ α) (key : ObjectKey) (i : Nat) : Prop :=
  s.claim i = some (key, true) ∨ s.claim i = some (key, false) ∧ ∃ leases, s.leases.poll i = some (leases, true)

omit [Endpoint σ] in
theorem Seated.has_iff {lines : ObjectKey → Option (Line Nat)} (h : s.Seated lines) {key : ObjectKey} :
    s.Has key i ↔ ∃ line, lines key = some line ∧ line.holder = i := by
  constructor
  · rintro (hclaim | ⟨hclaim, leases, hpoll⟩)
    · obtain ⟨line, hline, -⟩ := h.claim_iff.1 hclaim
      exact ⟨line, hline, (h.holder_of_granted hclaim hline).1⟩
    · obtain ⟨line, hline, hout⟩ := h.poll hclaim
      refine ⟨line, hline, ?_⟩
      by_contra hother
      rw [if_neg hother, hpoll] at hout
      cases hout
  · rintro ⟨line, hline, rfl⟩
    have hclaim := h.claim_holder hline
    cases hnoticed : line.noticed with
    | true => exact .inl (hnoticed ▸ hclaim)
    | false =>
      rw [hnoticed] at hclaim
      obtain ⟨line', hline', hout⟩ := h.poll hclaim
      obtain rfl := Option.some.inj (hline.symm.trans hline')
      rw [if_pos rfl] at hout
      obtain ⟨leases, hpoll, -⟩ := hout
      exact .inr ⟨hclaim, leases, hpoll⟩

/-- The errands have each key in turn, and none of them waits for the others' keys. -/
structure Serialized (base : Nat) (s : Schedule σ α) : Prop where
  /-- Errands for one key make their calls one after the other. -/
  ordered : ∀ i j, i ≠ j → s.key? i = s.key? j → s.Precedes base i j ∨ s.Precedes base j i
  /-- Once an errand has ended, nothing more becomes of its calls. -/
  settled : ∀ i f, s.finish? i = some f → ∀ more,
    (s.follow more).finish? i = some f ∧ ∀ p c, (s.follow more).Made base i p c ↔ s.Made base i p c
  /-- A call that opens an object closes it before the next one opens it. -/
  opens : ∀ key, ((s.calls base).filter fun made => made.2.request.opened? = some key).Pairwise fun made next =>
    s.ClosedBy made next.2.started
  /-- A key is had by one at a time. -/
  exclusive : ∀ key i j, s.Has key i → s.Has key j → i = j
  /-- Whoever has had its turn has asked for its lease, if it is time, and waits only for another that has it. -/
  waits : ∀ i, (s.turn i).Started i ∧
    ∀ key, (s.turn i).claim i = some (key, false) → ∃ j, j ≠ i ∧ (s.turn i).Has key j
  /-- When all turns of an instant are taken, that other is under way. -/
  rests : ∀ i < s.errands.length, s.settle.Started i ∧
    ∀ key, s.settle.claim i = some (key, false) → ∃ j, j ≠ i ∧ s.settle.claim j = some (key, true)
  /-- When all have ended, every key is free. -/
  released : (∀ i < s.errands.length, ∃ f, s.finish? i = some f) → ∀ key, s.leases.isActive key = false

omit [Endpoint σ] in
theorem Orderly.precedes (h : s.Orderly base) (hij : i ≠ j) (hkeys : s.key? i = s.key? j) :
    s.Precedes base i j ∨ s.Precedes base j i := by
  -- If one call of the first is made before one of the second, all are.
  have hall : ∀ {i j p q c d}, i ≠ j → s.key? i = s.key? j → s.Made base i p c →
      s.Made base j q d → p < q →
      s.Precedes base i j := by
    intro i j p q c d hij hkeys hp hq hpq p' q' c' d' hp' hq'
    obtain ⟨⟨f, hf, -⟩, hbefore⟩ := h.apart p q i j c d hpq hp hq hij hkeys
    have hlt : p' < q' := by
      rcases Nat.lt_trichotomy p' q' with hlt | rfl | hgt
      · exact hlt
      · exact absurd (Option.some.inj (hp'.1.symm.trans hq'.1)) hij
      · have hafter := (h.apart q' p' j i d' c' hgt hq' hp' (Ne.symm hij) hkeys.symm).2 q d hq
        have hfirst := hbefore p' c' hp'
        omega
    obtain ⟨⟨f', hf', htime⟩, -⟩ := h.apart p' q' i j c' d' hlt hp' hq' hij hkeys
    exact ⟨hlt, f', hf', (h.finished i f' hf').2 p' c' hp', htime⟩
  by_cases hfirst : ∃ p q c d, s.Made base i p c ∧ s.Made base j q d ∧ p < q
  · obtain ⟨p, q, c, d, hp, hq, hpq⟩ := hfirst
    exact .inl (hall hij hkeys hp hq hpq)
  by_cases hsecond : ∃ p q c d, s.Made base j p c ∧ s.Made base i q d ∧ p < q
  · obtain ⟨p, q, c, d, hp, hq, hpq⟩ := hsecond
    exact .inr (hall (Ne.symm hij) hkeys.symm hp hq hpq)
  refine .inl fun p q c d hp hq => ?_
  rcases Nat.lt_trichotomy p q with hlt | rfl | hgt
  · exact absurd ⟨p, q, c, d, hp, hq, hlt⟩ hfirst
  · exact absurd (Option.some.inj (hp.1.symm.trans hq.1)) hij
  · exact absurd ⟨q, p, d, c, hq, hp, hgt⟩ hsecond

omit [Endpoint σ] in
theorem Orderly.isActive_eq_false (h : s.Orderly base) (hended : ∀ i < s.errands.length, ∃ f, s.finish? i = some f)
    (key : ObjectKey) : s.leases.isActive key = false := by
  obtain ⟨lines, hseated⟩ := h.seated
  refine Bool.eq_false_iff.2 fun hactive => ?_
  obtain ⟨i, granted, hclaim⟩ := hseated.isActive_iff.1 hactive
  obtain ⟨course, hc, -, hclaim⟩ := claim_eq_some_iff.1 hclaim
  obtain ⟨f, hf⟩ := hended i (List.getElem?_eq_some_iff.1 hc).1
  rw [finish?_of_errand hc, Standing.finish?_of_claim hclaim] at hf
  cases hf

theorem Orderly.waits (h : s.Orderly base) (i : Nat) : (s.turn i).Started i ∧
    ∀ key, (s.turn i).claim i = some (key, false) → ∃ j, j ≠ i ∧ (s.turn i).Has key j := by
  obtain ⟨lines, hseated⟩ := h.seated
  obtain ⟨hsteps, hrests, -⟩ := hseated.turn h.sound i
  obtain ⟨lines', hseated', -⟩ := hseated.steps hsteps
  refine ⟨hrests.started, fun key hclaim => ?_⟩
  obtain ⟨line, hline, -⟩ := hseated'.claim_iff.1 hclaim
  refine ⟨line.holder, ?_, hseated'.has_iff.2 ⟨line, hline, rfl⟩⟩
  -- Were it the holder itself, it would have been given the lease in its turn.
  rintro hholder
  rcases hseated'.has_iff.2 ⟨line, hline, hholder⟩ with hknown | ⟨-, leases, hpoll⟩
  · rw [hclaim] at hknown
    cases hknown
  · obtain ⟨course, hc, -, hwaits⟩ := claim_eq_some_iff.1 hclaim
    cases hstanding : course.standing with
    | queued d => exact hrests.queued course d hc hstanding leases hpoll
    | _ =>
      rw [hstanding] at hwaits
      cases hwaits

theorem Orderly.rests (h : s.Orderly base) (hr : s.Released) (hi : i < s.errands.length) : s.settle.Started i ∧
    ∀ key, s.settle.claim i = some (key, false) → ∃ j, j ≠ i ∧ s.settle.claim j = some (key, true) := by
  obtain ⟨lines, hseated⟩ := h.seated
  obtain ⟨order, lines', -, hpasses, hnoticed, hstarted⟩ := hseated.passes_settle h.sound hr
  refine ⟨hstarted i hi, fun key hclaim => ?_⟩
  obtain ⟨line, hline, -⟩ := hpasses.seated.claim_iff.1 hclaim
  have hholder := hpasses.seated.claim_holder hline
  -- A holder that has not noticed would have taken its lease in the last round.
  cases hknown : line.noticed with
  | false => exact absurd ⟨key, line, hline, rfl, hknown⟩ (hnoticed line.holder)
  | true =>
    rw [hknown] at hholder
    refine ⟨line.holder, ?_, hholder⟩
    rintro rfl
    rw [hclaim] at hholder
    cases hholder

theorem Orderly.released_follow (h : s.Orderly base) (hr : s.Released) (moves : List Move) :
    (s.follow moves).Released := by
  induction moves generalizing s with
  | nil => exact hr
  | cons m rest ih =>
    have hmove : (s.follow [m]).Orderly base := h.follow_orderly [m]
    refine ih hmove ?_
    cases m with
    | turn i =>
      obtain ⟨lines, hseated⟩ := h.seated
      exact (hseated.turn h.sound i).2.2 hr
    | pass due => exact hr

section

variable {β ε : Type} {s : Schedule σ (Except ε β)}

omit [Endpoint σ] in
/-- Of two calls that open one object, the later finds it closed by the earlier: the one's errand has ended before
the other's began, or both are puts of one errand. -/
theorem Orderly.closedBy (h : s.Orderly base) (hs : s.Sequential base) (hv : s.Voiced base) {p q : Nat} {c d : Call}
    (hpq : p < q) (hp : s.Made base i p c) (hq : s.Made base j q d) {key : ObjectKey}
    (hc : c.request.opened? = some key) (hd : d.request.opened? = some key) : s.ClosedBy (i, c) d.started := by
  obtain ⟨course, hi, -⟩ := h.begun i p c hp
  by_cases hij : i = j
  · subst hij
    -- Within one errand only puts open the object more than once, and each is answered before the next.
    rcases hv.opens hi hpq hp hq with hnone | hputs
    · rw [hnone] at hd
      cases hd
    · obtain ⟨data, hdata⟩ := hputs
      have hpart : ¬ c.request.IsPart := by
        rintro ⟨number, hlane⟩
        rw [hdata] at hlane
        cases hlane
      obtain ⟨ended, answer, hfinish, htime⟩ := hs.ended p q i c d hpq hp hq hpart
      exact .inr ⟨course.key, ended, answer, ⟨data, hdata⟩, hfinish, htime⟩
  · -- Errands that open the same object are for the same key, so the lease keeps them apart.
    obtain ⟨course', hj, -⟩ := h.begun j q d hq
    have hkeys : s.key? i = s.key? j := by
      rw [key?_of_errand hi, key?_of_errand hj, hv.opened hi hp hc, hv.opened hj hq hd]
    exact .inl (h.apart p q i j c d hpq hp hq hij hkeys).1

theorem Orderly.serialized (h : s.Orderly base) (hs : s.Sequential base) (hv : s.Voiced base) (hr : s.Released) :
    s.Serialized base where
  ordered _ _ hij hkeys := h.precedes hij hkeys
  settled _ _ hf more := h.of_finished hf more
  opens key := by
    rw [List.pairwise_filter, List.pairwise_iff_getElem]
    intro p q hp hq hpq hc hd
    have hmade : ∀ {n} (hn : n < (s.calls base).length),
        s.Made base ((s.calls base)[n]).1 n ((s.calls base)[n]).2 :=
      fun hn => calls_eq_some_iff.1 (List.getElem?_eq_getElem hn)
    exact h.closedBy hs hv hpq (hmade hp) (hmade hq) (of_decide_eq_true hc) (of_decide_eq_true hd)
  exclusive key i j hi hj := by
    obtain ⟨lines, hseated⟩ := h.seated
    obtain ⟨line, hline, rfl⟩ := hseated.has_iff.1 hi
    obtain ⟨line', hline', rfl⟩ := hseated.has_iff.1 hj
    rw [Option.some.inj (hline.symm.trans hline')]
  waits := h.waits
  rests _ hi := h.rests hr hi
  released := h.isActive_eq_false

theorem serialized_start (l : Link σ) {errands : List (Errand (Except ε β))}
    (h : ∀ e ∈ errands, e.dialogue.Opens e.key) (moves : List Move) :
    ((start l errands).follow moves).Serialized l.calls.length := by
  have horderly : (start l errands).Orderly l.calls.length := orderly_start l fun e he => (h e he).only
  obtain ⟨hlast, hsequential, hvoiced⟩ := horderly.follow
    (I := fun s => s.Sequential l.calls.length ∧ s.Voiced l.calls.length)
    ⟨sequential_start l errands, voiced_start l h⟩
    (fun _ _ _ hs hI hstep => ⟨hI.1.step hs hstep, hI.2.step hs hstep⟩)
    (fun _ due _ hI => ⟨hI.1.await due, hI.2.await due⟩) moves
  refine hlast.serialized hsequential hvoiced (horderly.released_follow (fun course hc value heq => ?_) moves)
  obtain ⟨e, -, rfl⟩ := errands_start hc
  cases heq

end

/-! ## What is stored in the end -/

section

open LocalEndpoint

variable {ε : Type} {key : ObjectKey} {m n : Nat}

omit [Endpoint σ] in
theorem WroteLast.unique {β : Type} {s : Schedule σ (Except ε β)} (h : s.WroteLast base key m)
    (h' : s.WroteLast base key n) (hv : s.Voiced base) : m = n := by
  by_contra hmn
  obtain ⟨f, written, hf, hok⟩ := h.succeeded
  obtain ⟨f', written', hf', hok'⟩ := h'.succeeded
  obtain ⟨p, c, hp⟩ := hv.made_of_ok hf hok
  obtain ⟨q, d, hq⟩ := hv.made_of_ok hf' hok'
  have hlt := h.last n (Ne.symm hmn) h'.ofKey h'.succeeded q p d c hq hp
  have hgt := h'.last m hmn h.ofKey h.succeeded p q c d hp hq
  omega

/-- What is stored under a key. -/
def object? (s : Schedule LocalEndpoint α) (key : ObjectKey) : Option StoredObject :=
  s.link.endpoint.bucket.objects.get? key

/-- When all errands for a key have ended, its object is what the last of them has written, if `source` is all that
they may write. -/
theorem stored_by_last {l : Link LocalEndpoint} (hfresh : l.endpoint.Fresh)
    {errands : List (Errand (Except ε ObjectSummary))} (hopens : ∀ e ∈ errands, e.dialogue.Opens e.key)
    {source : Nat → Bytes} {New : Nat → Option StoredObject → Bytes → Prop}
    (hassures : ∀ i e, errands[i]? = some e → ∀ old,
      Dialogue.Assures (exclusive e.key) (Untouched e.key old) e.dialogue (Writes e.key old (New i old)))
    (hsource : ∀ i e, errands[i]? = some e → e.key = key → ∀ old data, New i old data → data = source i)
    (moves : List Move) (hended : ∀ i, (start l errands).key? i = some key →
      ∃ f, ((start l errands).follow moves).finish? i = some f) :
    let last := (start l errands).follow moves
    ((∀ i, (start l errands).key? i = some key → ¬ last.Succeeded i) →
      last.object? key = (start l errands).object? key) ∧
    ∀ m, (start l errands).HeldLast moves key m → (last.object? key).map (·.data) = some (source m) := by
  intro last
  have horderly : (start l errands).Orderly l.calls.length := orderly_start l fun e he => (hopens e he).only
  have hkeyed : ∀ i, (start l errands).key? i = some key → ∀ old data, New i old data → data = source i := by
    intro i hi
    obtain ⟨course, hc, hkey⟩ := Option.map_eq_some_iff.1 hi
    obtain ⟨e, he, rfl⟩ := getElem?_start hc
    exact hsource i e he hkey
  obtain ⟨hlast, htended, hvoiced, hkeys⟩ := horderly.follow
    (I := fun s => s.Tended l.calls.length key ((start l errands).object? key) source New ∧
      s.Voiced l.calls.length ∧ ∀ i, s.key? i = (start l errands).key? i)
    ⟨tended_start l hfresh key source hassures, voiced_start l hopens, fun _ => rfl⟩
    (fun i s s' hs ⟨htended, hvoiced, hkeys⟩ hstep => by
      refine ⟨htended.step hs (fun j hj => hkeyed j ((hkeys j).symm.trans hj)) hstep, hvoiced.step hs hstep, ?_⟩
      obtain ⟨leases, link, course, course', rfl, hchanges⟩ := hstep.changes hs.sound
      exact fun j => (key?_put hchanges.errand hchanges.key j).trans (hkeys j))
    (fun s due _ ⟨htended, hvoiced, hkeys⟩ => ⟨htended.await due, hvoiced.await due, hkeys⟩) moves
  -- All errands for the key have ended, so nobody holds its lease, and the object is at rest.
  have hfree : ∀ i, last.claim i ≠ some (key, true) := by
    intro i hclaim
    obtain ⟨course, hc, hkey, hclaim⟩ := claim_eq_some_iff.1 hclaim
    obtain ⟨f, hf⟩ := hended i ((hkeys i).symm.trans ((key?_of_errand hc).trans (congrArg some hkey)))
    rw [finish?_of_errand hc, Standing.finish?_of_claim hclaim] at hf
    cases hf
  rcases htended.rests hfree with ⟨hobject, hnone⟩ | ⟨n, o, hwrote, hobject, hdata⟩
  · exact ⟨fun _ => hobject, fun m hm => absurd hm.succeeded (hnone m ((hkeys m).trans hm.ofKey))⟩
  · refine ⟨fun hnone => absurd hwrote.succeeded (hnone n ((hkeys n).symm.trans hwrote.ofKey)), fun m hm => ?_⟩
    obtain rfl := (hm.wroteLast horderly).unique hwrote hvoiced
    rw [object?, hobject, Option.map_some, hdata]

end

end Schedule

/-! ## Calls of uploaders -/

/-- What a call writes. -/
inductive Writing where
  | file (order : FlushOrder)
  | buffer (key : ObjectKey) (data : Bytes)

namespace Writing

def key : Writing → ObjectKey
  | .file order => order.key
  | .buffer key _ => key

def dialogue (f : Flusher) : Writing → Dialogue (Except FlushError ObjectSummary)
  | .file order => f.flush order
  | .buffer key data => f.flushBuffer key data

/-- The bytes to write. -/
def source : Writing → Bytes
  | .file order => order.source.bytes.take order.size
  | .buffer _ data => data

/-- No byte may be copied from the stored object. -/
def UploadsAll : Writing → Prop
  | .file order => order.stored = false
  | .buffer .. => True

/-- Bytes that a call may leave where the object was `old`. -/
def Leaves (old : Option StoredObject) : Writing → Bytes → Prop
  | .file order => Bytes.Fills (order.Allows old) 0 order.size
  | .buffer _ data => (· = data)

variable {w : Writing} {old : Option StoredObject} {data : Bytes}

theorem Leaves.eq_source (h : w.Leaves old data) (hall : w.UploadsAll) : data = w.source := by
  cases w with
  | file order =>
    refine Bytes.eq_take_of_fills ⟨h.1, fun i x hx => ?_⟩
    rcases h.2 i x hx with hlocal | ⟨hstored, -⟩
    · exact hlocal
    · rw [show order.stored = false from hall] at hstored
      cases hstored
  | buffer key data' => exact h

theorem opens_dialogue (f : Flusher) (w : Writing) : (w.dialogue f).Opens w.key := by
  cases w with
  | file order => exact f.opens_flush order
  | buffer key data => exact f.opens_flushBuffer key data

theorem assures_dialogue (f : Flusher) (w : Writing) (old : Option StoredObject) :
    Dialogue.Assures (LocalEndpoint.exclusive w.key) (LocalEndpoint.Untouched w.key old) (w.dialogue f)
      (LocalEndpoint.Writes w.key old (w.Leaves old)) := by
  cases w with
  | file order => exact f.assures_flush order old
  | buffer key data => exact f.assures_flushBuffer key data old

end Writing

/-- A call of an uploader, which begins at its time and may be cancelled by an alarm. -/
structure WriteCall where
  uploader : Flusher
  writing : Writing
  start : Nat := 0
  alarm : Option Alarm := none

namespace WriteCall

def errand (call : WriteCall) : Errand (Except FlushError ObjectSummary) where
  key := call.writing.key
  start := call.start
  dialogue := call.writing.dialogue call.uploader
  alarm := call.alarm

/-- Calls that are going to be made over one link, under leases that they share. -/
def schedule {σ : Type} (l : Link σ) (calls : List WriteCall) : Schedule σ (Except FlushError ObjectSummary) :=
  .start l (calls.map errand)

variable {calls : List WriteCall} {i : Nat} {e : Errand (Except FlushError ObjectSummary)}

theorem exists_call (he : (calls.map errand)[i]? = some e) : ∃ call, calls[i]? = some call ∧ errand call = e := by
  rw [List.getElem?_map] at he
  exact Option.map_eq_some_iff.1 he

theorem opens_errands (calls : List WriteCall) : ∀ e ∈ calls.map errand, e.dialogue.Opens e.key :=
  List.forall_mem_map.2 fun call _ => call.writing.opens_dialogue call.uploader

open LocalEndpoint in
theorem assures_errand (he : (calls.map errand)[i]? = some e) (old : Option StoredObject) :
    Dialogue.Assures (exclusive e.key) (Untouched e.key old) e.dialogue
      (Writes e.key old fun data => ∃ call, calls[i]? = some call ∧ call.writing.Leaves old data) := by
  obtain ⟨call, hi, rfl⟩ := exists_call he
  have hnew : (fun data => ∃ call, calls[i]? = some call ∧ call.writing.Leaves old data) =
      call.writing.Leaves old := by
    funext data
    simp [hi]
  rw [hnew]
  exact call.writing.assures_dialogue call.uploader old

end WriteCall

open Schedule in
/-- **Flushes of one key are serialized.** Whatever the calls write, whenever they begin and are cancelled, whatever
becomes of their requests, and in whatever order they have their turns: those for one key make their calls to the
store one after the other, a call waits only for another of the same key, and when all have ended no key is
active (`Schedule.Serialized`). In a local store, when all calls for a key have ended that upload everything, the
object is what the one had to write that, of those that succeeded, held the lease last. -/
theorem flushes_of_one_key_serialized (calls : List WriteCall) :
    (∀ (σ : Type) [Endpoint σ] (l : Link σ),
      (∀ moves, ((WriteCall.schedule l calls).follow moves).Serialized l.calls.length) ∧
      ∀ fuel, ∃ moves, (WriteCall.schedule l calls).runFor fuel = (WriteCall.schedule l calls).follow moves) ∧
    ∀ (l : Link LocalEndpoint) (key : ObjectKey) (moves : List Move), l.endpoint.Fresh →
      (∀ call ∈ calls, call.writing.key = key → call.writing.UploadsAll) →
      let first := WriteCall.schedule l calls
      let last := first.follow moves
      (∀ i, first.key? i = some key → ∃ f, last.finish? i = some f) →
        ((∀ i, first.key? i = some key → ¬ last.Succeeded i) → last.object? key = first.object? key) ∧
        ((∃ i, first.key? i = some key ∧ last.Succeeded i) → ∃ m, first.HeldLast moves key m) ∧
        ∀ m, first.HeldLast moves key m → ∃ call, calls[m]? = some call ∧
          (last.object? key).map (·.data) = some call.writing.source := by
  have hopens := WriteCall.opens_errands calls
  refine ⟨fun σ _ l => ⟨fun moves => serialized_start l hopens moves, fun fuel => exists_runFor_eq _ fuel⟩, ?_⟩
  intro l key moves hfresh hall first last hended
  have hsource : ∀ (i : Nat) (e : Errand (Except FlushError ObjectSummary)),
      (calls.map WriteCall.errand)[i]? = some e → e.key = key → ∀ old data,
        (∃ call, calls[i]? = some call ∧ call.writing.Leaves old data) →
          data = (calls[i]?.map (·.writing.source)).getD [] := by
    rintro i e he hkey old data ⟨call, hi, hleaves⟩
    obtain ⟨call', hi', rfl⟩ := WriteCall.exists_call he
    obtain rfl := Option.some.inj (hi.symm.trans hi')
    rw [hi]
    exact hleaves.eq_source (hall call (List.mem_of_getElem? hi) hkey)
  obtain ⟨hnone, hlast⟩ :=
    stored_by_last hfresh hopens (fun i e he => WriteCall.assures_errand he) hsource moves hended
  refine ⟨hnone, fun hsome => ?_, fun m hm => ?_⟩
  · exact (orderly_start l fun e he => (hopens e he).only).exists_heldLast (finish?_start l _) moves hsome
  · obtain ⟨course, hc, -⟩ := Option.map_eq_some_iff.1 hm.ofKey
    obtain ⟨e, he, -⟩ := getElem?_start hc
    obtain ⟨call, hi, -⟩ := WriteCall.exists_call he
    refine ⟨call, hi, (hlast m hm).trans ?_⟩
    rw [hi]
    rfl

open Schedule in
/-- The second of two buffers for one key comes while the first is under way. It waits, and what it writes is what is
stored in the end. -/
theorem waiting_buffer_stored_last :
    let key : ObjectKey := ⟨"k", by decide⟩
    let flusher : Flusher := ⟨{}, by decide⟩
    let slow : Conditions := { reaction := fun _ _ => { delay := 5 } }
    let link : Link LocalEndpoint := { endpoint := ⟨{}, 0, {}, 1⟩, conditions := slow }
    let calls : List WriteCall :=
      [{ uploader := flusher, writing := .buffer key [1, 2] },
       { uploader := flusher, writing := .buffer key [3, 4, 5], start := 2 }]
    let first := WriteCall.schedule link calls
    let before : List Move := [.turn 0, .pass 2, .turn 1, .pass 5, .turn 1, .turn 0]
    let moves := before ++ [.turn 1, .pass 10, .turn 1]
    let last := first.follow moves
    link.endpoint.Fresh ∧ (∀ call ∈ calls, call.writing.UploadsAll) ∧
      (∀ i, first.key? i = some key → ∃ f, last.finish? i = some f) ∧ first.HeldLast moves key 1 ∧
      (last.object? key).map (·.data) = some [3, 4, 5] := by
  intro key flusher slow link calls first before moves last
  have hfresh : link.endpoint.Fresh := LocalEndpoint.fresh_of_no_uploads rfl
  have hall : ∀ call ∈ calls, call.writing.UploadsAll := by
    simp [calls, Writing.UploadsAll]
  have hlt : ∀ {i}, first.key? i = some key → i < 2 := fun hkey => by
    obtain ⟨course, hcourse, -⟩ := Option.map_eq_some_iff.1 hkey
    exact (List.getElem?_eq_some_iff.1 hcourse).1
  have hends : ∀ i < 2, (last.finish? i).isSome := by
    unfold last moves before first calls link slow flusher key
    decide +kernel
  have hended : ∀ i, first.key? i = some key → ∃ f, last.finish? i = some f :=
    fun i hi => Option.isSome_iff_exists.1 (hends i (hlt hi))
  have hsucceeded : last.Succeeded 1 := by
    unfold last moves before first calls link slow flusher key
    decide +kernel
  have hturn : ((first.follow before).finish? 0).isSome ∧ ((first.follow before).finish? 1).isNone := by
    unfold before first calls link slow flusher key
    decide +kernel
  have hlast : first.HeldLast moves key 1 := by
    refine ⟨hsucceeded, rfl, before, _, rfl, Option.isNone_iff_eq_none.1 hturn.2, fun i hi hkey _ => ?_⟩
    have := hlt hkey
    obtain rfl : i = 0 := by omega
    exact Option.isSome_iff_exists.1 hturn.1
  obtain ⟨call, hcall, hdata⟩ := ((flushes_of_one_key_serialized calls).2 link key moves hfresh
    (fun call hcall _ => hall call hcall) hended).2.2 1 hlast
  have hsource : call.writing.source = [3, 4, 5] := by
    cases hcall
    rfl
  rw [hsource] at hdata
  exact ⟨hfresh, hall, hended, hlast, hdata⟩

end ObjectFlush
