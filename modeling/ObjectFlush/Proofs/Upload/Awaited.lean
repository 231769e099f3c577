import ObjectFlush.Proofs.Upload.PartTurn

/-!
The calls that parts wait for, in the course of a turn. A turn may make several calls, one after the other;
`ReadyPart.beats` are the instants that it goes through, each with the call that the part waits for then.
`Link.Awaits` says that a call without an end is awaited, or was given up when its time was over, and it
holds at every beat (`ReadyPart.look_leaves`): a part makes its next call only when the last one has ended
or was given up.

Nothing here depends on the numbers of the parts. Calls are known by their places in the log, so that
parts of one number do not get in each other's way.
-/

namespace ObjectFlush

/-- What of a call is known from its start on. -/
def Call.head (c : Call) : Request × Nat := (c.request, c.started)

namespace Link

variable {σ : Type} {base timeout : Nat} {P Q : Request → Prop} {places others : List Nat}
  {r : Request} {t : Ticket} {l l' l'' : Link σ}

/-- The calls of the log, without their ends. -/
def heads (l : Link σ) : List (Request × Nat) := l.calls.map Call.head

/-- From `l` to `l'`, in no time, calls of `P` are started, and calls after the first `base` may end. -/
structure Adds (base : Nat) (P : Request → Prop) (l l' : Link σ) : Prop where
  now : l'.now = l.now
  heads : ∃ added, l'.heads = l.heads ++ added ∧ ∀ head ∈ added, P head.1
  earlier : l'.calls.take base = l.calls.take base

/-- Every call after the first `base` that has no end is at one of `places`, or its time is over. -/
def Awaits (timeout base : Nat) (places : List Nat) (l : Link σ) : Prop :=
  ∀ i c, base ≤ i → l.calls[i]? = some c → c.finish = none →
    i ∈ places ∨ c.started + timeout ≤ l.now

/-- The ticket is of a call of `r` after the first `base`. -/
structure Issued (base : Nat) (l : Link σ) (r : Request) (t : Ticket) : Prop where
  recent : base ≤ t.place
  head : l.heads[t.place]? = some (r, t.started)

theorem length_heads (l : Link σ) : l.heads.length = l.calls.length := List.length_map ..

namespace Adds

theorem refl (base : Nat) (P : Request → Prop) (l : Link σ) : l.Adds base P l :=
  ⟨rfl, ⟨[], (List.append_nil _).symm, List.forall_mem_nil _⟩, rfl⟩

theorem trans (h : l.Adds base P l') (h' : l'.Adds base P l'') : l.Adds base P l'' := by
  obtain ⟨a, ha, hpa⟩ := h.heads
  obtain ⟨b, hb, hpb⟩ := h'.heads
  refine ⟨h'.now.trans h.now, ⟨a ++ b, ?_, ?_⟩, h'.earlier.trans h.earlier⟩
  · rw [hb, ha, List.append_assoc]
  · exact fun head hhead => (List.mem_append.1 hhead).elim (hpa head) (hpb head)

theorem imp (h : l.Adds base P l') (hpq : ∀ r, P r → Q r) : l.Adds base Q l' := by
  obtain ⟨added, hadded, hp⟩ := h.heads
  exact ⟨h.now, ⟨added, hadded, fun head hhead => hpq _ (hp head hhead)⟩, h.earlier⟩

theorem length_le (h : l.Adds base P l') : l.calls.length ≤ l'.calls.length := by
  obtain ⟨added, hadded, -⟩ := h.heads
  rw [← length_heads, ← length_heads, hadded, List.length_append]
  exact Nat.le_add_right ..

theorem issued (h : l.Adds base P l') (ht : l.Issued base r t) : l'.Issued base r t := by
  obtain ⟨added, hadded, -⟩ := h.heads
  refine ⟨ht.recent, ?_⟩
  rw [hadded, List.getElem?_append_left (List.getElem?_eq_some_iff.1 ht.head).1]
  exact ht.head

end Adds

theorem heads_start (l : Link σ) (r : Request) : (l.start r).1.heads = l.heads ++ [(r, l.now)] := by
  simp [heads, start, Call.head]

theorem adds_start (hbase : base ≤ l.calls.length) : l.Adds base (· = r) (l.start r).1 :=
  ⟨rfl, ⟨[(r, l.now)], l.heads_start r, by simp⟩,
    List.take_append_of_le_length hbase⟩

theorem issued_start (hbase : base ≤ l.calls.length) :
    (l.start r).1.Issued base r (l.start r).2 :=
  ⟨hbase, by simp [heads, start, Call.head]⟩

theorem adds_drawPause (l : Link σ) (pause : Nat) : l.Adds base P (l.drawPause pause).1 :=
  ⟨rfl, ⟨[], (List.append_nil _).symm, List.forall_mem_nil _⟩, rfl⟩

/-- The call that ends keeps its head. -/
theorem heads_finish [Endpoint σ] (ht : l.Issued base r t) : (l.finish r t).1.heads = l.heads := by
  obtain ⟨hlt, hhead⟩ := List.getElem?_eq_some_iff.1 ht.head
  show (l.calls.set t.place _).map Call.head = l.heads
  rw [List.map_set]
  calc l.heads.set t.place (r, t.started)
      = l.heads.set t.place l.heads[t.place] := by rw [hhead]
    _ = l.heads := List.set_getElem_self hlt

theorem adds_finish [Endpoint σ] (ht : l.Issued base r t) : l.Adds base P (l.finish r t).1 :=
  ⟨rfl, ⟨[], by rw [heads_finish ht, List.append_nil], List.forall_mem_nil _⟩, List.take_set_of_le ht.recent⟩

namespace Awaits

theorem start (h : l.Awaits timeout base others) :
    (l.start r).1.Awaits timeout base ((l.start r).2.place :: others) := by
  intro i c hi hc hfinish
  change (l.calls ++ [_])[i]? = some c at hc
  rcases Nat.lt_trichotomy i l.calls.length with hlt | rfl | hgt
  · rw [List.getElem?_append_left hlt] at hc
    exact (h i c hi hc hfinish).imp_left (List.mem_cons_of_mem _)
  · exact .inl List.mem_cons_self
  · rw [List.getElem?_eq_none (by simp only [List.length_append, List.length_singleton]; omega)] at hc
    cases hc

theorem finish [Endpoint σ] (h : l.Awaits timeout base (t.place :: others)) :
    (l.finish r t).1.Awaits timeout base others := by
  intro i c hi hc hfinish
  change (l.calls.set t.place _)[i]? = some c at hc
  by_cases hplace : t.place = i
  · subst hplace
    rw [List.getElem?_set_self'] at hc
    obtain ⟨_, -, rfl⟩ := Option.map_eq_some_iff.1 hc
    cases hfinish
  · rw [List.getElem?_set_ne hplace] at hc
    exact (h i c hi hc hfinish).imp_left fun hmem => (List.mem_cons.1 hmem).resolve_left (Ne.symm hplace)

/-- A call whose time is over may be given up. -/
theorem giveUp (h : l.Awaits timeout base (t.place :: others)) (ht : l.Issued base r t)
    (hover : t.started + timeout ≤ l.now) : l.Awaits timeout base others := by
  intro i c hi hc hfinish
  rcases h i c hi hc hfinish with hmem | htime
  · rcases List.mem_cons.1 hmem with rfl | hmem
    · have hhead := ht.head
      rw [heads, List.getElem?_map, hc] at hhead
      have hstarted : c.started = t.started := congrArg Prod.snd (Option.some.inj hhead)
      exact .inr (hstarted ▸ hover)
    · exact .inl hmem
  · exact .inr htime

theorem mono (h : l.Awaits timeout base places) (hcalls : l'.calls = l.calls) (hnow : l.now ≤ l'.now)
    (hsub : ∀ i ∈ places, i ∈ others) : l'.Awaits timeout base others := by
  intro i c hi hc hfinish
  rw [hcalls] at hc
  exact (h i c hi hc hfinish).imp (hsub i) fun htime => Nat.le_trans htime hnow

end Awaits

end Link

/-! ## The beats of a turn -/

/-- An instant of a turn: the link, and the call that the part waits for. -/
structure Beat (σ : Type) where
  link : Link σ
  waitsFor : Option Ticket

/-- The place of the call in the log. -/
def Beat.places {σ : Type} (b : Beat σ) : List Nat := b.waitsFor.toList.map (·.place)

namespace ActivePart

variable {σ : Type} [Endpoint σ] {policy : PartPolicy} {upload : String} {base : Nat} {others : List Nat}
  {part : ActivePart} {l : Link σ}

/-- The beat at which a call has just been started. -/
def callBeat (upload : String) (part : ActivePart) (l : Link σ) : Beat σ :=
  ⟨(l.start (part.request upload)).1, some (l.start (part.request upload)).2⟩

/-- The beats from the outcome of a call on. -/
def concludeBeats (policy : PartPolicy) (upload : String) (part : ActivePart) :
    (left : Nat) → (backoff : Nat) → Link σ → Except RequestError String → List (Beat σ)
  | left + 1, backoff, l, .error e =>
    let (l', pause) := l.drawPause backoff
    let part := { part with left, backoff := policy.retry.next backoff }
    ⟨l, none⟩ ::
      if e.retryable && pause = 0 then
        part.callBeat upload l' ::
          match part.call policy upload l' with
          | (l, .inl answer) => concludeBeats policy upload part left (policy.retry.next backoff) l answer
          | (_, .inr _) => []
      else []
  | _, _, l, _ => [⟨l, none⟩]

/-- The beats of an attempt. -/
def attemptBeats (policy : PartPolicy) (upload : String) (part : ActivePart) (l : Link σ) :
    List (Beat σ) :=
  ⟨l, none⟩ :: part.callBeat upload l ::
    match part.call policy upload l with
    | (l, .inl answer) => part.concludeBeats policy upload part.left part.backoff l answer
    | (_, .inr _) => []

/-- The beats of the turn of a part that waited. -/
def wakeBeats (policy : PartPolicy) (upload : String) (part : ActivePart) (l : Link σ) :
    List (Beat σ) :=
  match part.stage with
  | .pausing => part.attemptBeats policy upload l
  | .calling ticket late =>
    ⟨l, some ticket⟩ ::
      if late then part.concludeBeats policy upload part.left part.backoff l (.error .timeout)
      else
        let (l, answer) := l.finish (part.request upload) ticket
        part.concludeBeats policy upload part.left part.backoff l
          (answer.map (part.payload.tag upload part.number))

/-- The call that the part waits for between its turns. -/
def ticket? (part : ActivePart) : Option Ticket :=
  match part.stage with
  | .calling ticket _ => some ticket
  | .pausing => none

/-- The place of that call in the log. -/
def places (part : ActivePart) : List Nat := part.ticket?.toList.map (·.place)

omit [Endpoint σ] in
/-- The call that the part waits for is its own, and is late only if it takes longer than allowed. -/
def Waits (policy : PartPolicy) (upload : String) (base : Nat) (l : Link σ) (part : ActivePart) : Prop :=
  ∀ ticket late, part.stage = .calling ticket late →
    l.Issued base (part.request upload) ticket ∧ (late = true → policy.timeout < ticket.reaction.delay)

/-- What a turn of a part leaves, `others` being the calls that other parts wait for. -/
structure Leaves (policy : PartPolicy) (upload : String) (base : Nat) (others : List Nat)
    (part : ActivePart) (l : Link σ) (out : Link σ × Turn) : Prop where
  adds : l.Adds base (· = part.request upload) out.1
  turn : match out.2 with
    | .waits time next => part.Same next ∧ next.Waits policy upload base out.1 ∧ out.1.now ≤ time ∧
        next.DueAt policy time ∧ out.1.Awaits policy.timeout base (next.places ++ others)
    | .done _ => out.1.Awaits policy.timeout base others
    | .failed _ => out.1.Awaits policy.timeout base others

variable (policy upload) in
theorem call_leaves (hbase : base ≤ l.calls.length) (h : l.Awaits policy.timeout base others) :
    l.Adds base (· = part.request upload) (part.call policy upload l).1 ∧
      l.calls.length < (part.call policy upload l).1.calls.length ∧
      (part.callBeat upload l).link.Awaits policy.timeout base
        ((part.callBeat upload l).places ++ others) ∧
      match (part.call policy upload l).2 with
      | .inl _ => (part.call policy upload l).1.Awaits policy.timeout base others
      | .inr (time, next) => part.Same next ∧
          next.Waits policy upload base (part.call policy upload l).1 ∧
          (part.call policy upload l).1.now ≤ time ∧ next.DueAt policy time ∧
          (part.call policy upload l).1.Awaits policy.timeout base (next.places ++ others) := by
  have hstart : l.Adds base (· = part.request upload) _ := Link.adds_start hbase
  have hissued := Link.issued_start (r := part.request upload) hbase
  have hawaits := h.start (r := part.request upload)
  have hlength : l.calls.length < (l.start (part.request upload)).1.calls.length := by
    simp [Link.start]
  simp only [call]
  split
  · refine ⟨hstart.trans (Link.adds_finish hissued), ?_, hawaits, hawaits.finish⟩
    exact Nat.lt_of_lt_of_le hlength (Link.adds_finish (P := (· = part.request upload)) hissued).length_le
  · split
    · next htimeout =>
      refine ⟨hstart, hlength, hawaits, hawaits.giveUp hissued ?_⟩
      rw [htimeout]
      exact Nat.le_refl _
    · refine ⟨hstart, hlength, hawaits, ⟨rfl, rfl, rfl⟩, ?_, Nat.le_add_right .., ?_, hawaits⟩
      · intro ticket late hstage
        cases hstage
        exact ⟨hissued, of_decide_eq_true⟩
      · intro ticket late hstage
        cases hstage
        rfl

/-- At each of the beats, a call without an end is awaited, or its time is over. -/
def Steady (policy : PartPolicy) (base : Nat) (others : List Nat) (beats : List (Beat σ)) : Prop :=
  ∀ b ∈ beats, b.link.Awaits policy.timeout base (b.places ++ others)

omit [Endpoint σ] in
theorem Steady.cons {b : Beat σ} {beats : List (Beat σ)}
    (hb : b.link.Awaits policy.timeout base (b.places ++ others)) (h : Steady policy base others beats) :
    Steady policy base others (b :: beats) := by
  intro b' hb'
  rcases List.mem_cons.1 hb' with rfl | hb'
  · exact hb
  · exact h b' hb'

omit [Endpoint σ] in
theorem Steady.one (h : l.Awaits policy.timeout base others) :
    Steady policy base others [⟨l, none⟩] :=
  .cons h fun _ hb => by cases hb

variable (policy upload) in
theorem conclude_leaves (left : Nat) :
    ∀ (part : ActivePart) (backoff : Nat) {l : Link σ} (answer : Except RequestError String),
      base ≤ l.calls.length → l.Awaits policy.timeout base others →
        part.Leaves policy upload base others l (part.conclude policy upload left backoff l answer) ∧
          Steady policy base others (part.concludeBeats policy upload left backoff l answer) := by
  -- Only a failure that may pass leads on, and it costs one of the repetitions that are left.
  induction left with
  | zero =>
    intro part backoff l answer hbase h
    cases answer with
    | ok tag => exact ⟨⟨.refl .., h⟩, .one h⟩
    | error e => exact ⟨⟨.refl .., h⟩, .one h⟩
  | succ left ih =>
    intro part backoff l answer hbase h
    cases answer with
    | ok tag => exact ⟨⟨.refl .., h⟩, .one h⟩
    | error e =>
      let again : ActivePart := { part with left, backoff := policy.retry.next backoff }
      have hpause : l.Adds base (· = part.request upload) (l.drawPause backoff).1 :=
        Link.adds_drawPause l backoff
      simp only [conclude, concludeBeats]
      cases hretry : e.retryable with
      | false => exact ⟨⟨.refl .., h⟩, .one h⟩
      | true =>
        by_cases hzero : (l.drawPause backoff).2 = 0
        · -- The pause takes no time: the part calls again within the same turn.
          simp only [hzero, if_true, Bool.true_and, decide_true]
          obtain ⟨hadds, -, hbeat, hcall⟩ :=
            again.call_leaves policy upload (l := (l.drawPause backoff).1) hbase h
          split
          · next l' answer hc =>
            rw [hc] at hadds hcall ⊢
            obtain ⟨hleaves, hsteady⟩ := ih again (policy.retry.next backoff) answer
              (Nat.le_trans hbase hadds.length_le) hcall
            exact ⟨⟨(hpause.trans hadds).trans hleaves.adds, hleaves.turn⟩,
              .cons h (.cons hbeat hsteady)⟩
          · next l' time next hc =>
            rw [hc] at hadds hcall ⊢
            exact ⟨⟨hpause.trans hadds, hcall⟩, .cons h (.cons hbeat fun _ hb => by cases hb)⟩
        · simp only [hzero, if_false, if_true, decide_false, Bool.and_false, Bool.false_eq_true]
          refine ⟨⟨hpause, ⟨rfl, rfl, rfl⟩, ?_, Nat.le_add_right .., ?_, h⟩, .one h⟩
          · intro ticket late hstage
            cases hstage
          · intro ticket late hstage
            cases hstage

variable (policy upload part) in
theorem attempt_leaves (hbase : base ≤ l.calls.length) (h : l.Awaits policy.timeout base others) :
    part.Leaves policy upload base others l (part.attempt policy upload l) ∧
      l.calls.length < (part.attempt policy upload l).1.calls.length ∧
      Steady policy base others (part.attemptBeats policy upload l) := by
  obtain ⟨hadds, hlength, hbeat, hcall⟩ := part.call_leaves policy upload hbase h
  simp only [attempt, attemptBeats]
  split
  · next l' answer hc =>
    rw [hc] at hadds hlength hcall ⊢
    obtain ⟨hleaves, hsteady⟩ := conclude_leaves policy upload part.left part part.backoff answer
      (Nat.le_trans hbase hadds.length_le) hcall
    exact ⟨⟨hadds.trans hleaves.adds, hleaves.turn⟩,
      Nat.lt_of_lt_of_le hlength hleaves.adds.length_le, .cons h (.cons hbeat hsteady)⟩
  · next l' time next hc =>
    rw [hc] at hadds hlength hcall ⊢
    exact ⟨⟨hadds, hcall⟩, hlength, .cons h (.cons hbeat fun _ hb => by cases hb)⟩

/-- The turn of a part under way, at the time at which it is due. -/
theorem wake_leaves (hbase : base ≤ l.calls.length) (hwaits : part.Waits policy upload base l)
    (hdue : part.DueAt policy l.now) (h : l.Awaits policy.timeout base (part.places ++ others)) :
    part.Leaves policy upload base others l (part.wake policy upload l) ∧
      Steady policy base others (part.wakeBeats policy upload l) := by
  simp only [places, ticket?] at h
  simp only [wake, wakeBeats]
  cases hstage : part.stage with
  | pausing =>
    rw [hstage] at h
    obtain ⟨hleaves, -, hsteady⟩ := attempt_leaves policy upload part hbase h
    exact ⟨hleaves, hsteady⟩
  | calling ticket late =>
    rw [hstage] at h
    obtain ⟨hissued, hlate⟩ := hwaits ticket late hstage
    have htime := hdue ticket late hstage
    cases late with
    | true =>
      -- The call is given up, and it is just now that its time is over.
      have hover : l.Awaits policy.timeout base others := by
        refine Link.Awaits.giveUp h hissued ?_
        have := hlate rfl
        omega
      obtain ⟨hleaves, hsteady⟩ := conclude_leaves policy upload part.left part part.backoff
        (.error .timeout) hbase hover
      exact ⟨hleaves, .cons h hsteady⟩
    | false =>
      have hadds : l.Adds base (· = part.request upload) (l.finish (part.request upload) ticket).1 :=
        Link.adds_finish hissued
      obtain ⟨hleaves, hsteady⟩ := conclude_leaves policy upload part.left part part.backoff
        ((l.finish (part.request upload) ticket).2.map (part.payload.tag upload part.number))
        (Nat.le_trans hbase hadds.length_le) (Link.Awaits.finish h)
      exact ⟨⟨hadds.trans hleaves.adds, hleaves.turn⟩, .cons h hsteady⟩

end ActivePart

namespace ReadyPart

/-- The place of the call that the part waited for. -/
def places : ReadyPart → List Nat
  | .fresh .. => []
  | .woken part => part.places

variable {σ : Type} {policy : PartPolicy} {upload : String} {base : Nat} {others : List Nat}
  {part : ReadyPart} {l : Link σ}

/-- If the part waited for a call, that call is its own. -/
def Waits (policy : PartPolicy) (upload : String) (base : Nat) (l : Link σ) : ReadyPart → Prop
  | .fresh .. => True
  | .woken part => part.Waits policy upload base l

theorem Waits.imp {l' : Link σ} (h : part.Waits policy upload base l)
    (hissued : ∀ r t, l.Issued base r t → l'.Issued base r t) : part.Waits policy upload base l' := by
  cases part with
  | fresh slot part => trivial
  | woken part =>
    intro ticket late hstage
    exact (h ticket late hstage).imp_left (hissued _ _)

variable [Endpoint σ]

/-- The beats of the turn of a part. -/
def beats (policy : PartPolicy) (upload : String) (part : ReadyPart) (l : Link σ) : List (Beat σ) :=
  match part.active policy with
  | .ok active => active.wakeBeats policy upload l
  | .error _ => [⟨l, none⟩]

omit [Endpoint σ] in
theorem active_waits {active : ActivePart} (h : part.active policy = .ok active)
    (hwaits : part.Waits policy upload base l) (hdue : part.Due policy l.now) :
    (active.slot = part.slot ∧ (⟨active.number, .ok active.payload⟩ : PartRequest) = part.part) ∧
      active.places = part.places ∧ active.Waits policy upload base l ∧ active.DueAt policy l.now := by
  cases part with
  | woken part =>
    cases h
    exact ⟨⟨rfl, rfl⟩, rfl, hwaits, hdue⟩
  | fresh slot part =>
    obtain ⟨number, payload⟩ := part
    cases payload with
    | error e => cases h
    | ok payload =>
      cases h
      exact ⟨⟨rfl, rfl⟩, rfl, (fun _ _ h => by cases h), fun _ _ h => by cases h⟩

/-- What a turn of a part leaves: at its end, and at each of its beats. -/
theorem look_leaves (hbase : base ≤ l.calls.length) (hwaits : part.Waits policy upload base l)
    (hdue : part.Due policy l.now) (h : l.Awaits policy.timeout base (part.places ++ others)) :
    l.Adds base (part.part.Sends upload) (part.look policy upload l).1 ∧
      (match (part.look policy upload l).2 with
      | .waits time next =>
        (next.slot = part.slot ∧ (⟨next.number, .ok next.payload⟩ : PartRequest) = part.part) ∧
          next.Waits policy upload base (part.look policy upload l).1 ∧
          (part.look policy upload l).1.now ≤ time ∧ next.DueAt policy time ∧
          (part.look policy upload l).1.Awaits policy.timeout base (next.places ++ others)
      | .done _ => (part.look policy upload l).1.Awaits policy.timeout base others
      | .failed _ => (part.look policy upload l).1.Awaits policy.timeout base others) ∧
      ActivePart.Steady policy base others (part.beats policy upload l) := by
  rw [look_eq, beats]
  cases hactive : part.active policy with
  | error e =>
    have hnone : part.places = [] := by
      cases part with
      | woken part => cases hactive
      | fresh slot part => rfl
    rw [hnone] at h
    exact ⟨.refl .., h, .one h⟩
  | ok active =>
    obtain ⟨⟨hslot, hpart⟩, hplaces, hactiveWaits, hactiveDue⟩ := active_waits hactive hwaits hdue
    rw [← hplaces] at h
    obtain ⟨⟨hadds, hturn⟩, hsteady⟩ := ActivePart.wake_leaves hbase hactiveWaits hactiveDue h
    refine ⟨hadds.imp ?_, ?_, hsteady⟩
    · rintro r rfl
      rw [← hpart]
      exact ⟨active.payload, rfl, rfl⟩
    · cases hout : (active.wake policy upload l).2 with
      | waits time next =>
        rw [hout] at hturn
        obtain ⟨⟨hs, hn, hp⟩, hrest⟩ := hturn
        refine ⟨⟨hs.trans hslot, ?_⟩, hrest⟩
        rw [← hpart, hn, hp]
      | done tag =>
        rw [hout] at hturn
        exact hturn
      | failed e =>
        rw [hout] at hturn
        exact hturn

/-- In its first turn a part makes a call, unless it cannot be read. -/
theorem calls_of_fresh {slot : Nat} {p : PartRequest} (hbase : base ≤ l.calls.length)
    (h : l.Awaits policy.timeout base others) :
    l.calls.length < ((fresh slot p).look policy upload l).1.calls.length ∨
      ∃ e, ((fresh slot p).look policy upload l).2 = .failed e := by
  obtain ⟨number, payload⟩ := p
  cases payload with
  | error e => exact .inr ⟨_, rfl⟩
  | ok payload => exact .inl (ActivePart.attempt_leaves policy upload _ hbase h).2.1

end ReadyPart

end ObjectFlush
