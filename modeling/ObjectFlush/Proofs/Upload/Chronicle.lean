import ObjectFlush.Proofs.Upload.Dispatch

/-!
The log of a link in the course of time. What is in it stays in it: a call may still end, later than all that the log
tells, and nothing else of it changes (`Link.Follows`). So the log as it stood at some time can be read off the log
that comes of it (`cutAt`, `Link.Follows.cutAt_since`). A part run keeps to this whatever becomes of its calls
(`PartRun.Serves.follows`), for no two of its parts wait for the same call.
-/

namespace ObjectFlush

/-- The call as it stands at time `t`, if it has started by then. -/
def Call.cut? (t : Nat) (c : Call) : Option Call :=
  if c.started ≤ t then some { c with finish := c.finish.filter (·.1 ≤ t) } else none

/-- The log as it stands at time `t`: calls that start later are not there, and those that end later are under way. -/
def cutAt (t : Nat) (log : List Call) : List Call := log.filterMap (Call.cut? t)

theorem Call.cut?_eq_self {t : Nat} {c : Call} (hstarted : c.started ≤ t)
    (hfinish : ∀ f, c.finish = some f → f.1 ≤ t) :
    c.cut? t = some c := by
  obtain ⟨r, started, finish⟩ := c
  rw [cut?, if_pos hstarted]
  cases finish with
  | none => rfl
  | some f => rw [Option.filter_some, if_pos (decide_eq_true (hfinish f rfl))]

/-- That a call ends later makes no difference. -/
theorem Call.cut?_of_later {t : Nat} {c c' : Call} (hhead : c'.head = c.head) (hopen : c.finish = none)
    (hlater : ∀ f, c'.finish = some f → t < f.1) : c'.cut? t = c.cut? t := by
  obtain ⟨r, started, finish⟩ := c
  obtain ⟨r', started', finish'⟩ := c'
  change finish = none at hopen
  subst hopen
  cases hhead
  cases finish' with
  | none => rfl
  | some f =>
    have hnone : (some f).filter (·.1 ≤ t) = none := by
      rw [Option.filter_some, if_neg (by simpa using hlater f rfl)]
    exact congrArg (fun finish => if started ≤ t then some (Call.mk r started finish) else none) hnone

namespace Link

variable {σ : Type} {base time : Nat} {places others : List Nat} {r : Request} {t : Ticket} {l l' l'' : Link σ}

/-- What was done from `l` to `l'` was done at `time` or later: calls were started, and calls under way have ended. -/
structure Follows (time : Nat) (l l' : Link σ) : Prop where
  kept : ∀ (i : Nat) (c : Call), l.calls[i]? = some c → ∃ c', l'.calls[i]? = some c' ∧ c'.head = c.head ∧
    (c' = c ∨ c.finish = none ∧ ∀ f, c'.finish = some f → time ≤ f.1)
  added : ∀ (i : Nat) (c : Call), l.calls.length ≤ i → l'.calls[i]? = some c → time ≤ c.started

/-- All that the log tells after the first `base` calls is over. -/
def Past (base : Nat) (l : Link σ) : Prop :=
  ∀ (i : Nat) (c : Call), base ≤ i → l.calls[i]? = some c →
    c.started ≤ l.now ∧ ∀ f, c.finish = some f → f.1 ≤ l.now

/-- The calls at these places are under way. -/
def Opens (places : List Nat) (l : Link σ) : Prop :=
  ∀ i ∈ places, ∃ c : Call, l.calls[i]? = some c ∧ c.finish = none

namespace Follows

theorem of_calls_eq (time : Nat) (h : l'.calls = l.calls) : l.Follows time l' := by
  refine ⟨fun i c hc => ⟨c, h ▸ hc, rfl, .inl rfl⟩, fun i c hi hc => ?_⟩
  rw [h, List.getElem?_eq_none hi] at hc
  cases hc

theorem trans (h : l.Follows time l') (h' : l'.Follows time l'') : l.Follows time l'' := by
  refine ⟨fun i c hc => ?_, fun i c hi hc => ?_⟩
  · obtain ⟨c', hc', hhead, hkept⟩ := h.kept i c hc
    obtain ⟨c'', hc'', hhead', hkept'⟩ := h'.kept i c' hc'
    refine ⟨c'', hc'', hhead'.trans hhead, ?_⟩
    rcases hkept with rfl | ⟨hopen, hlater⟩
    · exact hkept'
    · rcases hkept' with rfl | ⟨-, hlater'⟩
      · exact .inr ⟨hopen, hlater⟩
      · exact .inr ⟨hopen, hlater'⟩
  · rcases Nat.lt_or_ge i l'.calls.length with hlt | hge
    · have hget := List.getElem?_eq_getElem hlt
      obtain ⟨c', hc', hhead, -⟩ := h'.kept i _ hget
      have hstarted := h.added i _ hi hget
      cases hc.symm.trans hc'
      rwa [show c.started = l'.calls[i].started from congrArg Prod.snd hhead]
    · exact h'.added i c hge hc

theorem mono (h : l.Follows time l') {earlier : Nat} (hle : earlier ≤ time) : l.Follows earlier l' := by
  refine ⟨fun i c hc => ?_, fun i c hi hc => Nat.le_trans hle (h.added i c hi hc)⟩
  obtain ⟨c', hc', hhead, hkept⟩ := h.kept i c hc
  exact ⟨c', hc', hhead, hkept.imp_right fun ⟨hopen, hlater⟩ =>
    ⟨hopen, fun f hf => Nat.le_trans hle (hlater f hf)⟩⟩

theorem length_le (h : l.Follows time l') : l.calls.length ≤ l'.calls.length := by
  by_contra hlt
  have hlt := Nat.not_le.1 hlt
  obtain ⟨c', hc', -⟩ := h.kept l'.calls.length _ (List.getElem?_eq_getElem hlt)
  rw [List.getElem?_eq_none (Nat.le_refl _)] at hc'
  cases hc'

/-- What was done after time `t` does not show in the log as it stood then. -/
theorem cutAt_since {t : Nat} (h : l.Follows (t + 1) l') (hpast : l.Past base) (hnow : l.now ≤ t)
    (hbase : base ≤ l.calls.length) : cutAt t (l'.since base) = l.since base := by
  -- The calls that were there are as they were; those behind them have started too late.
  have hsplit : l'.since base = (l'.calls.take l.calls.length).drop base ++ l'.calls.drop l.calls.length := by
    conv_lhs => rw [since, ← List.take_append_drop l.calls.length l'.calls]
    rw [List.drop_append_of_le_length]
    rw [List.length_take]
    exact Nat.le_min.2 ⟨hbase, Nat.le_trans hbase h.length_le⟩
  have hlate : cutAt t (l'.calls.drop l.calls.length) = [] := by
    refine List.filterMap_eq_nil_iff.2 fun c hc => if_neg ?_
    obtain ⟨i, hi⟩ := List.mem_iff_getElem?.1 hc
    rw [List.getElem?_drop] at hi
    exact Nat.not_le.2 (h.added _ c (Nat.le_add_right ..) hi)
  have hsame : ((l'.calls.take l.calls.length).drop base).map (Call.cut? t) = (l.since base).map some := by
    refine List.ext_getElem? fun i => ?_
    rw [List.getElem?_map, List.getElem?_map, since, List.getElem?_drop, List.getElem?_drop, List.getElem?_take]
    cases hget : l.calls[base + i]? with
    | none =>
      rw [if_neg (Nat.not_lt.2 (List.getElem?_eq_none_iff.1 hget))]
      rfl
    | some c =>
      obtain ⟨c', hc', hhead, hkept⟩ := h.kept _ c hget
      obtain ⟨hstarted, hfinish⟩ := hpast _ c (Nat.le_add_right ..) hget
      have hself := c.cut?_eq_self (Nat.le_trans hstarted hnow) fun f hf => Nat.le_trans (hfinish f hf) hnow
      rw [if_pos (List.getElem?_eq_some_iff.1 hget).1, hc']
      rcases hkept with rfl | ⟨hopen, hlater⟩
      · exact congrArg some hself
      · exact congrArg some ((Call.cut?_of_later hhead hopen hlater).trans hself)
  calc cutAt t (l'.since base)
      = cutAt t ((l'.calls.take l.calls.length).drop base) := by
        rw [hsplit, cutAt, List.filterMap_append, show (l'.calls.drop _).filterMap _ = [] from hlate, List.append_nil]
        rfl
    _ = ((l.since base).map some).filterMap id := by rw [← hsame, List.filterMap_map]; rfl
    _ = l.since base := by rw [List.filterMap_map]; exact List.filterMap_some

end Follows

/-! ## The calls of a turn -/

/-- From `origin` on the turn of a part makes calls of `r` only, and waits for the call of `ticket`, if for any.
`others` are the calls that other parts wait for. The signals are of no concern to it. -/
structure Engaged (base : Nat) (others : List Nat) (r : Request) (origin : Link σ) (ticket : Option Ticket)
    (l : Link σ) : Prop where
  now : l.now = origin.now
  raised : l.raised = origin.raised
  alarms : l.alarms = origin.alarms
  follows : origin.Follows origin.now l
  base_le : base ≤ l.calls.length
  past : l.Past base
  opens : l.Opens (ticket.toList.map (·.place) ++ others)
  distinct : (ticket.toList.map (·.place) ++ others).Nodup
  issued : ∀ t, ticket = some t → l.Issued base r t

namespace Engaged

variable {origin : Link σ}

theorem start (h : Engaged base others r origin none l) :
    Engaged base others r origin (some (l.start r).2) (l.start r).1 := by
  have hold : ∀ i < l.calls.length, (l.start r).1.calls[i]? = l.calls[i]? := fun i hi => List.getElem?_append_left hi
  have hnew : (l.start r).1.calls[l.calls.length]? = some ⟨r, l.now, none⟩ := by simp [Link.start]
  have hnone : ∀ i, l.calls.length < i → (l.start r).1.calls[i]? = none := by
    intro i hi
    exact List.getElem?_eq_none (by simp only [Link.start, List.length_append, List.length_singleton]; omega)
  have hplaces : ∀ i ∈ others, i < l.calls.length := by
    intro i hi
    obtain ⟨c, hc, -⟩ := h.opens i hi
    exact (List.getElem?_eq_some_iff.1 hc).1
  refine ⟨h.now, h.raised, h.alarms, h.follows.trans ⟨fun i c hc => ?_, fun i c hi hc => ?_⟩, ?_,
    fun i c hi hc => ?_, fun i hi => ?_, ?_, ?_⟩
  · exact ⟨c, (hold i (List.getElem?_eq_some_iff.1 hc).1).trans hc, rfl, .inl rfl⟩
  · rcases Nat.lt_or_eq_of_le hi with hlt | rfl
    · cases (hnone i hlt).symm.trans hc
    · cases hnew.symm.trans hc
      exact Nat.le_of_eq h.now.symm
  · exact Nat.le_trans h.base_le (by simp [Link.start])
  · rcases Nat.lt_trichotomy i l.calls.length with hlt | rfl | hgt
    · exact h.past i c hi ((hold i hlt).symm.trans hc)
    · cases hnew.symm.trans hc
      exact ⟨Nat.le_refl _, fun f hf => by cases hf⟩
    · cases (hnone i hgt).symm.trans hc
  · rcases List.mem_cons.1 hi with rfl | hi
    · exact ⟨_, hnew, rfl⟩
    · obtain ⟨c, hc, hopen⟩ := h.opens i hi
      exact ⟨c, (hold i (hplaces i hi)).trans hc, hopen⟩
  · exact List.nodup_cons.2 ⟨fun hi => Nat.lt_irrefl _ (hplaces _ hi), h.distinct⟩
  · rintro _ ⟨⟩
    exact issued_start h.base_le

theorem finish [Endpoint σ] (h : Engaged base others r origin (some t) l) :
    Engaged base others r origin none (l.finish r t).1 := by
  have hissued := h.issued t rfl
  obtain ⟨old, hold, hopen⟩ := h.opens t.place List.mem_cons_self
  have hhead : old.head = (r, t.started) := by
    have := hissued.head
    rw [heads, List.getElem?_map, hold] at this
    exact Option.some.inj this
  have hself : (l.finish r t).1.calls[t.place]? = some ⟨r, t.started, some (l.now, (l.finish r t).2)⟩ :=
    List.getElem?_set_self (List.getElem?_eq_some_iff.1 hold).1
  have hne : ∀ i, i ≠ t.place → (l.finish r t).1.calls[i]? = l.calls[i]? :=
    fun i hi => List.getElem?_set_ne (Ne.symm hi)
  have hlength : (l.finish r t).1.calls.length = l.calls.length := List.length_set
  obtain ⟨hnot, honce⟩ := List.nodup_cons.1 h.distinct
  refine ⟨h.now, h.raised, h.alarms, h.follows.trans ⟨fun i c hc => ?_, fun i c hi hc => ?_⟩,
    hlength ▸ h.base_le, fun i c hi hc => ?_, fun i hi => ?_, honce, fun _ ht => by cases ht⟩
  · by_cases hplace : i = t.place
    · subst hplace
      cases hold.symm.trans hc
      refine ⟨_, hself, hhead.symm, .inr ⟨hopen, fun f hf => ?_⟩⟩
      cases hf
      exact Nat.le_of_eq h.now.symm
    · exact ⟨c, (hne i hplace).trans hc, rfl, .inl rfl⟩
  · rw [List.getElem?_eq_none (hlength ▸ hi)] at hc
    cases hc
  · by_cases hplace : i = t.place
    · subst hplace
      cases hself.symm.trans hc
      refine ⟨?_, fun f hf => ?_⟩
      · rw [show t.started = old.started from (congrArg Prod.snd hhead).symm]
        exact (h.past _ _ hi hold).1
      · cases hf
        exact Nat.le_refl _
    · exact h.past i c hi ((hne i hplace).symm.trans hc)
  · obtain ⟨c, hc, hopen⟩ := h.opens i (List.mem_cons_of_mem _ hi)
    exact ⟨c, (hne i fun (hplace : i = t.place) => hnot (by rwa [hplace] at hi)).trans hc, hopen⟩

theorem giveUp (h : Engaged base others r origin (some t) l) : Engaged base others r origin none l :=
  ⟨h.now, h.raised, h.alarms, h.follows, h.base_le, h.past, fun i hi => h.opens i (List.mem_cons_of_mem _ hi),
    (List.nodup_cons.1 h.distinct).2, fun _ ht => by cases ht⟩

theorem pause (h : Engaged base others r origin none l) (length : Nat) :
    Engaged base others r origin none (l.drawPause length).1 :=
  ⟨h.now, h.raised, h.alarms, h.follows.trans (.of_calls_eq _ rfl), h.base_le, h.past, h.opens, h.distinct,
    fun _ ht => by cases ht⟩

end Engaged

end Link

/-- The call that a part waits for after its turn. -/
def Turn.waitsFor : Turn → Option Ticket
  | .waits _ next => next.ticket?
  | .done _ => none
  | .failed _ => none

namespace ActivePart

variable {σ : Type} [Endpoint σ] {policy : PartPolicy} {upload : String} {base : Nat} {others : List Nat}
  {part : ActivePart} {origin l : Link σ}

variable (policy part) in
theorem engaged_call (h : Link.Engaged base others (part.request upload) origin none l) :
    Link.Engaged base others (part.request upload) origin
      ((part.call policy upload l).2.elim (fun _ => none) fun next => next.2.ticket?)
      (part.call policy upload l).1 := by
  have hstart := h.start
  simp only [call]
  split
  · exact hstart.finish
  · split
    · exact hstart.giveUp
    · exact hstart

variable (policy) in
theorem engaged_conclude (left : Nat) :
    ∀ (part : ActivePart) (backoff : Nat) {l : Link σ} (answer : Except RequestError String),
      Link.Engaged base others (part.request upload) origin none l →
        Link.Engaged base others (part.request upload) origin
          (part.conclude policy upload left backoff l answer).2.waitsFor
          (part.conclude policy upload left backoff l answer).1 := by
  -- Only a failure that may pass leads on, and it costs one of the repetitions that are left.
  induction left with
  | zero =>
    intro part backoff l answer h
    cases answer <;> exact h
  | succ left ih =>
    intro part backoff l answer h
    cases answer with
    | ok tag => exact h
    | error e =>
      have hpaused := h.pause backoff
      simp only [conclude]
      split
      · split
        · -- The pause takes no time: the part calls again within the same turn.
          let again : ActivePart := { part with left, backoff := policy.retry.next backoff }
          have hcall := engaged_call policy again hpaused
          split
          · next hc =>
            rw [hc] at hcall
            exact ih again _ _ hcall
          · next hc =>
            rw [hc] at hcall
            exact hcall
        · exact hpaused
      · exact h

variable (policy) in
theorem engaged_attempt (h : Link.Engaged base others (part.request upload) origin none l) :
    Link.Engaged base others (part.request upload) origin (part.attempt policy upload l).2.waitsFor
      (part.attempt policy upload l).1 := by
  have hcall := engaged_call policy part h
  simp only [attempt]
  split
  · next hc =>
    rw [hc] at hcall
    exact engaged_conclude policy _ _ _ _ hcall
  · next hc =>
    rw [hc] at hcall
    exact hcall

variable (policy) in
theorem engaged_wake (h : Link.Engaged base others (part.request upload) origin part.ticket? l) :
    Link.Engaged base others (part.request upload) origin (part.wake policy upload l).2.waitsFor
      (part.wake policy upload l).1 := by
  simp only [ticket?] at h
  simp only [wake]
  split
  · next hstage =>
    rw [hstage] at h
    exact engaged_attempt policy h
  · next ticket late hstage =>
    rw [hstage] at h
    split
    · exact engaged_conclude policy _ _ _ _ h.giveUp
    · exact engaged_conclude policy _ _ _ _ h.finish

end ActivePart

/-- A turn of a part starts calls and ends its own, and so leaves the calls of other parts under way. -/
theorem ReadyPart.engaged_look {σ : Type} [Endpoint σ] {policy : PartPolicy} {upload : String} {base : Nat}
    {others : List Nat} {part : ReadyPart} {l : Link σ} (hbase : base ≤ l.calls.length)
    (hwaits : part.Waits policy upload base l) (hpast : l.Past base) (hopens : l.Opens (part.places ++ others))
    (hdistinct : (part.places ++ others).Nodup) :
    ∃ r, Link.Engaged base others r l (part.look policy upload l).2.waitsFor (part.look policy upload l).1 := by
  have hbegin : ∀ r ticket, ticket.toList.map (·.place) = part.places →
      (∀ t, ticket = some t → l.Issued base r t) →
      Link.Engaged base others r l ticket l := by
    intro r ticket hplaces hissued
    exact ⟨rfl, rfl, rfl, .of_calls_eq _ rfl, hbase, hpast, hplaces ▸ hopens, hplaces ▸ hdistinct, hissued⟩
  cases part with
  | woken part =>
    refine ⟨_, ActivePart.engaged_wake policy (hbegin (part.request upload) part.ticket? rfl fun t ht => ?_)⟩
    unfold ActivePart.ticket? at ht
    cases hstage : part.stage with
    | calling ticket late =>
      rw [hstage] at ht
      cases ht
      exact (hwaits _ _ hstage).1
    | pausing =>
      rw [hstage] at ht
      cases ht
  | fresh slot p =>
    have hnone : ∀ r, Link.Engaged base others r l none l := fun r => hbegin r none rfl fun _ ht => by cases ht
    simp only [look]
    split
    · exact ⟨.abort upload, hnone _⟩
    · exact ⟨_, ActivePart.engaged_attempt policy (hnone _)⟩

namespace PartRun

variable {σ : Type} {policy : PartPolicy} {upload : String} {parts : List PartRequest} {order : List Nat}
  {base : Nat} {origin l l' : Link σ} {r r' : PartRun} {part : ReadyPart} {rest : List ReadyPart}

/-! ## The calls of a run -/

theorem Serves.calls_eq (h : Serves policy upload parts order origin l r) :
    l.calls = origin.calls ++ l.since origin.calls.length := by
  conv_lhs => rw [← List.take_append_drop origin.calls.length l.calls, h.earlier]
  rfl

/-- The log tells of the past, and the calls that the parts of the run wait for are under way, each for one part. -/
structure Chronicled (base : Nat) (l : Link σ) (r : PartRun) : Prop where
  past : l.Past base
  opens : l.Opens r.outstanding
  distinct : r.outstanding.Nodup

namespace Chronicled

theorem start (policy : PartPolicy) (upload : String) (cancel : Option Signal) (parts : List PartRequest)
    (l : Link σ) :
    (PartRun.start policy upload cancel parts).Chronicled l.calls.length l := by
  refine ⟨fun i c hi hc => ?_, List.forall_mem_nil _, List.nodup_nil⟩
  rw [List.getElem?_eq_none hi] at hc
  cases hc

/-- Only the clock, the log, and the calls that are outstanding matter. -/
theorem congr (h : r.Chronicled base l) (hcalls : l'.calls = l.calls) (hnow : l.now ≤ l'.now)
    (houtstanding : r'.outstanding.Perm r.outstanding) : r'.Chronicled base l' := by
  refine ⟨fun i c hi hc => ?_, fun i hi => ?_, houtstanding.nodup_iff.2 h.distinct⟩
  · rw [hcalls] at hc
    obtain ⟨hstarted, hfinish⟩ := h.past i c hi hc
    exact ⟨Nat.le_trans hstarted hnow, fun f hf => Nat.le_trans (hfinish f hf) hnow⟩
  · rw [hcalls]
    exact h.opens i (houtstanding.mem_iff.1 hi)

theorem fill (h : r.Chronicled base l) : r.fill.Chronicled base l :=
  h.congr rfl (Nat.le_refl _) (.of_eq r.outstanding_fill)

end Chronicled

theorem now_le_await (r : PartRun) (l : Link σ) (due : Nat) : l.now ≤ (r.await l due).1.now := by
  unfold PartRun.await
  split
  · split
    · exact l.now_le_passTo _
    · exact l.now_le_passTo due
  · exact l.now_le_passTo due

theorem Chronicled.await (h : r.Chronicled base l) (due : Nat) :
    (r.await l due).2.Chronicled base (r.await l due).1 :=
  h.congr (r.calls_await l due) (r.now_le_await l due) (r.outstanding_await l due)

variable [Endpoint σ]

/-- A turn of a run takes no time and raises no signal, and what it adds to the log follows what is there. -/
structure TakesTurn (base : Nat) (l : Link σ) (out : Link σ × PartRun × Step) : Prop where
  now : out.1.now = l.now
  raised : out.1.raised = l.raised
  alarms : out.1.alarms = l.alarms
  follows : l.Follows l.now out.1
  log : out.2.1.Chronicled base out.1

theorem Serves.takesTurn (h : Serves policy upload parts order origin l r)
    (hlog : r.Chronicled origin.calls.length l) (hready : r.ready = part :: rest) :
    TakesTurn origin.calls.length l (r.turn l part rest) := by
  have houtstanding := outstanding_of_ready hready
  obtain ⟨q, hengaged⟩ := ReadyPart.engaged_look h.base_le (h.waits part (by simp [held, hready])) hlog.past
    (houtstanding ▸ hlog.opens) (houtstanding ▸ hlog.distinct)
  obtain rfl := h.samePolicy
  obtain rfl := h.sameUpload
  unfold PartRun.turn
  simp only [mark]
  generalize part.look r.policy r.upload l = out at hengaged ⊢
  obtain ⟨l', turn⟩ := out
  cases turn with
  | waits time next =>
    have hperm : (rest.flatMap (·.places) ++ (r.asleep ++ [(time, next)]).flatMap (·.2.places)).Perm
        (next.places ++ (r.begun part rest).outstanding) := by
      rw [List.flatMap_append, ← List.append_assoc, List.flatMap_singleton]
      exact List.perm_append_comm
    exact ⟨hengaged.now, hengaged.raised, hengaged.alarms, hengaged.follows, hengaged.past,
      fun i hi => hengaged.opens i (hperm.mem_iff.1 hi), hperm.nodup_iff.2 hengaged.distinct⟩
  | done tag =>
    exact ⟨hengaged.now, hengaged.raised, hengaged.alarms, hengaged.follows, hengaged.past, hengaged.opens,
      hengaged.distinct⟩
  | failed e =>
    exact ⟨hengaged.now, hengaged.raised, hengaged.alarms, hengaged.follows, hengaged.past, hengaged.opens,
      hengaged.distinct⟩

/-! ## A run that rests -/

/-- Where no part has a turn, none was left to start, or there was no place for it. -/
theorem fill_eq_self {r : PartRun} (hready : r.fill.ready = []) : r.fill = r := by
  obtain ⟨hr, htake⟩ := List.append_eq_nil_iff.1 hready
  have htake := List.map_eq_nil_iff.1 htake
  have hdrop : r.queue.drop r.free = r.queue := by
    have hsplit := List.take_append_drop r.free r.queue
    rwa [htake, List.nil_append] at hsplit
  rw [fill, htake, hdrop, List.map_nil, List.append_nil]

/-- The run does nothing before time `t` is over: it is over already, or no part is due before that. -/
def RestsUntil (t : Nat) (l : Link σ) (r : PartRun) : Prop :=
  t < l.now ∨ r.fill.ready = [] ∧ ∀ p ∈ r.asleep, t < p.1

/-- A run that rests until `t` changes nothing of the log as it stands then. -/
theorem Serves.follows {t : Nat} (h : Serves policy upload parts order origin l r)
    (hlog : r.Chronicled origin.calls.length l) (hrests : r.RestsUntil t l) :
    l.Follows (t + 1) (r.run l).1 := by
  have hturn : ∀ {l : Link σ} {r : PartRun} {part : ReadyPart} {rest : List ReadyPart},
      r.RestsUntil t l → r.fill.ready = part :: rest → t < l.now := by
    rintro l r part rest (hlt | ⟨hnone, -⟩) hready
    · exact hlt
    · cases hnone.symm.trans hready
  fun_induction PartRun.run r l with
  | case1 r l l' r' outcome hstep =>
    rcases of_step_ended hstep with ⟨-, rfl, -, -⟩ | ⟨-, ⟨part, rest, hready, hstep'⟩ |
      ⟨-, -, rfl, -, -⟩⟩
    · exact .of_calls_eq _ rfl
    · have hfollows := (h.fill.takesTurn hlog.fill hready).follows
      rw [hstep'] at hfollows
      exact hfollows.mono (hturn hrests hready)
    · exact .of_calls_eq _ rfl
  | case2 r l l' r' hstep ih =>
    obtain ⟨-, part, rest, hready, hstep'⟩ := of_step_moved hstep
    have hlt := hturn hrests hready
    have hnext := (h.fill.turn hready).2.2
    have hturned := h.fill.takesTurn hlog.fill hready
    rw [hstep'] at hnext hturned
    exact (hturned.follows.mono hlt).trans (ih hnext hturned.log (.inl (hlt.trans_eq hturned.now.symm)))
  | case3 r l l' r' due hstep ih =>
    obtain ⟨-, hready, hdue, rfl, rfl⟩ := of_step_idle hstep
    refine (Link.Follows.of_calls_eq _ (r.fill.calls_await l' due)).trans
      (ih (h.fill.await hready hdue) (hlog.fill.await due) ?_)
    rcases hrests with hlt | ⟨-, hlater⟩
    · exact .inl (Nat.lt_of_lt_of_le hlt (r.fill.now_le_await l' due))
    · obtain ⟨-, -, -, hsame | ⟨hnow, -⟩⟩ := await_spec l' hdue fun p hp => (h.fill.later p hp).1
      · refine .inr ?_
        rw [hsame, fill_eq_self hready]
        exact ⟨(fill_eq_self hready) ▸ hready, hlater⟩
      · obtain ⟨p, hp, htime⟩ := List.mem_map.1 (List.min?_mem hdue)
        have hlt := hlater p hp
        rw [htime] at hlt
        exact .inl (hlt.trans_eq hnow.symm)

end PartRun

end ObjectFlush
