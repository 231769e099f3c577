import ObjectFlush.Proofs.Upload.Pauses
import ObjectFlush.Proofs.Upload.RunCalls
import ObjectFlush.Upload.Flusher

/-!
The pauses between the calls of each part of a run. While a part pauses, the time at which it wakes is in keeping with
its pause, and its next pause is the one that comes next (`ActivePart.Paced`); a turn of the part keeps it so
(`ReadyPart.look_paced`), and so does whatever happens to the others (`PartRun.Paced.turn`). `pause_law` puts this
together with the law of pauses itself.
-/

namespace ObjectFlush

namespace Link

variable {σ : Type} {own places : List Nat} {calls : List Call} {l l' : Link σ}

/-- The calls at the places of the log. -/
def callsAt (l : Link σ) (places : List Nat) : List Call := places.filterMap (l.calls[·]?)

theorem callsAt_append (l : Link σ) (places places' : List Nat) :
    l.callsAt (places ++ places') = l.callsAt places ++ l.callsAt places' := List.filterMap_append

theorem callsAt_singleton {place : Nat} {c : Call} (h : l.calls[place]? = some c) : l.callsAt [place] = [c] := by
  simp [callsAt, h]

theorem callsAt_eq (h : List.Forall₂ (fun place c => l.calls[place]? = some c) places calls) :
    l.callsAt places = calls := by
  induction h with
  | nil => rfl
  | cons hc _ ih => rw [callsAt, List.filterMap_cons_some hc, ← ih, callsAt]

/-- Calls that do not end on the way stay as they are. -/
theorem Keeps.callsAt (h : l.Keeps own l') (hplaces : ∀ i ∈ places, i < l.calls.length ∧ i ∉ own) :
    l'.callsAt places = l.callsAt places :=
  List.filterMap_congr fun i hi => h.calls i (hplaces i hi).1 (hplaces i hi).2

end Link

namespace ActivePart

variable {σ : Type} {policy : PartPolicy} {upload : String} {mine own : List Nat} {part : ActivePart} {time : Nat}
  {l l' : Link σ}

/-- The calls of a part under way are at `mine`. Its next pause is the one that comes next, and if it pauses, it is
going to wake at `time`, when the pause before is over. -/
def Paced (policy : PartPolicy) (mine : List Nat) (l : Link σ) (time : Nat) (part : ActivePart) : Prop :=
  match part.stage with
  | .pausing => part.backoff = policy.retry.basePause (l.callsAt mine).length ∧
      policy.retry.Due policy.timeout (l.callsAt mine) time
  | .calling .. => part.backoff = policy.retry.basePause ((l.callsAt mine).length - 1)

theorem Paced.congr (h : part.Paced policy mine l time) {mine' : List Nat}
    (hcalls : l'.callsAt mine' = l.callsAt mine) : part.Paced policy mine' l' time := by
  unfold Paced at *
  rw [hcalls]
  exact h

end ActivePart

/-- How the calls of a part, which are at `mine`, stand after a turn of it. -/
def Turn.Paced {σ : Type} (policy : PartPolicy) (mine : List Nat) (l : Link σ) (turn : Turn) : Prop :=
  policy.retry.Paces policy.timeout (l.callsAt mine) ∧
    ∀ time next, turn = .waits time next → next.Paced policy mine l time

/-- A turn of a part adds calls of its own to those at `mine`, each after the pause before it. -/
def Turn.Pauses {σ : Type} (policy : PartPolicy) (mine : List Nat) (l : Link σ) (out : Link σ × Turn) : Prop :=
  ∃ n, out.1.calls.length = l.calls.length + n ∧
    out.2.Paced policy (mine ++ List.range' l.calls.length n) out.1

namespace Turn.Pauses

variable {σ : Type} {policy : PartPolicy} {mine : List Nat} {l l' : Link σ} {out : Link σ × Turn}

theorem refl {turn : Turn} (h : turn.Paced policy mine l) : Turn.Pauses policy mine l (l, turn) :=
  ⟨0, rfl, by rwa [List.range'_zero, List.append_nil]⟩

theorem after {n : Nat} (hlength : l'.calls.length = l.calls.length + n)
    (h : Turn.Pauses policy (mine ++ List.range' l.calls.length n) l' out) : Turn.Pauses policy mine l out := by
  obtain ⟨m, hm, hpaced⟩ := h
  refine ⟨n + m, by omega, ?_⟩
  rwa [hlength, List.append_assoc, List.range'_append_1] at hpaced

end Turn.Pauses

namespace ActivePart

variable {σ : Type} {policy : PartPolicy} {upload : String} {mine : List Nat} {part : ActivePart} {backoff : Nat}
  {l : Link σ}

/-- The calls of a part are at `mine`, and it is about to make one more. -/
structure Poised (policy : PartPolicy) (mine : List Nat) (backoff : Nat) (l : Link σ) : Prop where
  places : ∀ i ∈ mine, i < l.calls.length
  paces : policy.retry.Paces policy.timeout (l.callsAt mine)
  backoff : backoff = policy.retry.basePause (l.callsAt mine).length
  due : policy.retry.Due policy.timeout (l.callsAt mine) l.now

/-- The calls of a part are at `mine`, and the last of them is over just now. -/
structure Stopped (policy : PartPolicy) (mine : List Nat) (backoff : Nat) (l : Link σ) : Prop where
  places : ∀ i ∈ mine, i < l.calls.length
  paces : policy.retry.Paces policy.timeout (l.callsAt mine)
  last : ∃ before c, l.callsAt mine = before ++ [c] ∧ backoff = policy.retry.basePause before.length ∧
    c.overAt policy.timeout = l.now

/-- A part whose last call is over may make the next one when the pause is. -/
theorem Stopped.next (h : Stopped policy mine backoff l) (time : Nat) (hlow : l.now + backoff ≤ time)
    (hhigh : time ≤ l.now + backoff + backoff / 2) :
    policy.retry.next backoff = policy.retry.basePause (l.callsAt mine).length ∧
      policy.retry.Due policy.timeout (l.callsAt mine) time := by
  obtain ⟨before, c, hcalls, rfl, hover⟩ := h.last
  rw [hcalls]
  refine ⟨by rw [List.length_append]; rfl, RepeatPolicy.due_concat ?_⟩
  rw [hover]
  exact ⟨hlow, hhigh⟩

/-- All calls of a part under way are in the log. -/
theorem Records.lt_length (h : part.Records policy upload mine l) : ∀ i ∈ mine, i < l.calls.length := by
  unfold Records at h
  split at h
  · exact Link.Tells.lt_length h
  · obtain ⟨-, hpends, before, rfl, -, htells⟩ := h
    exact List.forall_mem_append.2 ⟨htells.lt_length, List.forall_mem_singleton.2 hpends.lt_length⟩

variable [Endpoint σ]

variable (policy upload) in
/-- A part makes a call at once. Its answer is there in no time, or else the part waits for it. -/
theorem call_adds (part : ActivePart) (l : Link σ) :
    ∃ c : Call, (part.call policy upload l).1.calls = l.calls ++ [c] ∧ c.started = l.now ∧
      (part.call policy upload l).1.now = l.now ∧
      match (part.call policy upload l).2 with
      | .inl _ => c.overAt policy.timeout = l.now
      | .inr (_, next) => ∃ ticket late, next = { part with stage := .calling ticket late } := by
  simp only [call]
  split
  · let answer := ((l.start (part.request upload)).1.finish (part.request upload) (l.start (part.request upload)).2).2
    refine ⟨⟨part.request upload, l.now, some (l.now, answer)⟩, ?_, rfl, rfl, rfl⟩
    show List.set (l.calls ++ [_]) l.calls.length _ = _
    rw [List.set_append_right _ _ (Nat.le_refl _), Nat.sub_self, List.set_cons_zero]
    rfl
  · split
    · next hnone => exact ⟨⟨part.request upload, l.now, none⟩, rfl, rfl, rfl, congrArg (l.now + ·) hnone⟩
    · exact ⟨⟨part.request upload, l.now, none⟩, rfl, rfl, rfl, _, _, rfl⟩

variable (upload) in
/-- The calls of a part that was about to make one, once it is made. -/
theorem call_paced (part : ActivePart) (h : Poised policy mine part.backoff l) :
    (part.call policy upload l).1.calls.length = l.calls.length + 1 ∧
      match (part.call policy upload l).2 with
      | .inl _ => Stopped policy (mine ++ [l.calls.length]) part.backoff (part.call policy upload l).1
      | .inr (time, next) =>
        (Turn.waits time next).Paced policy (mine ++ [l.calls.length]) (part.call policy upload l).1 := by
  obtain ⟨c, hcalls, hstarted, hnow, hout⟩ := part.call_adds policy upload l
  generalize part.call policy upload l = out at *
  obtain ⟨l', out⟩ := out
  dsimp only at *
  have hlength : l'.calls.length = l.calls.length + 1 := by rw [hcalls, List.length_append, List.length_singleton]
  have hold : l'.callsAt mine = l.callsAt mine := by
    refine List.filterMap_congr fun i hi => ?_
    rw [hcalls, List.getElem?_append_left (h.places i hi)]
  have hnew : l'.callsAt (mine ++ [l.calls.length]) = l.callsAt mine ++ [c] := by
    rw [Link.callsAt_append, hold, Link.callsAt_singleton (c := c) (by rw [hcalls, List.getElem?_concat_length])]
  have hpaces : policy.retry.Paces policy.timeout (l'.callsAt (mine ++ [l.calls.length])) := by
    rw [hnew]
    exact RepeatPolicy.paces_concat_iff.2 ⟨h.paces, hstarted ▸ h.due⟩
  refine ⟨hlength, ?_⟩
  match out with
  | .inl answer =>
    refine ⟨fun i hi => ?_, hpaces, _, c, hnew, h.backoff, hout.trans hnow.symm⟩
    rcases List.mem_append.1 hi with hi | hi
    · have := h.places i hi
      omega
    · rw [List.mem_singleton.1 hi]
      omega
  | .inr (time, next) =>
    obtain ⟨ticket, late, rfl⟩ := hout
    refine ⟨hpaces, fun time' next' heq => ?_⟩
    cases heq
    show part.backoff = _
    rw [hnew, List.length_append, List.length_singleton, Nat.add_sub_cancel]
    exact h.backoff

variable (policy upload) in
/-- The turn of a part whose last call is over. -/
theorem conclude_paced (left : Nat) :
    ∀ (part : ActivePart) (backoff : Nat) (l : Link σ) (answer : Except RequestError String) (mine : List Nat),
      Stopped policy mine backoff l →
        Turn.Pauses policy mine l (part.conclude policy upload left backoff l answer) := by
  induction left with
  | zero =>
    intro part backoff l answer mine h
    cases answer <;> exact .refl ⟨h.paces, fun _ _ heq => by cases heq⟩
  | succ left ih =>
    intro part backoff l answer mine h
    cases answer with
    | ok tag => exact .refl ⟨h.paces, fun _ _ heq => by cases heq⟩
    | error e =>
      simp only [conclude]
      split
      · let pause := backoff + min (l.conditions.jitter l.pauses) (backoff / 2)
        have hnext := h.next (l.now + pause) (by omega) (by omega)
        split
        · next hpause =>
          -- The pause takes no time: the part calls again within the same turn.
          have hzero : pause = 0 := hpause
          rw [hzero] at hnext
          have hpoised : Poised policy mine (policy.retry.next backoff) (l.drawPause backoff).1 :=
            ⟨h.places, h.paces, hnext.1, hnext.2⟩
          obtain ⟨hlength, hcalled⟩ :=
            call_paced upload { part with left, backoff := policy.retry.next backoff } hpoised
          split
          · next l' answer hc =>
            rw [hc] at hlength hcalled
            exact .after hlength (ih _ _ l' answer _ hcalled)
          · next l' time next hc =>
            rw [hc] at hlength hcalled
            exact ⟨1, hlength, hcalled⟩
        · refine ⟨0, rfl, ?_⟩
          rw [List.range'_zero, List.append_nil]
          refine ⟨h.paces, fun time next heq => ?_⟩
          cases heq
          exact hnext
      · exact .refl ⟨h.paces, fun _ _ heq => by cases heq⟩

theorem attempt_paced (h : Poised policy mine part.backoff l) :
    Turn.Pauses policy mine l (part.attempt policy upload l) := by
  obtain ⟨hlength, hcalled⟩ := call_paced upload part h
  simp only [attempt]
  split
  · next l' answer hc =>
    rw [hc] at hlength hcalled
    exact .after hlength (conclude_paced policy upload part.left part part.backoff l' answer _ hcalled)
  · next l' time next hc =>
    rw [hc] at hlength hcalled
    exact ⟨1, hlength, hcalled⟩

/-- The turn of a part under way, at the time at which it is due. -/
theorem wake_paced (hrecords : part.Records policy upload mine l) (hdue : part.DueAt policy l.now)
    (hpaces : policy.retry.Paces policy.timeout (l.callsAt mine)) (h : part.Paced policy mine l l.now) :
    Turn.Pauses policy mine l (part.wake policy upload l) := by
  have hplaces := hrecords.lt_length
  unfold Records at hrecords
  unfold Paced at h
  simp only [wake]
  cases hstage : part.stage with
  | pausing =>
    rw [hstage] at h
    exact attempt_paced ⟨hplaces, hpaces, h.1, h.2⟩
  | calling ticket late =>
    rw [hstage] at h hrecords
    obtain ⟨rfl, hpends, before, rfl, hnew, -⟩ := hrecords
    have htime := hdue ticket _ hstage
    have hcalls : l.callsAt (before ++ [ticket.place]) =
        l.callsAt before ++ [⟨part.request upload, ticket.started, none⟩] := by
      rw [Link.callsAt_append, Link.callsAt_singleton hpends.call]
    have hbackoff : part.backoff = policy.retry.basePause (l.callsAt before).length := by
      have h : part.backoff = policy.retry.basePause ((l.callsAt (before ++ [ticket.place])).length - 1) := h
      rwa [hcalls, List.length_append, List.length_singleton, Nat.add_sub_cancel] at h
    by_cases hlate : policy.timeout < ticket.reaction.delay
    · rw [decide_eq_true hlate]
      refine conclude_paced policy upload part.left part part.backoff l (.error .timeout) _
        ⟨hplaces, hpaces, _, _, hcalls, hbackoff, ?_⟩
      show ticket.started + policy.timeout = l.now
      omega
    · rw [decide_eq_false hlate]
      let l' := (l.finish (part.request upload) ticket).1
      let answer := (l.finish (part.request upload) ticket).2
      have hold : l'.callsAt before = l.callsAt before := by
        refine (Link.keeps_finish hpends).callsAt fun i hi => ⟨hplaces i (List.mem_append_left _ hi),
          fun hmem => ?_⟩
        exact hnew (List.mem_singleton.1 hmem ▸ hi)
      have hcall : l'.calls[ticket.place]? = some ⟨part.request upload, ticket.started, some (l.now, answer)⟩ :=
        List.getElem?_set_self hpends.lt_length
      have hfinished : l'.callsAt (before ++ [ticket.place]) =
          l.callsAt before ++ [⟨part.request upload, ticket.started, some (l.now, answer)⟩] := by
        rw [Link.callsAt_append, hold, Link.callsAt_singleton hcall]
      have hlength : l'.calls.length = l.calls.length + 0 := List.length_set
      refine .after hlength ?_
      rw [List.range'_zero, List.append_nil]
      refine conclude_paced policy upload part.left part part.backoff _ _ _ ⟨?_, ?_, _, _, hfinished, hbackoff, rfl⟩
      · intro i hi
        exact (hplaces i hi).trans_eq List.length_set.symm
      · rw [hcalls] at hpaces
        rw [hfinished]
        exact hpaces.congr_last rfl

end ActivePart

namespace ReadyPart

variable {σ : Type} [Endpoint σ] {policy : PartPolicy} {upload : String} {mine : List Nat} {part : ReadyPart}
  {l : Link σ}

/-- A part that has its turn, if it is under way, wakes when its pause is over. -/
def Paced (policy : PartPolicy) (mine : List Nat) (l : Link σ) : ReadyPart → Prop
  | .fresh .. => True
  | .woken part => part.Paced policy mine l l.now

theorem look_paced (hrecords : part.Records policy upload mine l) (hdue : part.Due policy l.now)
    (hpaces : policy.retry.Paces policy.timeout (l.callsAt mine)) (h : part.Paced policy mine l) :
    Turn.Pauses policy mine l (part.look policy upload l) := by
  cases part with
  | woken part => exact ActivePart.wake_paced hrecords hdue hpaces h
  | fresh slot part =>
    obtain ⟨number, payload⟩ := part
    obtain rfl : mine = [] := hrecords
    cases payload with
    | error e => exact .refl ⟨hpaces, fun _ _ heq => by cases heq⟩
    | ok payload =>
      have hpoised : ActivePart.Poised policy [] (ActivePart.first policy slot number payload).backoff l :=
        ⟨List.forall_mem_nil _, hpaces, rfl, policy.retry.due_nil policy.timeout l.now⟩
      exact ActivePart.attempt_paced hpoised

end ReadyPart

namespace PartRun

variable {σ : Type} {policy : PartPolicy} {upload : String} {parts : List PartRequest} {order senders : List Nat}
  {base : Nat} {origin l : Link σ} {r : PartRun} {part : ReadyPart} {rest : List ReadyPart}

/-- The pauses of each part at a moment of a run, which has made a call for each of `senders`, the first of them at
`base`. -/
structure Paced (policy : PartPolicy) (base : Nat) (senders : List Nat) (l : Link σ) (r : PartRun) : Prop where
  paces : ∀ slot, policy.retry.Paces policy.timeout (l.callsAt (placesOf base senders slot))
  ready : ∀ x ∈ r.ready, x.Paced policy (placesOf base senders x.slot) l
  asleep : ∀ q ∈ r.asleep, q.2.Paced policy (placesOf base senders q.2.slot) l q.1

namespace Paced

theorem start (policy : PartPolicy) (upload : String) (cancel : Option Signal) (parts : List PartRequest) (base : Nat)
    (l : Link σ) : Paced policy base [] l (PartRun.start policy upload cancel parts) :=
  ⟨fun _ => policy.retry.paces_nil policy.timeout, List.forall_mem_nil _, List.forall_mem_nil _⟩

theorem fill (h : Paced policy base senders l r) : Paced policy base senders l r.fill := by
  refine ⟨h.paces, fun x hx => ?_, h.asleep⟩
  rcases List.mem_append.1 hx with hx | hx
  · exact h.ready x hx
  · obtain ⟨q, -, rfl⟩ := List.mem_map.1 hx
    trivial

/-- The clock runs no further than to the time at which the first part wakes. -/
theorem await (h : Paced policy base senders l r) {due : Nat} (hready : r.ready = []) (hdue : r.due? = some due)
    (hlater : ∀ q ∈ r.asleep, l.now ≤ q.1) : Paced policy base senders (r.await l due).1 (r.await l due).2 := by
  have hcalls (places : List Nat) : (r.await l due).1.callsAt places = l.callsAt places := by
    rw [Link.callsAt, r.calls_await l due, Link.callsAt]
  have hpaces (slot : Nat) :
      policy.retry.Paces policy.timeout ((r.await l due).1.callsAt (placesOf base senders slot)) := by
    rw [hcalls]
    exact h.paces slot
  have hasleep : ∀ q ∈ r.asleep, q.2.Paced policy (placesOf base senders q.2.slot) (r.await l due).1 q.1 :=
    fun q hq => (h.asleep q hq).congr (hcalls _)
  obtain ⟨-, -, -, hrun | ⟨hnow, hrun⟩⟩ := await_spec l hdue hlater
  · refine ⟨hpaces, ?_, ?_⟩
    · rw [hrun, hready]
      exact List.forall_mem_nil _
    · rw [hrun]
      exact hasleep
  · refine ⟨hpaces, ?_, ?_⟩
    · rw [hrun]
      intro x hx
      rw [PartRun.rouse, hready, List.nil_append] at hx
      obtain ⟨q, hq, rfl⟩ := List.mem_map.1 hx
      obtain ⟨hmem, hle⟩ := List.mem_filter.1 hq
      have htime : (r.await l due).1.now = q.1 :=
        hnow.trans (Nat.le_antisymm (due_le hdue q hmem) (of_decide_eq_true hle))
      show q.2.Paced policy _ _ (r.await l due).1.now
      rw [htime]
      exact hasleep q hmem
    · rw [hrun]
      exact fun q hq => hasleep q (List.mem_filter.1 hq).1

/-- When only the part at `slot` makes calls, the pauses of the others stay as they are. -/
theorem update {senders' : List Nat} {l' : Link σ} {r' : PartRun} (h : Paced policy base senders l r) {slot : Nat}
    (hnow : l'.now = l.now)
    (hothers : ∀ s ≠ slot, l'.callsAt (placesOf base senders' s) = l.callsAt (placesOf base senders s))
    (hpaces : policy.retry.Paces policy.timeout (l'.callsAt (placesOf base senders' slot)))
    (hready : ∀ x ∈ r'.ready, x.slot ≠ slot ∧ x ∈ r.ready)
    (hasleep : ∀ q ∈ r'.asleep, (q.2.slot ≠ slot ∧ q ∈ r.asleep) ∨
      q.2.slot = slot ∧ q.2.Paced policy (placesOf base senders' slot) l' q.1) :
    Paced policy base senders' l' r' := by
  refine ⟨fun s => ?_, fun x hx => ?_, fun q hq => ?_⟩
  · by_cases hs : s = slot
    · exact hs ▸ hpaces
    · rw [hothers s hs]
      exact h.paces s
  · obtain ⟨hne, hold⟩ := hready x hx
    have hpaced := h.ready x hold
    cases x with
    | fresh => trivial
    | woken part =>
      show part.Paced policy _ l' l'.now
      rw [hnow]
      exact ActivePart.Paced.congr hpaced (hothers part.slot hne)
  · rcases hasleep q hq with ⟨hne, hold⟩ | ⟨heq, hpaced⟩
    · exact (h.asleep q hold).congr (hothers q.2.slot hne)
    · exact heq.symm ▸ hpaced

variable [Endpoint σ]

/-- The turn of a part adds the calls that it makes to its own. -/
theorem turn (h : Paced policy base senders l r) (hrecorded : Recorded policy upload parts base senders l r)
    (hserves : Serves policy upload parts order origin l r) (hready : r.ready = part :: rest) :
    Paced policy base (senders ++ Moment.callers ⟨l, r.begun part rest, some part⟩) (r.turn l part rest).1
      (r.turn l part rest).2.1 := by
  have hself : part ∈ r.held := by simp [PartRun.held, hready]
  have hdue := hserves.due part (by simp [hready])
  obtain ⟨hnow, hslot⟩ := hserves.look hready
  have hrest : ∀ x ∈ rest, x.slot ≠ part.slot ∧ x ∈ r.ready := by
    intro x hx
    refine ⟨hserves.seated.slot_ne hready (by simp [PartRun.held, PartRun.begun, mark, hx]), ?_⟩
    rw [hready]
    exact List.mem_cons_of_mem _ hx
  have hasleep : ∀ q ∈ r.asleep, q.2.slot ≠ part.slot ∧ q ∈ r.asleep := by
    intro q hq
    refine ⟨hserves.seated.slot_ne hready (x := .woken q.2) ?_, hq⟩
    exact List.mem_append_left _ (List.mem_append_right _ (List.mem_map_of_mem hq))
  have hrecords := hrecorded.held part hself
  obtain rfl := hserves.samePolicy
  obtain rfl := hserves.sameUpload
  obtain ⟨hkeeps, -⟩ := ReadyPart.look_records hrecords hdue
  obtain ⟨n, hn, hpaces, hnext⟩ :=
    ReadyPart.look_paced hrecords hdue (h.paces part.slot) (h.ready part (by simp [hready]))
  have hothers : ∀ slot ≠ part.slot,
      (part.look r.policy r.upload l).1.callsAt (placesOf base (senders ++ List.replicate n part.slot) slot) =
        l.callsAt (placesOf base senders slot) := by
    intro slot hslot
    rw [placesOf_concat_other base senders n hslot.symm]
    refine hkeeps.callsAt fun i hi => ⟨?_, fun hmem => ?_⟩
    · obtain ⟨k, hk, rfl⟩ := mem_placesOf.1 hi
      have := (List.getElem?_eq_some_iff.1 hk).1
      rw [hrecorded.length]
      omega
    · exact placesOf_disjoint hslot.symm hi (hrecords.places_subset hmem)
  rw [hrecorded.length, ← placesOf_concat_self] at hpaces hnext
  rw [callers_begun hn]
  unfold PartRun.turn
  simp only [mark, List.set_set]
  generalize part.look r.policy r.upload l = out at *
  obtain ⟨l', turn⟩ := out
  cases turn with
  | waits time next =>
    refine h.update hnow hothers hpaces hrest fun q hq => ?_
    rcases List.mem_append.1 hq with hq | hq
    · exact .inl (hasleep q hq)
    · obtain rfl := List.mem_singleton.1 hq
      exact .inr ⟨hslot time next rfl, hnext time next rfl⟩
  | done tag => exact h.update hnow hothers hpaces hrest fun q hq => .inl (hasleep q hq)
  | failed e => exact h.update hnow hothers hpaces hrest fun q hq => .inl (hasleep q hq)

/-- Whatever happens in a run, each part pauses by the policy. -/
theorem run (hserves : Serves policy upload parts order origin l r) :
    ∀ senders, Recorded policy upload parts base senders l r → Paced policy base senders l r →
      Paced policy base (senders ++ callers (r.history l)) (r.run l).1 (r.run l).2.1 := by
  refine hserves.along (motive := fun l r moments l' r' => ∀ senders,
    Recorded policy upload parts base senders l r → Paced policy base senders l r →
      Paced policy base (senders ++ callers moments) l' r') ?_ ?_ ?_ ?_
  · rintro l r r' - hr senders - h
    rw [show callers [⟨l, r, none⟩] = [] from rfl, List.append_nil]
    rcases hr with rfl | rfl
    · exact h
    · exact h.fill
  · intro l r part rest hserves hready senders hrecorded h
    have hturn := h.fill.turn hrecorded.fill hserves.fill hready
    simpa [callers, Moment.callers] using hturn
  · intro l r part rest moments l' r' hserves hready _ ih senders hrecorded h
    have hrest := ih _ (hrecorded.fill.turn hserves.fill hready) (h.fill.turn hrecorded.fill hserves.fill hready)
    rw [List.append_assoc] at hrest
    exact hrest
  · intro l r due moments l' r' hserves hready hdue ih senders hrecorded h
    exact ih senders (hrecorded.fill.await due) (h.fill.await hready hdue fun q hq => (hserves.later q hq).1)

end Paced

end PartRun

/-- Between the calls of each part of a run are the pauses of the policy. -/
theorem part_run_paces {σ : Type} [Endpoint σ] (policy : PartPolicy) (upload : String) (cancel : Option Signal)
    (parts : List PartRequest) (l : Link σ) :
    let r := PartRun.start policy upload cancel parts
    ∃ log, (r.run l).1.calls = l.calls ++ log ∧
      ∀ i, policy.retry.Paces policy.timeout (entriesOf (callers (r.history l)) log i) := by
  intro r
  obtain ⟨log, hlog, hsends⟩ := PartRun.log_of_run policy upload cancel parts l
  have hpaced := PartRun.Paced.run (.start policy upload cancel parts l) []
    (.start policy upload cancel parts l) (.start policy upload cancel parts l.calls.length l)
  refine ⟨log, hlog, fun i => ?_⟩
  have hplaces := Link.forall₂_places hlog
  rw [← hsends.length_eq] at hplaces
  rw [← Link.callsAt_eq (entriesOf_rel hplaces (callers (r.history l)) i)]
  exact hpaced.paces i

/-- **The law of pauses.** Attempts are repeated after the pauses of the policy in order, as many of them as it allows
if all fail in ways that may pass. Each pause but the first is the first one doubled as often as there were pauses and
cut to the longest, so that they do not get shorter and none is longer than that. The first pause is taken as it is
given: if the longest bounds it, all this is true of the first pause too, and else not, unless nothing is repeated. By
this law pause a request that is repeated over a link and each part of a run: between any two calls, one after the
other, is the pause of the policy and at most half of it on top. -/
theorem pause_law {σ : Type} [Endpoint σ] (p : RepeatPolicy) :
    (∀ (α : Type) (outcome : Nat → Except RequestError α), ∃ n ≤ p.limit,
      (p.trace outcome).2.attempts = n + 1 ∧ (p.trace outcome).2.pauses = (List.range n).map p.basePause ∧
        ((∀ i < p.limit, MayPass (failureOf (outcome i))) → n = p.limit)) ∧
    p.basePause 0 = p.pause ∧
    (∀ k, p.basePause (k + 1) = min (p.pause * 2 ^ (k + 1)) p.longestPause ∧
      p.basePause (k + 1) ≤ p.basePause (k + 2) ∧ p.basePause (k + 1) ≤ p.longestPause) ∧
    ((∀ k < p.limit, p.basePause k = min (p.pause * 2 ^ k) p.longestPause) ↔
      p.limit = 0 ∨ p.pause ≤ p.longestPause) ∧
    ((∀ k, k + 1 < p.limit → p.basePause k ≤ p.basePause (k + 1)) ↔
      p.limit ≤ 1 ∨ p.pause ≤ p.longestPause) ∧
    ((∀ k < p.limit, p.basePause k ≤ p.longestPause) ↔ p.limit = 0 ∨ p.pause ≤ p.longestPause) ∧
    (∀ (timeout : Nat) (r : Request) (l : Link σ), ∃ log,
      ((Dialogue.persist p r).run l).1.calls = l.calls ++ log ∧ p.Paces timeout log) ∧
    ∀ (concurrency timeout : Nat) (upload : String) (cancel : Option Signal) (parts : List PartRequest) (l : Link σ),
      let r := PartRun.start ⟨concurrency, p, timeout⟩ upload cancel parts
      ∃ log, (r.run l).1.calls = l.calls ++ log ∧
        ∀ i, p.Paces timeout (entriesOf (callers (r.history l)) log i) := by
  refine ⟨fun α outcome => p.trace_pauses outcome, rfl, fun k =>
    ⟨p.basePause_succ k, ?_, p.basePause_le_longest k⟩,
    p.basePause_eq_iff, p.basePause_mono_iff, p.basePause_bounded_iff, Dialogue.paces_persist p, ?_⟩
  · exact RepeatPolicy.le_next (p.basePause_le_longest k)
  · exact fun concurrency timeout => part_run_paces ⟨concurrency, p, timeout⟩

/-- Settings that are found consistent, under which the first pause is longer than the longest, and the second is
shorter than the first. -/
theorem first_pause_above_longest :
    let f : Flusher := ⟨{ retryLimit := 2, retryBackoff := 32768 }, by decide⟩
    let p := f.settings.repeatPolicy
    let pauses := (p.trace fun n => if n < 2 then .error .timeout else .ok n).2.pauses
    pauses = [32768, 10000] ∧ p.limit = 2 ∧ p.longestPause = 10000 ∧
      pauses ≠ (List.range p.limit).map (fun k => min (p.pause * 2 ^ k) p.longestPause) ∧
      ¬pauses.Pairwise (· ≤ ·) ∧ ¬∀ pause ∈ pauses, pause ≤ p.longestPause := by
  decide

end ObjectFlush
