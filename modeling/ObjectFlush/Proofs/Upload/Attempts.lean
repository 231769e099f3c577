import ObjectFlush.Upload.Part

/-!
The log of a link, seen from one part. `attempts` are the calls for a part, with their answers as tags;
`Link.Open` says that a ticket is of the last call in its lane, and that the call is still under way; and
`Link.Makes` is all that calls of one request may change: their own entries in the log.

A part may end its call long after it was started, when other parts have added to the log. What ties its
ticket to its own last attempt is that nothing in its lane comes after it (`Link.Open.attempts_finish`).
-/

namespace ObjectFlush

/-- A call for a part, with the tag that it was answered with. -/
structure Attempt where
  upload : String
  payload : Payload
  started : Nat
  finish : Option (Nat × Except RequestError String)

namespace Attempt

/-- What the attempt came to: its answer, or a timeout where it was given up. -/
def outcome (a : Attempt) : Except RequestError String :=
  match a.finish with
  | some (_, answer) => answer
  | none => .error .timeout

end Attempt

/-- The call as an attempt at the part of that number, if it is one. -/
def Call.attempt? (number : Nat) : Call → Option Attempt
  | ⟨.uploadPart upload n data, started, finish⟩ =>
    if n = number then some ⟨upload, .bytes data, started, finish⟩ else none
  | ⟨.copyPart upload n source, started, finish⟩ =>
    if n = number then some ⟨upload, .copy source, started, finish⟩ else none
  | _ => none

/-- The attempts at a part among some calls, first to last. -/
def attempts (log : List Call) (number : Nat) : List Attempt :=
  log.filterMap (Call.attempt? number)

@[simp] theorem Payload.lane_request (p : Payload) (upload : String) (number : Nat) :
    (p.request upload number).lane = .part number := by
  cases p <;> rfl

theorem Payload.attempt?_request (p : Payload) (upload : String) (number started : Nat)
    (finish : Option (Nat × Except RequestError (p.request upload number).Answer)) :
    Call.attempt? number ⟨p.request upload number, started, finish⟩ =
      some ⟨upload, p, started, finish.map fun f => (f.1, f.2.map (p.tag upload number))⟩ := by
  -- For both kinds of part the answer is its tag, so that nothing is done to it.
  have hid : ∀ (q : Payload) (f : Option (Nat × Except RequestError String)),
      some (Attempt.mk upload q started f) =
        some ⟨upload, q, started, f.map fun f => (f.1, f.2.map fun tag => tag)⟩ := by
    intro q f
    rcases f with _ | ⟨time, _ | tag⟩ <;> rfl
  cases p with
  | bytes data => exact (if_pos rfl).trans (hid (.bytes data) finish)
  | copy source => exact (if_pos rfl).trans (hid (.copy source) finish)

theorem Call.attempt?_eq_none {c : Call} {number : Nat} (h : c.request.lane ≠ .part number) :
    c.attempt? number = none := by
  obtain ⟨r, started, finish⟩ := c
  cases r with
  | uploadPart upload n data => exact if_neg fun hn => h (congrArg Request.Lane.part hn)
  | copyPart upload n source => exact if_neg fun hn => h (congrArg Request.Lane.part hn)
  | _ => rfl

theorem attempts_append (a b : List Call) (number : Nat) :
    attempts (a ++ b) number = attempts a number ++ attempts b number := List.filterMap_append

theorem attempts_eq_nil {log : List Call} {number : Nat}
    (h : ∀ c ∈ log, c.request.lane ≠ .part number) : attempts log number = [] :=
  List.filterMap_eq_nil_iff.2 fun c hc => Call.attempt?_eq_none (h c hc)

/-- A log with another entry at a place, split there. -/
theorem drop_set_eq {log : List Call} {base place : Nat} (hbase : base ≤ place)
    (hplace : place < log.length) (c : Call) :
    (log.set place c).drop base = (log.take place).drop base ++ c :: log.drop (place + 1) := by
  rw [List.set_eq_take_append_cons_drop, if_pos hplace, List.drop_append_of_le_length]
  simp only [List.length_take]; omega

namespace Link

variable {σ : Type} {base : Nat} {r : Request} {l l' : Link σ} {t : Ticket}

/-- The calls after the first `base`. -/
def since (l : Link σ) (base : Nat) : List Call := l.calls.drop base

/-- The call of a ticket is not one of the first `base`; it is the last of its lane, and under way. -/
structure Open (base : Nat) (l : Link σ) (r : Request) (t : Ticket) : Prop where
  call : l.calls[t.place]? = some ⟨r, t.started, none⟩
  recent : base ≤ t.place
  last : ∀ i c, t.place < i → l.calls[i]? = some c → c.request.lane ≠ r.lane

namespace Open

theorem lt_length (h : l.Open base r t) : t.place < l.calls.length :=
  (List.getElem?_eq_some_iff.1 h.call).1

theorem since_eq (h : l.Open base r t) :
    l.since base =
      (l.calls.take t.place).drop base ++ ⟨r, t.started, none⟩ :: l.calls.drop (t.place + 1) := by
  obtain ⟨hlt, hget⟩ := List.getElem?_eq_some_iff.1 h.call
  rw [← drop_set_eq h.recent hlt, ← hget, List.set_getElem_self, since]

/-- Nothing in the lane comes after the call. -/
theorem lane_of_mem_drop (h : l.Open base r t) {c : Call} (hc : c ∈ l.calls.drop (t.place + 1)) :
    c.request.lane ≠ r.lane := by
  obtain ⟨i, hi⟩ := List.mem_iff_getElem?.1 hc
  rw [List.getElem?_drop] at hi
  exact h.last _ c (by omega) hi

end Open

/-- From `l` to `l'`, in no time, calls of `r` are started and ended, and nothing else: no entry of
another lane changes, nor any of the first `base`. -/
structure Makes (base : Nat) (r : Request) (l l' : Link σ) : Prop where
  now : l'.now = l.now
  conditions : l'.conditions = l.conditions
  /-- The calls that are new are of `r`, and start now. -/
  starts : ∃ n, l'.calls.map (fun c => (c.request, c.started)) =
    l.calls.map (fun c => (c.request, c.started)) ++ List.replicate n (r, l.now)
  earlier : l'.calls.take base = l.calls.take base
  others : ∀ n, r.lane ≠ .part n → attempts (l'.since base) n = attempts (l.since base) n
  opened : ∀ r' t, r'.lane ≠ r.lane → l.Open base r' t → l'.Open base r' t

namespace Makes

theorem refl (base : Nat) (r : Request) (l : Link σ) : l.Makes base r l :=
  ⟨rfl, rfl, ⟨0, by simp⟩, rfl, fun _ _ => rfl, fun _ _ _ h => h⟩

theorem trans {l'' : Link σ} (h : l.Makes base r l') (h' : l'.Makes base r l'') :
    l.Makes base r l'' := by
  obtain ⟨n, hn⟩ := h.starts
  obtain ⟨m, hm⟩ := h'.starts
  refine ⟨h'.now.trans h.now, h'.conditions.trans h.conditions, ⟨n + m, ?_⟩,
    h'.earlier.trans h.earlier, fun k hk => (h'.others k hk).trans (h.others k hk),
    fun r' t hr ho => h'.opened r' t hr (h.opened r' t hr ho)⟩
  rw [hm, hn, h.now, List.append_assoc, List.replicate_append_replicate]

theorem length_le (h : l.Makes base r l') : l.calls.length ≤ l'.calls.length := by
  obtain ⟨n, hn⟩ := h.starts
  have hlength := congrArg List.length hn
  simp only [List.length_map, List.length_append] at hlength
  omega

theorem request_of_new (h : l.Makes base r l') {c : Call} (hc : c ∈ l'.calls.drop l.calls.length) :
    c.request = r := by
  obtain ⟨n, hn⟩ := h.starts
  have hdrop := congrArg (List.drop l.calls.length) hn
  rw [← List.map_drop, List.drop_left' (by simp)] at hdrop
  have hmem : (c.request, c.started) ∈ List.replicate n (r, l.now) := hdrop ▸ List.mem_map_of_mem hc
  exact congrArg Prod.fst (List.eq_of_mem_replicate hmem)

/-- Each call of the log afterwards is of `r`, or of a request that was there. -/
theorem request_of_mem (h : l.Makes base r l') (hbase : base ≤ l.calls.length) {c : Call}
    (hc : c ∈ l'.since base) : c.request = r ∨ ∃ c' ∈ l.since base, c'.request = c.request := by
  obtain ⟨n, hn⟩ := h.starts
  have hdrop := congrArg (List.drop base) hn
  rw [← List.map_drop, List.drop_append_of_le_length (by simpa using hbase), ← List.map_drop] at hdrop
  have hmem : (c.request, c.started) ∈ (l'.since base).map fun c => (c.request, c.started) :=
    List.mem_map_of_mem hc
  rw [since, hdrop] at hmem
  rcases List.mem_append.1 hmem with hmem | hmem
  · obtain ⟨c', hc', heq⟩ := List.mem_map.1 hmem
    exact .inr ⟨c', hc', congrArg Prod.fst heq⟩
  · exact .inl (congrArg Prod.fst (List.eq_of_mem_replicate hmem))

end Makes

/-! ## Starting and ending a call -/

theorem makes_drawPause (base : Nat) (r : Request) (l : Link σ) (pause : Nat) :
    l.Makes base r (l.drawPause pause).1 :=
  ⟨rfl, rfl, ⟨0, by simp [drawPause]⟩, rfl, fun _ _ => rfl, fun _ _ _ h => ⟨h.call, h.recent, h.last⟩⟩

theorem makes_start (r : Request) (hbase : base ≤ l.calls.length) :
    l.Makes base r (l.start r).1 := by
  refine ⟨rfl, rfl, ⟨1, by simp [start]⟩, List.take_append_of_le_length hbase, ?_, ?_⟩
  · intro n hn
    have hnew : attempts [⟨r, l.now, none⟩] n = [] := attempts_eq_nil (by simpa using hn)
    rw [since, start, List.drop_append_of_le_length hbase, attempts_append, hnew, List.append_nil, since]
  · intro r' t hlane h
    refine ⟨?_, h.recent, ?_⟩
    · show (l.calls ++ [_])[t.place]? = _
      rw [List.getElem?_append_left h.lt_length]
      exact h.call
    · intro i c hi hc
      change (l.calls ++ [_])[i]? = some c at hc
      rcases Nat.lt_or_ge i l.calls.length with hlt | hge
      · rw [List.getElem?_append_left hlt] at hc
        exact h.last i c hi hc
      · rw [List.getElem?_append_right hge] at hc
        have hmem := List.mem_of_getElem? hc
        rw [List.mem_singleton.1 hmem]
        exact hlane.symm

theorem open_start (r : Request) (hbase : base ≤ l.calls.length) :
    (l.start r).1.Open base r (l.start r).2 := by
  refine ⟨?_, hbase, ?_⟩
  · show (l.calls ++ [_])[l.calls.length]? = _
    simp [start]
  · intro i c hi hc
    change (l.calls ++ [_])[i]? = some c at hc
    change l.calls.length < i at hi
    rw [List.getElem?_eq_none (by simp only [List.length_append, List.length_singleton]; omega)] at hc
    cases hc

theorem attempts_start {p : Payload} {upload : String} {n : Nat} (hbase : base ≤ l.calls.length) :
    attempts ((l.start (p.request upload n)).1.since base) n =
      attempts (l.since base) n ++ [⟨upload, p, l.now, none⟩] := by
  rw [since, start, List.drop_append_of_le_length hbase, attempts_append, since]
  congr 1
  show [_].filterMap (Call.attempt? n) = _
  rw [List.filterMap_cons, p.attempt?_request]
  rfl

variable [Endpoint σ]

theorem makes_finish (h : l.Open base r t) : l.Makes base r (l.finish r t).1 := by
  have hlt := h.lt_length
  refine ⟨rfl, rfl, ⟨0, ?_⟩, ?_, ?_, ?_⟩
  · -- The entry that changes keeps its request and its start.
    show (l.calls.set _ _).map _ = _
    rw [List.map_set, List.replicate_zero, List.append_nil]
    obtain ⟨hplace, hget⟩ := List.getElem?_eq_some_iff.1 h.call
    apply List.ext_getElem?
    intro i
    rw [List.getElem?_set]
    split
    · next hi =>
      subst hi
      simp [hplace, hget]
    · rfl
  · exact List.take_set_of_le h.recent
  · intro n hn
    have hnone : ∀ finish, Call.attempt? n ⟨r, t.started, finish⟩ = none := fun finish =>
      Call.attempt?_eq_none hn
    show attempts ((l.calls.set _ _).drop base) n = _
    rw [drop_set_eq h.recent hlt, h.since_eq]
    simp only [attempts, List.filterMap_append, List.filterMap_cons, hnone]
  · intro r' t' hlane h'
    have hne : t.place ≠ t'.place := by
      intro heq
      have hcall := h.call
      rw [heq, h'.call] at hcall
      exact hlane (congrArg Request.lane (congrArg Call.request (Option.some.inj hcall)))
    refine ⟨?_, h'.recent, ?_⟩
    · show (l.calls.set _ _)[t'.place]? = _
      rw [List.getElem?_set_ne hne]
      exact h'.call
    · intro i c hi hc
      change (l.calls.set _ _)[i]? = some c at hc
      by_cases hit : t.place = i
      · subst hit
        rw [List.getElem?_set_self hlt] at hc
        cases hc
        exact hlane.symm
      · rw [List.getElem?_set_ne hit] at hc
        exact h'.last i c hi hc

/-- When a part ends its call, it ends its last attempt. -/
theorem Open.attempts_finish {p : Payload} {upload : String} {n : Nat} {a : Attempt}
    {before : List Attempt} (h : l.Open base (p.request upload n) t)
    (hattempts : attempts (l.since base) n = before ++ [a]) :
    attempts ((l.finish (p.request upload n) t).1.since base) n =
      before ++ [⟨upload, p, t.started,
        some (l.now, (l.finish (p.request upload n) t).2.map (p.tag upload n))⟩] := by
  have hafter : attempts (l.calls.drop (t.place + 1)) n = [] :=
    attempts_eq_nil fun c hc => by simpa using h.lane_of_mem_drop hc
  have hsplit : ∀ finish, attempts ((l.calls.take t.place).drop base ++
      ⟨p.request upload n, t.started, finish⟩ :: l.calls.drop (t.place + 1)) n =
      attempts ((l.calls.take t.place).drop base) n ++
        [⟨upload, p, t.started, finish.map fun f => (f.1, f.2.map (p.tag upload n))⟩] := by
    intro finish
    rw [attempts_append]
    congr 1
    rw [attempts, List.filterMap_cons, p.attempt?_request]
    exact congrArg _ hafter
  rw [h.since_eq, hsplit] at hattempts
  obtain ⟨hbefore, -⟩ := List.append_inj' hattempts rfl
  show attempts ((l.calls.set _ _).drop base) n = _
  rw [drop_set_eq h.recent h.lt_length, hsplit, hbefore]
  rfl

end Link

end ObjectFlush
