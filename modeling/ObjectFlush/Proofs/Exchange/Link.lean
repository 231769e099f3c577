import ObjectFlush.Exchange.Link

/-!
What a call does to the endpoint and to the log. However long it takes and whatever its conditions, it ends
in one of three ways (`Link.Ends`): lost before the endpoint saw it, or answered by the endpoint, or so
answered and under another tag. Of the log it spares every lane but its own (`Link.Spares`), so that what is
in store for the next call of another lane stays in store for it.
-/

namespace ObjectFlush

/-- The call was of `r`, and ended with `answer`. -/
def Call.Answered (c : Call) (r : Request) (answer : Except RequestError r.Answer) : Prop :=
  ∃ started time, c = ⟨r, started, some (time, answer)⟩

theorem Call.Answered.request_eq {c : Call} {r : Request} {answer : Except RequestError r.Answer}
    (h : c.Answered r answer) : c.request = r := by
  obtain ⟨started, time, rfl⟩ := h
  rfl

namespace Link

variable {σ : Type}

@[simp] theorem endpoint_ring (l : Link σ) (time : Nat) : (l.ring time).endpoint = l.endpoint := rfl

@[simp] theorem endpoint_passTo (l : Link σ) (time : Nat) :
    (l.passTo time).endpoint = l.endpoint := by
  unfold passTo
  split <;> rfl

@[simp] theorem endpoint_pause (l : Link σ) (base : Nat) : (l.pause base).endpoint = l.endpoint :=
  endpoint_passTo ..

theorem conditions_passTo (l : Link σ) (time : Nat) : (l.passTo time).conditions = l.conditions := by
  unfold passTo
  split <;> rfl

theorem calls_passTo (l : Link σ) (time : Nat) : (l.passTo time).calls = l.calls := by
  unfold passTo
  split <;> rfl

theorem now_passTo (l : Link σ) (time : Nat) : (l.passTo time).now = max l.now time := by
  unfold passTo
  split
  · next hlt => exact (Nat.max_eq_right (Nat.le_of_lt hlt)).symm
  · next hge => exact (Nat.max_eq_left (Nat.not_lt.1 hge)).symm

theorem now_le_passTo (l : Link σ) (time : Nat) : l.now ≤ (l.passTo time).now :=
  l.now_passTo time ▸ Nat.le_max_left ..

/-- No call in the lane was made from `l` to `l'`, and what is in store for calls is the same. -/
structure Spares (lane : Request.Lane) (l l' : Link σ) : Prop where
  conditions : l'.conditions = l.conditions
  calls : l'.callsIn lane = l.callsIn lane

namespace Spares

variable {lane : Request.Lane} {l l' l'' : Link σ}

theorem refl (lane : Request.Lane) (l : Link σ) : l.Spares lane l := ⟨rfl, rfl⟩

theorem trans (h : l.Spares lane l') (h' : l'.Spares lane l'') : l.Spares lane l'' :=
  ⟨h'.conditions.trans h.conditions, h'.calls.trans h.calls⟩

theorem of_calls_append {log : List Call} (hconditions : l'.conditions = l.conditions)
    (hcalls : l'.calls = l.calls ++ log) (hlog : ∀ c ∈ log, c.request.lane ≠ lane) :
    l.Spares lane l' := by
  have hnone : log.countP (·.request.lane = lane) = 0 :=
    List.countP_eq_zero.2 fun c hc => by simpa using hlog c hc
  refine ⟨hconditions, ?_⟩
  rw [callsIn, hcalls, List.countP_append, hnone, Nat.add_zero, callsIn]

end Spares

theorem spares_pause (lane : Request.Lane) (l : Link σ) (base : Nat) :
    l.Spares lane (l.pause base) := by
  refine ⟨conditions_passTo .., ?_⟩
  show List.countP _ ((l.drawPause base).1.passTo _).calls = _
  rw [calls_passTo]
  rfl

variable [Endpoint σ]

/-- A call is one more entry of the log: it starts now, and ends when its answer is there. -/
theorem calls_ask_eq (l : Link σ) (r : Request) :
    (l.ask r).1.calls = l.calls ++ [⟨r, l.now, some ((l.ask r).1.now, (l.ask r).2)⟩] := by
  let later := (l.start r).1.passTo ((l.start r).1.now + (l.start r).2.reaction.delay)
  have hcalls : later.calls = l.calls ++ [⟨r, l.now, none⟩] := calls_passTo ..
  show later.calls.set l.calls.length _ = _
  rw [hcalls, List.set_append_right _ _ (Nat.le_refl _), Nat.sub_self, List.set_cons_zero]
  rfl

theorem calls_ask (l : Link σ) (r : Request) :
    ∃ c : Call, c.Answered r (l.ask r).2 ∧ (l.ask r).1.calls = l.calls ++ [c] :=
  ⟨_, ⟨_, _, rfl⟩, l.calls_ask_eq r⟩

theorem conditions_ask (l : Link σ) (r : Request) : (l.ask r).1.conditions = l.conditions :=
  conditions_passTo ..

theorem spares_ask {lane : Request.Lane} (l : Link σ) {r : Request} (h : r.lane ≠ lane) :
    l.Spares lane (l.ask r).1 := by
  obtain ⟨c, hc, hcalls⟩ := l.calls_ask r
  refine .of_calls_append (l.conditions_ask r) hcalls (List.forall_mem_singleton.2 ?_)
  rw [hc.request_eq]
  exact h

theorem callsIn_ask (l : Link σ) (r : Request) :
    (l.ask r).1.callsIn r.lane = l.callsIn r.lane + 1 := by
  obtain ⟨c, hc, hcalls⟩ := l.calls_ask r
  rw [callsIn, hcalls, List.countP_append, callsIn]
  simp [hc.request_eq]

/-- A call that no failure is in store for is served. -/
theorem served_ask {l : Link σ} {r : Request}
    (h : (l.conditions.reaction r.lane (l.callsIn r.lane)).failure = none) :
    (l.ask r).1.endpoint = (Endpoint.serve l.endpoint r).1 := by
  show (((l.start r).1.passTo _).answer r (l.conditions.reaction r.lane (l.callsIn r.lane))).1 = _
  simp only [answer, h, endpoint_passTo]
  split <;> rfl

/-- How a call may end, from an endpoint in state `s`: the state after it, and its answer. -/
inductive Ends (s : σ) (r : Request) : σ → Except RequestError r.Answer → Prop
  | lost (e : RequestError) : Ends s r s (.error e)
  | served : Ends s r (Endpoint.serve s r).1 (Endpoint.serve s r).2
  | retagged (tag : String) :
    Ends s r (Endpoint.serve s r).1 ((Endpoint.serve s r).2.map (r.retag tag))

theorem answer_ends (l : Link σ) (r : Request) (reaction : Reaction) :
    Ends l.endpoint r (l.answer r reaction).1 (l.answer r reaction).2 := by
  unfold answer
  cases reaction.failure with
  | some e => exact .lost e
  | none =>
    cases reaction.tag with
    | some tag => exact .retagged tag
    | none => exact .served

theorem finish_ends (l : Link σ) (r : Request) (t : Ticket) :
    Ends l.endpoint r (l.finish r t).1.endpoint (l.finish r t).2 := l.answer_ends r t.reaction

theorem ask_ends (l : Link σ) (r : Request) :
    Ends l.endpoint r (l.ask r).1.endpoint (l.ask r).2 := by
  have h := finish_ends ((l.start r).1.passTo ((l.start r).1.now + (l.start r).2.reaction.delay)) r
    (l.start r).2
  rw [endpoint_passTo] at h
  exact h

variable {s s' : σ} {r : Request} {a : Except RequestError r.Answer}

/-- What serving the request keeps true, every end of the call keeps true. -/
theorem Ends.keeps {I : σ → Prop} (h : Ends s r s' a) (hs : I s) (hserve : I (Endpoint.serve s r).1) :
    I s' := by
  cases h with
  | lost e => exact hs
  | served => exact hserve
  | retagged tag => exact hserve

/-- A request whose answer has no tag is lost or served. -/
theorem Ends.untagged (h : Ends s r s' a) (hr : ∀ tag b, r.retag tag b = b) :
    (s' = s ∧ ∃ e, a = .error e) ∨ (s' = (Endpoint.serve s r).1 ∧ a = (Endpoint.serve s r).2) := by
  cases h with
  | lost e => exact .inl ⟨rfl, e, rfl⟩
  | served => exact .inr ⟨rfl, rfl⟩
  | retagged tag =>
    refine .inr ⟨rfl, ?_⟩
    cases (Endpoint.serve s r).2 with
    | error e => rfl
    | ok b => exact congrArg Except.ok (hr tag b)

end Link

end ObjectFlush
