import ObjectFlush.Proofs.Exchange.Link

/-!
Conditions under which nothing goes wrong (`Conditions.Healthy`): no call is lost, none is answered in the
endpoint's place, and none for a part takes longer than it may. How long calls take is open apart from that. A
call is then what the endpoint makes of it. `Link.Quiet` says of a signal that nobody raises it.
-/

namespace ObjectFlush

/-- A call under it ends with what the endpoint answers. -/
structure Reaction.Plain (x : Reaction) : Prop where
  unfailing : x.failure = none
  untagged : x.tag = none

/-- Every call is answered by the endpoint, and calls for parts within `timeout` milliseconds. -/
structure Conditions.Healthy (c : Conditions) (timeout : Nat) : Prop where
  plain : ∀ lane n, (c.reaction lane n).Plain
  prompt : ∀ number n, (c.reaction (.part number) n).delay ≤ timeout

namespace Link

section Quiet

variable {σ : Type} {signal : Option Signal} {l l' : Link σ}

/-- The signal was not raised, and is not going to be. -/
def Quiet (signal : Option Signal) (l : Link σ) : Prop :=
  ∀ s, signal = some s → s ∉ l.raised ∧ ∀ a ∈ l.alarms, a.signal ≠ s

theorem Quiet.congr (h : l.Quiet signal) (hraised : l'.raised = l.raised) (halarms : l'.alarms = l.alarms) :
    l'.Quiet signal := by
  unfold Quiet
  rw [hraised, halarms]
  exact h

theorem Quiet.ring (h : l.Quiet signal) (time : Nat) : (l.ring time).Quiet signal := by
  intro s hs
  obtain ⟨hraised, halarms⟩ := h s hs
  refine ⟨fun hin => ?_, fun a ha => halarms a (List.mem_filter.1 ha).1⟩
  rcases List.mem_append.1 hin with hin | hin
  · obtain ⟨a, ha, rfl⟩ := List.mem_map.1 hin
    exact halarms a (List.mem_filter.1 ha).1 rfl
  · exact hraised hin

theorem Quiet.passTo (h : l.Quiet signal) (time : Nat) : (l.passTo time).Quiet signal := by
  unfold Link.passTo
  split
  · exact (h.ring (time - 1)).congr rfl rfl
  · exact h

end Quiet

variable {σ : Type} [Endpoint σ] {l : Link σ} {timeout : Nat}

theorem Quiet.ask {signal : Option Signal} (h : l.Quiet signal) (r : Request) : (l.ask r).1.Quiet signal :=
  ((h.congr rfl rfl : (l.start r).1.Quiet signal).passTo _).congr rfl rfl

theorem answer_of_plain (l : Link σ) (r : Request) {x : Reaction} (h : x.Plain) :
    l.answer r x = Endpoint.serve l.endpoint r := by
  simp only [answer, h.unfailing, h.untagged]

theorem answer_ask (l : Link σ) (r : Request)
    (h : (l.conditions.reaction r.lane (l.callsIn r.lane)).Plain) :
    ((l.ask r).1.endpoint, (l.ask r).2) = Endpoint.serve l.endpoint r := by
  let later := (l.start r).1.passTo ((l.start r).1.now + (l.start r).2.reaction.delay)
  calc ((l.ask r).1.endpoint, (l.ask r).2)
      = later.answer r (l.conditions.reaction r.lane (l.callsIn r.lane)) := rfl
    _ = Endpoint.serve later.endpoint r := later.answer_of_plain r h
    _ = Endpoint.serve l.endpoint r := by rw [endpoint_passTo]; rfl

theorem endpoint_ask (h : l.conditions.Healthy timeout) (r : Request) :
    (l.ask r).1.endpoint = (Endpoint.serve l.endpoint r).1 :=
  congrArg Prod.fst (l.answer_ask r (h.plain ..))

theorem result_ask (h : l.conditions.Healthy timeout) (r : Request) :
    (l.ask r).2 = (Endpoint.serve l.endpoint r).2 :=
  congrArg Prod.snd (l.answer_ask r (h.plain ..))

end Link

end ObjectFlush
