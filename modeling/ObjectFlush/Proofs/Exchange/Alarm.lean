import ObjectFlush.Proofs.Exchange.Link

/-!
A signal that is going to be raised over a link (`Link.RaisedAt`), and the same link without it (`Link.hush`). Until
the clock comes to that time the two are alike: neither the clock nor the next alarm tells one from the other.
-/

namespace ObjectFlush

namespace Link

variable {σ : Type} {s : Signal} {t time : Nat} {l : Link σ}

/-- The link over which nobody is going to raise the signal. -/
def hush (s : Signal) (l : Link σ) : Link σ := { l with alarms := l.alarms.filter (·.signal ≠ s) }

/-- The signal was not raised yet, and is going to be at time `t`. -/
structure RaisedAt (s : Signal) (t : Nat) (l : Link σ) : Prop where
  silent : s ∉ l.raised
  alarm : ⟨t, s⟩ ∈ l.alarms
  first : ∀ a ∈ l.alarms, a.signal = s → t ≤ a.time
  ahead : l.now ≤ t

theorem isRaised_iff : l.isRaised s = true ↔ s ∈ l.raised := List.contains_iff_mem

namespace RaisedAt

/-- Before `t`, the alarms that are due are of other signals. -/
theorem other (h : l.RaisedAt s t) {a : Alarm} (ha : a ∈ l.alarms) (htime : a.time < t) : a.signal ≠ s :=
  fun hs => Nat.not_lt.2 (h.first a ha hs) htime

/-- What changes but the signals does not matter, as long as the clock does not pass `t`. -/
theorem congr {l' : Link σ} (h : l.RaisedAt s t) (hraised : l'.raised = l.raised) (halarms : l'.alarms = l.alarms)
    (hnow : l'.now ≤ t) : l'.RaisedAt s t :=
  ⟨hraised ▸ h.silent, halarms ▸ h.alarm, halarms ▸ h.first, hnow⟩

theorem ring (h : l.RaisedAt s t) (htime : time < t) : (l.ring time).RaisedAt s t := by
  refine ⟨fun hin => ?_, ?_, fun a ha => h.first a (List.mem_filter.1 ha).1, h.ahead⟩
  · rcases List.mem_append.1 hin with hin | hin
    · obtain ⟨a, ha, hs⟩ := List.mem_map.1 hin
      obtain ⟨ha, hle⟩ := List.mem_filter.1 ha
      exact h.other ha (Nat.lt_of_le_of_lt (of_decide_eq_true hle) htime) hs
    · exact h.silent hin
  · exact List.mem_filter.2 ⟨h.alarm, decide_eq_true htime⟩

theorem hush_ring (h : l.RaisedAt s t) (htime : time < t) : (l.hush s).ring time = (l.ring time).hush s := by
  have hraised : (l.alarms.filter (·.signal ≠ s)).filter (·.time ≤ time) =
      l.alarms.filter (·.time ≤ time) := by
    rw [List.filter_filter]
    refine List.filter_congr fun a ha => ?_
    by_cases hle : a.time ≤ time
    · simp [hle, h.other ha (Nat.lt_of_le_of_lt hle htime)]
    · simp [hle]
  have halarms : (l.alarms.filter (·.signal ≠ s)).filter (time < ·.time) =
      (l.alarms.filter (time < ·.time)).filter (·.signal ≠ s) := by
    rw [List.filter_filter, List.filter_filter]
    exact List.filter_congr fun a _ => Bool.and_comm ..
  simp only [Link.ring, hush, hraised, halarms]

theorem passTo (h : l.RaisedAt s t) (htime : time ≤ t) : (l.passTo time).RaisedAt s t := by
  unfold Link.passTo
  split
  · have hbefore : time - 1 < t := by omega
    exact (h.ring hbefore).congr rfl rfl htime
  · exact h

theorem hush_passTo (h : l.RaisedAt s t) (htime : time ≤ t) : (l.hush s).passTo time = (l.passTo time).hush s := by
  unfold Link.passTo
  by_cases hnow : l.now < time
  · rw [if_pos hnow, if_pos (show (l.hush s).now < time from hnow), h.hush_ring (by omega)]
    rfl
  · rw [if_neg hnow, if_neg (show ¬(l.hush s).now < time from hnow)]

/-- The next alarm is one of another signal, and is so without this one; or nothing else is due before `t`. -/
theorem nextAlarm (h : l.RaisedAt s t) :
    (∃ m, m < t ∧ l.nextAlarm? = some m ∧ (l.hush s).nextAlarm? = some m) ∨
      l.nextAlarm? = some t ∧ ∀ m, (l.hush s).nextAlarm? = some m → t ≤ m := by
  have hkept : ∀ {a}, a ∈ (l.hush s).alarms → a ∈ l.alarms := fun ha => (List.mem_filter.1 ha).1
  obtain ⟨m, hm⟩ : ∃ m, l.nextAlarm? = some m :=
    Option.isSome_iff_exists.1 (List.isSome_min?_of_mem (List.mem_map_of_mem (f := Alarm.time) h.alarm))
  obtain ⟨hmem, hmin⟩ := List.min?_eq_some_iff.1 hm
  rcases Nat.lt_or_ge m t with hlt | hge
  · refine .inl ⟨m, hlt, hm, List.min?_eq_some_iff.2 ⟨?_, ?_⟩⟩
    · obtain ⟨a, ha, rfl⟩ := List.mem_map.1 hmem
      exact List.mem_map_of_mem (List.mem_filter.2 ⟨ha, by simpa using h.other ha hlt⟩)
    · intro time htime
      obtain ⟨a, ha, rfl⟩ := List.mem_map.1 htime
      exact hmin _ (List.mem_map_of_mem (hkept ha))
  · have hle : m ≤ t := hmin _ (List.mem_map_of_mem h.alarm)
    obtain rfl := Nat.le_antisymm hle hge
    refine .inr ⟨hm, fun m' hm' => ?_⟩
    obtain ⟨a, ha, rfl⟩ := List.mem_map.1 (List.min?_mem hm')
    exact hmin _ (List.mem_map_of_mem (hkept ha))

/-- Once its time has come, the signal is raised. -/
theorem raised (h : l.RaisedAt s t) :
    ((l.passTo t).ring t).isRaised s = true ∧ ((l.passTo t).ring t).now = t := by
  have hpassed := h.passTo (Nat.le_refl t)
  refine ⟨isRaised_iff.2 (List.mem_append_left _ ?_), ?_⟩
  · exact List.mem_map.2 ⟨⟨t, s⟩, List.mem_filter.2 ⟨hpassed.alarm, decide_eq_true (Nat.le_refl t)⟩, rfl⟩
  · show (l.passTo t).now = t
    have := h.ahead
    unfold Link.passTo
    split
    · rfl
    · omega

end RaisedAt

end Link

end ObjectFlush
