import ObjectFlush.Proofs.Dirty.History

/-!
Which ranges a write joins. The code looks at the first range that reaches the start of the write, and then at the
ranges behind it as long as they meet what has been joined.

  1. Ranges in canonical order lie behind one another, so that what meets the joined range met the write
     itself (`DirtySet.absorb_joins`).
  2. So the ranges that are joined are those that adjoin the write, wherever they stand, and no others; these stay as
     they are (`DirtySet.insert_joins`).
-/

namespace ObjectFlush

namespace DirtyRange

theorem meets_iff {r : DirtyRange} {start stop : Nat} :
    r.meets start stop = true ↔ start ≤ r.stop ∧ r.start ≤ stop := by
  simp [meets]

theorem new_eq_error {start size : Int} {tag : Nat} {e : PlanError} (h : new start size tag = .error e) :
    (start < 0 ∨ size ≤ 0) ∧ e = .invalidRange start size := by
  unfold new at h
  split at h
  · next hbad =>
    cases h
    exact ⟨hbad, rfl⟩
  · cases h

theorem new_eq_ok {start size : Int} {tag : Nat} {w : DirtyRange} (h : new start size tag = .ok w) :
    0 ≤ start ∧ 0 < size ∧ w = ⟨start.toNat, size.toNat, tag⟩ := by
  unfold new at h
  split at h
  · cases h
  · next hgood =>
    cases h
    exact ⟨by omega, by omega, rfl⟩

/-- A write adjoins the ranges that it meets. -/
theorem adjoins_of_new {start size : Int} {tag : Nat} {w : DirtyRange} (h : new start size tag = .ok w)
    (r : DirtyRange) : r.adjoins start size = r.meets w.start w.stop := by
  obtain ⟨hstart, hsize, rfl⟩ := new_eq_ok h
  rw [adjoins, if_neg (by omega)]
  rfl

/-- To adjoin is to intersect or to touch. -/
theorem adjoins_iff {r : DirtyRange} {start size : Int} (hstart : 0 ≤ start) (hsize : 0 < size) :
    r.adjoins start size = true ↔ start ≤ r.stop ∧ (r.start : Int) ≤ start + size := by
  rw [adjoins, if_neg (by omega), meets_iff]
  omega

end DirtyRange

namespace DirtySet

theorem add_eq (d : DirtySet) (start size : Int) (tag : Nat) :
    d.add start size tag = (DirtyRange.new start size tag).map fun w =>
      ((insert w d.ranges).1, ⟨(insert w d.ranges).2⟩) := by
  unfold add
  cases DirtyRange.new start size tag <;> rfl

theorem step_add (d : DirtySet) (start size : Int) (tag : Nat) :
    d.step (.add start size tag) = match d.add start size tag with
      | .ok (_, after) => after
      | .error _ => d := rfl

/-- `joined` is `r` together with the ranges of `met`, and carries the tag of `r`. -/
structure Unites (r : DirtyRange) (met : List DirtyRange) (joined : DirtyRange) : Prop where
  tag : joined.tag = r.tag
  holds : ∀ o, joined.Holds o ↔ r.Holds o ∨ Dirty met o

theorem unites_nil (r : DirtyRange) : Unites r [] r := ⟨rfl, by simp⟩

/-- One range more is united by covering it first. -/
theorem Unites.cons {r x joined : DirtyRange} {met : List DirtyRange} (hmeets : r.meets x.start x.stop = true)
    (h : Unites (r.cover x.start x.stop r.tag) met joined) : Unites r (x :: met) joined := by
  refine ⟨h.tag, fun o => ?_⟩
  rw [h.holds, holds_cover _ hmeets, dirty_cons, or_assoc]

/-- Of ranges that do not end before `r` starts, those that start at or before its end are joined with it. -/
theorem absorb_joins {rest : List DirtyRange} :
    ∀ {r : DirtyRange}, Canonical rest → (∀ x ∈ rest, r.start ≤ x.stop) →
      ∃ joined, absorb r rest = joined :: rest.filter (r.stop < ·.start) ∧
        Unites r (rest.filter (·.start ≤ r.stop)) joined := by
  induction rest with
  | nil =>
    intro r _ _
    exact ⟨r, rfl, unites_nil r⟩
  | cons next rest ih =>
    intro r hc hreach
    obtain ⟨-, hbelow, hrest⟩ := Canonical.cons_iff.1 hc
    have hfirst : r.start ≤ next.stop := hreach next (by simp)
    have hmeets : r.meets next.start next.stop = true ↔ next.start ≤ r.stop := by
      simp [DirtyRange.meets_iff, hfirst]
    by_cases hle : next.start ≤ r.stop
    · -- What lies behind `next` starts past the end of `next`, so that covering `next` brings nothing nearer to it.
      have hsame : ∀ x ∈ rest, x.start ≤ (r.cover next.start next.stop r.tag).stop ↔ x.start ≤ r.stop := by
        intro x hx
        have := hbelow x hx
        rw [stop_cover]
        omega
      have hleft : rest.filter ((r.cover next.start next.stop r.tag).stop < ·.start) =
          rest.filter (r.stop < ·.start) := by
        apply List.filter_congr
        intro x hx
        simp only [← Nat.not_le, hsame x hx]
      have htaken : rest.filter (·.start ≤ (r.cover next.start next.stop r.tag).stop) =
          rest.filter (·.start ≤ r.stop) := by
        apply List.filter_congr
        intro x hx
        simp only [hsame x hx]
      have hstart : ∀ x ∈ rest, (r.cover next.start next.stop r.tag).start ≤ x.stop := by
        intro x hx
        have := hreach x (by simp [hx])
        rw [start_cover]
        omega
      obtain ⟨joined, habsorb, hunites⟩ := ih hrest hstart
      refine ⟨joined, ?_, ?_⟩
      · rw [absorb, if_pos (hmeets.2 hle), habsorb, hleft, List.filter_cons_of_neg (by simpa using hle)]
      · rw [List.filter_cons_of_pos (by simpa using hle), ← htaken]
        exact hunites.cons (hmeets.2 hle)
    · have hbehind : ∀ x ∈ next :: rest, r.stop < x.start := by
        intro x hx
        cases hx with
        | head => omega
        | tail _ hx =>
          have := hbelow x hx
          have hpos := hc.nonempty next (by simp)
          simp only [DirtyRange.stop] at *
          omega
      have hnone : (next :: rest).filter (·.start ≤ r.stop) = [] := by
        simpa using hbehind
      have hall : (next :: rest).filter (r.stop < ·.start) = next :: rest := by
        simpa using hbehind
      refine ⟨r, ?_, ?_⟩
      · rw [absorb, if_neg (mt hmeets.1 hle), hall]
      · rw [hnone]
        exact unites_nil r

/-- What recording `w` makes of ranges: those that it meets are united with it, and the others stay as they are, on
either side of it. -/
def Joins (w : DirtyRange) (ranges after : List DirtyRange) : Prop :=
  ∃ below joined above, ranges.filter (fun r => !r.meets w.start w.stop) = below ++ above ∧
    after = below ++ joined :: above ∧ (∀ r ∈ below, r.stop < joined.start) ∧
      (∀ r ∈ above, joined.stop < r.start) ∧
    Unites w (ranges.filter (·.meets w.start w.stop)) joined

/-- The first range that reaches the start of `w` decides whether there is one to join; it is treated like those behind
it then. -/
theorem insert_eq (w : DirtyRange) (ranges : List DirtyRange) :
    let behind := ranges.dropWhile (·.stop < w.start)
    insert w ranges = (behind.head?.any (·.meets w.start w.stop),
      ranges.takeWhile (·.stop < w.start) ++ absorb w behind) := by
  simp only [insert]
  generalize ranges.dropWhile (·.stop < w.start) = behind
  cases behind with
  | nil => rfl
  | cons next rest =>
    have hmeets : next.meets w.start w.stop = w.meets next.start next.stop := Bool.and_comm ..
    have hcover : next.cover w.start w.stop w.tag = w.cover next.start next.stop w.tag := by
      simp [DirtyRange.cover, Nat.min_comm, Nat.max_comm]
    simp only [absorb, List.head?_cons, Option.any_some, hmeets, hcover]
    cases w.meets next.start next.stop <;> rfl

/-- If a range in order meets a write, then so does the first one that does not end before it. -/
theorem head_meets {w next : DirtyRange} {rest : List DirtyRange} (hc : Canonical (next :: rest))
    (hreach : w.start ≤ next.stop) {r : DirtyRange} (hr : r ∈ next :: rest)
    (hmeets : r.meets w.start w.stop = true) :
    next.meets w.start w.stop = true := by
  obtain ⟨-, hbelow, -⟩ := Canonical.cons_iff.1 hc
  cases hr with
  | head => exact hmeets
  | tail _ hr =>
    have := hbelow r hr
    rw [DirtyRange.meets_iff] at hmeets ⊢
    simp only [DirtyRange.stop] at *
    omega

/-- Recording a range in canonical order joins just the ranges that it meets. -/
theorem insert_joins {w : DirtyRange} {ranges : List DirtyRange} (hw : 0 < w.size) (hc : Canonical ranges) :
    ((insert w ranges).1 = true ↔ ∃ r ∈ ranges, r.meets w.start w.stop = true) ∧
      Joins w ranges (insert w ranges).2 := by
  have hsplit : ranges.takeWhile (·.stop < w.start) ++ ranges.dropWhile (·.stop < w.start) = ranges :=
    List.takeWhile_append_dropWhile
  have hbefore : ∀ x ∈ ranges.takeWhile (·.stop < w.start), x.stop < w.start := fun x hx => by
    simpa using List.all_eq_true.1 List.all_takeWhile x hx
  have hreach := dropWhile_spec w.start hc
  have hafter := hc.insert hw
  rw [insert_eq] at hafter ⊢
  generalize ranges.takeWhile (·.stop < w.start) = before at *
  generalize ranges.dropWhile (·.stop < w.start) = behind at *
  subst hsplit
  have hapart : ∀ x ∈ before, ¬x.meets w.start w.stop = true := by
    intro x hx
    have := hbefore x hx
    rw [DirtyRange.meets_iff]
    omega
  obtain ⟨-, hbehind, -⟩ := Canonical.append_iff.1 hc
  constructor
  · constructor
    · intro h
      obtain ⟨next, hnext, hmeets⟩ := (Option.any_eq_true _ _).1 h
      exact ⟨next, List.mem_append_right _ (List.mem_of_mem_head? hnext), hmeets⟩
    · intro h
      obtain ⟨r, hr, hmeets⟩ := h
      have hr := (List.mem_append.1 hr).resolve_left fun hr => hapart r hr hmeets
      cases behind with
      | nil => cases hr
      | cons next rest => exact head_meets hbehind (hreach next (by simp)) hr hmeets
  · obtain ⟨joined, habsorb, hunites⟩ := absorb_joins hbehind hreach
    rw [habsorb] at hafter ⊢
    obtain ⟨-, hjoined, hbelow⟩ := Canonical.append_iff.1 hafter
    have hmet : (before ++ behind).filter (·.meets w.start w.stop) = behind.filter (·.start ≤ w.stop) := by
      rw [List.filter_append, List.filter_eq_nil_iff.2 hapart, List.nil_append]
      apply List.filter_congr
      intro x hx
      simp [DirtyRange.meets, hreach x hx]
    have hkept : (before ++ behind).filter (fun r => !r.meets w.start w.stop) =
        before ++ behind.filter (w.stop < ·.start) := by
      rw [List.filter_append, List.filter_eq_self.2 fun x hx => by simp [hapart x hx]]
      apply congrArg (before ++ ·)
      apply List.filter_congr
      intro x hx
      simp only [DirtyRange.meets, hreach x hx, decide_true, Bool.true_and, ← decide_not, Nat.not_le]
    exact ⟨before, joined, _, hkept, rfl, fun r hr => hbelow r hr joined (by simp),
      (Canonical.cons_iff.1 hjoined).2.1, hmet ▸ hunites⟩

end DirtySet

/-- **A write joins just the ranges that adjoin it.** Whatever was done to a dirty set before, recording `size` bytes at
`start` is refused just if that is no range of bytes in the file, and then nothing changes. Else it tells whether there
is a range that intersects or touches the write; all ranges that do are replaced by one over their bytes and those
of the write, which carries the new tag and stands at its place in the order, be there any or none; and all others
stay as they are. -/
theorem recorded_write_joins (ops : List DirtyOp) (start size : Int) (tag : Nat) :
    let d := DirtySet.run ops
    let met := d.ranges.filter (·.adjoins start size)
    let others := d.ranges.filter fun r => !r.adjoins start size
    match d.add start size tag with
    | .error e => (start < 0 ∨ size ≤ 0) ∧ e = .invalidRange start size ∧ d.step (.add start size tag) = d
    | .ok (merged, after) => 0 ≤ start ∧ 0 < size ∧ d.step (.add start size tag) = after ∧
        (∀ r ∈ d.ranges, r.adjoins start size = true ↔ start ≤ r.stop ∧ (r.start : Int) ≤ start + size) ∧
        (merged = true ↔ ∃ r ∈ d.ranges, r.adjoins start size = true) ∧
        ∃ below joined above, others = below ++ above ∧ after.ranges = below ++ joined :: above ∧
          (∀ r ∈ below, r.stop < joined.start) ∧ (∀ r ∈ above, joined.stop < r.start) ∧ joined.tag = tag ∧
          ∀ o, joined.Holds o ↔ o ∈ bytesOf met ∨ o ∈ DirtyOp.span start size := by
  intro d met others
  obtain ⟨hc, -⟩ := DirtySet.run_spec ops
  rw [DirtySet.step_add, DirtySet.add_eq]
  cases hnew : DirtyRange.new start size tag with
  | error e =>
    obtain ⟨hbad, he⟩ := DirtyRange.new_eq_error hnew
    exact ⟨hbad, he, rfl⟩
  | ok w =>
    obtain ⟨hstart, hsize, hw⟩ := DirtyRange.new_eq_ok hnew
    have hspan : 0 < w.size ∧ ∀ o, w.Holds o ↔ o ∈ DirtyOp.span start size := by
      rcases DirtySet.new_cases start size tag with ⟨e, he, -⟩ | ⟨w', hw', hspan⟩
      · cases hnew.symm.trans he
      · cases hnew.symm.trans hw'
        exact hspan
    have hadjoins : ∀ r : DirtyRange, r.adjoins start size = r.meets w.start w.stop := DirtyRange.adjoins_of_new hnew
    obtain ⟨hmerged, below, joined, above, hothers, hafter, hbelow, habove, hunites⟩ :=
      DirtySet.insert_joins hspan.1 hc
    have htag : w.tag = tag := by rw [hw]
    refine ⟨hstart, hsize, rfl, fun r _ => DirtyRange.adjoins_iff hstart hsize, ?_, below, joined, above, ?_, hafter,
      hbelow, habove, hunites.tag.trans htag, fun o => ?_⟩
    · simpa only [hadjoins] using hmerged
    · simpa only [others, hadjoins] using hothers
    · rw [hunites.holds, hspan.2, mem_bytesOf, or_comm]
      simp only [met, hadjoins, d]

/-- A write that fills the gap between two ranges and touches both joins them, and leaves the third. -/
example : (DirtySet.run [.add 0 10 1, .add 20 10 2, .add 40 5 3]).add 10 10 4 =
    .ok (true, ⟨[⟨0, 30, 4⟩, ⟨40, 5, 3⟩]⟩) := by decide

end ObjectFlush
