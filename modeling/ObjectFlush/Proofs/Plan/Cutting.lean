import ObjectFlush.Plan.Basic
import ObjectFlush.Proofs.Plan.Tiling

/-!
Cutting runs into pieces. However short runs are padded, merged and cut at the ceiling, the pieces
tile what the runs tiled, keep within the bounds of size, and copy clean bytes only: a turn keeps it
(`Laid.cut_turn`), and so do all turns (`Laid.cut`).
-/

namespace ObjectFlush

theorem PartBounds.validate_eq_ok_iff {b : PartBounds} :
    b.validate = .ok () ↔ 0 < b.minSize ∧ b.minSize ≤ b.maxSize ∧ 0 < b.maxParts := by
  unfold validate
  split
  · next h => simp [h]
  split
  · next h => simp [Nat.not_le.2 h]
  split
  · next h => simp [h]
  · simp only [true_iff]
    omega

theorem PartBounds.sizes_of_valid {b : PartBounds} (h : b.validate = .ok ()) :
    0 < b.minSize ∧ b.minSize ≤ b.maxSize := by
  obtain ⟨hmin, hmax, -⟩ := validate_eq_ok_iff.1 h
  exact ⟨hmin, hmax⟩

/-- Pieces that tile `[start, stop)` and may be sent as the parts of an upload. -/
structure Cut (b : PartBounds) (clean : Nat → Prop) (start stop : Nat) (pieces : List Run) :
    Prop where
  tiles : Tiles start stop (pieces.map Run.span)
  copied : ∀ p ∈ pieces, p.kind = .copy → ∀ o, p.start ≤ o → o < p.stop → clean o
  nonempty : ∀ p ∈ pieces, p.start < p.stop
  ceiling : ∀ p ∈ pieces, p.length ≤ b.maxSize
  floor : ∀ p ∈ pieces.dropLast, b.minSize ≤ p.length

namespace Cut

variable {b : PartBounds} {clean : Nat → Prop} {start stop : Nat}

theorem nil (b : PartBounds) (clean : Nat → Prop) (start : Nat) : Cut b clean start start [] :=
  ⟨rfl, by simp, by simp, by simp, by simp⟩

/-- A piece in front of others. Only the last one may be below the floor. -/
theorem cons {p : Run} {rest : List Run} (hstart : p.start = start) (hpos : p.start < p.stop)
    (hcopy : p.kind = .copy → ∀ o, p.start ≤ o → o < p.stop → clean o)
    (hmax : p.length ≤ b.maxSize) (hmin : rest = [] ∨ b.minSize ≤ p.length)
    (hrest : Cut b clean p.stop stop rest) : Cut b clean start stop (p :: rest) := by
  refine ⟨⟨hstart, Nat.le_of_lt hpos, hrest.tiles⟩, List.forall_mem_cons.2 ⟨hcopy, hrest.copied⟩,
    List.forall_mem_cons.2 ⟨hpos, hrest.nonempty⟩, List.forall_mem_cons.2 ⟨hmax, hrest.ceiling⟩, ?_⟩
  cases rest with
  | nil => simp
  | cons q qs =>
    rw [List.dropLast_cons_cons]
    exact List.forall_mem_cons.2 ⟨hmin.resolve_left (by simp), hrest.floor⟩

end Cut

namespace Run

/-! ## Cutting at the ceiling -/

theorem start_back (maxSize : Nat) (r : Run) :
    (r.back maxSize).start = r.start + r.fullPieces maxSize * maxSize := rfl

@[simp] theorem stop_back (maxSize : Nat) (r : Run) : (r.back maxSize).stop = r.stop := rfl

@[simp] theorem kind_back (maxSize : Nat) (r : Run) : (r.back maxSize).kind = r.kind := rfl

/-- What remains behind the pieces of the greatest size is no larger, and holds a byte if the run
does. -/
theorem back_spec {maxSize : Nat} (hmax : 0 < maxSize) {r : Run} (hr : r.start ≤ r.stop) :
    (r.back maxSize).start ≤ r.stop ∧ (r.back maxSize).length ≤ maxSize ∧
      (r.start < r.stop → (r.back maxSize).start < r.stop) := by
  have hle : (r.length - 1) / maxSize * maxSize ≤ r.length - 1 := Nat.div_mul_le_self ..
  have hlt : r.length - 1 < (r.length - 1) / maxSize * maxSize + maxSize := Nat.lt_div_mul_add hmax
  simp only [length, start_back, stop_back, fullPieces] at *
  omega

/-- The first `n` pieces of the greatest size, one after the other. -/
theorem cut_front {b : PartBounds} {clean : Nat → Prop} {stop : Nat} {r : Run}
    (hb : 0 < b.minSize ∧ b.minSize ≤ b.maxSize)
    (hcopy : r.kind = .copy → ∀ o, r.start ≤ o → o < r.stop → clean o) :
    ∀ (n : Nat) (rest : List Run), r.start + n * b.maxSize ≤ r.stop →
      Cut b clean (r.start + n * b.maxSize) stop rest →
      Cut b clean r.start stop (((List.range n).map fun i =>
        (⟨r.kind, r.start + i * b.maxSize, r.start + (i + 1) * b.maxSize⟩ : Run)) ++ rest) := by
  intro n
  induction n with
  | zero => intro rest _ h; simpa using h
  | succ n ih =>
    intro rest hle h
    rw [Nat.succ_mul] at hle h
    rw [List.range_succ, List.map_append, List.append_assoc, List.map_singleton,
      List.singleton_append]
    refine ih _ (by omega) (Cut.cons rfl ?_ ?_ ?_ (.inr ?_) ?_)
    · simp only [Nat.succ_mul]; omega
    · intro hk o h₁ h₂
      simp only [Nat.succ_mul] at h₁ h₂
      exact hcopy hk o (by omega) (by omega)
    · simp only [length, Nat.succ_mul]; omega
    · simp only [length, Nat.succ_mul]; omega
    · rw [Nat.succ_mul]; exact h

end Run

/-- What remains of the first run is laid in front of the others as that run was. -/
theorem Laid.back {maxSize : Nat} (hmax : 0 < maxSize) {clean : Nat → Prop} {start stop : Nat} {r : Run}
    {rest : List Run} (h : Laid clean start stop (r :: rest)) :
    Laid clean (r.back maxSize).start stop (r.back maxSize :: rest) := by
  obtain ⟨rfl, hle, hcopy, hlast, hrest⟩ := Laid.cons_iff.1 h
  obtain ⟨hback, -, hpos⟩ := Run.back_spec hmax hle
  refine Laid.cons_iff.2 ⟨rfl, hback, fun hk o h₁ h₂ => hcopy hk o ?_ h₂, fun hnil => hpos (hlast hnil),
    hrest⟩
  rw [Run.start_back] at h₁
  omega

/-- The pieces of the greatest size go in front of those of what remains. -/
theorem Laid.cut_front {b : PartBounds} {clean : Nat → Prop} {start stop : Nat} {r : Run}
    {rest pieces : List Run} (hb : 0 < b.minSize ∧ b.minSize ≤ b.maxSize)
    (h : Laid clean start stop (r :: rest)) (hcut : Cut b clean (r.back b.maxSize).start stop pieces) :
    Cut b clean start stop (r.front b.maxSize ++ pieces) := by
  obtain ⟨rfl, hle, hcopy, -⟩ := Laid.cons_iff.1 h
  exact Run.cut_front hb hcopy _ _ (Run.back_spec (show 0 < b.maxSize by omega) hle).1 hcut

/-! ## Padding and merging below the floor -/

/-- Two runs sent as one. -/
theorem Laid.merge {clean : Nat → Prop} {start stop : Nat} {p q : Run} {rest : List Run}
    (h : Laid clean start stop (p :: q :: rest)) {kind : Transfer}
    (hkind : kind = .copy → p.kind = .copy ∧ q.kind = .copy) :
    Laid clean start stop (⟨kind, p.start, q.stop⟩ :: rest) := by
  obtain ⟨hp, hle, hcopy, -, hrest⟩ := Laid.cons_iff.1 h
  obtain ⟨hq, hle', hcopy', hlast, hrest⟩ := Laid.cons_iff.1 hrest
  refine Laid.cons_iff.2 ⟨hp, by simp only; omega, ?_, fun hnil => ?_, hrest⟩
  · intro hk o h₁ h₂
    obtain ⟨hkp, hkq⟩ := hkind hk
    by_cases ho : o < p.stop
    · exact hcopy hkp o h₁ ho
    · exact hcopy' hkq o (by omega) h₂
  · have := hlast hnil
    simp only; omega

/-- Sent with the run behind it, a dirty run stays dirty. -/
theorem Laid.merge_dirty {clean : Nat → Prop} {start stop : Nat} {p q : Run} {rest : List Run}
    (h : Laid clean start stop (p :: q :: rest)) (hp : p.kind = .upload) :
    Laid clean start stop ({ p with stop := q.stop } :: rest) :=
  h.merge fun hcopy => by cases hp.symm.trans hcopy

/-- The first bytes of a run sent with an upload before it, and not all of them if it is the last. -/
theorem Laid.shift {clean : Nat → Prop} {start stop : Nat} {p q : Run} {rest : List Run}
    (h : Laid clean start stop (p :: q :: rest)) {n : Nat} (hn : q.start + n < q.stop) :
    Laid clean (p.stop + n) stop (⟨q.kind, q.start + n, q.stop⟩ :: rest) := by
  obtain ⟨-, -, -, -, hrest⟩ := Laid.cons_iff.1 h
  obtain ⟨hq, -, hcopy, -, hrest⟩ := Laid.cons_iff.1 hrest
  refine Laid.cons_iff.2 ⟨by simp only [hq], Nat.le_of_lt hn, ?_, fun _ => hn, hrest⟩
  intro hk o h₁ h₂
  exact hcopy hk o (by simp only at h₁; omega) h₂

/-- A turn sends pieces of what the runs tile, and leaves runs that tile the rest: whatever pieces those are cut
into, with the ones that are sent they are pieces of all. -/
theorem Laid.cut_turn {b : PartBounds} {clean : Nat → Prop} {start stop : Nat} {queue : List Run}
    (hb : 0 < b.minSize ∧ b.minSize ≤ b.maxSize) (h : Laid clean start stop queue) :
    ∃ middle, Laid clean middle stop (turn b queue).2 ∧
      ∀ pieces, ((turn b queue).2 = [] → pieces = []) → Cut b clean middle stop pieces →
        Cut b clean start stop ((turn b queue).1 ++ pieces) := by
  have hmax : 0 < b.maxSize := by omega
  have hceiling : ∀ {r : Run} {rest}, Laid clean start stop (r :: rest) → (r.back b.maxSize).length ≤ b.maxSize :=
    fun h => (Run.back_spec hmax (Laid.cons_iff.1 h).2.1).2.1
  fun_cases turn b queue with
  | case1 => exact ⟨start, h, fun pieces _ hcut => hcut⟩
  | case2 r =>
    obtain ⟨-, -, hcopy, hlast, hrest⟩ := Laid.cons_iff.1 (h.back hmax)
    refine ⟨_, hrest, fun pieces hnone hcut => ?_⟩
    rw [List.append_assoc]
    exact h.cut_front hb (Cut.cons rfl (hlast rfl) hcopy (hceiling h) (.inl (hnone rfl)) hcut)
  | case3 r next rest piece hmin =>
    obtain ⟨-, -, hcopy, -, hrest⟩ := Laid.cons_iff.1 (h.back hmax)
    have hpos : piece.start < piece.stop := by simp only [Run.length] at hmin; omega
    refine ⟨_, hrest, fun pieces _ hcut => ?_⟩
    rw [List.append_assoc]
    exact h.cut_front hb (Cut.cons rfl hpos hcopy (hceiling h) (.inr hmin) hcut)
  | case4 r next rest piece _ hk =>
    -- Sent with the run behind it, a clean piece is copied only if that run is.
    exact ⟨_, (h.back hmax).merge fun hk' => ⟨hk, hk'⟩, fun pieces _ hcut => h.cut_front hb hcut⟩
  | case5 r next rest piece hmin hk need left hleft =>
    -- The piece is filled up with bytes of the run behind it, of which some are left.
    have hn : next.start + need < next.stop := by simp only [left, Run.length] at hleft; omega
    have hback : Laid clean piece.start stop (piece :: next :: rest) := h.back hmax
    have hle : piece.start ≤ piece.stop := (Laid.cons_iff.1 hback).2.1
    refine ⟨_, hback.shift hn, fun pieces _ hcut => ?_⟩
    rw [List.append_assoc]
    simp only [Run.length] at hmin
    refine h.cut_front hb (Cut.cons rfl ?_ (fun hcopy => by cases hk.symm.trans hcopy) ?_ (.inr ?_) hcut)
    all_goals simp only [need, Run.length]; omega
  | case6 r next piece _ hk =>
    -- All of that run is sent with the piece, and the dirty run behind it, if there is one.
    exact ⟨_, (h.back hmax).merge_dirty hk, fun pieces _ hcut => h.cut_front hb hcut⟩
  | case7 r next piece _ hk need left dirty behind hdirty =>
    have hmerged : Laid clean piece.start stop ({ piece with stop := next.stop } :: dirty :: behind) :=
      (h.back hmax).merge_dirty hk
    exact ⟨_, hmerged.merge_dirty hk, fun pieces _ hcut => h.cut_front hb hcut⟩
  | case8 r next piece _ hk =>
    exact ⟨_, (h.back hmax).merge_dirty hk, fun pieces _ hcut => h.cut_front hb hcut⟩

/-- **Cutting keeps the tiling.** The pieces of runs that tile a file tile it too, respect the bounds
and copy no byte that the runs did not copy. -/
theorem Laid.cut {b : PartBounds} {clean : Nat → Prop} {start stop : Nat} {runs : List Run}
    (hb : 0 < b.minSize ∧ b.minSize ≤ b.maxSize) (h : Laid clean start stop runs) :
    Cut b clean start stop (pieces b runs) := by
  fun_induction pieces b runs generalizing start with
  | case1 =>
    obtain rfl := Laid.nil_iff.1 h
    exact Cut.nil b clean start
  | case2 r rest ih =>
    obtain ⟨middle, hleft, hcut⟩ := h.cut_turn hb
    exact hcut _ (fun hnone => by rw [hnone, pieces]) (ih hleft)

end ObjectFlush
