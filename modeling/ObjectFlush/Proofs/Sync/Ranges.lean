import ObjectFlush.Proofs.Dirty.Canonical
import ObjectFlush.Sync.Basic

/-!
Which bytes a sync has to send. They are told from the ranges that were given and from the size of the stored
object (`Outdated`); the ranges that a sync plans with hold exactly these, where they can be recorded at all
(`rangesToSend_spec`).
-/

namespace ObjectFlush

/-- Whether the byte at `o` lies in one of the ranges, which are given by start and length. -/
def Given (dirty : List (Int × Int)) (o : Nat) : Prop := ∃ p ∈ dirty, p.1 ≤ o ∧ (o : Int) < p.1 + p.2

instance (dirty : List (Int × Int)) (o : Nat) : Decidable (Given dirty o) :=
  inferInstanceAs (Decidable (∃ p ∈ dirty, _))

/-- Whether the stored object may not have the byte at `o`: it was changed, or lies past the end of what is
stored, or nothing is known of it. -/
def Outdated (dirty : List (Int × Int)) (storedSize : Option Nat) (o : Nat) : Prop :=
  dirty = [] ∨ Given dirty o ∨ ∀ remote, storedSize = some remote → remote ≤ o

@[simp] theorem given_nil (o : Nat) : ¬Given [] o := by simp [Given]

@[simp] theorem given_cons (p : Int × Int) (rest : List (Int × Int)) (o : Nat) :
    Given (p :: rest) o ↔ (p.1 ≤ o ∧ (o : Int) < p.1 + p.2) ∨ Given rest o := by simp [Given]

/-! ## Sizes -/

theorem signedSize_of_lt {n : Nat} (h : 2 * n < UInt64.size) : signedSize n = n := by
  unfold signedSize Int.bmod
  simp only [UInt64.size] at *
  split <;> omega

/-- The size of a file is a signed number as it is. -/
theorem signedSize_of_file {n : Nat} (h : n ≤ maxFileLength) : signedSize n = n := by
  apply signedSize_of_lt
  simp only [maxFileLength, UInt64.size] at *
  omega

theorem signedSize_of_le {n : Nat} (h : UInt64.size ≤ 2 * n) (hlt : n < UInt64.size) : signedSize n < 0 := by
  unfold signedSize Int.bmod
  simp only [UInt64.size] at *
  split <;> omega

/-- A size that can be recorded is the size that was meant. -/
theorem signedSize_of_nonneg {n : Nat} (hlt : n < UInt64.size) (h : 0 ≤ signedSize n) : signedSize n = n := by
  rcases Nat.lt_or_ge (2 * n) UInt64.size with hsmall | hlarge
  · exact signedSize_of_lt hsmall
  · have := signedSize_of_le hlarge hlt
    omega

/-! ## Recording -/

/-- What is recorded starts in the file and holds a byte; all of its bytes are dirty then. -/
theorem DirtySet.of_mark {d d' : DirtySet} {start size : Int} {tag : Nat} (hc : Canonical d.ranges)
    (h : d.mark start size tag = .ok d') :
    0 ≤ start ∧ 0 < size ∧ Canonical d'.ranges ∧
      ∀ o : Nat, Dirty d'.ranges o ↔ (start ≤ o ∧ (o : Int) < start + size) ∨ Dirty d.ranges o := by
  by_cases hbad : start < 0 ∨ size ≤ 0
  · rw [mark, add, DirtyRange.new, if_pos hbad] at h
    cases h
  · have hstart : start = (start.toNat : Int) := by omega
    have hsize : size = (size.toNat : Int) := by omega
    obtain ⟨d'', hmark, hcanonical, hdirty⟩ := mark_spec hc start.toNat (show 0 < size.toNat by omega) tag
    rw [← hstart, ← hsize, h] at hmark
    cases hmark
    refine ⟨by omega, by omega, hcanonical, fun o => ?_⟩
    rw [hdirty]
    exact or_congr_left (by omega)

theorem of_markAll {dirty : List (Int × Int)} {d d' : DirtySet} {tag : Nat} (hc : Canonical d.ranges)
    (h : markAll d tag dirty = .ok d') :
    Canonical d'.ranges ∧ ∀ o, Dirty d'.ranges o ↔ Given dirty o ∨ Dirty d.ranges o := by
  induction dirty generalizing d tag with
  | nil =>
    cases h
    exact ⟨hc, fun o => by simp⟩
  | cons p rest ih =>
    obtain ⟨start, length⟩ := p
    cases hmark : d.mark start length tag with
    | error e =>
      rw [markAll, hmark] at h
      cases h
    | ok next =>
      rw [markAll, hmark] at h
      obtain ⟨-, -, hnext, hfirst⟩ := DirtySet.of_mark hc hmark
      obtain ⟨hcanonical, hrest⟩ := ih hnext h
      refine ⟨hcanonical, fun o => ?_⟩
      rw [hrest, hfirst, given_cons]
      tauto

theorem of_bytesToSend {dirty : List (Int × Int)} {fileSize : Nat} {storedSize : Option Nat} {d : DirtySet}
    (hsize : fileSize < UInt64.size) (h : bytesToSend dirty fileSize storedSize = .ok d) :
    Canonical d.ranges ∧ ∀ o < fileSize, Dirty d.ranges o ↔ Outdated dirty storedSize o := by
  -- All of the file is dirty, where nothing is known of what is stored.
  have hall : (dirty = [] ∨ storedSize = none) →
      (if 0 < fileSize then DirtySet.mark {} 0 (signedSize fileSize) 0 else .ok {}) = .ok d →
        Canonical d.ranges ∧ ∀ o < fileSize, Dirty d.ranges o ↔ Outdated dirty storedSize o := by
    intro hunknown hd
    have houtdated : ∀ o, Outdated dirty storedSize o := by
      rintro o
      rcases hunknown with rfl | rfl
      · exact .inl rfl
      · exact .inr (.inr fun _ h => by cases h)
    split at hd
    · obtain ⟨-, hpositive, hcanonical, hdirty⟩ := DirtySet.of_mark .nil hd
      have hexact := signedSize_of_nonneg hsize (Int.le_of_lt hpositive)
      refine ⟨hcanonical, fun o ho => iff_of_true ((hdirty o).2 (.inl ?_)) (houtdated o)⟩
      omega
    · cases hd
      exact ⟨.nil, fun o ho => by omega⟩
  match storedSize, dirty with
  | none, dirty => exact hall (.inr rfl) (by cases dirty <;> exact h)
  | some remote, [] => exact hall (.inl rfl) h
  | some remote, range :: rest =>
    have houtdated : ∀ o, Outdated (range :: rest) (some remote) o ↔ Given (range :: rest) o ∨ remote ≤ o := by
      intro o
      simp [Outdated]
    cases hmarked : markAll {} 1 (range :: rest) with
    | error e =>
      simp only [bytesToSend, hmarked] at h
      cases h
    | ok given =>
      obtain ⟨hgiven, hranges⟩ := of_markAll .nil hmarked
      simp only [bytesToSend, hmarked, bind, Except.bind] at h
      split at h
      · next hgrown =>
        obtain ⟨hstart, hlength, hcanonical, htail⟩ := DirtySet.of_mark hgiven h
        have hremote := signedSize_of_nonneg (by omega) hstart
        have hrest := signedSize_of_nonneg (n := fileSize - remote) (by omega) (Int.le_of_lt hlength)
        refine ⟨hcanonical, fun o ho => ?_⟩
        rw [htail, hranges, houtdated, hremote, hrest]
        simp only [dirty_nil, or_false]
        rw [or_comm]
        exact or_congr_right (by omega)
      · next hfits =>
        cases h
        refine ⟨hgiven, fun o ho => ?_⟩
        rw [hranges, houtdated]
        simp only [dirty_nil, or_false]
        exact (or_iff_left (by omega)).symm

/-- The ranges that a sync plans with hold the outdated bytes of the file, and nothing else. -/
theorem rangesToSend_spec {dirty : List (Int × Int)} {fileSize : Nat} {storedSize : Option Nat} {d : DirtySet}
    (hsize : fileSize < UInt64.size) (h : rangesToSend dirty fileSize storedSize = .ok d) :
    Canonical d.ranges ∧ ∀ o, Dirty d.ranges o ↔ o < fileSize ∧ Outdated dirty storedSize o := by
  unfold rangesToSend at h
  cases hbytes : bytesToSend dirty fileSize storedSize with
  | error e =>
    rw [hbytes] at h
    cases h
  | ok all =>
    rw [hbytes] at h
    cases h
    obtain ⟨hcanonical, hdirty⟩ := of_bytesToSend hsize hbytes
    refine ⟨hcanonical.truncate fileSize, fun o => ?_⟩
    rw [dirty_truncate hcanonical, and_comm]
    exact and_congr_right (hdirty o)

end ObjectFlush
