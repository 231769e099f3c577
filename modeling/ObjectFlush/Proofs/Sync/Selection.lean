import ObjectFlush.Proofs.Dirty.History
import ObjectFlush.Proofs.Sync.Ranges

/-!
The ranges that a sync plans with, told from all that is given. They are refused for the first given range that is
none, and only where the given ranges count (`rangesToSend_cases`); else they are the canonical form of a set of
bytes (`outdatedBytes`), in which the order of the given ranges is lost.
-/

namespace ObjectFlush

/-- A start and a length that are no range of bytes in a file. -/
def noRange (p : Int × Int) : Bool := p.1 < 0 ∨ p.2 ≤ 0

/-- The given range for which a sync is refused: the first that is none, if there is a stored object. -/
def refused (dirty : List (Int × Int)) : Option Nat → Option (Int × Int)
  | none => none
  | some _ => dirty.find? noRange

/-- The bytes of the given ranges. -/
def givenBytes (dirty : List (Int × Int)) : Finset Nat :=
  dirty.foldr (fun p bytes => Finset.Ico p.1.toNat (p.1 + p.2).toNat ∪ bytes) ∅

/-- The bytes that a sync has to send of a file: all of them if there is no stored object or no range was given, and
else those given and those past the end of the stored object. -/
def outdatedBytes (dirty : List (Int × Int)) (fileSize : Nat) : Option Nat → Finset Nat
  | none => Finset.range fileSize
  | some remote =>
    if dirty = [] then Finset.range fileSize
    else (givenBytes dirty ∪ Finset.Ico remote fileSize) ∩ Finset.range fileSize

theorem mem_givenBytes {dirty : List (Int × Int)} {o : Nat} : o ∈ givenBytes dirty ↔ Given dirty o := by
  induction dirty with
  | nil => simp [givenBytes]
  | cons p rest ih =>
    rw [given_cons, ← ih]
    show o ∈ Finset.Ico _ _ ∪ givenBytes rest ↔ _
    rw [Finset.mem_union, Finset.mem_Ico]
    apply or_congr_left
    omega

theorem mem_outdatedBytes {dirty : List (Int × Int)} {fileSize o : Nat} {storedSize : Option Nat} :
    o ∈ outdatedBytes dirty fileSize storedSize ↔ o < fileSize ∧ Outdated dirty storedSize o := by
  cases storedSize with
  | none => simp [outdatedBytes, Outdated]
  | some remote =>
    by_cases hdirty : dirty = []
    · simp [outdatedBytes, Outdated, hdirty]
    · simp only [outdatedBytes, Outdated, hdirty, if_false, Finset.mem_inter, Finset.mem_union, mem_givenBytes,
        Finset.mem_Ico, Finset.mem_range, Option.some.injEq, forall_eq', false_or]
      tauto

/-- The order of the given ranges does not matter. -/
theorem outdatedBytes_perm {dirty dirty' : List (Int × Int)} (h : dirty'.Perm dirty) (fileSize : Nat)
    (storedSize : Option Nat) : outdatedBytes dirty' fileSize storedSize = outdatedBytes dirty fileSize storedSize := by
  have hgiven : ∀ o, Given dirty' o ↔ Given dirty o := by
    intro o
    simp only [Given, h.mem_iff]
  ext o
  simp only [mem_outdatedBytes, Outdated, hgiven, ← List.isEmpty_iff, h.isEmpty_eq]

/-! ## Refusals -/

theorem DirtySet.mark_of_noRange (d : DirtySet) {start size : Int} (h : noRange (start, size) = true) (tag : Nat) :
    d.mark start size tag = .error (.invalidRange start size) := by
  rw [mark, add, DirtyRange.new, if_pos (of_decide_eq_true h)]
  rfl

/-- Recording ranges fails at the first that is none. -/
theorem markAll_cases (dirty : List (Int × Int)) (d : DirtySet) (tag : Nat) :
    match dirty.find? noRange with
    | some p => markAll d tag dirty = .error (.invalidRange p.1 p.2)
    | none => ∃ d', markAll d tag dirty = .ok d' := by
  induction dirty generalizing d tag with
  | nil => exact ⟨d, rfl⟩
  | cons p rest ih =>
    obtain ⟨start, size⟩ := p
    rw [List.find?_cons]
    cases hrange : noRange (start, size) with
    | true =>
      rw [markAll, d.mark_of_noRange hrange]
      rfl
    | false =>
      have hgood := of_decide_eq_false hrange
      obtain ⟨next, hnext⟩ := d.exists_mark (show 0 ≤ start by omega) (show 0 < size by omega) tag
      rw [markAll, hnext]
      exact ih next (tag + 1)

/-- The bytes to send can be told, unless there is a stored object and one of the given ranges is none. -/
theorem bytesToSend_cases (dirty : List (Int × Int)) {fileSize : Nat} (hsize : fileSize ≤ maxFileLength)
    (storedSize : Option Nat) :
    match refused dirty storedSize with
    | some p => bytesToSend dirty fileSize storedSize = .error (.invalidRange p.1 p.2)
    | none => ∃ d, bytesToSend dirty fileSize storedSize = .ok d := by
  have hall : ∃ d, (if 0 < fileSize then DirtySet.mark {} 0 (signedSize fileSize) 0 else .ok {}) = .ok d := by
    split
    · next hpos =>
      rw [signedSize_of_file hsize]
      exact DirtySet.exists_mark {} (Int.le_refl 0) (Int.natCast_pos.2 hpos) 0
    · exact ⟨{}, rfl⟩
  match storedSize, dirty with
  | none, dirty => exact hall
  | some remote, [] => exact hall
  | some remote, range :: rest =>
    have hmarked := markAll_cases (range :: rest) {} 1
    rw [refused]
    cases hbad : (range :: rest).find? noRange with
    | some p =>
      rw [hbad] at hmarked
      simp only [bytesToSend, hmarked]
      rfl
    | none =>
      rw [hbad] at hmarked
      obtain ⟨given, hgiven⟩ := hmarked
      simp only [bytesToSend, hgiven, bind, Except.bind]
      split
      · next hgrown =>
        rw [signedSize_of_file (show remote ≤ maxFileLength by omega),
          signedSize_of_file (show fileSize - remote ≤ maxFileLength by omega)]
        exact given.exists_mark (by omega) (by omega) 0
      · exact ⟨given, rfl⟩

theorem rangesToSend_cases (dirty : List (Int × Int)) {fileSize : Nat} (hsize : fileSize ≤ maxFileLength)
    (storedSize : Option Nat) :
    match refused dirty storedSize with
    | some p => rangesToSend dirty fileSize storedSize = .error (.invalidRange p.1 p.2)
    | none => ∃ d, rangesToSend dirty fileSize storedSize = .ok d := by
  have hbytes := bytesToSend_cases dirty hsize storedSize
  unfold rangesToSend
  cases hrefused : refused dirty storedSize with
  | some p =>
    rw [hrefused] at hbytes
    simp only at hbytes ⊢
    rw [hbytes]
    rfl
  | none =>
    rw [hrefused] at hbytes
    obtain ⟨d, hd⟩ := hbytes
    rw [hd]
    exact ⟨_, rfl⟩

theorem refused_eq_none_iff {dirty : List (Int × Int)} {storedSize : Option Nat} :
    refused dirty storedSize = none ↔ storedSize = none ∨ ∀ p ∈ dirty, 0 ≤ p.1 ∧ 0 < p.2 := by
  cases storedSize <;> simp [refused, noRange]

theorem bytesOf_rangesToSend {dirty : List (Int × Int)} {fileSize : Nat} (hsize : fileSize ≤ maxFileLength)
    {storedSize : Option Nat} {d : DirtySet} (h : rangesToSend dirty fileSize storedSize = .ok d) :
    Canonical d.ranges ∧ bytesOf d.ranges = outdatedBytes dirty fileSize storedSize := by
  have hword : fileSize < UInt64.size := by
    simp only [maxFileLength, UInt64.size] at *
    omega
  obtain ⟨hc, hdirty⟩ := rangesToSend_spec hword h
  refine ⟨hc, ?_⟩
  ext o
  rw [mem_bytesOf, hdirty, mem_outdatedBytes]

/-- **A sync sends just the outdated bytes.** For a file of any possible size, the ranges to send are refused just if
there is a stored object and one of the given ranges is none, and then for the first such range. Else they are in
canonical form; their bytes are all of the file if there is no stored object or no range was given, and else, as far as
they lie in the file, those given and those past the end of the stored object; and so it is for the given ranges in any
other order. -/
theorem sync_sends_outdated_bytes (dirty : List (Int × Int)) {fileSize : Nat} (hsize : fileSize ≤ maxFileLength)
    (storedSize : Option Nat) :
    match rangesToSend dirty fileSize storedSize with
    | .error e => storedSize ≠ none ∧ ∃ p, dirty.find? noRange = some p ∧ e = .invalidRange p.1 p.2
    | .ok d => (storedSize = none ∨ ∀ p ∈ dirty, 0 ≤ p.1 ∧ 0 < p.2) ∧ Canonical d.ranges ∧
        bytesOf d.ranges = outdatedBytes dirty fileSize storedSize ∧
        ∀ dirty', dirty'.Perm dirty → ∃ d', rangesToSend dirty' fileSize storedSize = .ok d' ∧
          intervals d'.ranges = intervals d.ranges := by
  have hcases := rangesToSend_cases dirty hsize storedSize
  cases hrefused : refused dirty storedSize with
  | some p =>
    rw [hrefused] at hcases
    rw [hcases]
    cases storedSize with
    | none => cases hrefused
    | some remote => exact ⟨by simp, p, hrefused, rfl⟩
  | none =>
    rw [hrefused] at hcases
    obtain ⟨d, hd⟩ := hcases
    rw [hd]
    have haccepted := refused_eq_none_iff.1 hrefused
    obtain ⟨hc, hbytes⟩ := bytesOf_rangesToSend hsize hd
    refine ⟨haccepted, hc, hbytes, fun dirty' hperm => ?_⟩
    have hrefused' : refused dirty' storedSize = none := by
      simpa only [refused_eq_none_iff, hperm.mem_iff] using haccepted
    have hcases' := rangesToSend_cases dirty' hsize storedSize
    rw [hrefused'] at hcases'
    obtain ⟨d', hd'⟩ := hcases'
    obtain ⟨hc', hbytes'⟩ := bytesOf_rangesToSend hsize hd'
    refine ⟨d', hd', (hc'.intervals_eq_iff hc).2 ?_⟩
    rw [hbytes', hbytes, outdatedBytes_perm hperm]

/-- A file that shrank below the stored object, with given ranges in no order, of which two touch and one reaches past
the end. -/
theorem shrunken_file_sends_given :
    let d : DirtySet := ⟨[⟨0, 6, 3⟩, ⟨8, 2, 1⟩]⟩
    10 ≤ maxFileLength ∧ rangesToSend [(8, 5), (3, 3), (0, 3)] 10 (some 12) = .ok d ∧
      bytesOf d.ranges = outdatedBytes [(8, 5), (3, 3), (0, 3)] 10 (some 12) ∧
      (∃ d', rangesToSend [(0, 3), (8, 5), (3, 3)] 10 (some 12) = .ok d' ∧
        intervals d'.ranges = [(0, 6), (8, 10)]) := by
  intro d
  have hsize : 10 ≤ maxFileLength := by decide
  have hsent : rangesToSend [(8, 5), (3, 3), (0, 3)] 10 (some 12) = .ok d := by decide
  have h := sync_sends_outdated_bytes [(8, 5), (3, 3), (0, 3)] hsize (some 12)
  rw [hsent] at h
  obtain ⟨-, -, hbytes, horder⟩ := h
  exact ⟨hsize, hsent, hbytes, horder _ (by decide)⟩

example : rangesToSend [(8, 5), (3, 0), (0, 3)] 10 (some 12) = .error (.invalidRange 3 0) := by decide

example : rangesToSend [(8, 5), (3, 0), (0, 3)] 10 none = .ok ⟨[⟨0, 10, 0⟩]⟩ := by decide

end ObjectFlush
