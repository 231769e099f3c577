import Mathlib.Data.List.GetD
import ObjectFlush.Exchange.DryRun
import ObjectFlush.Proofs.OpenFile.Coherent
import ObjectFlush.Proofs.Upload.SessionCall

/-!
An open file is a byte array. The array is written down byte by byte (`Bytes.overlay`, `Bytes.fitted`),
without the file's separate length, its cache or its dirty ranges, and answers the same calls.

  1. A change of the cache is the change of the array (`Bytes.patch_eq_overlay`,
     `Bytes.resize_eq_fitted`).
  2. While a file holds an array (`FileHandle.Holds`), each call gets the answer that the array gives, and
     afterwards the file holds the array after the call (`FileHandle.Holds.perform`).
  3. A byte that was cut off is zero from then on, until it is written (`Bytes.zero_perform`).
-/

namespace ObjectFlush

/-- A call to an open file. Each flush has settings and a link of its own, so that it may go any way. -/
inductive FileCall (σ : Type) where
  | write (offset : Int) (data : Bytes)
  | truncate (size : Nat)
  | read (offset len : Nat)
  | size
  | flush (flusher : Flusher) (link : Link σ)

/-- The answer to a call. How a flush ended is not part of it. -/
inductive FileReply where
  | written (result : Except FlushError Nat)
  | resized (result : Except FlushError Unit)
  | bytes (result : Except FlushError Bytes)
  | size (size : Nat)
  | flushed

namespace FileCall

variable {σ : Type}

/-- The call is a write that is accepted and covers the byte at `o`. -/
def Covers (o : Nat) : FileCall σ → Prop
  | .write offset data =>
    0 ≤ offset ∧ offset.toNat ≤ o ∧ o < offset.toNat + data.length ∧
      offset.toNat + data.length ≤ maxFileLength
  | _ => False

end FileCall

namespace FileHandle

variable {σ : Type} [Endpoint σ]

/-- The file after a call, and the answer. A call that is refused leaves the file as it was. -/
def perform (f : FileHandle) : FileCall σ → FileHandle × FileReply
  | .write offset data =>
    match f.write offset data with
    | .ok (f', n) => (f', .written (.ok n))
    | .error e => (f, .written (.error e))
  | .truncate size =>
    match f.truncate size with
    | .ok f' => (f', .resized (.ok ()))
    | .error e => (f, .resized (.error e))
  | .read offset len => (f, .bytes (f.read offset len))
  | .size => (f, .size f.size)
  | .flush flusher link => (((f.flush flusher).run link).2.1, .flushed)

/-- The file after some calls, and their answers. -/
def performAll (f : FileHandle) : List (FileCall σ) → FileHandle × List FileReply
  | [] => (f, [])
  | c :: rest =>
    let (f', replies) := (f.perform c).1.performAll rest
    (f', (f.perform c).2 :: replies)

end FileHandle

namespace Bytes

variable {σ : Type}

/-- `data` laid over the array at `offset`: a byte that neither has is zero. -/
def overlay (b : Bytes) (offset : Nat) (data : Bytes) : Bytes :=
  (List.range (max b.length (offset + data.length))).map fun i =>
    if offset ≤ i ∧ i < offset + data.length then data.getD (i - offset) 0 else b.getD i 0

/-- The array with just `n` bytes: one that it lacks is zero. -/
def fitted (b : Bytes) (n : Nat) : Bytes := (List.range n).map fun i => b.getD i 0

/-- The array after a call, and its answer. -/
def perform (b : Bytes) : FileCall σ → Bytes × FileReply
  | .write offset data =>
    if data = [] then (b, .written (.ok 0))
    else if offset < 0 then
      (b, .written (.error (.plan (.invalidRange offset data.length))))
    else if maxFileLength < offset.toNat + data.length then
      (b, .written (.error (.file .offsetTooLarge)))
    else (b.overlay offset.toNat data, .written (.ok data.length))
  | .truncate size =>
    if maxFileLength < size then (b, .resized (.error (.file .lengthTooLarge)))
    else (b.fitted size, .resized (.ok ()))
  | .read offset len => (b, .bytes (.ok ((b.drop offset).take len)))
  | .size => (b, .size b.length)
  | .flush _ _ => (b, .flushed)

/-- The array after some calls, and its answers. -/
def performAll (b : Bytes) : List (FileCall σ) → Bytes × List FileReply
  | [] => (b, [])
  | c :: rest =>
    let (b', replies) := (b.perform c).1.performAll rest
    (b', (b.perform c).2 :: replies)

/-! ## Both ways of writing an array down -/

@[simp] theorem length_overlay (b : Bytes) (offset : Nat) (data : Bytes) :
    (b.overlay offset data).length = max b.length (offset + data.length) := by simp [overlay]

@[simp] theorem length_fitted (b : Bytes) (n : Nat) : (b.fitted n).length = n := by simp [fitted]

theorem getD_overlay (b : Bytes) (offset : Nat) (data : Bytes) (i : Nat) :
    (b.overlay offset data).getD i 0 =
      if offset ≤ i ∧ i < offset + data.length then data.getD (i - offset) 0 else b.getD i 0 := by
  by_cases hi : i < max b.length (offset + data.length)
  · rw [List.getD_eq_getElem _ _ (by rwa [length_overlay])]
    simp [overlay]
  · rw [List.getD_eq_default _ _ (by rw [length_overlay]; omega), if_neg (by omega),
      List.getD_eq_default _ _ (by omega)]

theorem getD_fitted (b : Bytes) (n i : Nat) :
    (b.fitted n).getD i 0 = if i < n then b.getD i 0 else 0 := by
  split
  · next hi =>
    rw [List.getD_eq_getElem _ _ (by rwa [length_fitted])]
    simp [fitted]
  · next hi => exact List.getD_eq_default _ _ (by rw [length_fitted]; omega)

/-- Arrays of one length are equal if their bytes are. -/
theorem ext_getD {a b : Bytes} (hlength : a.length = b.length)
    (h : ∀ i < a.length, a.getD i 0 = b.getD i 0) : a = b := by
  refine List.ext_getElem hlength fun i ha hb => ?_
  rw [← List.getD_eq_getElem a 0 ha, ← List.getD_eq_getElem b 0 hb]
  exact h i ha

theorem getD_zeros (n i : Nat) : (zeros n).getD i 0 = 0 := by
  unfold zeros
  rw [List.getD_eq_getElem?_getD, List.getElem?_replicate]
  split <;> rfl

/-- A byte of an array that is cut and grown. -/
theorem getD_resize {b : Bytes} {n i : Nat} (hi : i < n) : (b.resize n).getD i 0 = b.getD i 0 := by
  unfold resize
  by_cases hb : i < b.length
  · rw [List.getD_append _ _ _ _ (by simp; omega), List.getD_eq_getElem?_getD,
      List.getElem?_take_of_lt hi, ← List.getD_eq_getElem?_getD]
  · rw [List.getD_append_right _ _ _ _ (by simp; omega), getD_zeros,
      List.getD_eq_default _ _ (by omega)]

theorem resize_eq_fitted (b : Bytes) (n : Nat) : b.resize n = b.fitted n := by
  refine ext_getD (by rw [length_resize, length_fitted]) fun i hi => ?_
  rw [length_resize] at hi
  rw [getD_resize hi, getD_fitted, if_pos hi]

theorem patch_eq_overlay {b data : Bytes} (hdata : data ≠ []) (offset : Nat) :
    b.patch offset data = b.overlay offset data := by
  refine ext_getD (by rw [length_patch hdata, length_overlay]) fun i hi => ?_
  rw [length_patch hdata] at hi
  have hnonempty : data.isEmpty = false := by cases data <;> simp_all
  rw [getD_overlay, patch, hnonempty, if_neg Bool.false_ne_true]
  -- The bytes in front of the data are those of the array cut or grown to its offset.
  have hfront : (b.take offset ++ zeros (offset - b.length)).length = offset := length_resize b offset
  by_cases hlt : i < offset
  · rw [if_neg (by omega), List.append_assoc, List.getD_append _ _ _ _ (by omega)]
    exact getD_resize hlt
  · by_cases hin : i < offset + data.length
    · rw [if_pos ⟨by omega, hin⟩, List.append_assoc, List.getD_append_right _ _ _ _ (by omega),
        List.getD_append _ _ _ _ (by omega), hfront]
    · have hprefix : (b.take offset ++ zeros (offset - b.length) ++ data).length =
          offset + data.length := by rw [List.length_append, hfront]
      rw [if_neg (by omega), List.getD_append_right _ _ _ _ (by omega), hprefix,
        List.getD_eq_getElem?_getD, List.getElem?_drop, Nat.add_sub_cancel' (by omega),
        ← List.getD_eq_getElem?_getD]

end Bytes

namespace FileHandle

variable {σ : Type}

/-- The file is this array. -/
structure Holds (f : FileHandle) (b : Bytes) : Prop where
  bytes : f.cache.bytes = b
  size : f.size = b.length
  limit : f.size ≤ maxFileLength
  /-- A write or a growth can be recorded. -/
  canonical : Canonical f.dirty.ranges

/-- The ways to open a file, with the array that it is: as a new one, or with a cache that holds just the
bytes of the stored object. A cache is a file on disk, so it is no longer than a file can be. -/
inductive Opened : FileHandle → Bytes → Prop
  | created (key : ObjectKey) : Opened (.empty key) []
  | existing (key : ObjectKey) {cache : Cache} {size : Nat} (hsize : cache.length = size)
    (hlimit : size ≤ maxFileLength) : Opened (.ofStored key cache size) cache.bytes

theorem Opened.holds {f : FileHandle} {b : Bytes} (h : f.Opened b) : f.Holds b := by
  cases h with
  | created key => exact ⟨rfl, rfl, Nat.zero_le _, .nil⟩
  | existing key hsize hlimit => exact ⟨rfl, hsize.symm.trans (Cache.length_bytes _).symm, hlimit, .nil⟩

namespace Holds

variable {f : FileHandle} {b : Bytes}

theorem read (h : f.Holds b) (offset len : Nat) :
    f.read offset len = .ok ((b.drop offset).take len) := by
  obtain ⟨rfl, hsize, hlimit, -⟩ := h
  have hsource : (FreshContent.file f.cache.source).Holds f.cache.bytes :=
    ⟨rfl, by rw [← hsize]; exact hlimit⟩
  have hleft : f.size - offset = (f.cache.bytes.drop offset).length := by
    rw [List.length_drop, hsize]
  simp only [FileHandle.read]
  split
  · next hnone =>
    rw [List.take_eq_nil_iff.2]
    rw [hleft] at hnone
    rcases Nat.min_eq_zero_iff.1 hnone with hpast | hzero
    · exact .inr (List.length_eq_zero_iff.1 hpast)
    · exact .inl hzero
  · next hsome =>
    have hread : f.cache.read offset (min (f.size - offset) len) =
        .ok (f.cache.bytes.slice offset (min (f.size - offset) len)) :=
      LocalFile.read_of_holds hsource (by omega)
    -- What is asked for past the end is not there to be taken.
    rw [hread, Bytes.slice, hleft, Nat.min_comm, ← List.take_take, List.take_length]
    rfl

/-- A write of at least one byte that is not refused is accepted, and the array is written alike. -/
theorem write (h : f.Holds b) {offset : Int} {data : Bytes} (hdata : data ≠ []) (hoffset : 0 ≤ offset)
    (hfits : offset.toNat + data.length ≤ maxFileLength) :
    ∃ f', f.write offset data = .ok (f', data.length) ∧ f'.Holds (b.overlay offset.toNat data) := by
  obtain ⟨rfl, hsize, hlimit, hcanonical⟩ := h
  have hpos : 0 < data.length := List.length_pos_iff.2 hdata
  let range : DirtyRange := ⟨offset.toNat, data.length, f.changes + 1⟩
  have hrange : DirtyRange.new offset data.length (f.changes + 1) = .ok range :=
    DirtyRange.new_of_pos hoffset (Int.natCast_pos.2 hpos) _
  have hcache : f.cache.write range.start data = .ok ⟨f.cache.content.patch range.start data⟩ :=
    if_neg fun hover => Nat.not_lt.2 hfits hover.2
  obtain ⟨hbytes, -⟩ := Cache.write_eq_ok hdata hcache
  obtain ⟨dirty, hmark, hc, -⟩ := markWrite_spec hcanonical (show 0 < range.size from hpos)
  refine ⟨{ f with
    cache := ⟨f.cache.content.patch range.start data⟩
    dirty
    size := max f.size range.stop
    changes := range.tag }, ?_, ?_, ?_, ?_, hc⟩
  · rw [FileHandle.write, if_neg hdata, hrange]
    simp only [Except.mapError, bind, Except.bind, hcache, hmark]
    rfl
  · rw [hbytes, Bytes.patch_eq_overlay hdata]
  · rw [Bytes.length_overlay, ← hsize]
    rfl
  · exact Nat.max_le.2 ⟨hlimit, hfits⟩

/-- A change of the size that is not refused is accepted, and the array is cut or grown alike. -/
theorem truncate (h : f.Holds b) {n : Nat} (hfits : n ≤ maxFileLength) :
    ∃ f', f.truncate n = .ok f' ∧ f'.Holds (b.fitted n) := by
  obtain ⟨rfl, hsize, hlimit, hcanonical⟩ := h
  have hcache : f.cache.setLength n = .ok ⟨f.cache.content.resize n⟩ :=
    if_neg (Nat.not_lt.2 hfits)
  obtain ⟨hbytes, -⟩ := Cache.setLength_eq_ok hcache
  rw [Bytes.resize_eq_fitted] at hbytes
  rcases Nat.lt_trichotomy n f.size with hlt | rfl | hgt
  · refine ⟨{ f with cache := _, dirty := f.dirty.truncate n, size := n }, ?_, hbytes, ?_, hfits,
      hcanonical.truncate n⟩
    · rw [FileHandle.truncate, hcache]
      exact if_pos hlt
    · exact (Bytes.length_fitted _ _).symm
  · refine ⟨{ f with cache := _ }, ?_, hbytes, ?_, hlimit, hcanonical⟩
    · rw [FileHandle.truncate, hcache]
      exact (if_neg (Nat.lt_irrefl _)).trans (if_neg (Nat.lt_irrefl _))
    · exact (Bytes.length_fitted _ _).symm
  · obtain ⟨dirty, hmark, hc, -⟩ :=
      DirtySet.mark_spec hcanonical f.size (show 0 < n - f.size by omega) (f.changes + 1)
    refine ⟨{ f with cache := _, dirty, size := n, changes := f.changes + 1 }, ?_, hbytes, ?_, hfits,
      hc⟩
    · rw [FileHandle.truncate, hcache]
      simp only [Except.mapError, bind, Except.bind, hmark]
      exact (if_neg (Nat.lt_asymm hgt)).trans (if_pos hgt)
    · exact (Bytes.length_fitted _ _).symm

end Holds

variable {σ : Type} [Endpoint σ] {f : FileHandle} {b : Bytes}

/-- However a flush ends, it changes neither the cache nor the size. -/
theorem run_flush (f : FileHandle) (flusher : Flusher) (link : Link σ) :
    ((f.flush flusher).run link).2.1 = f ∨ ((f.flush flusher).run link).2.1 = f.flushed := by
  unfold flush
  split
  · rw [Dialogue.run_after]
    split
    · exact .inr rfl
    · exact .inl rfl
  · exact .inl rfl

/-- A call gets the answer that the array gives, and the file is then the array after the call. -/
theorem Holds.perform (h : f.Holds b) (c : FileCall σ) :
    (f.perform c).2 = (b.perform c).2 ∧ (f.perform c).1.Holds (b.perform c).1 := by
  cases c with
  | write offset data =>
    simp only [FileHandle.perform, Bytes.perform]
    split_ifs with hdata hneg hover
    · rw [FileHandle.write, if_pos hdata]
      exact ⟨rfl, h⟩
    · have hrefused : f.write offset data =
          .error (.plan (.invalidRange offset data.length)) := by
        rw [FileHandle.write, if_neg hdata, DirtyRange.new, if_pos (.inl hneg)]
        rfl
      rw [hrefused]
      exact ⟨rfl, h⟩
    · have hpos : 0 < data.length := List.length_pos_iff.2 hdata
      have hrefused : f.write offset data = .error (.file .offsetTooLarge) := by
        rw [FileHandle.write, if_neg hdata, DirtyRange.new, if_neg (by omega)]
        simp only [Except.mapError, bind, Except.bind, Cache.write, Int.toNat_natCast]
        rw [if_pos ⟨hdata, hover⟩]
      rw [hrefused]
      exact ⟨rfl, h⟩
    · obtain ⟨f', hw, hf'⟩ := h.write hdata (Int.not_lt.1 hneg) (Nat.not_lt.1 hover)
      rw [hw]
      exact ⟨rfl, hf'⟩
  | truncate n =>
    simp only [FileHandle.perform, Bytes.perform]
    split_ifs with hover
    · have hrefused : f.truncate n = .error (.file .lengthTooLarge) := by
        rw [FileHandle.truncate, Cache.setLength, if_pos hover]
        rfl
      rw [hrefused]
      exact ⟨rfl, h⟩
    · obtain ⟨f', ht, hf'⟩ := h.truncate (Nat.not_lt.1 hover)
      rw [ht]
      exact ⟨rfl, hf'⟩
  | read offset len => exact ⟨congrArg FileReply.bytes (h.read offset len), h⟩
  | size => exact ⟨congrArg FileReply.size h.size, h⟩
  | flush flusher link =>
    refine ⟨rfl, ?_⟩
    show ((f.flush flusher).run link).2.1.Holds b
    rcases f.run_flush flusher link with hsame | hclean
    · rw [hsame]
      exact h
    · rw [hclean]
      exact ⟨h.bytes, h.size, h.limit, .nil⟩

/-- What holds of one call holds of many. -/
theorem Holds.performAll (h : f.Holds b) (calls : List (FileCall σ)) :
    (f.performAll calls).2 = (b.performAll calls).2 ∧
      (f.performAll calls).1.Holds (b.performAll calls).1 := by
  induction calls generalizing f b with
  | nil => exact ⟨rfl, h⟩
  | cons c rest ih =>
    obtain ⟨hreply, hstep⟩ := h.perform c
    obtain ⟨hreplies, hrest⟩ := ih hstep
    exact ⟨congrArg₂ List.cons hreply hreplies, hrest⟩

end FileHandle

namespace Bytes

variable {σ : Type} {b : Bytes} {o : Nat}

/-- A byte that is zero, or past the end, stays so unless a write covers it. -/
theorem zero_perform (h : b.getD o 0 = 0) {c : FileCall σ} (hc : ¬c.Covers o) :
    (b.perform c).1.getD o 0 = 0 := by
  cases c with
  | write offset data =>
    simp only [Bytes.perform]
    split_ifs with hdata hneg hover
    · exact h
    · exact h
    · exact h
    · rw [getD_overlay, if_neg]
      · exact h
      · exact fun hin => hc ⟨Int.not_lt.1 hneg, hin.1, hin.2, Nat.not_lt.1 hover⟩
  | truncate n =>
    simp only [Bytes.perform]
    split_ifs with hover
    · exact h
    · rw [getD_fitted]
      split_ifs
      · exact h
      · rfl
  | read offset len => exact h
  | size => exact h
  | flush flusher link => exact h

theorem zero_performAll (h : b.getD o 0 = 0) {calls : List (FileCall σ)}
    (hcalls : ∀ c ∈ calls, ¬c.Covers o) : (b.performAll calls).1.getD o 0 = 0 := by
  induction calls generalizing b with
  | nil => exact h
  | cons c rest ih =>
    exact ih (zero_perform h (hcalls c (List.mem_cons_self ..)))
      fun c' hc' => hcalls c' (List.mem_cons_of_mem c hc')

theorem performAll_append (b : Bytes) (first second : List (FileCall σ)) :
    (b.performAll (first ++ second)).1 = ((b.performAll first).1.performAll second).1 := by
  induction first generalizing b with
  | nil => rfl
  | cons c rest ih => exact ih _

end Bytes

/-- **An open file is a byte array.** However it was opened, and whatever is called in whatever order,
each flush with settings of its own over a link of its own: every call gets the answer that the array
gives; afterwards the file is as large as the array, and every read gives just what the array has there;
and a byte that was cut off by a change of the size is zero if the file is long enough again, unless a
write covered it since. -/
theorem open_file_is_array {σ : Type} [Endpoint σ] {f : FileHandle} {b : Bytes} (hopen : f.Opened b)
    (calls : List (FileCall σ)) :
    let after := (f.performAll calls).1
    let array := (b.performAll calls).1
    (f.performAll calls).2 = (b.performAll calls).2 ∧ after.size = array.length ∧
      (∀ offset len, after.read offset len = .ok ((array.drop offset).take len)) ∧
      ∀ earlier n later, calls = earlier ++ .truncate n :: later → n ≤ maxFileLength →
        ∀ o, n ≤ o → o < after.size → (∀ c ∈ later, ¬c.Covers o) → after.read o 1 = .ok [0] := by
  intro after array
  obtain ⟨hreplies, hholds⟩ := hopen.holds.performAll calls
  refine ⟨hreplies, hholds.size, hholds.read, ?_⟩
  intro earlier n later hcalls hfits o hcut hin hlater
  have hzero : array.getD o 0 = 0 := by
    have hcut : ((b.performAll earlier).1.perform (.truncate n : FileCall σ)).1.getD o 0 = 0 := by
      rw [Bytes.perform, if_neg (Nat.not_lt.2 hfits), Bytes.getD_fitted, if_neg (Nat.not_lt.2 hcut)]
    show (b.performAll calls).1.getD o 0 = 0
    rw [hcalls, Bytes.performAll_append]
    exact Bytes.zero_performAll hcut hlater
  have hlength : o < array.length := hholds.size ▸ hin
  rw [List.getD_eq_getElem _ _ hlength] at hzero
  rw [hholds.read, List.drop_eq_getElem_cons hlength, List.take_succ_cons, List.take_zero, hzero]

/-- A stored object of eight bytes that is cut off, flushed while every request is lost, written behind its
end, and flushed again: the bytes between the cut and the write are zeros, not those that were stored. -/
theorem regrown_file_is_array :
    let key : ObjectKey := ⟨"k", by decide⟩
    let lost : Conditions := { reaction := fun _ _ => { failure := some .timeout } }
    let flusher : Flusher := ⟨{ multipartThreshold := 10, retryLimit := 0 }, by decide⟩
    let f : FileHandle := .ofStored key (.ofBytes [1, 2, 3, 4, 5, 6, 7, 8]) 8
    let calls : List (FileCall DryRun) :=
      [.truncate 3, .write (-1) [9], .flush flusher { endpoint := {}, conditions := lost },
        .write 6 [7, 8], .flush flusher { endpoint := {} }, .read 2 9, .size]
    f.Opened [1, 2, 3, 4, 5, 6, 7, 8] ∧
      (f.performAll calls).2 =
        [.resized (.ok ()), .written (.error (.plan (.invalidRange (-1) 1))), .flushed,
          .written (.ok 2), .flushed, .bytes (.ok [3, 0, 0, 0, 7, 8]), .size 8] ∧
      (f.performAll calls).1.read 4 1 = .ok [0] := by
  intro key lost flusher f calls
  have hopen : f.Opened [1, 2, 3, 4, 5, 6, 7, 8] := .existing key (by decide) (by decide)
  obtain ⟨hreplies, hsize, -, hcut⟩ := open_file_is_array hopen calls
  refine ⟨hopen, hreplies, ?_⟩
  refine hcut [] 3 calls.tail rfl (by decide) 4 (by decide) ?_ ?_
  · rw [hsize]
    decide
  · simp [calls, FileCall.Covers]

end ObjectFlush
