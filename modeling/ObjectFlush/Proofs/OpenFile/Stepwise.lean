import ObjectFlush.Proofs.OpenFile.Coherent
import ObjectFlush.Proofs.Sync.Ranges
import ObjectFlush.Proofs.Upload.SessionCall

/-!
Calls on an open file, taken step by step. A call changes the local file first and records the change after that, with
offsets and sizes as signed numbers of 64 bits, so that a record that was refused would leave the file changed by
half. `Stepwise` keeps what was changed before a step failed.

  1. Whatever could be written to the local file can be recorded: its offset and its size are those of a file
     (`Stepwise.run_markBetween`). So once the local file has been changed, the call does what it does as a whole
     (`Stepwise.run_writeRange`, `Stepwise.run_resize`).
  2. A call that fails does so before that, and then nothing is changed at all (`Stepwise.write_cases`,
     `Stepwise.truncate_cases`). Nor is it by a flush that fails (`FileHandle.flush_failed`).
-/

namespace ObjectFlush

/-- Steps on an open file. One that fails ends them, and what was changed before stays changed. -/
abbrev Stepwise (α : Type) := ExceptT FlushError (StateM FileHandle) α

/-- What a change of the local file comes to if `fault` befalls it, which leaves the local file as it was. -/
def Cache.befallen (fault : Option FileError) (change : Except FileError Cache) : Except FileError Cache :=
  match fault with
  | some e => .error e
  | none => change

namespace Stepwise

/-- Changes the local file, or fails to. -/
def changeCache (fault : Option FileError) (change : Cache → Except FileError Cache) : Stepwise Unit := do
  match Cache.befallen fault (change (← get).cache) with
  | .ok cache => modify fun f => { f with cache }
  | .error e => throw (.file e)

/-- The tag of a new change. -/
def nextTag : Stepwise Nat := do
  modify fun f => { f with changes := f.changes + 1 }
  return (← get).changes

/-- Records `size` bytes at `start` as dirty. -/
def mark (start size : Int) (tag : Nat) : Stepwise Unit := do
  match (← get).dirty.mark start size tag with
  | .ok dirty => modify fun f => { f with dirty }
  | .error e => throw (.plan e)

/-- Records the bytes from `start` to `stop` as dirty, if there are any. -/
def markBetween (start stop tag : Nat) : Stepwise Unit :=
  if start < stop then mark (signedSize start) (signedSize (stop - start)) tag else pure ()

/-- Writes a range of at least one byte. What lies between the end of the file and the range is dirty too. -/
def writeRange (fault : Option FileError) (range : DirtyRange) (offset : Int) (data : Bytes) : Stepwise Nat := do
  changeCache fault (·.write range.start data)
  let tag ← nextTag
  let size := (← get).size
  markBetween size range.start tag
  mark offset data.length tag
  modify fun f => { f with size := max size range.stop }
  return data.length

/-- Writes `data` at `offset`. -/
def write (fault : Option FileError) (offset : Int) (data : Bytes) : Stepwise Nat :=
  if data = [] then return 0
  else match DirtyRange.new offset data.length 0 with
    | .ok range => writeRange fault range offset data
    | .error e => throw (.plan e)

/-- Forgets what is dirty past the new end, or records what is new before it. -/
def markResized (old size : Nat) : Stepwise Unit :=
  if size < old then modify fun f => { f with dirty := f.dirty.truncate size }
  else if old < size then do markBetween old size (← nextTag)
  else pure ()

/-- Cuts the file off, or grows it with zeros. -/
def truncate (fault : Option FileError) (size : Nat) : Stepwise Unit := do
  changeCache fault (·.setLength size)
  let old := (← get).size
  markResized old size
  modify fun f => { f with size }

/-- What the steps come to, and the file that they leave. -/
def run {α : Type} (x : Stepwise α) (f : FileHandle) : Except FlushError α × FileHandle :=
  StateT.run (ExceptT.run x) f

section

variable {α β : Type} (f : FileHandle)

@[simp] theorem run_pure (a : α) : run (pure a) f = (.ok a, f) := rfl

@[simp] theorem run_throw (e : FlushError) : run (throw e : Stepwise α) f = (.error e, f) := rfl

@[simp] theorem run_get : run get f = (.ok f, f) := rfl

@[simp] theorem run_modify (g : FileHandle → FileHandle) : run (modify g) f = (.ok (), g f) := rfl

@[simp] theorem run_bind (x : Stepwise α) (next : α → Stepwise β) :
    run (x >>= next) f =
      match run x f with
      | (.ok a, f') => run (next a) f'
      | (.error e, f') => (.error e, f') := by
  simp only [run, ExceptT.run_bind, StateT.run_bind]
  cases h : StateT.run (ExceptT.run x) f with
  | mk result f' => cases result <;> rfl

end

theorem run_changeCache (fault : Option FileError) (change : Cache → Except FileError Cache) (f : FileHandle) :
    run (changeCache fault change) f =
      match Cache.befallen fault (change f.cache) with
      | .ok cache => (.ok (), { f with cache })
      | .error e => (.error (.file e), f) := by
  simp only [changeCache, run_bind, run_get]
  cases Cache.befallen fault (change f.cache) <;> simp

theorem run_nextTag (f : FileHandle) :
    run nextTag f = (.ok (f.changes + 1), { f with changes := f.changes + 1 }) := by
  simp only [nextTag, run_bind, run_modify, run_get, run_pure]

theorem run_mark (f : FileHandle) (start size : Int) (tag : Nat) :
    run (mark start size tag) f =
      match f.dirty.mark start size tag with
      | .ok dirty => (.ok (), { f with dirty })
      | .error e => (.error (.plan e), f) := by
  simp only [mark, run_bind, run_get]
  cases f.dirty.mark start size tag <;> simp

/-- Bytes below the largest length of a file can be recorded. -/
theorem run_markBetween (f : FileHandle) (start : Nat) {stop : Nat} (hstop : stop ≤ maxFileLength) (tag : Nat) :
    ∃ dirty, (if start < stop then f.dirty.mark start (stop - start : Nat) tag else .ok f.dirty) = .ok dirty ∧
      run (markBetween start stop tag) f = (.ok (), { f with dirty }) := by
  unfold markBetween
  split
  · next hgap =>
    have hsize : 0 < ((stop - start : Nat) : Int) := Int.natCast_pos.2 (Nat.sub_pos_of_lt hgap)
    obtain ⟨dirty, hdirty⟩ := f.dirty.exists_mark (Int.natCast_nonneg start) hsize tag
    refine ⟨dirty, hdirty, ?_⟩
    rw [signedSize_of_file (show start ≤ maxFileLength by omega),
      signedSize_of_file (show stop - start ≤ maxFileLength by omega), run_mark, hdirty]
  · exact ⟨f.dirty, rfl, rfl⟩

theorem befallen_eq_ok {fault : Option FileError} {change : Except FileError Cache} {cache : Cache}
    (h : Cache.befallen fault change = .ok cache) : fault = none ∧ change = .ok cache := by
  cases fault with
  | none => exact ⟨rfl, h⟩
  | some e => cases h

theorem markWrite_eq_ok {f : FileHandle} {range : DirtyRange} {gap dirty : DirtySet}
    (hgap : (if f.size < range.start then f.dirty.mark f.size (range.start - f.size : Nat) range.tag else .ok f.dirty) =
      .ok gap)
    (hdirty : gap.mark range.start range.size range.tag = .ok dirty) : f.markWrite range = .ok dirty := by
  unfold FileHandle.markWrite
  split at hgap
  · next hlt =>
    rw [if_pos hlt, hgap]
    exact hdirty
  · next hge =>
    cases hgap
    rw [if_neg hge]
    exact hdirty

/-- A write that the local file takes is recorded, and does what the call does as a whole. -/
theorem run_writeRange (f : FileHandle) {offset : Int} (hoffset : 0 ≤ offset) {data : Bytes} (hdata : data ≠ [])
    {fault : Option FileError} {cache : Cache}
    (hchange : Cache.befallen fault (f.cache.write offset.toNat data) = .ok cache) :
    ∃ f', run (writeRange fault ⟨offset.toNat, data.length, 0⟩ offset data) f = (.ok data.length, f') ∧
      f.write offset data = .ok (f', data.length) := by
  obtain ⟨-, hwrite⟩ := befallen_eq_ok hchange
  obtain ⟨-, hlimit⟩ := Cache.write_eq_ok hdata hwrite
  have hpos : 0 < data.length := List.length_pos_iff.2 hdata
  let range : DirtyRange := ⟨offset.toNat, data.length, f.changes + 1⟩
  have hrange : DirtyRange.new offset data.length (f.changes + 1) = .ok range :=
    DirtyRange.new_of_pos hoffset (Int.natCast_pos.2 hpos) _
  obtain ⟨gap, hgap, hbetween⟩ := run_markBetween { f with cache, changes := f.changes + 1 } f.size
    (show offset.toNat ≤ maxFileLength by omega) (f.changes + 1)
  obtain ⟨dirty, hdirty⟩ := gap.exists_mark hoffset (Int.natCast_pos.2 hpos) (f.changes + 1)
  have hstart : (range.start : Int) = offset := Int.toNat_of_nonneg hoffset
  have hmark : f.markWrite range = .ok dirty := markWrite_eq_ok hgap (hstart ▸ hdirty)
  refine ⟨{ f with cache, dirty, size := max f.size range.stop, changes := f.changes + 1 }, ?_, ?_⟩
  · simp only [writeRange, run_bind, run_changeCache, hchange, run_nextTag, run_get]
    rw [hbetween]
    simp only [run_mark, hdirty, run_modify, run_pure]
    rfl
  · rw [FileHandle.write, if_neg hdata, hrange]
    simp only [Except.mapError, bind, Except.bind, show f.cache.write range.start data = .ok cache from hwrite, hmark]
    rfl

/-- A change of the size that the local file takes is recorded, and does what the call does as a whole. -/
theorem run_resize (f : FileHandle) {size : Nat} {fault : Option FileError} {cache : Cache}
    (hchange : Cache.befallen fault (f.cache.setLength size) = .ok cache) :
    ∃ f', run (truncate fault size) f = (.ok (), f') ∧ f.truncate size = .ok f' := by
  obtain ⟨-, hlength⟩ := befallen_eq_ok hchange
  obtain ⟨-, hlimit⟩ := Cache.setLength_eq_ok hlength
  simp only [truncate, run_bind, run_changeCache, hchange, run_get, markResized]
  rw [FileHandle.truncate, hlength]
  rcases Nat.lt_trichotomy size f.size with hlt | rfl | hgt
  · refine ⟨{ f with cache, dirty := f.dirty.truncate size, size }, ?_, if_pos hlt⟩
    simp only [if_pos hlt, run_modify]
  · refine ⟨{ f with cache }, ?_, ?_⟩
    · simp only [Nat.lt_irrefl, if_false, run_pure, run_modify]
    · exact (if_neg (Nat.lt_irrefl _)).trans (if_neg (Nat.lt_irrefl _))
  · obtain ⟨dirty, hdirty, hbetween⟩ := run_markBetween { f with cache, changes := f.changes + 1 } f.size hlimit
      (f.changes + 1)
    rw [if_pos hgt] at hdirty
    refine ⟨{ f with cache, dirty, size, changes := f.changes + 1 }, ?_, ?_⟩
    · simp only [if_neg (Nat.lt_asymm hgt), if_pos hgt, run_bind, run_nextTag, hbetween, run_modify]
    · simp only [Except.mapError, bind, Except.bind, hdirty]
      exact (if_neg (Nat.lt_asymm hgt)).trans (if_pos hgt)

/-- A write does what the call does as a whole, or it changes nothing: it is refused for its offset, or the local file
refuses it. -/
theorem write_cases (fault : Option FileError) (offset : Int) (data : Bytes) (f : FileHandle) :
    (∃ n f', run (write fault offset data) f = (.ok n, f') ∧ f.write offset data = .ok (f', n)) ∨
      ∃ e, run (write fault offset data) f = (.error e, f) ∧ (fault = none → f.write offset data = .error e) ∧
        (offset < 0 ∧ e = .plan (.invalidRange offset data.length) ∨
          ∃ reason, Cache.befallen fault (f.cache.write offset.toNat data) = .error reason ∧ e = .file reason) := by
  by_cases hdata : data = []
  · exact .inl ⟨0, f, by rw [write, if_pos hdata, run_pure], if_pos hdata⟩
  rw [write, if_neg hdata]
  have hpos : 0 < data.length := List.length_pos_iff.2 hdata
  by_cases hoffset : offset < 0
  · have hnew (tag : Nat) : DirtyRange.new offset data.length tag = .error (.invalidRange offset data.length) :=
      if_pos (.inl hoffset)
    refine .inr ⟨.plan (.invalidRange offset data.length), ?_, fun _ => ?_, .inl ⟨hoffset, rfl⟩⟩
    · rw [hnew]
      exact run_throw f _
    · rw [FileHandle.write, if_neg hdata, hnew]
      rfl
  have hnew (tag : Nat) : DirtyRange.new offset data.length tag = .ok ⟨offset.toNat, data.length, tag⟩ :=
    DirtyRange.new_of_pos (Int.not_lt.1 hoffset) (Int.natCast_pos.2 hpos) tag
  rw [hnew]
  cases hchange : Cache.befallen fault (f.cache.write offset.toNat data) with
  | ok cache =>
    obtain ⟨f', hrun, hwrite⟩ := run_writeRange f (Int.not_lt.1 hoffset) hdata hchange
    exact .inl ⟨data.length, f', hrun, hwrite⟩
  | error reason =>
    refine .inr ⟨.file reason, ?_, ?_, .inr ⟨reason, rfl, rfl⟩⟩
    · simp only [writeRange, run_bind, run_changeCache, hchange]
    · rintro rfl
      rw [FileHandle.write, if_neg hdata, hnew]
      simp only [Except.mapError, bind, Except.bind, show f.cache.write offset.toNat data = .error reason from hchange]

/-- A change of the size does what the call does as a whole, or it changes nothing: the local file refuses it. -/
theorem truncate_cases (fault : Option FileError) (size : Nat) (f : FileHandle) :
    (∃ f', run (truncate fault size) f = (.ok (), f') ∧ f.truncate size = .ok f') ∨
      ∃ e, run (truncate fault size) f = (.error e, f) ∧ (fault = none → f.truncate size = .error e) ∧
        ∃ reason, Cache.befallen fault (f.cache.setLength size) = .error reason ∧ e = .file reason := by
  cases hchange : Cache.befallen fault (f.cache.setLength size) with
  | ok cache => exact .inl (run_resize f hchange)
  | error reason =>
    refine .inr ⟨.file reason, ?_, ?_, reason, rfl, rfl⟩
    · simp only [truncate, run_bind, run_changeCache, hchange]
    · rintro rfl
      rw [FileHandle.truncate, show f.cache.setLength size = .error reason from hchange]
      rfl

end Stepwise

namespace FileHandle

variable {σ : Type} [Endpoint σ]

/-- A flush that fails was of a file that differs from the stored object, and leaves it so. -/
theorem flush_failed {f : FileHandle} {flusher : Flusher} {link : Link σ} {e : FlushError}
    (h : ((f.flush flusher).run link).2.2 = .error e) :
    ((f.flush flusher).run link).2.1 = f ∧ f.needsFlush = true := by
  unfold flush at h ⊢
  split at h
  · next hneeds =>
    rw [if_pos hneeds, Dialogue.run_after]
    rw [Dialogue.run_after] at h
    cases hresult : ((flusher.flush f.order).run link).2 with
    | ok written =>
      rw [hresult] at h
      cases h
    | error reason => exact ⟨rfl, hneeds⟩
  · cases h

end FileHandle

/-- **A call that fails leaves the open file as it was.** A write or a change of the size, taken step by step and with
any fault that befalls the local file, does what the call does as a whole, or it fails and changes nothing: a write for
its negative offset, and else because the local file could not be changed, so that nothing fails once it was. A flush
that fails leaves the file as it was and dirty, and a later one is a flush of the same file: of the same size, dirty
ranges and tags, over an object that is stored or not as before. -/
theorem failed_call_leaves_file {σ : Type} [Endpoint σ] (f : FileHandle) :
    (∀ (fault : Option FileError) (offset : Int) (data : Bytes),
      match (Stepwise.write fault offset data).run f with
      | (.ok n, after) => f.write offset data = .ok (after, n)
      | (.error e, after) => after = f ∧ (fault = none → f.write offset data = .error e) ∧
          (offset < 0 ∧ e = .plan (.invalidRange offset data.length) ∨
            ∃ reason, Cache.befallen fault (f.cache.write offset.toNat data) = .error reason ∧
              e = .file reason)) ∧
      (∀ (fault : Option FileError) (size : Nat),
        match (Stepwise.truncate fault size).run f with
        | (.ok (), after) => f.truncate size = .ok after
        | (.error e, after) => after = f ∧ (fault = none → f.truncate size = .error e) ∧
            ∃ reason, Cache.befallen fault (f.cache.setLength size) = .error reason ∧ e = .file reason) ∧
      ∀ (flusher : Flusher) (link : Link σ) (e : FlushError), ((f.flush flusher).run link).2.2 = .error e →
        let after := ((f.flush flusher).run link).2.1
        after = f ∧ after.needsFlush = true ∧
          ∀ later : Flusher, after.flush later = do
            match ← later.flush
              { key := f.key
                source := f.cache.source
                size := f.size
                dirty := f.dirty.ranges
                stored := f.storedSize.isSome } with
            | .ok written => return (f.flushed, .ok (some written))
            | .error e => return (f, .error e) := by
  refine ⟨fun fault offset data => ?_, fun fault size => ?_, fun flusher link e h => ?_⟩
  · rcases Stepwise.write_cases fault offset data f with ⟨n, f', hrun, hwrite⟩ | ⟨e, hrun, hwhole, hcause⟩
    · rw [hrun]
      exact hwrite
    · rw [hrun]
      exact ⟨rfl, hwhole, hcause⟩
  · rcases Stepwise.truncate_cases fault size f with ⟨f', hrun, htruncate⟩ | ⟨e, hrun, hwhole, hcause⟩
    · rw [hrun]
      exact htruncate
    · rw [hrun]
      exact ⟨rfl, hwhole, hcause⟩
  · obtain ⟨hsame, hneeds⟩ := FileHandle.flush_failed h
    simp only [hsame]
    exact ⟨trivial, hneeds, fun later => if_pos hneeds⟩

end ObjectFlush
