import ObjectFlush.Proofs.Dirty.Tags
import ObjectFlush.Proofs.OpenFile.History
import ObjectFlush.Proofs.Upload.SessionCall

/-!
The tags of an open file. Each change of the file has a tag of its own, one greater than that of the change before, and
what it records is passed on to the dirty set under that tag (`OpenFile.passed`).

  1. The dirty set of a file is what it makes of the operations that were passed on to it (`OpenFile.dirty_run`), and
     their tags do not decrease (`OpenFile.tags_passed`).
  2. So the tag of a dirty byte is never older than the latest write to it (`tags_never_stale`).
-/

namespace ObjectFlush

/-- Recording a range does to the ranges what recording it as an operation does. -/
theorem DirtySet.step_of_mark {d d' : DirtySet} {start size : Int} {tag : Nat} (h : d.mark start size tag = .ok d') :
    d.step (.add start size tag) = d' := by
  rw [mark] at h
  rw [step_add]
  cases hadd : d.add start size tag with
  | error e =>
    rw [hadd] at h
    cases h
  | ok result =>
    rw [hadd] at h
    cases h
    rfl

namespace FileHandle

variable {f f' : FileHandle}

/-- What a write of at least one byte records, and under which tag. -/
theorem write_records {offset : Int} {data : Bytes} {n : Nat} (hdata : data ≠ [])
    (h : f.write offset data = .ok (f', n)) :
    0 ≤ offset ∧ f'.changes = f.changes + 1 ∧
      f.markWrite ⟨offset.toNat, data.length, f.changes + 1⟩ = .ok f'.dirty := by
  rw [write, if_neg hdata] at h
  cases hrange : DirtyRange.new offset data.length (f.changes + 1) with
  | error e =>
    rw [hrange] at h
    cases h
  | ok range =>
    obtain ⟨hoffset, -, hvalue⟩ := DirtyRange.new_eq_ok hrange
    have hlength : (data.length : Int).toNat = data.length := Int.toNat_natCast _
    rw [hlength] at hvalue
    subst hvalue
    simp only [hrange, Except.mapError, bind, Except.bind] at h
    cases hcache : f.cache.write offset.toNat data with
    | error e => simp [hcache] at h
    | ok cache =>
      cases hmark : f.markWrite ⟨offset.toNat, data.length, f.changes + 1⟩ with
      | error e => simp [hcache, hmark] at h
      | ok dirty =>
        simp only [hcache, hmark] at h
        cases h
        exact ⟨hoffset, rfl, rfl⟩

/-- What a change of the size records or forgets, and under which tag. -/
theorem truncate_records {size : Nat} (h : f.truncate size = .ok f') :
    (size < f.size ∧ f'.changes = f.changes ∧ f'.dirty = f.dirty.truncate size) ∨
      (f.size < size ∧ f'.changes = f.changes + 1 ∧
        f.dirty.mark f.size (size - f.size : Nat) (f.changes + 1) = .ok f'.dirty) ∨
      (size = f.size ∧ f'.changes = f.changes ∧ f'.dirty = f.dirty) := by
  rw [truncate] at h
  cases hcache : f.cache.setLength size with
  | error e =>
    rw [hcache] at h
    cases h
  | ok cache =>
    simp only [hcache, Except.mapError, bind, Except.bind] at h
    split at h
    · next hlt =>
      cases h
      exact .inl ⟨hlt, rfl, rfl⟩
    · split at h
      · next hlt =>
        cases hmark : f.dirty.mark f.size (size - f.size : Nat) (f.changes + 1) with
        | error e => simp [hmark] at h
        | ok dirty =>
          simp only [hmark] at h
          cases h
          exact .inr (.inl ⟨hlt, rfl, rfl⟩)
      · cases h
        exact .inr (.inr ⟨by omega, rfl, rfl⟩)

end FileHandle

namespace OpenFile

variable {key : ObjectKey}

/-- What an operation on an open file passes on to its dirty set: what a change records, under the tag of that change,
and that a flush has stored the file. What is refused, or fails, passes on nothing. -/
def passes (o : OpenFile key) : FileOp → List DirtyOp
  | .write offset data =>
    match o.file.write offset data with
    | .ok _ =>
      if data = [] then []
      else
        (if o.file.size < offset then [.add o.file.size (offset - o.file.size) (o.file.changes + 1)] else []) ++
          [.add offset data.length (o.file.changes + 1)]
    | .error _ => []
  | .truncate size =>
    match o.file.truncate size with
    | .ok _ =>
      if size < o.file.size then [.truncate size]
      else if o.file.size < size then [.add o.file.size (size - o.file.size) (o.file.changes + 1)]
      else []
    | .error _ => []
  | .flush flusher =>
    match (o.flush flusher).2 with
    | .ok (some _) => [.clearAll]
    | _ => []

/-- What some operations pass on, one after the other. -/
def passed (o : OpenFile key) : List FileOp → List DirtyOp
  | [] => []
  | op :: ops => o.passes op ++ (o.step op).passed ops

/-- A flush that writes the file leaves nothing dirty, and any other leaves the file as it was. -/
theorem flush_cases (o : OpenFile key) (flusher : Flusher) :
    (o.flush flusher).1.file =
      match (o.flush flusher).2 with
      | .ok (some _) => o.file.flushed
      | _ => o.file := by
  show ((o.file.flush flusher).run o.link).2.1 =
    match ((o.file.flush flusher).run o.link).2.2 with
    | .ok (some _) => o.file.flushed
    | _ => o.file
  unfold FileHandle.flush
  split
  · rw [Dialogue.run_after]
    cases ((flusher.flush o.file.order).run o.link).2 <;> rfl
  · rfl

/-- What one operation passes on makes the dirty set of the file what it is afterwards, and its tags are those of
changes that are new. -/
structure Recorded (before : FileHandle) (passed : List DirtyOp) (after : FileHandle) : Prop where
  dirty : after.dirty = passed.foldl DirtySet.step before.dirty
  newer : ∀ tag ∈ DirtyOp.tags passed, before.changes < tag ∧ tag ≤ after.changes
  ordered : (DirtyOp.tags passed).Pairwise (· ≤ ·)
  changes : before.changes ≤ after.changes

namespace Recorded

theorem nothing (f : FileHandle) : Recorded f [] f := ⟨rfl, by simp, by simp, Nat.le_refl _⟩

/-- What is passed on later has later tags. -/
theorem append {f g h : FileHandle} {first later : List DirtyOp} (hfirst : Recorded f first g)
    (hlater : Recorded g later h) : Recorded f (first ++ later) h := by
  refine ⟨?_, ?_, ?_, Nat.le_trans hfirst.changes hlater.changes⟩
  · rw [List.foldl_append, ← hfirst.dirty, hlater.dirty]
  · intro tag htag
    rw [DirtyOp.tags_append] at htag
    have := hfirst.changes
    have := hlater.changes
    obtain htag | htag := List.mem_append.1 htag
    · have := hfirst.newer tag htag
      omega
    · have := hlater.newer tag htag
      omega
  · rw [DirtyOp.tags_append]
    refine List.pairwise_append.2 ⟨hfirst.ordered, hlater.ordered, fun a ha b hb => ?_⟩
    have := hfirst.newer a ha
    have := hlater.newer b hb
    omega

end Recorded

theorem recorded_write (o : OpenFile key) (offset : Int) (data : Bytes) :
    Recorded o.file (o.passes (.write offset data)) (o.step (.write offset data)).file := by
  simp only [passes, step]
  cases hwrite : o.file.write offset data with
  | error e => exact .nothing _
  | ok result =>
    obtain ⟨f, n⟩ := result
    by_cases hdata : data = []
    · rw [FileHandle.write, if_pos hdata] at hwrite
      cases hwrite
      simp only [if_pos hdata]
      exact .nothing _
    · obtain ⟨hoffset, hchanges, hmark⟩ := FileHandle.write_records hdata hwrite
      have hstart : (offset.toNat : Int) = offset := Int.toNat_of_nonneg hoffset
      have hgap : (o.file.size < offset.toNat) ↔ (o.file.size : Int) < offset := by omega
      simp only [if_neg hdata]
      simp only [FileHandle.markWrite, hgap, hstart, bind, Except.bind] at hmark
      split
      · next hlt =>
        rw [if_pos hlt] at hmark
        have hsize : ((offset.toNat - o.file.size : Nat) : Int) = offset - o.file.size := by omega
        rw [hsize] at hmark
        cases hfirst : o.file.dirty.mark o.file.size (offset - o.file.size) (o.file.changes + 1) with
        | error e => simp [hfirst] at hmark
        | ok dirty =>
          simp only [hfirst] at hmark
          refine ⟨?_, ?_, ?_, by omega⟩
          · simp [DirtySet.step_of_mark hfirst, DirtySet.step_of_mark hmark]
          · simp [hchanges]
          · simp
      · next hge =>
        rw [if_neg hge] at hmark
        refine ⟨?_, ?_, ?_, by omega⟩
        · exact (DirtySet.step_of_mark hmark).symm
        · simp [hchanges]
        · simp

theorem recorded_truncate (o : OpenFile key) (size : Nat) :
    Recorded o.file (o.passes (.truncate size)) (o.step (.truncate size)).file := by
  simp only [passes, step]
  cases htruncate : o.file.truncate size with
  | error e => exact .nothing _
  | ok f =>
    obtain ⟨hlt, hchanges, hdirty⟩ | ⟨hlt, hchanges, hmark⟩ | ⟨heq, hchanges, hdirty⟩ :=
      FileHandle.truncate_records htruncate
    · simp only [if_pos hlt]
      exact ⟨hdirty, by simp, by simp, by omega⟩
    · have hsize : ((size - o.file.size : Nat) : Int) = size - o.file.size := by omega
      rw [hsize] at hmark
      simp only [if_neg (Nat.lt_asymm hlt), if_pos hlt]
      refine ⟨(DirtySet.step_of_mark hmark).symm, ?_, ?_, by omega⟩
      · simp [hchanges]
      · simp
    · simp only [heq, Nat.lt_irrefl, if_false]
      exact ⟨hdirty, by simp, by simp, by omega⟩

theorem recorded_flush (o : OpenFile key) (flusher : Flusher) :
    Recorded o.file (o.passes (.flush flusher)) (o.step (.flush flusher)).file := by
  have hfile := o.flush_cases flusher
  simp only [passes, step]
  rw [hfile]
  cases (o.flush flusher).2 with
  | error e => exact .nothing _
  | ok written =>
    cases written with
    | none => exact .nothing _
    | some summary =>
      exact ⟨rfl, by simp, by simp, Nat.le_refl _⟩

theorem recorded_step (o : OpenFile key) (op : FileOp) : Recorded o.file (o.passes op) (o.step op).file := by
  cases op with
  | write offset data => exact o.recorded_write offset data
  | truncate size => exact o.recorded_truncate size
  | flush flusher => exact o.recorded_flush flusher

theorem recorded_run (o : OpenFile key) (ops : List FileOp) : Recorded o.file (o.passed ops) (o.run ops).file := by
  induction ops generalizing o with
  | nil => exact .nothing _
  | cons op ops ih => exact (o.recorded_step op).append (ih (o.step op))

end OpenFile

/-- **Tags are never stale.** Whatever is done to a dirty set, if the tags that are passed on do not decrease, then the
tag of a dirty byte is at least that of the latest write to it, and at most the largest that was passed on. What only
takes bytes away leaves the tags of the others as they are, whatever was done before. And the tags do not decrease where
an open file passes them on: its dirty set is what it makes of the operations that the file passes on to it, under tags
up to the number of changes of the file. -/
theorem tags_never_stale :
    (∀ ops : List DirtyOp, (DirtyOp.tags ops).Pairwise (· ≤ ·) → ∀ b, Dirty (DirtySet.run ops).ranges b →
      ∃ tag latest newest, (DirtySet.run ops).tagAt? b = some tag ∧ DirtyOp.latestTag? b ops = some latest ∧
        (DirtyOp.tags ops).max? = some newest ∧ latest ≤ tag ∧ tag ≤ newest) ∧
    (∀ (ops : List DirtyOp) (cut : DirtyOp), cut.Cuts → ∀ b, Dirty ((DirtySet.run ops).step cut).ranges b →
      ((DirtySet.run ops).step cut).tagAt? b = (DirtySet.run ops).tagAt? b) ∧
    ∀ (key : ObjectKey) (o : OpenFile key), o.Opened → ∀ ops : List FileOp,
      (o.run ops).file.dirty = DirtySet.run (o.passed ops) ∧ (DirtyOp.tags (o.passed ops)).Pairwise (· ≤ ·) ∧
        ∀ tag ∈ DirtyOp.tags (o.passed ops), tag ≤ (o.run ops).file.changes := by
  refine ⟨fun ops htags b hb => ?_, fun ops cut hcut b hb => ?_, fun key o hopen ops => ?_⟩
  · obtain ⟨r, hr, hrb⟩ := hb
    have hfresh := DirtySet.fresh_run htags
    obtain ⟨latest, hlatest, hle⟩ := hfresh.latest r hr b hrb
    have hpassed := hfresh.passed r hr
    obtain ⟨newest, hnewest⟩ := Option.isSome_iff_exists.1 (List.isSome_max?_of_mem hpassed)
    have htag := (DirtySet.tagAt?_eq_some_iff (DirtySet.run_spec ops).1).2 ⟨r, hr, hrb, rfl⟩
    exact ⟨r.tag, latest, newest, htag, hlatest, hnewest, hle, (List.max?_eq_some_iff.1 hnewest).2 _ hpassed⟩
  · have hc := (DirtySet.run_spec ops).1
    exact (DirtySet.keepsTags_step _ hcut).tagAt?_eq hc (DirtySet.step_spec hc cut).1 hb
  · have hrecorded := o.recorded_run ops
    have hclean : o.file.dirty = .empty := by
      cases hopen <;> rfl
    refine ⟨?_, hrecorded.ordered, fun tag htag => (hrecorded.newer tag htag).2⟩
    rw [hrecorded.dirty, hclean]
    rfl

/-- A byte whose range was joined by a later write next to it, after which ranges were split and cut off: its own latest
write has the first tag, and its range the third. And a file that is written behind its end, where the gap and the bytes
have one tag. -/
theorem joined_byte_is_fresh :
    let ops : List DirtyOp := [.add 0 10 1, .add 20 10 2, .add 10 10 3, .clear 12 3, .truncate 25, .add 40 2 3]
    let key : ObjectKey := ⟨"k", by decide⟩
    let o : OpenFile key := ⟨.empty key, { endpoint := .alone key ⟨{}, 0, {}, 1⟩ }⟩
    let fileOps : List FileOp := [.write 2 [7, 8], .write 0 [5], .truncate 3, .truncate 6]
    ((DirtyOp.tags ops).Pairwise (· ≤ ·) ∧ Dirty (DirtySet.run ops).ranges 5 ∧
      (DirtySet.run ops).tagAt? 5 = some 3 ∧ DirtyOp.latestTag? 5 ops = some 1 ∧
      ∃ tag latest newest, (DirtySet.run ops).tagAt? 5 = some tag ∧ DirtyOp.latestTag? 5 ops = some latest ∧
        (DirtyOp.tags ops).max? = some newest ∧ latest ≤ tag ∧ tag ≤ newest) ∧
    ((DirtyOp.clear 15 2).Cuts ∧ Dirty ((DirtySet.run ops).step (.clear 15 2)).ranges 5 ∧
      ((DirtySet.run ops).step (.clear 15 2)).tagAt? 5 = (DirtySet.run ops).tagAt? 5) ∧
    (o.Opened ∧ (o.run fileOps).file.dirty = DirtySet.run (o.passed fileOps) ∧
      DirtyOp.tags (o.passed fileOps) = [1, 1, 2, 3]) := by
  intro ops key o fileOps
  obtain ⟨hbounds, hkeeps, hfile⟩ := tags_never_stale
  have htags : (DirtyOp.tags ops).Pairwise (· ≤ ·) := by decide
  have hdirty : Dirty (DirtySet.run ops).ranges 5 := by decide
  have hkept : Dirty ((DirtySet.run ops).step (.clear 15 2)).ranges 5 := by decide
  have hopen : o.Opened := .created _
  refine ⟨⟨htags, hdirty, by decide, by decide, hbounds ops htags 5 hdirty⟩,
    ⟨trivial, hkept, hkeeps ops (.clear 15 2) trivial 5 hkept⟩, hopen, (hfile key o hopen fileOps).1, ?_⟩
  unfold fileOps o key
  rfl

end ObjectFlush
