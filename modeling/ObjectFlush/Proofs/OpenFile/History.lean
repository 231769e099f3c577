import ObjectFlush.Proofs.OpenFile.Coherent
import ObjectFlush.Proofs.Upload.Flush

/-!
An open file over its whole life: any number of writes, changes of size and flushes, in any order,
with any outcome, over a store in which only this file is flushed to its key.

  1. At every time the file knows what it may count on of the stored object (`open_file_coherent`).
  2. Whenever a flush succeeds, the object under the key is the file (`flush_stores_file`).
-/

namespace ObjectFlush

/-- An open file, and the link over which it is flushed. -/
structure OpenFile (key : ObjectKey) where
  file : FileHandle
  link : Link (SharedEndpoint key)

/-- What can be done to an open file. Each flush has settings of its own. -/
inductive FileOp where
  | write (offset : Int) (data : Bytes)
  | truncate (size : Nat)
  | flush (flusher : Flusher)

namespace OpenFile

variable {key : ObjectKey}

/-- The bytes under the key. -/
def stored (o : OpenFile key) : Option Bytes := o.link.endpoint.object.map (·.data)

/-- Flushes the file, and tells what that came to. -/
def flush (o : OpenFile key) (flusher : Flusher) :
    OpenFile key × Except FlushError (Option ObjectSummary) :=
  let (link, file, result) := (o.file.flush flusher).run o.link
  ({ file, link }, result)

/-- One operation. A refused write or change of size leaves the file as it was. -/
def step (o : OpenFile key) : FileOp → OpenFile key
  | .write offset data =>
    match o.file.write offset data with
    | .ok (file, _) => { o with file }
    | .error _ => o
  | .truncate size =>
    match o.file.truncate size with
    | .ok file => { o with file }
    | .error _ => o
  | .flush flusher => (o.flush flusher).1

def run (o : OpenFile key) (ops : List FileOp) : OpenFile key := ops.foldl step o

/-- The ways to open a file: as a new one, whatever is stored, or with the stored object in its cache.
A cache is a file on disk, so it is no longer than a file can be. -/
inductive Opened : OpenFile key → Prop
  | created (link : Link (SharedEndpoint key)) : Opened ⟨.empty key, link⟩
  | existing {cache : Cache} {link : Link (SharedEndpoint key)}
    (hstored : link.endpoint.object.map (·.data) = some cache.bytes)
    (hlimit : cache.length ≤ maxFileLength) : Opened ⟨.ofStored key cache cache.length, link⟩

/-- The file is for the key, and coherent with the object under it. -/
structure Sound (o : OpenFile key) : Prop where
  key : o.file.key = key
  coherent : Coherent o.file o.stored

theorem Opened.sound {o : OpenFile key} (h : o.Opened) : o.Sound := by
  cases h with
  | created link =>
    refine ⟨rfl, rfl, Nat.zero_le _, .nil, by simp [FileHandle.empty], ?_⟩
    intro n hn
    cases hn
  | existing hstored hlimit =>
    refine ⟨rfl, rfl, hlimit, .nil, by simp [FileHandle.ofStored], ?_⟩
    intro n hn
    refine ⟨_, hstored, ?_, fun o ho _ => ⟨ho, rfl⟩⟩
    rw [Cache.length_bytes]
    exact Option.some.inj hn

end OpenFile

namespace FileHandle

/-- What a flush leaves of a file and its object: with success, the object is the file and the file
knows; with failure, both are as before. -/
theorem triple_flush {key : ObjectKey} {f : FileHandle} {old : Option StoredObject}
    (hkey : f.key = key) (h : Coherent f (old.map (·.data))) (flusher : Flusher) :
    Dialogue.Triple (fun e : SharedEndpoint key => e.object = old) (f.flush flusher) fun out e =>
      match out.2 with
      | .ok written => out.1 = { f with dirty := out.1.dirty, storedSize := some f.size } ∧
          Coherent out.1 (e.object.map (·.data)) ∧ out.1.needsFlush = false ∧
          ∀ summary, written = some summary → summary.size = f.size
      | .error _ => out.1 = f ∧ e.object = old := by
  subst hkey
  unfold flush
  split
  · have hsource : (FreshContent.file f.order.source).Holds f.cache.bytes :=
      ⟨rfl, by rw [h.length_bytes]; exact h.limit⟩
    have hagree : f.order.stored = true → ∀ o, old = some o →
        AgreesOutside f.order.dirty f.cache.bytes o.data := by
      intro hstored o ho
      obtain ⟨n, hn⟩ := Option.isSome_iff_exists.1 hstored
      obtain ⟨bytes, hbytes, -, hagree⟩ := h.agrees n hn
      rw [ho] at hbytes
      cases hbytes
      exact hagree
    have hflush : Dialogue.Triple (fun e : SharedEndpoint f.key => e.object = old)
        (flusher.flush f.order) (SharedEndpoint.Settled old f.cache.bytes) :=
      flusher.triple_flush hsource h.length_bytes.symm hagree
    refine hflush.bind ?_
    intro result
    cases result with
    | ok written =>
      apply Dialogue.triple_pure
      intro e h
      obtain ⟨o, ho, hdata, hsize, hwritten⟩ := h
      have hobject : e.object = some o := ho
      refine ⟨rfl, ?_, by simp [needsFlush, flushed, DirtySet.isEmpty], ?_⟩
      · rw [hobject, Option.map_some, hdata]
        exact h.flushed
      · intro summary hs
        cases hs
        rw [hwritten]
        exact h.length_bytes
    | error err =>
      apply Dialogue.triple_pure
      intro e he
      exact ⟨rfl, he⟩
  · next hneeds =>
    apply Dialogue.triple_pure
    intro e he
    have hclean : f.needsFlush = false := Bool.eq_false_iff.2 hneeds
    refine ⟨?_, ?_, hclean, fun _ h => by cases h⟩
    · simp only [needsFlush, Bool.or_eq_false_iff, decide_eq_false_iff_not, ne_eq, not_not] at hclean
      rw [← hclean.2]
    · rw [he]
      exact h

end FileHandle

namespace OpenFile

variable {key : ObjectKey}

/-- A flush keeps an open file sound. After one that succeeds, it is as large as before, holds the same
bytes, and needs no flush. -/
theorem Sound.flush {o : OpenFile key} (h : o.Sound) (flusher : Flusher) :
    (o.flush flusher).1.Sound ∧ ∀ written, (o.flush flusher).2 = .ok written →
      (o.flush flusher).1.file.cache = o.file.cache ∧ (o.flush flusher).1.file.size = o.file.size ∧
      (o.flush flusher).1.file.needsFlush = false ∧
      ∀ summary, written = some summary → summary.size = o.file.size := by
  have hflush := FileHandle.triple_flush h.key h.coherent flusher o.link rfl
  unfold OpenFile.flush
  generalize (o.file.flush flusher).run o.link = out at hflush ⊢
  obtain ⟨link, file, result⟩ := out
  cases result with
  | error e =>
    obtain ⟨rfl, hobject⟩ := hflush
    refine ⟨⟨h.key, ?_⟩, fun _ hok => by cases hok⟩
    show Coherent o.file (link.endpoint.object.map (·.data))
    rw [hobject]
    exact h.coherent
  | ok written =>
    obtain ⟨hfile, hcoherent, hclean, hsize⟩ := hflush
    refine ⟨⟨(congrArg FileHandle.key hfile).trans h.key, hcoherent⟩, ?_⟩
    intro w hw
    cases hw
    have hcache := congrArg FileHandle.cache hfile
    have hlength := congrArg FileHandle.size hfile
    exact ⟨hcache, hlength, hclean, hsize⟩

theorem Sound.step {o : OpenFile key} (h : o.Sound) (op : FileOp) : (o.step op).Sound := by
  cases op with
  | write offset data =>
    simp only [OpenFile.step]
    split
    · next file n hw => exact ⟨(FileHandle.key_write hw).trans h.key, h.coherent.write hw⟩
    · exact h
  | truncate size =>
    simp only [OpenFile.step]
    split
    · next file ht => exact ⟨(FileHandle.truncate_eq_ok ht).2.1.trans h.key, h.coherent.truncate ht⟩
    · exact h
  | flush flusher => exact (h.flush flusher).1

theorem Sound.run {o : OpenFile key} (h : o.Sound) (ops : List FileOp) : (o.run ops).Sound := by
  induction ops generalizing o with
  | nil => exact h
  | cons op rest ih => exact ih (h.step op)

end OpenFile

/-- **A flush that succeeds stores the file.** However the file was opened, and whatever was done to it
with whatever outcome: after a flush that succeeds, the bytes under the key are those that are read
from the file, from its start to its end, before the flush and after it; the summary, if there is one,
tells their number; and the file needs no flush. -/
theorem flush_stores_file {key : ObjectKey} {o : OpenFile key} (hopen : o.Opened)
    (ops : List FileOp) (flusher : Flusher) {written : Option ObjectSummary}
    (hok : ((o.run ops).flush flusher).2 = .ok written) :
    let before := (o.run ops).file
    let after := ((o.run ops).flush flusher).1
    ∃ bytes, before.read 0 before.size = .ok bytes ∧ after.file.read 0 after.file.size = .ok bytes ∧
      after.stored = some bytes ∧ bytes.length = after.file.size ∧
      (∀ summary, written = some summary → summary.size = after.file.size) ∧
      after.file.needsFlush = false := by
  intro before after
  have h := hopen.sound.run ops
  obtain ⟨hafter, hflush⟩ := h.flush flusher
  obtain ⟨hcache, hsize, hclean, hsummary⟩ := hflush written hok
  refine ⟨after.file.cache.bytes, ?_, hafter.coherent.read_all,
    hafter.coherent.stored_of_clean hclean, hafter.coherent.length_bytes, ?_, hclean⟩
  · rw [hcache]
    exact h.coherent.read_all
  · rw [hsize]
    exact hsummary

/-- A new file that is written behind its end, not flushed the first time, because the request is lost,
cut off and grown again, and flushed with success. -/
theorem regrown_file_stored :
    let key : ObjectKey := ⟨"k", by decide⟩
    let lossy : Conditions :=
      { reaction := fun _ n => if n = 0 then { failure := some .timeout } else {} }
    let o : OpenFile key :=
      ⟨.empty key, { endpoint := .alone key ⟨{}, 0, {}, 1⟩, conditions := lossy }⟩
    let flusher : Flusher := ⟨{ multipartThreshold := 10, retryLimit := 0 }, by decide⟩
    let ops : List FileOp := [.write 2 [7, 8], .flush flusher, .truncate 3, .truncate 5]
    o.Opened ∧ ((o.run ops).flush flusher).1.stored = some [0, 0, 7, 0, 0] ∧
      ((o.run ops).flush flusher).1.file.needsFlush = false := by
  intro key lossy o flusher ops
  have hopen : o.Opened := .created _
  have hok : ((o.run ops).flush flusher).2 = .ok (some ⟨"k", 5, Digest.tag [0, 0, 7, 0, 0]⟩) := by
    unfold ops flusher o lossy key
    rfl
  obtain ⟨bytes, hread, -, hstored, -, -, hclean⟩ := flush_stores_file hopen ops flusher hok
  have hbytes : (o.run ops).file.read 0 (o.run ops).file.size = .ok [0, 0, 7, 0, 0] := by
    unfold ops flusher o lossy key
    rfl
  rw [hbytes] at hread
  cases hread
  exact ⟨hopen, hstored, hclean⟩

end ObjectFlush
