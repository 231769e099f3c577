import ObjectFlush.Dirty.Range

/-!
The file as alternating runs: dirty bytes that have to be uploaded and clean bytes that the store
can copy. `runs` computes them from ranges in any order, overlapping, touching, empty or past the
end of the file.
-/

namespace ObjectFlush

/-- Where the bytes of a run or a part come from. -/
inductive Transfer where
  /-- Fresh bytes, read locally. -/
  | upload
  /-- Bytes the store copies from the object it holds. -/
  | copy
  deriving DecidableEq, Repr

/-- The bytes `[start, stop)`, all of one kind. -/
structure Run where
  kind : Transfer
  start : Nat
  stop : Nat
  deriving DecidableEq, Repr

namespace Run

def length (r : Run) : Nat := r.stop - r.start

/-- The intervals inside `[0, fileSize)` that the ranges cover, by start and then by end. -/
def clipped (fileSize : Nat) (ranges : List DirtyRange) : List (Nat × Nat) :=
  ((ranges.filter (·.start < fileSize)).map fun r => (r.start, min r.stop fileSize)).mergeSort
    fun a b => a.1 < b.1 || (a.1 == b.1 && a.2 ≤ b.2)

/-- Joins sorted intervals that intersect or touch, `[start, stop)` being the one before them. -/
def joinFrom (start stop : Nat) : List (Nat × Nat) → List (Nat × Nat)
  | [] => [(start, stop)]
  | (s, e) :: rest =>
    if e ≤ stop then joinFrom start stop rest
    else if s ≤ stop then joinFrom start e rest
    else (start, stop) :: joinFrom s e rest

/-- Joins sorted intervals that intersect or touch. What ends at the start of the file is
dropped. -/
def join : List (Nat × Nat) → List (Nat × Nat)
  | [] => []
  | (s, e) :: rest => if e = 0 then join rest else joinFrom s e rest

/-- The runs from `cursor` on: the given intervals are uploaded, what is between them is copied. -/
def alternate (fileSize cursor : Nat) : List (Nat × Nat) → List Run
  | [] => if cursor < fileSize then [⟨.copy, cursor, fileSize⟩] else []
  | (s, e) :: rest =>
    (if cursor < s then [⟨.copy, cursor, s⟩] else []) ++
      ⟨.upload, s, e⟩ :: alternate fileSize e rest

end Run

/-- The runs of a file of `fileSize` bytes. Without copies all of it is one run to upload. -/
def runs (fileSize : Nat) (ranges : List DirtyRange) (mayCopy : Bool) : List Run :=
  if fileSize = 0 then []
  else if mayCopy then Run.alternate fileSize 0 (Run.join (Run.clipped fileSize ranges))
  else [⟨.upload, 0, fileSize⟩]

end ObjectFlush
