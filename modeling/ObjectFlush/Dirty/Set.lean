import ObjectFlush.Dirty.Range
import ObjectFlush.Total

/-!
The dirty bytes of one file, as ranges in ascending order with at least one clean byte between any
two of them. Recording a write joins every range that it meets; forgetting bytes splits the
ranges that it cuts through.
-/

namespace ObjectFlush

structure DirtySet where
  /-- The ranges by start offset. -/
  ranges : List DirtyRange := []
  deriving DecidableEq, Repr

namespace DirtySet

/-- Nothing is dirty. -/
def empty : DirtySet := {}

/-- `r`, joined with the ranges after it as long as they meet what has been joined. -/
def absorb (r : DirtyRange) : List DirtyRange → List DirtyRange
  | [] => [r]
  | next :: rest =>
    if r.meets next.start next.stop then absorb (r.cover next.start next.stop r.tag) rest
    else r :: next :: rest

/-- The ranges after recording `r`, and whether it joined one that was there. Ranges that end
before `r` starts cannot meet it, so the first that does not is the only one to look at. -/
def insert (r : DirtyRange) (ranges : List DirtyRange) : Bool × List DirtyRange :=
  let before := ranges.takeWhile (·.stop < r.start)
  match ranges.dropWhile (·.stop < r.start) with
  | [] => (false, before ++ [r])
  | next :: rest =>
    if next.meets r.start r.stop then
      (true, before ++ absorb (next.cover r.start r.stop r.tag) rest)
    else (false, before ++ r :: next :: rest)

/-- Records a write of `size` bytes at `start`: whether it joined a range that was there, and the
ranges after it. -/
def add (d : DirtySet) (start size : Int) (tag : Nat) :
    Except PlanError (Bool × DirtySet) := do
  let r ← DirtyRange.new start size tag
  let (merged, ranges) := insert r d.ranges
  return (merged, ⟨ranges⟩)

/-- The set after a write of `size` bytes at `start`. -/
def mark (d : DirtySet) (start size : Int) (tag : Nat) : Except PlanError DirtySet :=
  (d.add start size tag).map Prod.snd

/-- Forgets the bytes of `r`. -/
def forget (d : DirtySet) (r : DirtyRange) : DirtySet :=
  ⟨d.ranges.flatMap (·.without r.start r.stop)⟩

/-- The ranges with the last of them cut off at `size`. -/
def clipLast (size : Nat) : List DirtyRange → List DirtyRange
  | [] => []
  | [r] => [r.clip size]
  | r :: next :: rest => r :: clipLast size (next :: rest)

/-- Forgets every byte at or past `size`. The ranges ascend, so of those that start before `size` only
the last can reach past it. -/
def truncate (d : DirtySet) (size : Nat) : DirtySet :=
  ⟨clipLast size (d.ranges.filter (·.start < size))⟩

/-- Whether no byte is dirty. -/
def isEmpty (d : DirtySet) : Bool := d.ranges.isEmpty

/-- The number of dirty bytes. -/
def count (d : DirtySet) : Nat := total (·.size) d.ranges

end DirtySet

end ObjectFlush
