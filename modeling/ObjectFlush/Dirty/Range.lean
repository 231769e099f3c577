import ObjectFlush.Plan.Error

/-!
A range of bytes that a local file holds and the store does not, with the number of the change that
touched it last. Two ranges meet when they intersect or when one ends where the other starts.
-/

namespace ObjectFlush

structure DirtyRange where
  start : Nat
  size : Nat
  tag : Nat
  deriving DecidableEq, Repr

namespace DirtyRange

/-- The range of `size` bytes at `start`: refused when `start` is negative or it holds no byte. -/
def new (start size : Int) (tag : Nat) : Except PlanError DirtyRange :=
  if start < 0 ∨ size ≤ 0 then .error (.invalidRange start size)
  else .ok ⟨start.toNat, size.toNat, tag⟩

/-- The offset just past the range. -/
def stop (r : DirtyRange) : Nat := r.start + r.size

/-- Whether `[start, stop)` intersects the range or ends or starts at its border. -/
def meets (r : DirtyRange) (start stop : Nat) : Bool := start ≤ r.stop && r.start ≤ stop

/-- Whether `size` bytes at `start` meet the range; nothing does that starts before the file or
holds no byte. -/
def adjoins (r : DirtyRange) (start size : Int) : Bool :=
  if start < 0 ∨ size ≤ 0 then false else r.meets start.toNat (start.toNat + size.toNat)

/-- The smallest range over this one and `[start, stop)`, with a new tag. -/
def cover (r : DirtyRange) (start stop tag : Nat) : DirtyRange :=
  { start := min r.start start, size := max r.stop stop - min r.start start, tag }

/-- What is left of the range without `[start, stop)`: all of it, one side, two sides or nothing. -/
def without (r : DirtyRange) (start stop : Nat) : List DirtyRange :=
  if r.stop ≤ start ∨ stop ≤ r.start then [r]
  else
    (if r.start < start then [{ r with size := start - r.start }] else []) ++
      (if stop < r.stop then [{ r with start := stop, size := r.stop - stop }] else [])

/-- The range cut off at `size`. -/
def clip (r : DirtyRange) (size : Nat) : DirtyRange :=
  if size < r.stop then { r with size := size - r.start } else r

end DirtyRange

end ObjectFlush
