import ObjectFlush.Plan.Bounds
import ObjectFlush.Plan.Run
import ObjectFlush.Total

/-!
Planning the parts that rebuild an object. Runs are cut into pieces no larger than the ceiling.
A piece below the floor that is not the last one grows: a short clean piece is uploaded with the
dirty run after it, and a short dirty piece takes clean bytes from the run after it, or all of that
run and the dirty run behind it where less would leave a clean rest below the floor.
-/

namespace ObjectFlush

/-- A part decided by the plan, not yet tied to the bytes it sends. -/
structure Portion where
  number : Nat
  offset : Nat
  size : Nat
  kind : Transfer
  deriving DecidableEq, Repr

/-- The offset just past the part. -/
def Portion.stop (p : Portion) : Nat := p.offset + p.size

namespace Run

/-- How many pieces of the greatest size are cut off the front, so that what remains is no larger
than that. -/
def fullPieces (maxSize : Nat) (r : Run) : Nat := (r.length - 1) / maxSize

/-- The pieces of the greatest size at the front of the run. -/
def front (maxSize : Nat) (r : Run) : List Run :=
  (List.range (r.fullPieces maxSize)).map fun i =>
    ⟨r.kind, r.start + i * maxSize, r.start + (i + 1) * maxSize⟩

/-- What remains of the run behind those pieces. -/
def back (maxSize : Nat) (r : Run) : Run :=
  { r with start := r.start + r.fullPieces maxSize * maxSize }

end Run

/-- One turn of cutting runs into pieces: the pieces that are sent, and the runs that are left. A piece that is too
short to be sent is left in front of the others, with the bytes of those that it is sent with. -/
def turn (b : PartBounds) : List Run → List Run × List Run
  | [] => ([], [])
  | [r] => (r.front b.maxSize ++ [r.back b.maxSize], [])
  | r :: next :: rest =>
    let piece := r.back b.maxSize
    if b.minSize ≤ piece.length then (r.front b.maxSize ++ [piece], next :: rest)
    else match piece.kind with
      | .copy => (r.front b.maxSize, { next with start := piece.start } :: rest)
      | .upload =>
        let need := b.minSize - piece.length
        let left := next.length - need
        if 0 < left ∧ (b.minSize ≤ left ∨ rest = []) then
          (r.front b.maxSize ++ [{ piece with stop := piece.stop + need }],
            { next with start := next.start + need } :: rest)
        else match rest with
          | [] => (r.front b.maxSize, [{ piece with stop := next.stop }])
          | dirty :: behind =>
            if dirty.kind = .upload then (r.front b.maxSize, { piece with stop := dirty.stop } :: behind)
            else (r.front b.maxSize, { piece with stop := next.stop } :: dirty :: behind)

/-- Each turn takes at least one run away. -/
theorem length_turn (b : PartBounds) (queue : List Run) : (turn b queue).2.length ≤ queue.length - 1 := by
  fun_cases turn b queue <;> simp

/-- The pieces that the runs are sent in, turn by turn. -/
def pieces (b : PartBounds) : List Run → List Run
  | [] => []
  | r :: rest => (turn b (r :: rest)).1 ++ pieces b (turn b (r :: rest)).2
termination_by queue => queue.length
decreasing_by
  exact Nat.lt_succ_of_le (length_turn b (r :: rest))

/-- Numbers the pieces from one, in order. -/
def number (pieces : List Run) : List Portion :=
  pieces.zipIdx.map fun (r, i) => ⟨i + 1, r.start, r.length, r.kind⟩

/-- The parts that rebuild a file of `fileSize` bytes of which the given ranges are dirty. -/
def plan (fileSize : Nat) (ranges : List DirtyRange) (b : PartBounds) :
    Except PlanError (List Portion) := do
  b.validate
  let parts := number (pieces b (runs fileSize ranges b.mayCopy))
  if b.maxParts < parts.length then throw (.tooManyParts parts.length b.maxParts)
  return parts

/-- How many bytes are transferred in one way. -/
def bytesBy (t : Transfer) (parts : List Portion) : Nat :=
  total (·.size) (parts.filter (·.kind = t))

end ObjectFlush
