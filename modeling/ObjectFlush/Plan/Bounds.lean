import ObjectFlush.Plan.Error

/-!
What the store demands of the parts of one object.
-/

namespace ObjectFlush

structure PartBounds where
  /-- The least size of every part but the last. -/
  minSize : Nat
  /-- The greatest size of every part. -/
  maxSize : Nat
  maxParts : Nat
  /-- Whether clean bytes may be copied by the store instead of uploaded again. -/
  mayCopy : Bool
  deriving DecidableEq, Repr

/-- Refuses bounds that no plan can respect. -/
def PartBounds.validate (b : PartBounds) : Except PlanError Unit :=
  if b.minSize = 0 then .error (.invalidLimits "min_part_size must be positive")
  else if b.maxSize < b.minSize then
    .error (.invalidLimits s!"max_part_size {b.maxSize} below min_part_size {b.minSize}")
  else if b.maxParts = 0 then .error (.invalidLimits "max_parts must be positive")
  else .ok ()

end ObjectFlush
