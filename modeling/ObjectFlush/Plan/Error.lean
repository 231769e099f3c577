/-!
Failures of tracking dirty ranges and of planning parts.
-/

namespace ObjectFlush

inductive PlanError where
  /-- The plan has more parts than the store takes. -/
  | tooManyParts (needed max : Nat)
  /-- A range with a negative start, or without a byte. -/
  | invalidRange (start size : Int)
  /-- Part limits that no plan can respect. -/
  | invalidLimits (reason : String)
  deriving DecidableEq, Repr

def PlanError.message : PlanError → String
  | .tooManyParts needed max => s!"plan needs {needed} parts, store allows {max}"
  | .invalidRange start size => s!"invalid range: start={start}, size={size}"
  | .invalidLimits reason => s!"invalid part limits: {reason}"

end ObjectFlush
