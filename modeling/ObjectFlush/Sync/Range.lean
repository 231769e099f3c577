import ObjectFlush.Text.Blank
import ObjectFlush.Text.Integer

/-!
Byte ranges as they are given on a command line, `START:LEN`: two integers around the first colon,
with white space around either.
-/

namespace ObjectFlush

/-- Why a text is no byte range. -/
inductive RangeTextError where
  | noColon (text : String)
  | badStart (text : String) (fault : IntegerFault)
  | badLength (text : String) (fault : IntegerFault)
  deriving DecidableEq, Repr

namespace RangeTextError

/-- What is wrong with the text. -/
def message : RangeTextError → String
  | .noColon text => s!"expected START:LEN, got '{text}'"
  | .badStart text _ => s!"bad range start in '{text}'"
  | .badLength text _ => s!"bad range length in '{text}'"

/-- What is wrong with the number in it, if that is the reason. -/
def fault? : RangeTextError → Option IntegerFault
  | .noColon _ => none
  | .badStart _ fault | .badLength _ fault => some fault

end RangeTextError

/-- What lies before and after the first colon. -/
def splitAtColon : List Char → Option (List Char × List Char)
  | [] => none
  | c :: rest =>
    if c = ':' then some ([], rest)
    else (splitAtColon rest).map fun (before, after) => (c :: before, after)

/-- The start and the length that a text gives. -/
def parseStartLength (text : String) : Except RangeTextError (Int × Int) :=
  match splitAtColon text.toList with
  | none => .error (.noColon text)
  | some (before, after) =>
    match Text.parseInteger (Text.trim before) with
    | .error fault => .error (.badStart text fault)
    | .ok start =>
      match Text.parseInteger (Text.trim after) with
      | .error fault => .error (.badLength text fault)
      | .ok length => .ok (start, length)

end ObjectFlush
