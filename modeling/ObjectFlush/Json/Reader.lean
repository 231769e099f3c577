import ObjectFlush.Bytes
import ObjectFlush.Json.Basic
import ObjectFlush.Text.Utf8

/-!
Reading JSON, strictly: one value with blanks around it and nothing else. Blanks are the space, the
tab and the two line breaks; numbers have no leading zero; control characters in a string are
written as escapes. What a container nests is bounded by the length of the text alone. A text is
read as symbols, so that a string may hold bytes that are part of no character; nothing else may.
-/

namespace ObjectFlush.Json.Reader

/-- What a string is made of. -/
inductive StringUnit where
  | char (c : Char)
  /-- The code unit of an escape. -/
  | code (n : Nat)
  /-- A byte that is part of no character. -/
  | stray
  deriving DecidableEq, Repr

def isBlank (s : Symbol) : Bool :=
  s = some ' ' || s = some '\n' || s = some '\t' || s = some '\r'

def skipBlanks (cs : List Symbol) : List Symbol := cs.dropWhile isBlank

/-- The character that follows a backslash in the escape of a character. -/
def escaped? : Symbol → Option Char
  | some '"' => some '"'
  | some '\\' => some '\\'
  | some '/' => some '/'
  | some 'b' => some '\x08'
  | some 'f' => some '\x0c'
  | some 'n' => some '\n'
  | some 'r' => some '\r'
  | some 't' => some '\t'
  | _ => none

/-- The number four hexadecimal digits spell. -/
def hex4? (a b c d : Symbol) : Option Nat := do
  let a ← a.bind Bytes.hexValue?
  let b ← b.bind Bytes.hexValue?
  let c ← c.bind Bytes.hexValue?
  let d ← d.bind Bytes.hexValue?
  return 4096 * a + 256 * b + 16 * c + d

/-- The rest of a string after its opening quote, and what follows its closing quote. -/
def units? : List Symbol → Option (List StringUnit × List Symbol)
  | [] => none
  | some '"' :: rest => some ([], rest)
  | some '\\' :: some 'u' :: a :: b :: c :: d :: rest => do
    let n ← hex4? a b c d
    let (us, rest) ← units? rest
    return (.code n :: us, rest)
  | some '\\' :: e :: rest => do
    let c ← escaped? e
    let (us, rest) ← units? rest
    return (.char c :: us, rest)
  | some c :: rest =>
    if c = '\\' ∨ c.toNat < 0x20 then none
    else do
      let (us, rest) ← units? rest
      return (.char c :: us, rest)
  | none :: rest => do
    let (us, rest) ← units? rest
    return (.stray :: us, rest)

def isHighSurrogate (n : Nat) : Bool := 0xD800 ≤ n && n ≤ 0xDBFF

def isLowSurrogate (n : Nat) : Bool := 0xDC00 ≤ n && n ≤ 0xDFFF

/-- The characters that the units spell, if no byte is stray and every surrogate has its partner. -/
def join? : List StringUnit → Option (List Char)
  | [] => some []
  | .stray :: _ => none
  | .char c :: rest => (join? rest).map (c :: ·)
  | .code n :: .code m :: rest =>
    if isHighSurrogate n then
      if isLowSurrogate m then
        (join? rest).map (Char.ofNat (0x10000 + (n - 0xD800) * 0x400 + (m - 0xDC00)) :: ·)
      else none
    else if isLowSurrogate n then none
    else (join? (.code m :: rest)).map (Char.ofNat n :: ·)
  | .code n :: rest =>
    if isHighSurrogate n || isLowSurrogate n then none
    else (join? rest).map (Char.ofNat n :: ·)

/-- A string after its opening quote. -/
def string? (cs : List Symbol) : Option (JsonString × List Symbol) := do
  let (us, rest) ← units? cs
  return ((join? us).map String.ofList, rest)

/-- The digits at the front of a text, and what follows them. -/
def digits : List Symbol → List Char × List Symbol
  | some c :: rest =>
    if c.isDigit then
      let (ds, rest) := digits rest
      (c :: ds, rest)
    else ([], some c :: rest)
  | cs => ([], cs)

/-- A run of at least one digit. -/
def digits? (cs : List Symbol) : Option (List Char × List Symbol) :=
  match digits cs with
  | ([], _) => none
  | run => some run

/-- The digits before the point: a zero alone, or a run that does not start with one. -/
def whole? (cs : List Symbol) : Option (List Char × List Symbol) :=
  match digits? cs with
  | some ('0' :: _ :: _, _) => none
  | run => run

/-- The digits after the point, if there is one. -/
def fraction? : List Symbol → Option (Option (List Char) × List Symbol)
  | some '.' :: rest => (digits? rest).map fun (ds, rest) => (some ds, rest)
  | cs => some (none, cs)

/-- The digits of an exponent, which may have a sign. -/
def signed? : List Symbol → Option (Int × List Symbol)
  | some '-' :: rest =>
    (digits? rest).map fun (ds, rest) => (-(JsonNumber.exponentValue ds : Int), rest)
  | some '+' :: rest => (digits? rest).map fun (ds, rest) => (JsonNumber.exponentValue ds, rest)
  | rest => (digits? rest).map fun (ds, rest) => (JsonNumber.exponentValue ds, rest)

/-- The exponent, if there is one. -/
def exponent? : List Symbol → Option (Option Int × List Symbol)
  | some 'e' :: rest => (signed? rest).map fun (n, rest) => (some n, rest)
  | some 'E' :: rest => (signed? rest).map fun (n, rest) => (some n, rest)
  | cs => some (none, cs)

/-- A number without its sign. -/
def unsigned? (negative : Bool) (cs : List Symbol) : Option (JsonNumber × List Symbol) := do
  let (whole, cs) ← whole? cs
  let (fraction, cs) ← fraction? cs
  let (exponent, cs) ← exponent? cs
  return (.ofDigits negative whole fraction exponent, cs)

def number? : List Symbol → Option (JsonNumber × List Symbol)
  | some '-' :: cs => unsigned? true cs
  | cs => unsigned? false cs

mutual

/-- One value and what follows it. -/
def value? : Nat → List Symbol → Option (Json × List Symbol)
  | 0, _ => none
  | fuel + 1, cs =>
    match skipBlanks cs with
    | some 'n' :: some 'u' :: some 'l' :: some 'l' :: rest => some (.null, rest)
    | some 't' :: some 'r' :: some 'u' :: some 'e' :: rest => some (.bool true, rest)
    | some 'f' :: some 'a' :: some 'l' :: some 's' :: some 'e' :: rest => some (.bool false, rest)
    | some '"' :: rest => (string? rest).map fun (s, rest) => (.string s, rest)
    | some '[' :: rest =>
      match skipBlanks rest with
      | some ']' :: rest => some (.array [], rest)
      | rest => (items? fuel rest).map fun (vs, rest) => (.array vs, rest)
    | some '\x7b' :: rest =>
      match skipBlanks rest with
      | some '\x7d' :: rest => some (.object [], rest)
      | rest => (members? fuel rest).map fun (ms, rest) => (.object ms, rest)
    | rest => (number? rest).map fun (n, rest) => (.number n, rest)

/-- The items of an array up to its closing bracket: at least one. -/
def items? : Nat → List Symbol → Option (List Json × List Symbol)
  | 0, _ => none
  | fuel + 1, cs => do
    let (v, rest) ← value? fuel cs
    match skipBlanks rest with
    | some ']' :: rest => return ([v], rest)
    | some ',' :: rest =>
      let (vs, rest) ← items? fuel rest
      return (v :: vs, rest)
    | _ => none

/-- The members of an object up to its closing brace: at least one. -/
def members? : Nat → List Symbol → Option (List (JsonString × Json) × List Symbol)
  | 0, _ => none
  | fuel + 1, cs =>
    match skipBlanks cs with
    | some '"' :: rest => do
      let (name, rest) ← string? rest
      match skipBlanks rest with
      | some ':' :: rest =>
        let (v, rest) ← value? fuel rest
        match skipBlanks rest with
        | some '\x7d' :: rest => return ([(name, v)], rest)
        | some ',' :: rest =>
          let (ms, rest) ← members? fuel rest
          return ((name, v) :: ms, rest)
        | _ => none
      | _ => none
    | _ => none

end

end ObjectFlush.Json.Reader

namespace ObjectFlush.Json

/-- The value that symbols spell. A value costs a symbol, and a container one step more, so twice
the length is enough for any text. -/
def ofSymbols? (cs : List Symbol) : Option Json :=
  match Reader.value? (2 * cs.length + 2) cs with
  | some (v, rest) => if (Reader.skipBlanks rest).isEmpty then some v else none
  | none => none

/-- The value that a text spells. -/
def ofString? (s : String) : Option Json := ofSymbols? (s.toList.map some)

/-- The value that bytes spell in UTF-8. Only inside a string may they be damaged. -/
def ofBytes? (b : Bytes) : Option Json := ofSymbols? (Utf8.symbols b)

end ObjectFlush.Json
