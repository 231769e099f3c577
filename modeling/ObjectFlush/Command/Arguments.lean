import ObjectFlush.Text.Integer

/-!
The arguments of the command. Options are read from left to right, and the first that is wrong, or
that only asks for information, decides. Every option but `--dirty` may be given once.
-/

namespace ObjectFlush

/-- The options that take a value. -/
inductive ValueOption where
  | store
  | bucket
  | key
  | file
  | dirty
  | config
  | acl
  | signature
  | concurrency
  deriving DecidableEq, Repr

namespace ValueOption

def name : ValueOption → String
  | .store => "store"
  | .bucket => "bucket"
  | .key => "key"
  | .file => "file"
  | .dirty => "dirty"
  | .config => "config"
  | .acl => "acl"
  | .signature => "signature"
  | .concurrency => "concurrency"

def all : List ValueOption :=
  [.store, .bucket, .key, .file, .dirty, .config, .acl, .signature, .concurrency]

def ofName? (s : String) : Option ValueOption := all.find? (·.name == s)

/-- Whether the option may be given more than once. -/
def repeats (o : ValueOption) : Bool := o = .dirty

end ValueOption

/-- Why arguments are not carried out. -/
inductive ArgumentStop where
  /-- They are wrong. -/
  | usage
  /-- They ask what the command can do. -/
  | help
  /-- They ask which version the command is. -/
  | version
  deriving DecidableEq, Repr

/-- What was given so far, in order. -/
structure GivenOptions where
  values : List (ValueOption × String) := []
  jsonLogs : Bool := false

/-- One argument by itself. -/
inductive Word where
  /-- `--name` or `--name=value`. -/
  | long (name : String) (attached : Option String)
  /-- `-x` and whatever follows it. -/
  | short (letter : Char)
  /-- `--` alone. -/
  | escape
  | plain
  deriving DecidableEq, Repr

namespace Word

/-- What lies before the first `=` and after it. -/
def splitAtEquals : List Char → List Char × Option (List Char)
  | [] => ([], none)
  | c :: rest =>
    if c = '=' then ([], some rest)
    else ((c :: (splitAtEquals rest).1), (splitAtEquals rest).2)

def ofString (s : String) : Word :=
  match s.toList with
  | ['-', '-'] => .escape
  | '-' :: '-' :: rest =>
    let (name, attached) := splitAtEquals rest
    .long (String.ofList name) (attached.map String.ofList)
  | '-' :: letter :: _ => .short letter
  | _ => .plain

end Word

namespace GivenOptions

/-- The number of parts to send at once: 32 bits, without a sign but perhaps a plus. -/
def concurrency? (s : String) : Option Nat :=
  match Text.parseInteger s.toList with
  | .ok n => if 0 ≤ n ∧ n < UInt32.size then some n.toNat else none
  | .error _ => none

/-- The first value given for an option. -/
def value? (g : GivenOptions) (o : ValueOption) : Option String :=
  (g.values.find? (·.1 = o)).map (·.2)

/-- Takes the value of an option. -/
def add (g : GivenOptions) (o : ValueOption) (value : String) : Except ArgumentStop GivenOptions :=
  if !o.repeats && (g.value? o).isSome then .error .usage
  else if o = .concurrency ∧ (concurrency? value).isNone then .error .usage
  else .ok { g with values := g.values ++ [(o, value)] }

/-- Takes an option that has no value. -/
def addFlag (g : GivenOptions) (name : String) (attached : Option String) :
    Except ArgumentStop GivenOptions :=
  if attached.isSome then .error .usage
  else match name with
    | "help" => .error .help
    | "version" => .error .version
    | "json-logs" => if g.jsonLogs then .error .usage else .ok { g with jsonLogs := true }
    | _ => .error .usage

/-- Takes the arguments one after the other. A value that starts with a dash has to be attached to
its option. -/
def scan (g : GivenOptions) : List String → Except ArgumentStop GivenOptions
  | [] => .ok g
  | arg :: rest =>
    match Word.ofString arg with
    | .escape => if rest = [] then .ok g else .error .usage
    | .plain => .error .usage
    | .short letter =>
      .error (if letter = 'h' then .help else if letter = 'V' then .version else .usage)
    | .long name attached =>
      match ValueOption.ofName? name, attached, rest with
      | none, attached, rest =>
        match g.addFlag name attached with
        | .ok g => scan g rest
        | .error stop => .error stop
      | some o, some value, rest =>
        match g.add o value with
        | .ok g => scan g rest
        | .error stop => .error stop
      | some _, none, [] => .error .usage
      | some o, none, value :: rest =>
        if Word.ofString value = .plain then
          match g.add o value with
          | .ok g => scan g rest
          | .error stop => .error stop
        else .error .usage

end GivenOptions

/-- What the command is asked to do. -/
structure Arguments where
  store : String
  bucket : String
  key : String
  file : String
  dirty : List String
  config : Option String
  acl : Option String
  signature : Option String
  concurrency : Option Nat
  jsonLogs : Bool
  deriving DecidableEq, Repr

namespace Arguments

def parse (args : List String) : Except ArgumentStop Arguments :=
  match GivenOptions.scan {} args with
  | .error stop => .error stop
  | .ok g =>
    match g.value? .key, g.value? .file with
    | some key, some file => .ok
      { store := (g.value? .store).getD "./ossfs-store"
        bucket := (g.value? .bucket).getD "mount"
        key, file
        dirty := (g.values.filter (·.1 = .dirty)).map (·.2)
        config := g.value? .config
        acl := g.value? .acl
        signature := g.value? .signature
        concurrency := (g.value? .concurrency).bind GivenOptions.concurrency?
        jsonLogs := g.jsonLogs }
    | _, _ => .error .usage

/-- The answer to a request for the version. -/
def versionText : String := "ossfs-sync 0.1.0\n"

/-- The line that shows how to call the command. -/
def usageLine : String := "Usage: ossfs-sync [OPTIONS] --key <KEY> --file <PATH>\n"

/-- The answer to a request for help. -/
def helpText : String :=
  "Persist dirty ranges of a local file as an object, using multipart upload\n\n" ++ usageLine ++
  "\nOptions:\n" ++
  "      --store <PATH>         Store directory [default: ./ossfs-store]\n" ++
  "      --bucket <NAME>        Bucket name [default: mount]\n" ++
  "      --key <KEY>            Object key\n" ++
  "      --file <PATH>          Local file holding the full object contents\n" ++
  "      --dirty <START:LEN>    Modified byte range; repeatable. Defaults to the whole file\n" ++
  "      --config <PATH>        JSON configuration file\n" ++
  "      --acl <ACL>            " ++
    "Object ACL: private, public-read, public-read-write or default\n" ++
  "      --signature <VERSION>  " ++
    "Signature version: v1, v4 or auto; recorded with each stored object\n" ++
  "      --concurrency <N>      Parts uploaded at once\n" ++
  "      --json-logs            Emit logs as JSON\n" ++
  "  -h, --help                 Print help\n" ++
  "  -V, --version              Print version\n"

end Arguments

end ObjectFlush
