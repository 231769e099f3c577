import ObjectFlush.SetupError
import ObjectFlush.Json.Record
import ObjectFlush.Plan.Bounds

/-!
Settings for planning and running uploads: defaults, consistency, and their JSON record.
-/

namespace ObjectFlush

structure UploadSettings where
  minPartSize : Nat := 5 * 1048576
  maxPartSize : Nat := 10 * 1048576
  maxParts : Nat := 10000
  /-- How many parts are sent at once. -/
  concurrency : Nat := 5
  /-- How often a failed request is repeated. -/
  retryLimit : Nat := 5
  /-- The delay before the first repetition, in milliseconds; it doubles with each one. -/
  retryBackoff : Nat := 100
  /-- How long a part request may take, in milliseconds. -/
  partTimeout : Nat := 120000
  /-- Files below this size are written with a single request. -/
  multipartThreshold : Nat := 20 * 1048576
  /-- The largest object that a single request may carry. -/
  maxSinglePut : Nat := 5 * 1024 * 1048576
  /-- Whether unchanged ranges are copied by the store instead of uploaded again. -/
  copyPart : Bool := true
  deriving DecidableEq, Repr

namespace UploadSettings

def partBounds (s : UploadSettings) : PartBounds :=
  ⟨s.minPartSize, s.maxPartSize, s.maxParts, s.copyPart⟩

/-- Refuses settings that contradict themselves. -/
def validate (s : UploadSettings) : Except SetupError Unit :=
  match s.partBounds.validate with
  | .error e => .error (.config e.message)
  | .ok () =>
    if s.concurrency = 0 then .error (.config "concurrency_limit must be positive")
    else if s.partTimeout = 0 then .error (.config "part_timeout_ms must be positive")
    else if s.maxSinglePut = 0 then .error (.config "max_single_put_size must be positive")
    else .ok ()

/-- The names of the fields, in their order of declaration. -/
def names : List String :=
  ["min_part_size", "max_part_size", "max_parts", "concurrency_limit", "retry_limit",
    "retry_backoff_ms", "part_timeout_ms", "multipart_threshold", "max_single_put_size",
    "copy_part"]

/-- Reads the record. A field that is not given keeps its default; sizes and times fit 64 bits,
counts 32. -/
def ofJson? (j : Json) : Option UploadSettings := do
  let field ← j.fields? names
  let long := fun name => Json.orDefault (field name) (Json.natBelow? UInt64.size)
  let short := fun name => Json.orDefault (field name) (Json.natBelow? UInt32.size)
  let standard : UploadSettings := {}
  return {
    minPartSize := ← long "min_part_size" standard.minPartSize
    maxPartSize := ← long "max_part_size" standard.maxPartSize
    maxParts := ← short "max_parts" standard.maxParts
    concurrency := ← short "concurrency_limit" standard.concurrency
    retryLimit := ← short "retry_limit" standard.retryLimit
    retryBackoff := ← long "retry_backoff_ms" standard.retryBackoff
    partTimeout := ← long "part_timeout_ms" standard.partTimeout
    multipartThreshold := ← long "multipart_threshold" standard.multipartThreshold
    maxSinglePut := ← long "max_single_put_size" standard.maxSinglePut
    copyPart := ← Json.orDefault (field "copy_part") Json.bool? standard.copyPart }

def toJson (s : UploadSettings) : Json :=
  .record [("min_part_size", .nat s.minPartSize), ("max_part_size", .nat s.maxPartSize),
    ("max_parts", .nat s.maxParts), ("concurrency_limit", .nat s.concurrency),
    ("retry_limit", .nat s.retryLimit), ("retry_backoff_ms", .nat s.retryBackoff),
    ("part_timeout_ms", .nat s.partTimeout), ("multipart_threshold", .nat s.multipartThreshold),
    ("max_single_put_size", .nat s.maxSinglePut), ("copy_part", .bool s.copyPart)]

end UploadSettings

end ObjectFlush
