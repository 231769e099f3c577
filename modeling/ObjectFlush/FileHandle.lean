import ObjectFlush.Cache
import ObjectFlush.Dirty.Set
import ObjectFlush.Upload.Flusher

/-!
A file opened for writing. Writes land in the local file and are recorded as dirty ranges; every
byte outside those ranges is the byte of the stored object, so that a flush may have it copied.
-/

namespace ObjectFlush

structure FileHandle where
  key : ObjectKey
  cache : Cache
  dirty : DirtySet := {}
  size : Nat
  /-- The size of the stored object, if there is one. -/
  storedSize : Option Nat
  /-- The number of changes so far, from which dirty ranges take their tags. -/
  changes : Nat := 0

namespace FileHandle

/-- A file with no stored object behind it. -/
def empty (key : ObjectKey) : FileHandle := { key, cache := {}, size := 0, storedSize := none }

/-- A file whose local bytes are the first `size` bytes of the stored object. -/
def ofStored (key : ObjectKey) (cache : Cache) (size : Nat) : FileHandle :=
  { key, cache, size, storedSize := some size }

/-- Whether the stored object differs from the file. -/
def needsFlush (f : FileHandle) : Bool := !f.dirty.isEmpty || f.storedSize ≠ some f.size

/-- The dirty ranges after a write of `range`. What lies between the end of the file and the range
is dirty too. -/
def markWrite (f : FileHandle) (range : DirtyRange) : Except PlanError DirtySet := do
  let dirty ←
    if f.size < range.start then f.dirty.mark f.size (range.start - f.size : Nat) range.tag
    else pure f.dirty
  dirty.mark range.start range.size range.tag

/-- Writes `data` at `offset`. -/
def write (f : FileHandle) (offset : Int) (data : Bytes) : Except FlushError (FileHandle × Nat) :=
  if data = [] then .ok (f, 0)
  else do
    let range ← (DirtyRange.new offset data.length (f.changes + 1)).mapError .plan
    let cache ← (f.cache.write range.start data).mapError .file
    let dirty ← (f.markWrite range).mapError .plan
    return ({ f with
      cache
      dirty
      size := max f.size range.stop
      changes := range.tag }, data.length)

/-- Up to `len` bytes at `offset`, none past the end of the file. -/
def read (f : FileHandle) (offset len : Nat) : Except FlushError Bytes :=
  let available := min (f.size - offset) len
  if available = 0 then .ok []
  else (f.cache.read offset available).mapError .file

/-- Cuts the file off, or grows it with zeros, which are dirty. -/
def truncate (f : FileHandle) (size : Nat) : Except FlushError FileHandle := do
  let cache ← (f.cache.setLength size).mapError .file
  if size < f.size then
    return { f with cache, dirty := f.dirty.truncate size, size }
  else if f.size < size then
    let tag := f.changes + 1
    let dirty ← (f.dirty.mark f.size (size - f.size : Nat) tag).mapError .plan
    return { f with cache, dirty, size, changes := tag }
  else return { f with cache }

/-- What a flush writes. -/
def order (f : FileHandle) : FlushOrder :=
  { key := f.key
    source := f.cache.source
    size := f.size
    dirty := f.dirty.ranges
    stored := f.storedSize.isSome }

/-- The file once the store holds all of it. -/
def flushed (f : FileHandle) : FileHandle := { f with dirty := {}, storedSize := some f.size }

/-- Writes the file to the store if the two differ. A failure leaves the file as it was. -/
def flush (f : FileHandle) (flusher : Flusher) :
    Dialogue (FileHandle × Except FlushError (Option ObjectSummary)) :=
  if f.needsFlush then do
    match ← flusher.flush f.order with
    | .ok written => return (f.flushed, .ok (some written))
    | .error e => return (f, .error e)
  else return (f, .ok none)

end FileHandle

end ObjectFlush
