import ObjectFlush.Bytes
import ObjectFlush.Total

/-!
Byte strings with holes. A hole stands for zeros and is known by its length alone, so that a file
costs what was written of it and not what its length is. `toBytes` is the byte string that is meant,
and every operation does to it what the operation of that name on byte strings does.
-/

namespace ObjectFlush

/-- Bytes next to one another: written ones, or so many zeros. -/
inductive Stretch where
  | data (bytes : Bytes)
  | hole (length : Nat)
  deriving DecidableEq, Repr

namespace Stretch

def length : Stretch → Nat
  | .data b => b.length
  | .hole n => n

def toBytes : Stretch → Bytes
  | .data b => b
  | .hole n => Bytes.zeros n

/-- The first `n` bytes. -/
def take (n : Nat) : Stretch → Stretch
  | .data b => .data (b.take n)
  | .hole m => .hole (min n m)

/-- All but the first `n` bytes. -/
def drop (n : Nat) : Stretch → Stretch
  | .data b => .data (b.drop n)
  | .hole m => .hole (m - n)

@[simp] theorem length_toBytes (s : Stretch) : s.toBytes.length = s.length := by
  cases s <;> simp [toBytes, length]

theorem toBytes_take (n : Nat) (s : Stretch) : (s.take n).toBytes = s.toBytes.take n := by
  cases s <;> simp [take, toBytes, Bytes.zeros]

theorem toBytes_drop (n : Nat) (s : Stretch) : (s.drop n).toBytes = s.toBytes.drop n := by
  cases s <;> simp [drop, toBytes, Bytes.zeros]

end Stretch

/-- A byte string as stretches, first to last. -/
abbrev SparseBytes := List Stretch

namespace SparseBytes

/-- The byte string that is meant. -/
def toBytes (f : SparseBytes) : Bytes := f.flatMap Stretch.toBytes

/-- A byte string without holes. -/
def ofBytes (b : Bytes) : SparseBytes := [.data b]

def size (f : SparseBytes) : Nat := total Stretch.length f

/-- A hole, unless it is empty. -/
def gap (n : Nat) : SparseBytes := if n = 0 then [] else [.hole n]

/-- The first `n` bytes. -/
def front (n : Nat) : SparseBytes → SparseBytes
  | [] => []
  | s :: rest =>
    if n = 0 then []
    else if n ≤ s.length then [s.take n]
    else s :: front (n - s.length) rest

/-- All but the first `n` bytes. -/
def back (n : Nat) : SparseBytes → SparseBytes
  | [] => []
  | s :: rest => if n < s.length then s.drop n :: rest else back (n - s.length) rest

/-- The `len` bytes at `offset`, if all of `[offset, offset + len)` lies inside. -/
def slice? (f : SparseBytes) (offset len : Nat) : Option Bytes :=
  if offset + len ≤ f.size then some (toBytes (front len (back offset f))) else none

/-- The bytes after writing `data` at `offset`. -/
def patch (f : SparseBytes) (offset : Nat) (data : Bytes) : SparseBytes :=
  if data.isEmpty then f
  else front offset f ++ gap (offset - f.size) ++ [.data data] ++ back (offset + data.length) f

/-- Cut to `n` bytes, or grown to `n` bytes with a hole. -/
def resize (f : SparseBytes) (n : Nat) : SparseBytes := front n f ++ gap (n - f.size)

@[simp] theorem toBytes_nil : toBytes [] = [] := rfl

@[simp] theorem toBytes_cons (s : Stretch) (f : SparseBytes) :
    toBytes (s :: f) = s.toBytes ++ toBytes f := List.flatMap_cons

@[simp] theorem toBytes_append (f g : SparseBytes) : toBytes (f ++ g) = toBytes f ++ toBytes g :=
  List.flatMap_append

@[simp] theorem toBytes_ofBytes (b : Bytes) : toBytes (ofBytes b) = b := by
  simp [ofBytes, Stretch.toBytes]

@[simp] theorem length_toBytes (f : SparseBytes) : (toBytes f).length = size f := by
  induction f with
  | nil => rfl
  | cons s rest ih => simp [size] at ih ⊢; omega

theorem toBytes_gap (n : Nat) : toBytes (gap n) = Bytes.zeros n := by
  unfold gap
  split
  · next h => subst h; rfl
  · simp [Stretch.toBytes]

theorem toBytes_front (n : Nat) (f : SparseBytes) : toBytes (front n f) = (toBytes f).take n := by
  induction f generalizing n with
  | nil => simp [front]
  | cons s rest ih =>
    simp only [front]
    split
    · next h => simp [h]
    · split
      · next h => simp [Stretch.toBytes_take, List.take_append, h]
      · next h =>
        rw [toBytes_cons, ih, toBytes_cons, List.take_append, Stretch.length_toBytes,
          List.take_of_length_le (show s.toBytes.length ≤ n by simp; omega)]

theorem toBytes_back (n : Nat) (f : SparseBytes) : toBytes (back n f) = (toBytes f).drop n := by
  induction f generalizing n with
  | nil => simp [back]
  | cons s rest ih =>
    simp only [back]
    split
    · next h =>
      simp [Stretch.toBytes_drop, List.drop_append, Nat.sub_eq_zero_of_le (Nat.le_of_lt h)]
    · next h =>
      rw [ih, toBytes_cons, List.drop_append, Stretch.length_toBytes,
        List.drop_of_length_le (show s.toBytes.length ≤ n by simp; omega), List.nil_append]

theorem slice?_eq (f : SparseBytes) (offset len : Nat) :
    f.slice? offset len = f.toBytes.slice? offset len := by
  simp [slice?, Bytes.slice?, toBytes_front, toBytes_back]

theorem toBytes_patch (f : SparseBytes) (offset : Nat) (data : Bytes) :
    toBytes (f.patch offset data) = f.toBytes.patch offset data := by
  unfold patch Bytes.patch
  split
  · rfl
  · simp [toBytes_front, toBytes_back, toBytes_gap, Stretch.toBytes]

theorem toBytes_resize (f : SparseBytes) (n : Nat) :
    toBytes (f.resize n) = f.toBytes.resize n := by
  simp [resize, Bytes.resize, toBytes_front, toBytes_gap]

end SparseBytes

end ObjectFlush
