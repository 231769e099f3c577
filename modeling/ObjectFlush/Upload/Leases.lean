import ObjectFlush.Object.Key
import ObjectFlush.Table

/-!
Exclusive leases on object keys. A claimant asks for a key and is given it at once when it is free,
else when all who asked before it have let go, in the order in which they asked. A released key is
handed to the first who waits, and stays taken even before that claimant looks.

A key has a lock only while it is in use. The lock stands in a slot under the key and is shared: by
the slot itself, by who holds the lease, and, twice, by who waits for it. Whoever lets go of one
takes the slot away if nobody but the slot is left.
-/

namespace ObjectFlush

/-- A lock: who has it, who waits for it, first come first, and how many references there are to it. -/
structure Lock (ι : Type) where
  owner : Option ι := none
  waiting : List ι := []
  references : Nat := 1
  deriving DecidableEq, Repr

namespace Lock

variable {ι : Type} [DecidableEq ι]

/-- Takes the lock if nobody has it: whether that was so. -/
def tryEnter (k : Lock ι) (i : ι) : Lock ι × Bool :=
  match k.owner with
  | none => ({ k with owner := some i }, true)
  | some _ => (k, false)

/-- Takes the lock, or waits for it. -/
def enter (k : Lock ι) (i : ι) : Lock ι × Bool :=
  match k.tryEnter i with
  | (k, true) => (k, true)
  | (k, false) => ({ k with waiting := k.waiting ++ [i] }, false)

/-- Hands the lock to the first who waits. -/
def pass (k : Lock ι) : Lock ι :=
  { k with owner := k.waiting.head?, waiting := k.waiting.tail }

/-- Gives up the lock or the wait for it. -/
def leave (k : Lock ι) (i : ι) : Lock ι :=
  if k.owner = some i then k.pass else { k with waiting := k.waiting.erase i }

def retain (k : Lock ι) : Lock ι := { k with references := k.references + 1 }

end Lock

/-- A claim on a key: a lease, or the wait for one. -/
structure Claim (ι : Type) where
  claimant : ι
  key : ObjectKey
  /-- The lock that the key had when the claim was made. -/
  lock : Nat
  /-- Whether the claimant knows that it holds the lease. -/
  granted : Bool
  deriving DecidableEq

/-- The slots of the keys in use, the locks that there are, and the claims on them. -/
structure Leases (ι : Type) where
  /-- The number of the lock of a key. -/
  slots : Table ObjectKey Nat := []
  locks : Table Nat (Lock ι) := []
  /-- How many locks were made so far. -/
  made : Nat := 0
  claims : List (Claim ι) := []

namespace Leases

variable {ι : Type} [DecidableEq ι]

/-! ## References -/

def setLock (l : Leases ι) (n : Nat) (k : Lock ι) : Leases ι := { l with locks := l.locks.set n k }

/-- How many references there are to a lock. -/
def references (l : Leases ι) (n : Nat) : Nat :=
  match l.locks.get? n with
  | some k => k.references
  | none => 0

def retain (l : Leases ι) (n : Nat) : Leases ι :=
  match l.locks.get? n with
  | some k => l.setLock n k.retain
  | none => l

/-- Lets go of one reference. With the last one the lock is gone. -/
def letGo (l : Leases ι) (n : Nat) : Leases ι :=
  match l.locks.get? n with
  | some k =>
    if k.references ≤ 1 then { l with locks := l.locks.erase n }
    else l.setLock n { k with references := k.references - 1 }
  | none => l

/-- Empties the slot of a key if its own is the only reference to the lock. -/
def prune (l : Leases ι) (key : ObjectKey) : Leases ι :=
  match l.slots.get? key with
  | some n => if l.references n = 1 then { l with slots := l.slots.erase key }.letGo n else l
  | none => l

/-- A new reference to the lock of a key, which is made if there is none. -/
def slot (l : Leases ι) (key : ObjectKey) : Leases ι × Nat :=
  match l.slots.get? key with
  | some n => (l.retain n, n)
  | none =>
    let n := l.made
    ({ l with slots := l.slots.set key n, locks := l.locks.set n {}, made := n + 1 }.retain n, n)

/-! ## Claims -/

/-- Asks for the lease: whether it is given at once. -/
def acquire (l : Leases ι) (i : ι) (key : ObjectKey) : Leases ι × Bool :=
  let (l, n) := l.slot key
  let l := l.retain n
  match l.locks.get? n with
  | none => (l, false)
  | some k =>
    let (k, granted) := k.enter i
    let l := { l.setLock n k with claims := ⟨i, key, n, granted⟩ :: l.claims }
    if granted then ((l.letGo n).prune key, true) else (l, false)

/-- Takes the lease if nobody has it: whether that was so. -/
def attempt (l : Leases ι) (i : ι) (key : ObjectKey) : Leases ι × Bool :=
  let (l, n) := l.slot key
  let l := l.retain n
  match l.locks.get? n with
  | none => (l, false)
  | some k =>
    match k.tryEnter i with
    | (k, true) =>
      let l := { l.setLock n k with claims := ⟨i, key, n, true⟩ :: l.claims }
      ((l.letGo n).prune key, true)
    | (_, false) => (((l.letGo n).letGo n).prune key, false)

/-- The leases with a new one, unless somebody has it. -/
def tryAcquire (l : Leases ι) (i : ι) (key : ObjectKey) : Option (Leases ι) :=
  match l.attempt i key with
  | (l, true) => some l
  | (_, false) => none

/-- Whether a lease on the key is held or awaited, as far as its slot tells. A slot that was left
behind is emptied. -/
def check (l : Leases ι) (key : ObjectKey) : Leases ι × Bool :=
  match l.slots.get? key with
  | some n =>
    if 1 < l.references n then (l, true)
    else ({ l with slots := l.slots.erase key }.letGo n, false)
  | none => (l, false)

def isActive (l : Leases ι) (key : ObjectKey) : Bool := (l.check key).2

def claim? (l : Leases ι) (i : ι) : Option (Claim ι) := l.claims.find? (·.claimant = i)

/-- The claims without those of a claimant. -/
def others (l : Leases ι) (i : ι) : List (Claim ι) := l.claims.filter (·.claimant ≠ i)

/-- Whether a claimant that waited now holds its lease; nothing if it does not wait. -/
def poll (l : Leases ι) (i : ι) : Option (Leases ι × Bool) :=
  match l.claim? i with
  | none => none
  | some c =>
    if c.granted then none
    else match l.locks.get? c.lock with
      | none => some (l, false)
      | some k =>
        if k.owner = some i then
          let l := { l with claims := { c with granted := true } :: l.others i }
          some ((l.letGo c.lock).prune c.key, true)
        else some (l, false)

/-- Gives up the lease or the wait of a claimant; nothing if it has neither. -/
def release (l : Leases ι) (i : ι) : Option (Leases ι) :=
  match l.claim? i with
  | none => none
  | some c =>
    match l.locks.get? c.lock with
    | none => none
    | some k =>
      let l := { l.setLock c.lock (k.leave i) with claims := l.others i }
      -- A lease is one reference, a wait is two.
      let l := l.letGo c.lock
      let l := if c.granted then l else l.letGo c.lock
      some (l.prune c.key)

/-- The claimants that know they hold a lease, and the keys. -/
def held (l : Leases ι) : List (ι × ObjectKey) :=
  (l.claims.filter (·.granted)).map fun c => (c.claimant, c.key)

/-- The claimants that asked for a lease and do not know that they hold it, and the keys. -/
def awaited (l : Leases ι) : List (ι × ObjectKey) :=
  (l.claims.filter (!·.granted)).map fun c => (c.claimant, c.key)

end Leases

end ObjectFlush
