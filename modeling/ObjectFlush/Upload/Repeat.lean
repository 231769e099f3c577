import ObjectFlush.Exchange.Error

/-!
Repeating requests. A request whose failure may pass is repeated after a pause, up to a limit; the
pause doubles with every repetition and is bounded from the second one on.
-/

namespace ObjectFlush

structure RepeatPolicy where
  /-- How many times a request may be repeated. -/
  limit : Nat
  /-- The pause before the first repetition, in milliseconds. -/
  pause : Nat
  /-- The longest pause before any later one. -/
  longestPause : Nat
  deriving DecidableEq, Repr

namespace RepeatPolicy

/-- The pause after one of `backoff`. -/
def next (p : RepeatPolicy) (backoff : Nat) : Nat := min (backoff * 2) p.longestPause

/-- Makes attempts, `left` repetitions being left and the next pause being `backoff`. -/
def attempt {m : Type → Type} [Monad m] {α : Type} (p : RepeatPolicy) (pause : Nat → m Unit)
    (act : m (Except RequestError α)) : (left backoff : Nat) → m (Except RequestError α)
  | 0, _ => act
  | left + 1, backoff => do
    match ← act with
    | .ok a => return .ok a
    | .error e =>
      if e.retryable then
        pause backoff
        attempt p pause act left (p.next backoff)
      else return .error e

/-- Makes attempts until one succeeds, one fails for good, or the limit is reached. -/
def run {m : Type → Type} [Monad m] {α : Type} (p : RepeatPolicy) (pause : Nat → m Unit)
    (act : m (Except RequestError α)) : m (Except RequestError α) :=
  p.attempt pause act p.limit p.pause

/-- What a sequence of attempts came to: how many there were, and the pauses between them. -/
structure Trace where
  attempts : Nat := 0
  pauses : List Nat := []
  deriving DecidableEq, Repr

/-- One attempt of an operation that ends with `outcome n` at its `n`-th attempt, from zero. -/
def nextOutcome {α : Type} (outcome : Nat → Except RequestError α) :
    StateM Trace (Except RequestError α) := do
  let t ← get
  set { t with attempts := t.attempts + 1 }
  return outcome t.attempts

/-- The attempts of an operation that ends with `outcome n` at its `n`-th attempt, from zero. -/
def trace {α : Type} (p : RepeatPolicy) (outcome : Nat → Except RequestError α) :
    Except RequestError α × Trace :=
  (RepeatPolicy.run (m := StateM Trace) p
    (fun ms => modify fun t => { t with pauses := t.pauses ++ [ms] }) (nextOutcome outcome)).run {}

end RepeatPolicy

end ObjectFlush
