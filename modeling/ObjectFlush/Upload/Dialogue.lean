import ObjectFlush.Upload.PartRun

/-!
What an upload says to the store, before any store has answered: a tree of requests, pauses, part
runs and raised signals whose branches are the answers. `Dialogue.run` holds a dialogue over a
link. A statement about every store is one about the tree.
-/

namespace ObjectFlush

inductive Dialogue (α : Type) where
  | done (value : α)
  /-- A request, waited for to its end. -/
  | ask (request : Request) (next : Except RequestError request.Answer → Dialogue α)
  /-- A pause of `base` milliseconds and at most half as many on top of them. -/
  | pause (base : Nat) (next : Dialogue α)
  | parts (run : PartRun) (next : PartRun.Outcome → Dialogue α)
  | raise (signal : Signal) (next : Dialogue α)

namespace Dialogue

/-- One dialogue after another. -/
def bind {α β : Type} : Dialogue α → (α → Dialogue β) → Dialogue β
  | .done a, f => f a
  | .ask r next, f => .ask r fun answer => (next answer).bind f
  | .pause base next, f => .pause base (next.bind f)
  | .parts r next, f => .parts r fun outcome => (next outcome).bind f
  | .raise s next, f => .raise s (next.bind f)

instance : Monad Dialogue where
  pure := .done
  bind := .bind

/-- A single request. -/
def request (r : Request) : Dialogue (Except RequestError r.Answer) := .ask r .done

/-- A single pause. -/
def wait (base : Nat) : Dialogue Unit := .pause base (.done ())

/-- A single part run. -/
def sendParts (run : PartRun) : Dialogue PartRun.Outcome := .parts run .done

/-- Raises a signal, if there is one. -/
def signal : Option Signal → Dialogue Unit
  | some s => .raise s (.done ())
  | none => .done ()

/-- A request, repeated by a policy while its failure may pass. -/
def persist (policy : RepeatPolicy) (r : Request) : Dialogue (Except RequestError r.Answer) :=
  policy.run wait (request r)

/-- Holds a dialogue over a link, from its first request to its last answer. -/
def run {σ α : Type} [Endpoint σ] : Dialogue α → Link σ → Link σ × α
  | .done a, l => (l, a)
  | .ask r next, l => (next (l.ask r).2).run (l.ask r).1
  | .pause base next, l => next.run (l.pause base)
  | .parts r next, l => (next (r.run l).2.2).run (r.run l).1
  | .raise s next, l => next.run (l.raise s)

theorem bind_done {α : Type} (d : Dialogue α) : d.bind .done = d := by
  induction d <;> simp_all [bind]

theorem bind_assoc {α β γ : Type} (d : Dialogue α) (f : α → Dialogue β) (g : β → Dialogue γ) :
    (d.bind f).bind g = d.bind fun a => (f a).bind g := by
  induction d <;> simp_all [bind]

theorem run_bind {σ α β : Type} [Endpoint σ] (d : Dialogue α) (f : α → Dialogue β) (l : Link σ) :
    (d.bind f).run l = (f (d.run l).2).run (d.run l).1 := by
  induction d generalizing l <;> simp_all [bind, run]

instance : LawfulMonad Dialogue := .mk' Dialogue bind_done (fun _ _ => rfl) bind_assoc

end Dialogue

end ObjectFlush
