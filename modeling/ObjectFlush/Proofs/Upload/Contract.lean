import ObjectFlush.Proofs.Exchange.Link
import ObjectFlush.Upload.Dialogue

/-!
Contracts for dialogues. `Contract pre d post` says that `d`, held over a link in `pre`, ends with a value
and a link that `post` allows. There is one rule for each thing a dialogue is built from, but for part runs,
of which less can be said for every link than for the endpoint behind it.
-/

namespace ObjectFlush

namespace Dialogue

variable {σ : Type} [Endpoint σ] {α β : Type} {pre : Link σ → Prop}

/-- Held over a link in `pre`, the dialogue ends as `post` allows. -/
def Contract (pre : Link σ → Prop) (d : Dialogue α) (post : α → Link σ → Prop) : Prop :=
  ∀ l, pre l → post (d.run l).2 (d.run l).1

theorem Contract.consequence {d : Dialogue α} {pre' : Link σ → Prop} {post post' : α → Link σ → Prop}
    (h : Contract pre d post) (hpre : ∀ l, pre' l → pre l) (hpost : ∀ a l, post a l → post' a l) :
    Contract pre' d post' :=
  fun l hl => hpost _ _ (h l (hpre l hl))

/-- What the start says beside the link may be used as a fact. -/
theorem Contract.of_fact {P : Prop} {d : Dialogue α} {post : α → Link σ → Prop}
    (h : P → Contract pre d post) : Contract (fun l => P ∧ pre l) d post :=
  fun l hl => h hl.1 l hl.2

theorem contract_pure {a : α} {post : α → Link σ → Prop} (h : ∀ l, pre l → post a l) :
    Contract pre (pure a) post := h

theorem Contract.bind {d : Dialogue α} {f : α → Dialogue β} {mid : α → Link σ → Prop}
    {post : β → Link σ → Prop} (hd : Contract pre d mid) (hf : ∀ a, Contract (mid a) (f a) post) :
    Contract pre (d >>= f) post := by
  intro l hl
  show post ((Dialogue.bind d f).run l).2 ((Dialogue.bind d f).run l).1
  rw [run_bind]
  exact hf _ _ (hd l hl)

theorem contract_request {r : Request} {post : Except RequestError r.Answer → Link σ → Prop}
    (h : ∀ l, pre l → post (l.ask r).2 (l.ask r).1) : Contract pre (request r) post := h

theorem contract_signal {s : Option Signal} (h : ∀ l signal, pre l → pre (l.raise signal)) :
    Contract pre (signal s) fun _ => pre := by
  intro l hl
  cases s with
  | none => exact hl
  | some s => exact h l s hl

/-- A request that is repeated while it fails: neither a failure nor a pause may take away what it started
from. -/
theorem contract_attempt {p : RepeatPolicy} {act : Dialogue (Except RequestError α)}
    {post : Except RequestError α → Link σ → Prop} (hact : Contract pre act post)
    (hfail : ∀ e l, post (.error e) l → pre l) (hpause : ∀ l base, pre l → pre (l.pause base))
    (left : Nat) : ∀ backoff, Contract pre (p.attempt wait act left backoff) post := by
  induction left with
  | zero =>
    intro backoff
    exact hact
  | succ left ih =>
    intro backoff
    refine hact.bind ?_
    intro answer
    cases answer with
    | ok a => exact contract_pure fun l hl => hl
    | error e =>
      -- The next attempt starts from what the failure of this one left.
      show Contract (post (.error e))
        (if e.retryable then wait backoff >>= fun _ => p.attempt wait act left (p.next backoff)
        else pure (.error e)) post
      split
      · have hwait : Contract (post (.error e)) (wait backoff) fun _ => pre := fun l hl =>
          hpause l backoff (hfail e l hl)
        exact hwait.bind fun _ => ih _
      · exact contract_pure fun l hl => hl

theorem contract_persist (policy : RepeatPolicy) {r : Request}
    {post : Except RequestError r.Answer → Link σ → Prop} (h : Contract pre (request r) post)
    (hfail : ∀ e l, post (.error e) l → pre l) (hpause : ∀ l base, pre l → pre (l.pause base)) :
    Contract pre (persist policy r) post :=
  contract_attempt h hfail hpause policy.limit policy.pause

end Dialogue

end ObjectFlush
