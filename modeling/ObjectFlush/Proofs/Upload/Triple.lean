import ObjectFlush.Proofs.Upload.Contract
import ObjectFlush.Proofs.Upload.PartRun

/-!
Triples for dialogues. `Triple pre d post` says that `d`, held over any link to an endpoint in `pre`,
ends with a value and an endpoint that `post` allows; the clock, the conditions and the log of the link
are arbitrary. So a triple is a contract that looks at nothing of the link but its endpoint, and its rules
are those of contracts.
-/

namespace ObjectFlush

namespace Dialogue

variable {σ : Type} [Endpoint σ] {α β : Type} {pre : σ → Prop}

/-- Held from an endpoint in `pre`, the dialogue ends as `post` allows. -/
def Triple (pre : σ → Prop) (d : Dialogue α) (post : α → σ → Prop) : Prop :=
  ∀ l : Link σ, pre l.endpoint → post (d.run l).2 (d.run l).1.endpoint

theorem Triple.contract {d : Dialogue α} {post : α → σ → Prop} (h : Triple pre d post) :
    Contract (fun l => pre l.endpoint) d fun a l => post a l.endpoint := h

theorem Triple.consequence {d : Dialogue α} {pre' : σ → Prop} {post post' : α → σ → Prop}
    (h : Triple pre d post) (hpre : ∀ s, pre' s → pre s) (hpost : ∀ a s, post a s → post' a s) :
    Triple pre' d post' :=
  fun l hl => hpost _ _ (h l (hpre _ hl))

/-- What the start says beside the endpoint may be used as a fact. -/
theorem Triple.of_fact {P : Prop} {d : Dialogue α} {post : α → σ → Prop}
    (h : P → Triple pre d post) : Triple (fun s => P ∧ pre s) d post :=
  fun l hl => h hl.1 l hl.2

theorem triple_pure {a : α} {post : α → σ → Prop} (h : ∀ s, pre s → post a s) :
    Triple pre (pure a) post :=
  fun l hl => h l.endpoint hl

theorem Triple.bind {d : Dialogue α} {f : α → Dialogue β} {mid : α → σ → Prop}
    {post : β → σ → Prop} (hd : Triple pre d mid) (hf : ∀ a, Triple (mid a) (f a) post) :
    Triple pre (d >>= f) post :=
  hd.contract.bind fun a => (hf a).contract

/-- A request: `post` has to allow every end that its call may come to. -/
theorem triple_request {r : Request} {post : Except RequestError r.Answer → σ → Prop}
    (h : ∀ s, pre s → ∀ s' a, Link.Ends s r s' a → post a s') : Triple pre (request r) post :=
  fun l hl => h l.endpoint hl _ _ (l.ask_ends r)

/-- After an answer `Q` holds; after a failure, still `P`. -/
def OrStill (P : σ → Prop) (Q : α → σ → Prop) : Except RequestError α → σ → Prop
  | .ok a, s => Q a s
  | .error _, s => P s

/-- A request whose answer has no tag is lost, or served. -/
theorem triple_ask {r : Request} (hr : ∀ tag a, r.retag tag a = a) {P : σ → Prop}
    {Q : r.Answer → σ → Prop}
    (hserve : ∀ s, P s → OrStill P Q (Endpoint.serve s r).2 (Endpoint.serve s r).1) :
    Triple P (request r) (OrStill P Q) := by
  apply triple_request
  intro s hs s' answer hends
  rcases hends.untagged hr with ⟨rfl, err, rfl⟩ | ⟨rfl, rfl⟩
  · exact hs
  · exact hserve s hs

theorem triple_signal (s : Option Signal) : Triple pre (signal s) fun _ => pre :=
  contract_signal fun _ _ hl => hl

/-- A part run keeps what the requests of its parts keep. -/
theorem triple_sendParts (policy : PartPolicy) {upload : String} (cancel : Option Signal)
    {parts : List PartRequest} (h : PartRequest.AllKeep parts upload pre) :
    Triple pre (sendParts (.start policy upload cancel parts)) fun outcome s =>
      pre s ∧ ∀ receipts, outcome = .ok receipts → PartRun.Complete parts receipts :=
  fun _ hl => PartRun.run_spec policy cancel h hl

/-- A request that is repeated while it fails: no failure may take away what it started from. -/
theorem triple_persist (policy : RepeatPolicy) {r : Request}
    {post : Except RequestError r.Answer → σ → Prop} (h : Triple pre (request r) post)
    (hfail : ∀ e s, post (.error e) s → pre s) : Triple pre (persist policy r) post := by
  refine contract_persist policy h.contract (fun e l hl => hfail e l.endpoint hl) ?_
  intro l base hl
  show pre (l.pause base).endpoint
  rw [Link.endpoint_pause]
  exact hl

end Dialogue

end ObjectFlush
