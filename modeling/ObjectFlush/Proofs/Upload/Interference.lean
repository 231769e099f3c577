import ObjectFlush.Proofs.Upload.PartRun
import ObjectFlush.Upload.Schedule

/-!
Dialogues held beside others over one endpoint. A pact says what the others may do to the endpoint whenever they
have a turn, and what the dialogue may do itself (`Pact`). `Assures pact pre d post` says that from an endpoint in
`pre` the dialogue keeps the pact and ends as `post` allows, as long as the others keep it too. There is one rule for
each thing a dialogue is built from; `Standing.upholds_proceed` is what an errand does with its turn.
-/

namespace ObjectFlush

/-- What others do to the endpoint, and what one does oneself, any number of times. -/
structure Pact (σ : Type) where
  rely : σ → σ → Prop
  guar : σ → σ → Prop
  rely_refl : ∀ s, rely s s
  rely_trans : ∀ {a b c}, rely a b → rely b c → rely a c
  guar_refl : ∀ s, guar s s
  guar_trans : ∀ {a b c}, guar a b → guar b c → guar a c

/-- What the others cannot break. -/
def Pact.Stable {σ : Type} (pact : Pact σ) (P : σ → Prop) : Prop := ∀ s s', P s → pact.rely s s' → P s'

variable {σ : Type} [Endpoint σ]

/-- The requests of the parts keep `I` and the pact. -/
def PartRequest.AllUphold (pact : Pact σ) (parts : List PartRequest) (upload : String) (I : σ → Prop) : Prop :=
  ∀ p ∈ parts, ∀ payload, p.payload = .ok payload → ∀ s, I s →
    pact.guar s (Endpoint.serve s (payload.request upload p.number)).1 ∧
      I (Endpoint.serve s (payload.request upload p.number)).1

theorem PartRequest.AllUphold.allKeep {pact : Pact σ} {parts : List PartRequest} {upload : String} {I : σ → Prop}
    (h : PartRequest.AllUphold pact parts upload I) (s₀ : σ) :
    PartRequest.AllKeep parts upload fun s => pact.guar s₀ s ∧ I s := by
  rintro p hp payload hpayload s ⟨hguar, hs⟩
  obtain ⟨hserve, hs'⟩ := h p hp payload hpayload s hs
  exact ⟨pact.guar_trans hguar hserve, hs'⟩

namespace PartRun

variable {parts : List PartRequest} {upload : String} {I : σ → Prop}

/-- The turns that parts have at one instant keep what their requests keep. -/
theorem Accounts.settle {r : PartRun} {l : Link σ} (h : r.Accounts parts upload)
    (hkeep : PartRequest.AllKeep parts upload I) (hl : I l.endpoint) :
    I (r.settle l).1.endpoint ∧
      match (r.settle l).2.2 with
      | .inl _ => (r.settle l).2.1.Accounts parts upload
      | .inr outcome => ∀ receipts, outcome = .ok receipts → Complete parts receipts := by
  fun_induction PartRun.settle r l with
  | case1 r l l' r' outcome hstep =>
    obtain ⟨hkept, hend⟩ := h.step hkeep hl
    rw [hstep] at hkept hend
    refine ⟨hkept, ?_⟩
    rintro receipts rfl
    rcases hend with ⟨e, he⟩ | ⟨all, hall, hcomplete⟩ | ⟨hnot, -⟩
    · cases he
    · cases hall
      exact hcomplete
    · exact absurd rfl (hnot _)
  | case2 r l l' r' hstep ih =>
    obtain ⟨hkept, hend⟩ := h.step hkeep hl
    rw [hstep] at hkept hend
    rcases hend with ⟨e, he⟩ | ⟨all, hall, -⟩ | ⟨-, hacc⟩
    · cases he
    · cases hall
    · exact ih hacc hkept
  | case3 r l l' r' due hstep =>
    obtain ⟨hkept, hend⟩ := h.step hkeep hl
    rw [hstep] at hkept hend
    rcases hend with ⟨e, he⟩ | ⟨all, hall, -⟩ | ⟨-, hacc⟩
    · cases he
    · cases hall
    · exact ⟨hkept, hacc⟩

end PartRun

namespace Dialogue

variable {α β : Type} {pact : Pact σ} {post : α → σ → Prop} {s s' : σ}

/-- Held from `s`, the dialogue keeps the pact and ends as `post` allows, if the others keep the pact. -/
def Upholds (pact : Pact σ) (post : α → σ → Prop) : Dialogue α → σ → Prop
  | .done a, s => ∀ s', pact.rely s s' → post a s'
  | .ask r next, s => ∀ s', pact.rely s s' → ∀ s'' answer, Link.Ends s' r s'' answer →
      pact.guar s' s'' ∧ (next answer).Upholds pact post s''
  | .pause _ next, s => next.Upholds pact post s
  | .parts run next, s => ∃ (I : σ → Prop) (parts : List PartRequest) (upload : String),
      I s ∧ pact.Stable I ∧ PartRequest.AllUphold pact parts upload I ∧ run.Accounts parts upload ∧
      ∀ outcome s', I s' → (∀ receipts, outcome = .ok receipts → PartRun.Complete parts receipts) →
        (next outcome).Upholds pact post s'
  | .raise _ next, s => next.Upholds pact post s

/-- The others may have a turn at any time. -/
theorem Upholds.rely {d : Dialogue α} (h : d.Upholds pact post s) (hs : pact.rely s s') : d.Upholds pact post s' := by
  induction d with
  | done a => exact fun s'' hs' => h s'' (pact.rely_trans hs hs')
  | ask r next ih => exact fun s'' hs' => h s'' (pact.rely_trans hs hs')
  | pause base next ih => exact ih h
  | parts run next ih =>
    obtain ⟨I, parts, upload, hI, hstable, hrest⟩ := h
    exact ⟨I, parts, upload, hstable _ _ hI hs, hstable, hrest⟩
  | raise signal next ih => exact ih h

theorem Upholds.imp {d : Dialogue α} {post' : α → σ → Prop} (h : d.Upholds pact post s)
    (hpost : ∀ a s, post a s → post' a s) : d.Upholds pact post' s := by
  induction d generalizing s with
  | done a => exact fun s' hs => hpost a s' (h s' hs)
  | ask r next ih =>
    intro s' hs s'' answer hends
    obtain ⟨hguar, hnext⟩ := h s' hs s'' answer hends
    exact ⟨hguar, ih answer hnext⟩
  | pause base next ih => exact ih h
  | parts run next ih =>
    obtain ⟨I, parts, upload, hI, hstable, hkeep, hacc, hnext⟩ := h
    exact ⟨I, parts, upload, hI, hstable, hkeep, hacc, fun outcome s' hs' hcomplete =>
      ih outcome (hnext outcome s' hs' hcomplete)⟩
  | raise signal next ih => exact ih h

theorem Upholds.bind {d : Dialogue α} {f : α → Dialogue β} {post' : β → σ → Prop} (h : d.Upholds pact post s)
    (hf : ∀ a s, post a s → (f a).Upholds pact post' s) : (d >>= f).Upholds pact post' s := by
  show (Dialogue.bind d f).Upholds pact post' s
  induction d generalizing s with
  | done a => exact hf a s (h s (pact.rely_refl s))
  | ask r next ih =>
    intro s' hs s'' answer hends
    obtain ⟨hguar, hnext⟩ := h s' hs s'' answer hends
    exact ⟨hguar, ih answer hnext⟩
  | pause base next ih => exact ih h
  | parts run next ih =>
    obtain ⟨I, parts, upload, hI, hstable, hkeep, hacc, hnext⟩ := h
    exact ⟨I, parts, upload, hI, hstable, hkeep, hacc, fun outcome s' hs' hcomplete =>
      ih outcome (hnext outcome s' hs' hcomplete)⟩
  | raise signal next ih => exact ih h

/-! ## Rules -/

variable {pre : σ → Prop}

/-- From an endpoint in `pre`, the dialogue keeps the pact and ends as `post` allows. -/
def Assures (pact : Pact σ) (pre : σ → Prop) (d : Dialogue α) (post : α → σ → Prop) : Prop :=
  ∀ s, pre s → d.Upholds pact post s

theorem Assures.bind {d : Dialogue α} {f : α → Dialogue β} {mid : α → σ → Prop} {post : β → σ → Prop}
    (hd : Assures pact pre d mid) (hf : ∀ a, Assures pact (mid a) (f a) post) : Assures pact pre (d >>= f) post :=
  fun s hs => (hd s hs).bind hf

/-- What the start says beside the endpoint may be used as a fact. -/
theorem Assures.of_fact {P : Prop} {d : Dialogue α} (h : P → Assures pact pre d post) :
    Assures pact (fun s => P ∧ pre s) d post :=
  fun s hs => h hs.1 s hs.2

theorem Assures.imp {d : Dialogue α} {post' : α → σ → Prop} (h : Assures pact pre d post)
    (hpost : ∀ a s, post a s → post' a s) : Assures pact pre d post' :=
  fun s hs => (h s hs).imp hpost

theorem assures_pure {a : α} (hstable : pact.Stable (post a)) (h : ∀ s, pre s → post a s) :
    Assures pact pre (pure a) post :=
  fun s hs s' hrely => hstable s s' (h s hs) hrely

/-- A request: `post` has to allow every end that its call may come to. -/
theorem assures_request {r : Request} {post : Except RequestError r.Answer → σ → Prop} (hpre : pact.Stable pre)
    (hpost : ∀ answer, pact.Stable (post answer))
    (h : ∀ s, pre s → ∀ s' answer, Link.Ends s r s' answer → pact.guar s s' ∧ post answer s') :
    Assures pact pre (request r) post := by
  intro s hs s' hrely s'' answer hends
  obtain ⟨hguar, hanswer⟩ := h s' (hpre s s' hs hrely) s'' answer hends
  exact ⟨hguar, fun s₃ hs₃ => hpost answer s'' s₃ hanswer hs₃⟩

/-- A request whose answer has no tag is lost, or served. -/
theorem assures_ask {r : Request} (hr : ∀ tag a, r.retag tag a = a)
    {post : Except RequestError r.Answer → σ → Prop}
    (hpre : pact.Stable pre) (hpost : ∀ answer, pact.Stable (post answer))
    (hlost : ∀ e s, pre s → post (.error e) s)
    (hserve : ∀ s, pre s → pact.guar s (Endpoint.serve s r).1 ∧
      post (Endpoint.serve s r).2 (Endpoint.serve s r).1) :
    Assures pact pre (request r) post := by
  refine assures_request hpre hpost fun s hs s' answer hends => ?_
  rcases hends.untagged hr with ⟨rfl, e, rfl⟩ | ⟨rfl, rfl⟩
  · exact ⟨pact.guar_refl s', hlost e s' hs⟩
  · exact hserve s hs

theorem assures_signal (signal : Option Signal) (hpre : pact.Stable pre) :
    Assures pact pre (Dialogue.signal signal) fun _ => pre := by
  intro s hs
  cases signal with
  | none => exact fun s' => hpre s s' hs
  | some signal => exact fun s' => hpre s s' hs

/-- A part run keeps what the requests of its parts keep. -/
theorem assures_sendParts (policy : PartPolicy) {upload : String} (cancel : Option Signal) {parts : List PartRequest}
    (hpre : pact.Stable pre) (h : PartRequest.AllUphold pact parts upload pre) :
    Assures pact pre (sendParts (.start policy upload cancel parts)) fun outcome s =>
      (∀ receipts, outcome = .ok receipts → PartRun.Complete parts receipts) ∧ pre s :=
  fun _ hs => ⟨pre, parts, upload, hs, hpre, h, PartRun.accounts_start policy upload cancel parts,
    fun _ s' hs' hcomplete s'' hrely => ⟨hcomplete, hpre s' s'' hs' hrely⟩⟩

/-- A request that is repeated while it fails: no failure may take away what it started from. -/
theorem assures_persist (policy : RepeatPolicy) {r : Request} {post : Except RequestError r.Answer → σ → Prop}
    (hpre : pact.Stable pre) (hpost : ∀ answer, pact.Stable (post answer)) (h : Assures pact pre (request r) post)
    (hfail : ∀ e s, post (.error e) s → pre s) : Assures pact pre (persist policy r) post := by
  suffices hattempt : ∀ left backoff, Assures pact pre (policy.attempt wait (request r) left backoff) post from
    hattempt policy.limit policy.pause
  intro left
  induction left with
  | zero => exact fun _ => h
  | succ left ih =>
    intro backoff
    refine h.bind fun answer => ?_
    cases answer with
    | ok a => exact assures_pure (hpost _) fun s hs => hs
    | error e =>
      -- The next attempt starts from what the failure of this one left.
      show Assures pact (post (.error e))
        (if e.retryable then wait backoff >>= fun _ => policy.attempt wait (request r) left (policy.next backoff)
        else pure (.error e)) post
      split
      · have hwait : Assures pact (post (.error e)) (wait backoff) fun _ => pre :=
          fun s hs s' => hpre s s' (hfail e s hs)
        exact hwait.bind fun _ => ih _
      · exact assures_pure (hpost _) fun s hs => hs

end Dialogue

/-! ## Errands -/

namespace Standing

variable {α : Type} {pact : Pact σ} {post : α → σ → Prop}

/-- What is left of the dialogue of an errand. -/
def left : Standing α → Dialogue α
  | .fresh _ d | .queued d | .pausing _ d => d
  | .calling r _ _ next => .ask r next
  | .sending run _ next => .parts run next
  | .over value => .done value
  | .finished f => .done f.value

theorem upholds_talk {d : Dialogue α} {l : Link σ} (h : d.Upholds pact post l.endpoint) :
    pact.guar l.endpoint (talk d l).1.endpoint ∧ (talk d l).2.left.Upholds pact post (talk d l).1.endpoint := by
  induction d generalizing l with
  | done a => exact ⟨pact.guar_refl _, h⟩
  | ask r next ih =>
    simp only [talk]
    split
    · obtain ⟨hguar, hnext⟩ := h _ (pact.rely_refl _) _ _ ((l.start r).1.finish_ends r (l.start r).2)
      obtain ⟨hguar', hrest⟩ := ih _ hnext
      exact ⟨pact.guar_trans hguar hguar', hrest⟩
    · exact ⟨pact.guar_refl _, h⟩
  | pause base next ih =>
    simp only [talk]
    split
    · exact ih (l := (l.drawPause base).1) h
    · exact ⟨pact.guar_refl _, h⟩
  | parts run next ih =>
    obtain ⟨I, parts, upload, hI, hstable, hkeep, hacc, hnext⟩ := h
    obtain ⟨⟨hguar, hI'⟩, hout⟩ := hacc.settle (hkeep.allKeep l.endpoint) ⟨pact.guar_refl _, hI⟩
    simp only [talk]
    split
    · next hsettle =>
      rw [hsettle] at hguar hI' hout
      exact ⟨hguar, I, parts, upload, hI', hstable, hkeep, hout, hnext⟩
    · next hsettle =>
      rw [hsettle] at hguar hI' hout
      obtain ⟨hguar', hrest⟩ := ih _ (hnext _ _ hI' hout)
      exact ⟨pact.guar_trans hguar hguar', hrest⟩
  | raise signal next ih => exact ih (l := l.raise signal) h

/-- An errand that goes on keeps the pact, and will end as it has to. -/
theorem upholds_proceed {s : Standing α} {l : Link σ} (h : s.left.Upholds pact post l.endpoint) :
    pact.guar l.endpoint (s.proceed l).1.endpoint ∧
      (s.proceed l).2.left.Upholds pact post (s.proceed l).1.endpoint := by
  cases s with
  | calling r ticket due next =>
    simp only [proceed]
    split
    · obtain ⟨hguar, hnext⟩ := h _ (pact.rely_refl _) _ _ (l.finish_ends r ticket)
      obtain ⟨hguar', hrest⟩ := upholds_talk (l := (l.finish r ticket).1) hnext
      exact ⟨pact.guar_trans hguar hguar', hrest⟩
    · exact ⟨pact.guar_refl _, h⟩
  | pausing due next =>
    simp only [proceed]
    split
    · exact upholds_talk h
    · exact ⟨pact.guar_refl _, h⟩
  | sending run due next =>
    -- The parts whose time has come have a turn, and what follows is as in the first turn of the run.
    obtain ⟨I, parts, upload, hI, hstable, hkeep, hacc, hnext⟩ := h
    have htalk := upholds_talk (d := .parts (run.rouse l.now) next)
      ⟨I, parts, upload, hI, hstable, hkeep, hacc.rouse l.now, hnext⟩
    simp only [talk] at htalk
    exact htalk
  | fresh start d => exact ⟨pact.guar_refl _, h⟩
  | queued d => exact ⟨pact.guar_refl _, h⟩
  | «over» value => exact ⟨pact.guar_refl _, h⟩
  | finished f => exact ⟨pact.guar_refl _, h⟩

end Standing

end ObjectFlush
