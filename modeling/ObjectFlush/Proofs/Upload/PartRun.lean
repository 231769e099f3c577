import Mathlib.Data.List.Sort
import ObjectFlush.Proofs.Exchange.Link
import ObjectFlush.Upload.PartRun

/-!
What a part run keeps, and what it comes to. The parts of a run are accounted for at every step: each
is in the queue, has a turn, waits, or has a receipt, and in no two of these places at once
(`PartRun.Accounts`). So a run that ends well has a receipt for each part, in the order of their
numbers (`PartRun.run_spec`). Along the way the endpoint keeps whatever no request of a part can break.
-/

namespace ObjectFlush

variable {σ : Type} [Endpoint σ]

/-- No request of the parts breaks `I`. -/
def PartRequest.AllKeep (parts : List PartRequest) (upload : String) (I : σ → Prop) : Prop :=
  ∀ p ∈ parts, ∀ payload, p.payload = .ok payload →
    ∀ s, I s → I (Endpoint.serve s (payload.request upload p.number)).1

/-- What a bound part sends: the range that is copied, or the bytes that it reads. -/
theorem BoundPart.payload_eq_ok {job : BoundPart} {payload : Payload}
    (h : job.toRequest.payload = .ok payload) :
    (∃ source, job.source = .copy source ∧ payload = .copy source) ∨
      ∃ data, job.read = .ok data ∧ payload = .bytes data := by
  unfold toRequest at h
  dsimp only at h
  split at h
  · next source hsource =>
    cases h
    exact .inl ⟨source, hsource, rfl⟩
  · cases hread : job.read with
    | error e => rw [hread] at h; cases h
    | ok data =>
      rw [hread] at h
      cases h
      exact .inr ⟨data, rfl, rfl⟩

namespace ActivePart

/-- The part is one of `parts`. -/
def From (parts : List PartRequest) (part : ActivePart) : Prop :=
  ⟨part.number, .ok part.payload⟩ ∈ parts

variable {policy : PartPolicy} {upload : String} {I : σ → Prop}

/-! ## One part -/

theorem call_keeps (policy : PartPolicy) (part : ActivePart) {l : Link σ}
    (hserve : ∀ s, I s → I (Endpoint.serve s (part.request upload)).1) (hl : I l.endpoint) :
    I (part.call policy upload l).1.endpoint := by
  simp only [call]
  split
  · exact (Link.finish_ends (l.start (part.request upload)).1 _ _).keeps hl (hserve _ hl)
  · split
    · exact hl
    · exact hl

theorem of_call {part next : ActivePart} {l : Link σ} {time : Nat}
    (h : (part.call policy upload l).2 = .inr (time, next)) :
    next.number = part.number ∧ next.payload = part.payload := by
  simp only [call] at h
  split at h
  · cases h
  · split at h
    · cases h
    · cases h; exact ⟨rfl, rfl⟩

/-- What a turn of a part leaves: an endpoint that keeps `I`, and the same part, if it is to go on. -/
def TurnKeeps (I : σ → Prop) (part : ActivePart) (out : Link σ × Turn) : Prop :=
  I out.1.endpoint ∧ ∀ time next, out.2 = .waits time next →
    next.number = part.number ∧ next.payload = part.payload

theorem conclude_keeps (policy : PartPolicy) (left : Nat) :
    ∀ (part : ActivePart) (backoff : Nat) {l : Link σ} (answer : Except RequestError String),
      (∀ s, I s → I (Endpoint.serve s (part.request upload)).1) → I l.endpoint →
        TurnKeeps I part (part.conclude policy upload left backoff l answer) := by
  -- Only a failure that may pass leads on, and it costs one of the repetitions that are left.
  induction left with
  | zero =>
    intro part backoff l answer hserve hl
    cases answer with
    | ok tag => exact ⟨hl, fun _ _ h => by cases h⟩
    | error e => exact ⟨hl, fun _ _ h => by cases h⟩
  | succ left ih =>
    intro part backoff l answer hserve hl
    cases answer with
    | ok tag => exact ⟨hl, fun _ _ h => by cases h⟩
    | error e =>
      simp only [conclude]
      split
      · split
        · -- The pause takes no time: the part calls again within the same turn.
          let again : ActivePart := { part with left, backoff := policy.retry.next backoff }
          have hcall : I (again.call policy upload (l.drawPause backoff).1).1.endpoint :=
            call_keeps policy _ hserve hl
          split
          · next hc =>
            rw [hc] at hcall
            exact ih again _ _ hserve hcall
          · next hc =>
            rw [hc] at hcall
            have hsame := of_call (congrArg Prod.snd hc)
            refine ⟨hcall, ?_⟩
            intro time next h
            cases h
            exact hsame
        · refine ⟨hl, ?_⟩
          intro time next h
          cases h
          exact ⟨rfl, rfl⟩
      · exact ⟨hl, fun _ _ h => by cases h⟩

theorem attempt_keeps (policy : PartPolicy) (part : ActivePart) {l : Link σ}
    (hserve : ∀ s, I s → I (Endpoint.serve s (part.request upload)).1) (hl : I l.endpoint) :
    TurnKeeps I part (part.attempt policy upload l) := by
  have hcall := call_keeps policy _ hserve hl
  simp only [attempt]
  split
  · next hc =>
    rw [hc] at hcall
    exact conclude_keeps _ _ _ _ _ hserve hcall
  · next hc =>
    rw [hc] at hcall
    refine ⟨hcall, ?_⟩
    intro time next h
    cases h
    exact of_call (congrArg Prod.snd hc)

theorem wake_keeps (policy : PartPolicy) (part : ActivePart) {l : Link σ}
    (hserve : ∀ s, I s → I (Endpoint.serve s (part.request upload)).1) (hl : I l.endpoint) :
    TurnKeeps I part (part.wake policy upload l) := by
  simp only [wake]
  split
  · exact attempt_keeps policy part hserve hl
  · split
    · exact conclude_keeps _ _ _ _ _ hserve hl
    · exact conclude_keeps _ _ _ _ _ hserve ((Link.finish_ends l _ _).keeps hl (hserve _ hl))

end ActivePart

namespace ReadyPart

/-- The part is one of `parts`. -/
def From (parts : List PartRequest) : ReadyPart → Prop
  | .fresh _ part => part ∈ parts
  | .woken part => part.From parts

theorem look_keeps (policy : PartPolicy) {upload : String} {I : σ → Prop}
    {parts : List PartRequest} {part : ReadyPart} {l : Link σ}
    (hkeep : PartRequest.AllKeep parts upload I) (hpart : part.From parts) (hl : I l.endpoint) :
    I (part.look policy upload l).1.endpoint ∧
      ∀ time next, (part.look policy upload l).2 = .waits time next →
        next.From parts ∧ next.number = part.number := by
  cases part with
  | woken part =>
    obtain ⟨h, hnext⟩ := part.wake_keeps policy (hkeep _ hpart _ rfl) hl
    refine ⟨h, ?_⟩
    intro time next hw
    obtain ⟨hnumber, hpayload⟩ := hnext time next hw
    refine ⟨?_, hnumber⟩
    rw [ActivePart.From, hnumber, hpayload]
    exact hpart
  | fresh slot part =>
    simp only [look]
    split
    · exact ⟨hl, fun _ _ h => by cases h⟩
    · next payload hp =>
      obtain ⟨h, hnext⟩ := (ActivePart.first policy slot part.number payload).attempt_keeps policy
        (hkeep _ hpart _ hp) hl
      refine ⟨h, ?_⟩
      intro time next hw
      obtain ⟨hnumber, hpayload⟩ := hnext time next hw
      refine ⟨?_, hnumber⟩
      rw [ActivePart.From, hnumber, hpayload]
      show ⟨part.number, .ok payload⟩ ∈ parts
      rw [← hp]
      exact hpart

end ReadyPart

namespace PartRun

/-! ## All parts -/

/-- The numbers of the parts of a run, wherever they are in it. -/
def numbers (r : PartRun) : List Nat :=
  r.queue.map (·.2.number) ++ r.ready.map (·.number) ++ r.asleep.map (·.2.number) ++
    r.receipts.map (·.number)

/-- The run sends `parts` under the name `upload`: whatever it holds is one of them, and each is in
one place. -/
structure Accounts (parts : List PartRequest) (upload : String) (r : PartRun) : Prop where
  upload : r.upload = upload
  queue : ∀ p ∈ r.queue, p.2 ∈ parts
  ready : ∀ p ∈ r.ready, p.From parts
  asleep : ∀ p ∈ r.asleep, p.2.From parts
  numbers : r.numbers.Perm (parts.map (·.number))

/-- Receipts for all parts, in the order of their numbers. -/
structure Complete (parts : List PartRequest) (receipts : List Receipt) : Prop where
  numbers : (receipts.map (·.number)).Perm (parts.map (·.number))
  ascending : (receipts.map (·.number)).Pairwise (· ≤ ·)

variable {parts : List PartRequest} {upload : String} {I : σ → Prop}

theorem count_numbers (r : PartRun) (n : Nat) :
    r.numbers.count n = (r.queue.map (·.2.number)).count n + (r.ready.map (·.number)).count n +
      (r.asleep.map (·.2.number)).count n + (r.receipts.map (·.number)).count n := by
  simp only [numbers, List.count_append]

theorem accounts_start (policy : PartPolicy) (upload : String) (cancel : Option Signal)
    (parts : List PartRequest) : (start policy upload cancel parts).Accounts parts upload := by
  have hperm := List.mergeSort_perm (parts.zipIdx.map fun p => (p.2, p.1))
    fun a b => a.2.number ≤ b.2.number
  refine ⟨rfl, ?_, by simp [start], by simp [start], ?_⟩
  · intro p hp
    obtain ⟨q, hq, rfl⟩ := List.mem_map.1 (hperm.mem_iff.1 hp)
    exact List.fst_mem_of_mem_zipIdx hq
  · have hmap := hperm.map fun p => p.2.number
    have hfst : (parts.zipIdx.map fun p => (p.2, p.1)).map (·.2.number) = parts.map (·.number) := by
      calc (parts.zipIdx.map fun p => (p.2, p.1)).map (·.2.number)
          = (parts.zipIdx.map Prod.fst).map (·.number) := by rw [List.map_map, List.map_map]; rfl
        _ = parts.map (·.number) := by rw [List.zipIdx_map_fst]
    rw [hfst] at hmap
    simpa [numbers, start] using hmap

theorem Accounts.fill {r : PartRun} (h : r.Accounts parts upload) : r.fill.Accounts parts upload := by
  refine ⟨h.upload, ?_, ?_, h.asleep, ?_⟩
  · intro p hp
    exact h.queue p (List.mem_of_mem_drop hp)
  · intro p hp
    rcases List.mem_append.1 hp with hp | hp
    · exact h.ready p hp
    · obtain ⟨q, hq, rfl⟩ := List.mem_map.1 hp
      exact h.queue q (List.mem_of_mem_take hq)
  · refine List.Perm.trans (List.perm_iff_count.2 fun n => ?_) h.numbers
    have hsplit := congrArg (List.count n) (congrArg (List.map (·.2.number))
      (List.take_append_drop r.free r.queue))
    rw [List.map_append, List.count_append] at hsplit
    simp only [count_numbers, PartRun.fill, List.map_append, List.map_map, List.count_append,
      Function.comp_def, ReadyPart.number]
    omega

/-- Those that are due and those that are not make up all that wait. -/
theorem due_append_perm (asleep : List (Nat × ActivePart)) (time : Nat) :
    (asleep.filter (·.1 ≤ time) ++ asleep.filter (time < ·.1)).Perm asleep := by
  have hlate : (fun p : Nat × ActivePart => !decide (p.1 ≤ time)) = fun p => decide (time < p.1) := by
    funext p
    rw [Bool.eq_iff_iff]
    simp
  rw [← hlate]
  exact List.filter_append_perm (fun p : Nat × ActivePart => decide (p.1 ≤ time)) asleep

theorem Accounts.rouse {r : PartRun} (h : r.Accounts parts upload) (time : Nat) :
    (r.rouse time).Accounts parts upload := by
  refine ⟨h.upload, h.queue, ?_, ?_, ?_⟩
  · intro p hp
    rcases List.mem_append.1 hp with hp | hp
    · exact h.ready p hp
    · obtain ⟨q, hq, rfl⟩ := List.mem_map.1 hp
      exact h.asleep q (List.mem_filter.1 hq).1
  · intro p hp
    exact h.asleep p (List.mem_filter.1 hp).1
  · refine List.Perm.trans (List.perm_iff_count.2 fun n => ?_) h.numbers
    have hsplit := ((due_append_perm r.asleep time).map (·.2.number)).count_eq n
    rw [List.map_append, List.count_append] at hsplit
    simp only [count_numbers, PartRun.rouse, List.map_append, List.map_map, List.count_append,
      Function.comp_def, ReadyPart.number]
    omega

theorem Accounts.turn {r : PartRun} {l : Link σ} {part : ReadyPart} {rest : List ReadyPart}
    (h : r.Accounts parts upload) (hkeep : PartRequest.AllKeep parts upload I)
    (hready : r.ready = part :: rest) (hl : I l.endpoint) :
    I (r.turn l part rest).1.endpoint ∧
      ((∃ e, (r.turn l part rest).2.2 = .ended (.error e)) ∨
        (r.turn l part rest).2.2 = .moved ∧ (r.turn l part rest).2.1.Accounts parts upload) := by
  have hpart : part.From parts := h.ready part (by simp [hready])
  have hrest : ∀ p ∈ rest, p.From parts := fun p hp => h.ready p (by simp [hready, hp])
  have hnumbers := h.numbers
  rw [← h.upload] at hkeep
  obtain ⟨hlook, hnext⟩ := ReadyPart.look_keeps r.policy hkeep hpart hl
  simp only [PartRun.turn, mark]
  split
  · next heq =>
    -- The part goes to sleep; it keeps its number, so it is still accounted for.
    rw [heq] at hlook hnext
    obtain ⟨hfrom, hnumber⟩ := hnext _ _ rfl
    refine ⟨hlook, .inr ⟨rfl, h.upload, h.queue, hrest, ?_, ?_⟩⟩
    · intro p hp
      rcases List.mem_append.1 hp with hp | hp
      · exact h.asleep p hp
      · rw [List.mem_singleton.1 hp]; exact hfrom
    · refine List.Perm.trans (List.perm_iff_count.2 fun n => ?_) hnumbers
      simp only [count_numbers, hready, List.map_append, List.map_cons, List.map_nil,
        List.count_append, List.count_cons, List.count_nil, hnumber]
      omega
  · next heq =>
    -- The part is done; its receipt takes its place.
    rw [heq] at hlook
    refine ⟨hlook, .inr ⟨rfl, h.upload, h.queue, hrest, h.asleep, ?_⟩⟩
    refine List.Perm.trans (List.perm_iff_count.2 fun n => ?_) hnumbers
    simp only [count_numbers, hready, List.map_append, List.map_cons, List.map_nil,
      List.count_append, List.count_cons, List.count_nil]
    omega
  · next heq =>
    rw [heq] at hlook
    exact ⟨hlook, .inl ⟨_, rfl⟩⟩

/-- A run with no part that has a turn or waits has nothing in its queue either: there would have been
room for it. -/
theorem nothing_left {r : PartRun} (hready : r.fill.ready = []) (hasleep : r.fill.due? = none) :
    r.queue = [] ∧ r.ready = [] ∧ r.asleep = [] := by
  have hasleep : r.asleep = [] := by
    simpa [due?, PartRun.fill, List.min?_eq_none_iff] using hasleep
  obtain ⟨hr, htake⟩ := List.append_eq_nil_iff.1 hready
  -- At least one part may be under way, and none is.
  have hfree : 0 < r.free := by
    simp only [free, limit, hr, hasleep, List.length_nil]; omega
  refine ⟨?_, hr, hasleep⟩
  rcases List.take_eq_nil_iff.1 (List.map_eq_nil_iff.1 htake) with h₀ | h₀
  · omega
  · exact h₀

theorem Accounts.complete {r : PartRun} (h : r.Accounts parts upload) (hready : r.fill.ready = [])
    (hasleep : r.fill.due? = none) : Complete parts r.fill.sorted := by
  obtain ⟨hqueue, hr, hasleep⟩ := nothing_left hready hasleep
  have hsorted := List.mergeSort_perm r.receipts fun a b => a.number ≤ b.number
  refine ⟨?_, ?_⟩
  · refine (hsorted.map _).trans ?_
    have hnumbers := h.numbers
    rw [PartRun.numbers, hqueue, hr, hasleep] at hnumbers
    simpa using hnumbers
  · apply List.pairwise_map.2
    have hpairwise : (r.receipts.mergeSort fun a b => a.number ≤ b.number).Pairwise
        fun a b => decide (a.number ≤ b.number) = true := by
      apply List.pairwise_mergeSort
      · intro a b c hab hbc
        simp only [decide_eq_true_eq] at hab hbc ⊢
        exact Nat.le_trans hab hbc
      · intro a b
        simp only [Bool.or_eq_true, decide_eq_true_eq]
        exact Nat.le_total a.number b.number
    exact hpairwise.imp fun h => by simpa using h

/-- What a step comes to: the run goes on and is still accounted for, or it ends. -/
theorem Accounts.step {r : PartRun} {l : Link σ} (h : r.Accounts parts upload)
    (hkeep : PartRequest.AllKeep parts upload I) (hl : I l.endpoint) :
    I (r.step l).1.endpoint ∧
      ((∃ e, (r.step l).2.2 = .ended (.error e)) ∨
        (∃ receipts, (r.step l).2.2 = .ended (.ok receipts) ∧ Complete parts receipts) ∨
        ((∀ outcome, (r.step l).2.2 ≠ .ended outcome) ∧ (r.step l).2.1.Accounts parts upload)) := by
  simp only [PartRun.step]
  split
  · exact ⟨hl, .inl ⟨_, rfl⟩⟩
  · split
    · next heq =>
      obtain ⟨hturn, hend⟩ := h.fill.turn hkeep heq hl
      refine ⟨hturn, ?_⟩
      rcases hend with ⟨e, he⟩ | ⟨hmoved, hacc⟩
      · exact .inl ⟨e, he⟩
      · refine .inr (.inr ⟨?_, hacc⟩)
        intro outcome hended
        rw [hmoved] at hended
        cases hended
    · next hready hdue => exact ⟨hl, .inr (.inl ⟨_, rfl, h.complete hready hdue⟩)⟩
    · refine ⟨hl, .inr (.inr ⟨?_, h.fill⟩)⟩
      intro outcome hended
      cases hended

theorem Accounts.await {σ : Type} {r : PartRun} (h : r.Accounts parts upload) (l : Link σ) (due : Nat) :
    (r.await l due).2.Accounts parts upload := by
  unfold PartRun.await
  split
  · split
    · exact h
    · exact h.rouse due
  · exact h.rouse due

theorem endpoint_await {σ : Type} (r : PartRun) (l : Link σ) (due : Nat) :
    (r.await l due).1.endpoint = l.endpoint := by
  unfold PartRun.await
  split
  · split <;> simp
  · simp

theorem calls_await {σ : Type} (r : PartRun) (l : Link σ) (due : Nat) :
    (r.await l due).1.calls = l.calls := by
  unfold PartRun.await
  split
  · split
    · exact l.calls_passTo _
    · exact l.calls_passTo due
  · exact l.calls_passTo due

theorem Accounts.run {r : PartRun} {l : Link σ} (h : r.Accounts parts upload)
    (hkeep : PartRequest.AllKeep parts upload I) (hl : I l.endpoint) :
    I (r.run l).1.endpoint ∧
      ∀ receipts, (r.run l).2.2 = .ok receipts → Complete parts receipts := by
  -- Along the steps of the run: each keeps the accounts until one of them ends it.
  fun_induction PartRun.run r l with
  | case1 r l l' r' outcome hstep =>
    obtain ⟨hkept, hend⟩ := h.step hkeep hl
    rw [hstep] at hkept hend
    refine ⟨hkept, ?_⟩
    intro receipts hreceipts
    subst hreceipts
    rcases hend with ⟨e, he⟩ | ⟨all, hall, hcomplete⟩ | ⟨hnot, -⟩
    · cases he
    · cases hall; exact hcomplete
    · exact absurd rfl (hnot _)
  | case2 r l l' r' hstep ih =>
    obtain ⟨hkept, hend⟩ := h.step hkeep hl
    rw [hstep] at hkept hend
    rcases hend with ⟨e, he⟩ | ⟨all, hall, -⟩ | ⟨-, hacc⟩
    · cases he
    · cases hall
    · exact ih hacc hkept
  | case3 r l l' r' due hstep ih =>
    obtain ⟨hkept, hend⟩ := h.step hkeep hl
    rw [hstep] at hkept hend
    rcases hend with ⟨e, he⟩ | ⟨all, hall, -⟩ | ⟨-, hacc⟩
    · cases he
    · cases hall
    · exact ih (hacc.await l' due) (by rw [endpoint_await]; exact hkept)

/-- A run keeps what the requests of its parts keep, and if it ends well, every part has a receipt. -/
theorem run_spec (policy : PartPolicy) (cancel : Option Signal) {l : Link σ}
    (hkeep : PartRequest.AllKeep parts upload I) (hl : I l.endpoint) :
    I ((start policy upload cancel parts).run l).1.endpoint ∧
      ∀ receipts, ((start policy upload cancel parts).run l).2.2 = .ok receipts →
        Complete parts receipts :=
  (accounts_start policy upload cancel parts).run hkeep hl

end PartRun

end ObjectFlush
