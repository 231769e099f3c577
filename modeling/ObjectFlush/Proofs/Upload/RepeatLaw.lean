import ObjectFlush.Proofs.Upload.SessionCall

/-!
The law of repetition: attempts go on while they fail in ways that may pass, and as long as the policy allows.
`RepeatPolicy.Settles` tells what attempts that kept to it came to, one after another. The law is proved of
attempts whose outcomes are known in advance (`RepeatPolicy.trace_spec`) and of a request that is repeated over a
link (`Dialogue.settles_persist`).
-/

namespace ObjectFlush

/-- The failure that an outcome is, if it is one. -/
def failureOf {α : Type} : Except RequestError α → Option RequestError
  | .ok _ => none
  | .error e => some e

theorem failureOf_map {α β : Type} (f : α → β) (outcome : Except RequestError α) :
    failureOf (outcome.map f) = failureOf outcome := by
  cases outcome <;> rfl

/-- What the call came to for who made it: a failure that it was answered with, or a timeout if it was given up. -/
def Call.failure? (c : Call) : Option RequestError :=
  match c.finish with
  | some (_, answer) => failureOf answer
  | none => some .timeout

theorem Call.Answered.failure?_eq {c : Call} {r : Request} {answer : Except RequestError r.Answer}
    (h : c.Answered r answer) : c.failure? = failureOf answer := by
  obtain ⟨started, time, rfl⟩ := h
  rfl

/-- Another attempt may follow one that came to this: a failure that may pass. -/
def MayPass (failure : Option RequestError) : Prop := ∃ e, failure = some e ∧ e.retryable = true

theorem not_mayPass_none : ¬MayPass none := by
  rintro ⟨e, he, -⟩
  cases he

theorem mayPass_some {e : RequestError} : MayPass (some e) ↔ e.retryable = true := by
  refine ⟨?_, fun h => ⟨e, rfl, h⟩⟩
  rintro ⟨e', he, h⟩
  cases he
  exact h

namespace RepeatPolicy

/-- As many attempts as the policy allows, and none after a success or a failure that is for good. -/
structure Allows (p : RepeatPolicy) (failures : List (Option RequestError)) : Prop where
  count : failures.length ≤ p.limit + 1
  passing : ∀ x ∈ failures.dropLast, MayPass x

/-- All attempts so far failed in ways that may pass, and `left` repetitions are left. -/
structure Spent (p : RepeatPolicy) (left : Nat) (failures : List (Option RequestError)) : Prop where
  count : failures.length + left = p.limit
  passing : ∀ x ∈ failures, MayPass x

/-- The last attempt came to `final`, those before it failed in ways that may pass, and `left` repetitions are
left. -/
def Reached (p : RepeatPolicy) (left : Nat) (final : Option RequestError) (failures : List (Option RequestError)) :
    Prop :=
  ∃ before, failures = before ++ [final] ∧ p.Spent left before

/-- The last attempt came to `final`, and that is the end of it: it is no failure that may pass, or else no
repetition was left. -/
def Settles (p : RepeatPolicy) (final : Option RequestError) (failures : List (Option RequestError)) : Prop :=
  ∃ left, p.Reached left final failures ∧ (MayPass final → left = 0)

section

variable {p : RepeatPolicy} {left : Nat} {failures : List (Option RequestError)} {final : Option RequestError}

theorem spent_nil (p : RepeatPolicy) : p.Spent p.limit [] := ⟨Nat.zero_add _, List.forall_mem_nil _⟩

theorem Spent.reached (h : p.Spent left failures) (final : Option RequestError) :
    p.Reached left final (failures ++ [final]) := ⟨failures, rfl, h⟩

/-- A failure that may pass costs one of the repetitions that are left. -/
theorem Reached.next (h : p.Reached (left + 1) final failures) (hpass : MayPass final) : p.Spent left failures := by
  obtain ⟨before, rfl, hspent⟩ := h
  refine ⟨?_, List.forall_mem_append.2 ⟨hspent.passing, List.forall_mem_singleton.2 hpass⟩⟩
  have := hspent.count
  rw [List.length_append, List.length_singleton]
  omega

theorem Spent.allows (h : p.Spent left failures) : p.Allows failures := by
  have := h.count
  exact ⟨by omega, fun x hx => h.passing x (List.dropLast_subset _ hx)⟩

theorem Reached.allows (h : p.Reached left final failures) : p.Allows failures := by
  obtain ⟨before, rfl, hspent⟩ := h
  have := hspent.count
  refine ⟨?_, ?_⟩
  · rw [List.length_append, List.length_singleton]
    omega
  · rw [List.dropLast_concat]
    exact hspent.passing

theorem Settles.allows (h : p.Settles final failures) : p.Allows failures := by
  obtain ⟨left, hreached, -⟩ := h
  exact hreached.allows

end

/-! ## Outcomes that are known in advance -/

section

variable {α : Type}

/-- What the attempts come to from `t` on, `left` repetitions being left. -/
def traceFrom (p : RepeatPolicy) (outcome : Nat → Except RequestError α) (left backoff : Nat) (t : Trace) :
    Except RequestError α × Trace :=
  (p.attempt (m := StateM Trace) (fun ms => modify fun t => { t with pauses := t.pauses ++ [ms] })
    (nextOutcome outcome) left backoff).run t

theorem traceFrom_succ (p : RepeatPolicy) (outcome : Nat → Except RequestError α) (left backoff : Nat) (t : Trace) :
    p.traceFrom outcome (left + 1) backoff t =
      match outcome t.attempts with
      | .ok a => (.ok a, { t with attempts := t.attempts + 1 })
      | .error e =>
        if e.retryable then
          p.traceFrom outcome left (p.next backoff) ⟨t.attempts + 1, t.pauses ++ [backoff]⟩
        else (.error e, { t with attempts := t.attempts + 1 }) := by
  rw [traceFrom, attempt, StateT.run_bind]
  show (match outcome t.attempts with
      | .ok a => _
      | .error e => _ : StateM Trace (Except RequestError α)) _ = _
  cases outcome t.attempts with
  | ok a => rfl
  | error e =>
    simp only
    cases e.retryable <;> rfl

/-- From `t` on, the attempts end with the first that does not fail in a way that may pass, or with the last that
is left, and there is a pause before each but the first. -/
theorem traceFrom_spec (p : RepeatPolicy) (outcome : Nat → Except RequestError α) (left : Nat) :
    ∀ (backoff : Nat) (t : Trace), ∃ n, t.attempts ≤ n ∧ n ≤ t.attempts + left ∧
      (∀ i, t.attempts ≤ i → i < n → MayPass (failureOf (outcome i))) ∧
      (MayPass (failureOf (outcome n)) → n = t.attempts + left) ∧
      (p.traceFrom outcome left backoff t).1 = outcome n ∧
      (p.traceFrom outcome left backoff t).2.attempts = n + 1 ∧
      (p.traceFrom outcome left backoff t).2.pauses.length + t.attempts = t.pauses.length + n := by
  induction left with
  | zero =>
    intro backoff t
    exact ⟨t.attempts, Nat.le_refl _, Nat.le_refl _, fun i hle hlt => absurd hlt (Nat.not_lt.2 hle),
      fun _ => rfl, rfl, rfl, rfl⟩
  | succ left ih =>
    intro backoff t
    rw [traceFrom_succ]
    cases hfirst : outcome t.attempts with
    | ok a =>
      refine ⟨t.attempts, Nat.le_refl _, Nat.le_add_right .., fun i hle hlt => absurd hlt (Nat.not_lt.2 hle),
        fun hpass => ?_, hfirst.symm, rfl, rfl⟩
      rw [hfirst] at hpass
      exact absurd hpass not_mayPass_none
    | error e =>
      simp only
      cases hretry : e.retryable with
      | false =>
        refine ⟨t.attempts, Nat.le_refl _, Nat.le_add_right .., fun i hle hlt => absurd hlt (Nat.not_lt.2 hle),
          fun hpass => ?_, hfirst.symm, rfl, rfl⟩
        rw [hfirst] at hpass
        cases hretry.symm.trans (mayPass_some.1 hpass)
      | true =>
        obtain ⟨n, hle, hlimit, hpassing, hlast, hout, hattempts, hpauses⟩ :=
          ih (p.next backoff) ⟨t.attempts + 1, t.pauses ++ [backoff]⟩
        simp only [List.length_append, List.length_singleton] at hle hlimit hpassing hlast hpauses
        rw [if_pos rfl]
        refine ⟨n, by omega, by omega, ?_, fun hpass => by rw [hlast hpass]; omega, hout, hattempts, by omega⟩
        intro i hi hlt
        rcases Nat.eq_or_lt_of_le hi with rfl | hi
        · rw [hfirst]
          exact mayPass_some.2 hretry
        · exact hpassing i hi hlt

/-- **The attempts end with the first that does not fail in a way that may pass, if there is one within the
limit, and else with the last that the policy allows.** Its outcome is theirs, and there is a pause before each
but the first. -/
theorem trace_spec (p : RepeatPolicy) (outcome : Nat → Except RequestError α) :
    ∃ n ≤ p.limit, (∀ i < n, MayPass (failureOf (outcome i))) ∧
      (MayPass (failureOf (outcome n)) → n = p.limit) ∧ (p.trace outcome).1 = outcome n ∧
      (p.trace outcome).2.attempts = n + 1 ∧ (p.trace outcome).2.pauses.length = n := by
  obtain ⟨n, -, hlimit, hpassing, hlast, hout, hattempts, hpauses⟩ :=
    p.traceFrom_spec outcome p.limit p.pause {}
  simp only [Nat.zero_add, Nat.zero_le, forall_const, Nat.add_zero, List.length_nil] at hlimit hpassing hlast hpauses
  exact ⟨n, hlimit, hpassing, hlast, hout, hattempts, hpauses⟩

end

end RepeatPolicy

/-! ## A request over a link -/

namespace Link

variable {σ : Type}

theorem pauses_passTo (l : Link σ) (time : Nat) : (l.passTo time).pauses = l.pauses := by
  unfold passTo
  split <;> rfl

theorem pauses_pause (l : Link σ) (base : Nat) : (l.pause base).pauses = l.pauses + 1 := pauses_passTo ..

theorem calls_pause (l : Link σ) (base : Nat) : (l.pause base).calls = l.calls := calls_passTo ..

theorem pauses_ask [Endpoint σ] (l : Link σ) (r : Request) : (l.ask r).1.pauses = l.pauses := pauses_passTo ..

end Link

namespace Dialogue

variable {σ : Type} [Endpoint σ]

theorem run_attempt_succ (p : RepeatPolicy) (r : Request) (left backoff : Nat) (l : Link σ) :
    (p.attempt wait (request r) (left + 1) backoff).run l =
      match (l.ask r).2 with
      | .ok a => ((l.ask r).1, .ok a)
      | .error e =>
        if e.retryable then (p.attempt wait (request r) left (p.next backoff)).run ((l.ask r).1.pause backoff)
        else ((l.ask r).1, .error e) := by
  rw [RepeatPolicy.attempt, run_after, run_request]
  cases (l.ask r).2 with
  | ok a => rfl
  | error e =>
    simp only
    cases e.retryable <;> rfl

/-- The last attempt over a link, after those that came to `failures`. -/
theorem settles_ask {p : RepeatPolicy} {left : Nat} {failures : List (Option RequestError)}
    (hspent : p.Spent left failures) {r : Request} {l : Link σ}
    (hlast : MayPass (failureOf (l.ask r).2) → left = 0) :
    ∃ log, (l.ask r).1.calls = l.calls ++ log ∧ (∀ c ∈ log, c.request = r) ∧
      p.Settles (failureOf (l.ask r).2) (failures ++ log.map Call.failure?) ∧
      (l.ask r).1.pauses + 1 = l.pauses + log.length := by
  obtain ⟨c, hc, hcalls⟩ := l.calls_ask r
  refine ⟨[c], hcalls, List.forall_mem_singleton.2 hc.request_eq, ?_, congrArg (· + 1) (l.pauses_ask r)⟩
  rw [List.map_singleton, hc.failure?_eq]
  exact ⟨left, hspent.reached _, hlast⟩

/-- Attempts over a link, after those that came to `failures`. -/
theorem settles_attempt (p : RepeatPolicy) (r : Request) (left : Nat) :
    ∀ (backoff : Nat) (l : Link σ) (failures : List (Option RequestError)), p.Spent left failures →
      ∃ log, ((p.attempt wait (request r) left backoff).run l).1.calls = l.calls ++ log ∧
        (∀ c ∈ log, c.request = r) ∧
        p.Settles (failureOf ((p.attempt wait (request r) left backoff).run l).2)
          (failures ++ log.map Call.failure?) ∧
        ((p.attempt wait (request r) left backoff).run l).1.pauses + 1 = l.pauses + log.length := by
  -- The induction is that of the attempts: only a failure that may pass leads on, and it costs a repetition.
  induction left with
  | zero => exact fun _ _ _ hspent => settles_ask hspent fun _ => rfl
  | succ left ih =>
    intro backoff l failures hspent
    have hlast := settles_ask (r := r) (l := l) hspent
    rw [run_attempt_succ]
    cases hanswer : (l.ask r).2 with
    | ok a =>
      rw [hanswer] at hlast
      exact hlast fun hpass => absurd hpass not_mayPass_none
    | error e =>
      simp only
      cases hretry : e.retryable with
      | false =>
        rw [hanswer] at hlast
        exact hlast fun hpass => absurd (hretry.symm.trans (mayPass_some.1 hpass)) Bool.false_ne_true
      | true =>
        rw [if_pos rfl]
        obtain ⟨c, hc, hcalls⟩ := l.calls_ask r
        have hfailure := hc.failure?_eq
        rw [hanswer] at hfailure
        obtain ⟨log, hlog, hrequests, hsettles, hpauses⟩ := ih (p.next backoff) ((l.ask r).1.pause backoff)
          (failures ++ [some e]) ((hspent.reached (some e)).next (mayPass_some.2 hretry))
        rw [Link.calls_pause, hcalls, List.append_assoc, List.singleton_append] at hlog
        rw [Link.pauses_pause, Link.pauses_ask] at hpauses
        rw [List.append_assoc, List.singleton_append] at hsettles
        refine ⟨c :: log, hlog, List.forall_mem_cons.2 ⟨hc.request_eq, hrequests⟩, ?_, ?_⟩
        · rw [List.map_cons, hfailure]
          exact hsettles
        · rw [hpauses, List.length_cons]
          omega

/-- A request that is repeated keeps to the law, and there is a pause before each of its calls but the first. -/
theorem settles_persist (p : RepeatPolicy) (r : Request) (l : Link σ) :
    ∃ log, ((persist p r).run l).1.calls = l.calls ++ log ∧ (∀ c ∈ log, c.request = r) ∧
      p.Settles (failureOf ((persist p r).run l).2) (log.map Call.failure?) ∧
      ((persist p r).run l).1.pauses + 1 = l.pauses + log.length :=
  settles_attempt p r p.limit p.pause l [] p.spent_nil

end Dialogue

end ObjectFlush
