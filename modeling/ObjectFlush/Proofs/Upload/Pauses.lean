import Mathlib.Algebra.Ring.Nat
import ObjectFlush.Proofs.Upload.RepeatLaw

/-!
How long the pauses between attempts are. `RepeatPolicy.basePause` is what the pause before each repetition comes to,
less what is added to it at random. It is the first pause, doubled again and again and cut to the longest one, but for
the very first, which is taken as it is given (`RepeatPolicy.basePause_succ`). So the longest pause bounds all of them
just if it bounds the first.

Attempts pause by this law when their outcomes are known in advance (`RepeatPolicy.trace_pauses`) and when a request is
repeated over a link, where the pauses are told from the log (`RepeatPolicy.Paces`, `Dialogue.paces_persist`).
-/

namespace ObjectFlush

namespace RepeatPolicy

variable {p : RepeatPolicy}

/-- The pause before a repetition, by the number of those before it, less what is added to it. -/
def basePause (p : RepeatPolicy) : Nat → Nat
  | 0 => p.pause
  | k + 1 => p.next (p.basePause k)

/-- Every pause but the first is the first, doubled as often as there were pauses and cut to the longest. -/
theorem basePause_succ (p : RepeatPolicy) (k : Nat) :
    p.basePause (k + 1) = min (p.pause * 2 ^ (k + 1)) p.longestPause := by
  induction k with
  | zero => simp [basePause, next]
  | succ k ih =>
    -- What was cut is no shorter than the longest once it is doubled, so cutting it first makes no difference.
    calc p.basePause (k + 1 + 1)
        = min (p.basePause (k + 1) * 2) p.longestPause := rfl
      _ = min (min (p.pause * 2 ^ (k + 1)) p.longestPause * 2) p.longestPause := by rw [ih]
      _ = min (p.pause * 2 ^ (k + 1) * 2) p.longestPause := by omega
      _ = min (p.pause * 2 ^ (k + 1 + 1)) p.longestPause := by rw [pow_succ 2 (k + 1), mul_assoc]

theorem basePause_of_le (h : p.pause ≤ p.longestPause) (k : Nat) :
    p.basePause k = min (p.pause * 2 ^ k) p.longestPause := by
  cases k with
  | zero => simp [basePause, h]
  | succ k => exact p.basePause_succ k

theorem basePause_le_longest (p : RepeatPolicy) (k : Nat) : p.basePause (k + 1) ≤ p.longestPause :=
  Nat.min_le_right ..

/-- What is not cut does not get shorter. -/
theorem le_next {backoff : Nat} (h : backoff ≤ p.longestPause) : backoff ≤ p.next backoff :=
  Nat.le_min.2 ⟨by omega, h⟩

/-- The pauses are the first one doubled and cut just if the longest bounds the first, or there is none. -/
theorem basePause_eq_iff (p : RepeatPolicy) :
    (∀ k < p.limit, p.basePause k = min (p.pause * 2 ^ k) p.longestPause) ↔
      p.limit = 0 ∨ p.pause ≤ p.longestPause := by
  constructor
  · intro h
    refine (Nat.eq_zero_or_pos p.limit).imp_right fun hpos => ?_
    have hfirst : p.pause = min (p.pause * 2 ^ 0) p.longestPause := h 0 hpos
    exact hfirst.le.trans (Nat.min_le_right ..)
  · rintro (hnone | hle) k hk
    · omega
    · exact basePause_of_le hle k

theorem basePause_bounded_iff (p : RepeatPolicy) :
    (∀ k < p.limit, p.basePause k ≤ p.longestPause) ↔ p.limit = 0 ∨ p.pause ≤ p.longestPause := by
  constructor
  · intro h
    exact (Nat.eq_zero_or_pos p.limit).imp_right (h 0)
  · rintro (hnone | hle) k hk
    · omega
    · rw [basePause_of_le hle]
      exact Nat.min_le_right ..

theorem basePause_mono_iff (p : RepeatPolicy) :
    (∀ k, k + 1 < p.limit → p.basePause k ≤ p.basePause (k + 1)) ↔
      p.limit ≤ 1 ∨ p.pause ≤ p.longestPause := by
  constructor
  · intro h
    refine (Nat.lt_or_ge 1 p.limit).symm.imp_right fun hsecond => ?_
    exact (h 0 hsecond).trans (p.basePause_le_longest 0)
  · rintro (hfew | hle) k hk
    · omega
    · exact le_next ((basePause_of_le hle k).le.trans (Nat.min_le_right ..))

/-! ## Outcomes that are known in advance -/

section

variable {α : Type}

/-- From `t` on, the pauses are the next ones in order. -/
theorem traceFrom_pauses (p : RepeatPolicy) (outcome : Nat → Except RequestError α) (left : Nat) :
    ∀ (k : Nat) (t : Trace), ∃ n, (p.traceFrom outcome left (p.basePause k) t).2.pauses =
      t.pauses ++ (List.range' k n).map p.basePause := by
  induction left with
  | zero => exact fun k t => ⟨0, (List.append_nil _).symm⟩
  | succ left ih =>
    intro k t
    rw [traceFrom_succ]
    cases outcome t.attempts with
    | ok a => exact ⟨0, (List.append_nil _).symm⟩
    | error e =>
      simp only
      cases e.retryable with
      | false => exact ⟨0, (List.append_nil _).symm⟩
      | true =>
        obtain ⟨n, hn⟩ := ih (k + 1) ⟨t.attempts + 1, t.pauses ++ [p.basePause k]⟩
        refine ⟨n + 1, hn.trans ?_⟩
        rw [List.append_assoc, List.range'_succ, List.map_cons, List.singleton_append]

/-- The pauses between attempts, and how many there are: all that the policy allows, if every attempt but the last
fails in a way that may pass. -/
theorem trace_pauses (p : RepeatPolicy) (outcome : Nat → Except RequestError α) :
    ∃ n ≤ p.limit, (p.trace outcome).2.attempts = n + 1 ∧
      (p.trace outcome).2.pauses = (List.range n).map p.basePause ∧
      ((∀ i < p.limit, MayPass (failureOf (outcome i))) → n = p.limit) := by
  obtain ⟨n, hlimit, -, hlast, -, hattempts, hlength⟩ := p.trace_spec outcome
  obtain ⟨m, hpauses⟩ : ∃ m, (p.trace outcome).2.pauses = [] ++ (List.range' 0 m).map p.basePause :=
    p.traceFrom_pauses outcome p.limit 0 {}
  have hcount : m = n := by
    rw [← hlength, hpauses, List.nil_append, List.length_map, List.length_range']
  refine ⟨n, hlimit, hattempts, ?_, fun hpassing => ?_⟩
  · rw [hpauses, hcount, List.range_eq_range']
    rfl
  · rcases Nat.lt_or_eq_of_le hlimit with hlt | heq
    · exact hlast (hpassing n hlt)
    · exact heq

/-- The third pause is cut, and the fourth is no longer. -/
example : (RepeatPolicy.trace ⟨4, 100, 350⟩ fun _ => (.error .timeout : Except RequestError Unit)).2.pauses =
    [100, 200, 350, 350] := by decide

end

end RepeatPolicy

/-! ## A request over a link -/

/-- When the caller of a call was done with it: at its end, or when the time for it was up. -/
def Call.overAt (timeout : Nat) (c : Call) : Nat :=
  match c.finish with
  | some (time, _) => time
  | none => c.started + timeout

namespace RepeatPolicy

variable {p : RepeatPolicy} {timeout : Nat} {calls : List Call} {c : Call}

/-- From `last` to `time` it is the pause before a repetition, and at most half of it on top. -/
def Rests (p : RepeatPolicy) (k last time : Nat) : Prop :=
  last + p.basePause k ≤ time ∧ time ≤ last + p.basePause k + p.basePause k / 2

/-- Between each two calls, one after the other, is the pause before the repetition. -/
def Paces (p : RepeatPolicy) (timeout : Nat) (calls : List Call) : Prop :=
  ∀ k c next, calls[k]? = some c → calls[k + 1]? = some next → p.Rests k (c.overAt timeout) next.started

/-- At `time`, the pause after the last of the calls is over. -/
def Due (p : RepeatPolicy) (timeout : Nat) (calls : List Call) (time : Nat) : Prop :=
  ∀ c, calls.getLast? = some c → p.Rests (calls.length - 1) (c.overAt timeout) time

theorem paces_nil (p : RepeatPolicy) (timeout : Nat) : p.Paces timeout [] := fun _ _ _ h => by cases h

theorem due_nil (p : RepeatPolicy) (timeout time : Nat) : p.Due timeout [] time := fun _ h => by cases h

theorem due_concat {time : Nat} (h : p.Rests calls.length (c.overAt timeout) time) :
    p.Due timeout (calls ++ [c]) time := by
  intro c' hc'
  rw [List.getLast?_concat] at hc'
  cases hc'
  rwa [List.length_append, List.length_singleton, Nat.add_sub_cancel]

/-- Only when it starts matters of the last call. -/
theorem paces_concat_iff :
    p.Paces timeout (calls ++ [c]) ↔ p.Paces timeout calls ∧ p.Due timeout calls c.started := by
  constructor
  · intro h
    refine ⟨fun k a b ha hb => ?_, fun last hlast => ?_⟩
    · have hk := (List.getElem?_eq_some_iff.1 hb).1
      exact h k a b ((List.getElem?_append_left (by omega)).trans ha) ((List.getElem?_append_left hk).trans hb)
    · have hpos : 0 < calls.length := by
        cases calls with
        | nil => cases hlast
        | cons => exact Nat.succ_pos _
      rw [List.getLast?_eq_getElem?] at hlast
      refine h _ last c ((List.getElem?_append_left (by omega)).trans hlast) ?_
      rw [Nat.sub_add_cancel hpos]
      exact List.getElem?_concat_length
  · rintro ⟨hpaces, hdue⟩ k a b ha hb
    have hk : k + 1 < calls.length + 1 := by
      simpa using (List.getElem?_eq_some_iff.1 hb).1
    rw [List.getElem?_append_left (by omega)] at ha
    rcases Nat.lt_or_eq_of_le (Nat.le_of_lt_succ hk) with hlt | heq
    · rw [List.getElem?_append_left hlt] at hb
      exact hpaces k a b ha hb
    · rw [heq, List.getElem?_concat_length] at hb
      cases hb
      obtain rfl : k = calls.length - 1 := by omega
      exact hdue a (List.getLast?_eq_getElem?.trans ha)

/-- A call may end at any time, as far as the pauses up to it go. -/
theorem Paces.congr_last (h : p.Paces timeout (calls ++ [c])) {c' : Call} (hstarted : c'.started = c.started) :
    p.Paces timeout (calls ++ [c']) := by
  obtain ⟨hpaces, hdue⟩ := paces_concat_iff.1 h
  exact paces_concat_iff.2 ⟨hpaces, hstarted ▸ hdue⟩

end RepeatPolicy

/-- A pause over a link takes as long as the policy says, and at most half as long on top. -/
theorem Link.rests_pause {σ : Type} (p : RepeatPolicy) (k : Nat) (l : Link σ) :
    p.Rests k l.now (l.pause (p.basePause k)).now := by
  have hpass : (l.pause (p.basePause k)).now =
      max l.now (l.now + (p.basePause k + min (l.conditions.jitter l.pauses) (p.basePause k / 2))) :=
    (l.drawPause (p.basePause k)).1.now_passTo _
  rw [hpass]
  exact ⟨by omega, by omega⟩

namespace Dialogue

variable {σ : Type} [Endpoint σ] {p : RepeatPolicy} {timeout : Nat}

/-- Attempts over a link go on with the pauses where those in `before` left off. -/
theorem paces_attempt (p : RepeatPolicy) (timeout : Nat) (r : Request) (left : Nat) :
    ∀ (before : List Call) (l : Link σ), p.Paces timeout before → p.Due timeout before l.now →
      ∃ log, ((p.attempt wait (request r) left (p.basePause before.length)).run l).1.calls = l.calls ++ log ∧
        p.Paces timeout (before ++ log) := by
  induction left with
  | zero =>
    intro before l hpaces hdue
    exact ⟨_, l.calls_ask_eq r, RepeatPolicy.paces_concat_iff.2 ⟨hpaces, hdue⟩⟩
  | succ left ih =>
    intro before l hpaces hdue
    let c : Call := ⟨r, l.now, some ((l.ask r).1.now, (l.ask r).2)⟩
    have hcalls : (l.ask r).1.calls = l.calls ++ [c] := l.calls_ask_eq r
    have hpaced : p.Paces timeout (before ++ [c]) := RepeatPolicy.paces_concat_iff.2 ⟨hpaces, hdue⟩
    rw [run_attempt_succ]
    cases hanswer : (l.ask r).2 with
    | ok a => exact ⟨[c], hcalls, hpaced⟩
    | error e =>
      simp only
      cases e.retryable with
      | false => exact ⟨[c], hcalls, hpaced⟩
      | true =>
        rw [if_pos rfl]
        have hrest := Link.rests_pause p before.length (l.ask r).1
        obtain ⟨log, hlog, hlater⟩ := ih (before ++ [c]) ((l.ask r).1.pause (p.basePause before.length)) hpaced
          (RepeatPolicy.due_concat hrest)
        rw [List.length_append, Link.calls_pause, hcalls, List.append_assoc] at hlog
        rw [List.append_assoc] at hlater
        exact ⟨[c] ++ log, hlog, hlater⟩

/-- Between the calls of a request that is repeated are the pauses of the policy. -/
theorem paces_persist (p : RepeatPolicy) (timeout : Nat) (r : Request) (l : Link σ) :
    ∃ log, ((persist p r).run l).1.calls = l.calls ++ log ∧ p.Paces timeout log :=
  paces_attempt p timeout r p.limit [] l (p.paces_nil timeout) (p.due_nil timeout l.now)

end Dialogue

end ObjectFlush
