import Mathlib.Logic.Relation
import ObjectFlush.Proofs.Upload.SessionCall

/-!
The protocol that a session keeps, in whatever order its steps are asked for and whatever the store
answers. `Session.Moves` is the protocol: one move of a session, with the calls that it makes. Every step is
a sequence of moves (`Session.perform_reaches`), so what the moves keep, all histories keep
(`session_protocol`).
-/

namespace ObjectFlush

/-- The upload that a request is about. -/
def Request.upload? : Request → Option String
  | .uploadPart upload .. => some upload
  | .copyPart upload .. => some upload
  | .complete upload _ => some upload
  | .abort upload => some upload
  | .initiate _ => none
  | .put .. => none

namespace Call

/-- The call was answered, and not with a failure. -/
def succeeded (c : Call) : Bool :=
  match c.finish with
  | some (_, .ok _) => true
  | _ => false

def opens (c : Call) : Bool := c.request.lane = .initiate && c.succeeded

def completes (c : Call) : Bool := c.request.lane = .complete && c.succeeded

def aborts (c : Call) : Bool := c.request.lane = .abort

end Call

theorem BoundPart.SentBy.about {name : String} {job : BoundPart} {r : Request} (h : job.SentBy name r) :
    r.lane = .part job.number ∧ r.upload? = some name := by
  unfold SentBy at h
  split at h
  · subst h
    exact ⟨rfl, rfl⟩
  · obtain ⟨data, -, rfl⟩ := h
    exact ⟨rfl, rfl⟩

namespace SessionStage

/-- Steps lead from one stage to the other. -/
def Leads : SessionStage → SessionStage → Prop :=
  Relation.ReflTransGen fun source target => source.leadsTo target = true

/-- The stages are listed in the order in which sessions go through them. -/
theorem Leads.eq_or_before {source target : SessionStage} (h : source.Leads target) :
    source = target ∨ source.ctorIdx < target.ctorIdx := by
  have hstep : ∀ {a b : SessionStage}, a.leadsTo b = true → a.ctorIdx < b.ctorIdx := by
    intro a b
    cases a <;> cases b <;> decide
  induction h with
  | refl => exact .inl rfl
  | tail _ step ih =>
    have hlast := hstep step
    rcases ih with rfl | hbefore
    · exact .inr hlast
    · exact .inr (Nat.lt_trans hbefore hlast)

end SessionStage

/-- What a log of a session for `key` keeps to. -/
structure Disciplined (key : ObjectKey) (log : List Call) : Prop where
  opened : log.countP Call.opens ≤ 1
  completed : log.countP Call.completes ≤ 1
  aborted : log.countP Call.aborts ≤ 1
  /-- No completion comes after an abort. -/
  order : log.Pairwise fun c d => c.aborts → d.request.lane ≠ .complete
  /-- A call about an upload names the one that an earlier call has opened. -/
  named : ∀ before c, before ++ [c] <+: log → ∀ name, c.request.upload? = some name →
    ∃ opening ∈ before, opening.Answered (.initiate key) (.ok name)

namespace Session

/-! ## The moves of a session -/

/-- One move of a session, with the calls that it makes. -/
inductive Moves : Session → List Call → Session → Prop
  | refused {s : Session} {c : Call} {e : RequestError} (stage : s.stage = .idle)
    (call : c.Answered (.initiate s.key) (.error e)) : Moves s [c] s
  | opened {s : Session} {c : Call} {name : String} (stage : s.stage = .idle)
    (call : c.Answered (.initiate s.key) (.ok name)) :
    Moves s [c] { s with stage := .initiated, upload := some name }
  | entered {s : Session} {target : SessionStage} (step : s.stage.leadsTo target = true)
    (begun : s.stage ≠ .idle) (goesOn : target.isFinal = false) : Moves s [] { s with stage := target }
  | part {s : Session} {c : Call} {name : String} {number : Nat} (stage : s.stage = .uploading)
    (upload : s.upload = some name) (call : c.request.lane = .part number)
    (named : c.request.upload? = some name) : Moves s [c] s
  | kept (s : Session) (receipts : List Receipt) : Moves s [] { s with receipts }
  | failed {s : Session} {c : Call} {name : String} {e : RequestError} (stage : s.stage = .completing)
    (upload : s.upload = some name) (call : c.Answered (.complete name s.receipts) (.error e)) :
    Moves s [c] s
  | completed {s : Session} {c : Call} {name : String} {written : ObjectSummary}
    (stage : s.stage = .completing) (upload : s.upload = some name)
    (call : c.Answered (.complete name s.receipts) (.ok written)) :
    Moves s [c] { s with stage := .completed }
  | aborted {s : Session} {c : Call} {name : String} {answer : Except RequestError Unit}
    (stage : s.stage = .aborting) (upload : s.upload = some name)
    (call : c.Answered (.abort name) answer) : Moves s [c] { s with stage := .aborted }

/-- Moves of a session, one after the other. -/
inductive Goes : Session → List Call → Session → Prop
  | nil {s : Session} : Goes s [] s
  | snoc {s t u : Session} {log calls : List Call} (goes : Goes s log t) (move : Moves t calls u) :
    Goes s (log ++ calls) u

namespace Goes

variable {s t u : Session} {log log' : List Call}

theorem one (h : Moves s log t) : Goes s log t := .snoc .nil h

theorem trans (h : Goes s log t) (h' : Goes t log' u) : Goes s (log ++ log') u := by
  induction h' with
  | nil =>
    rw [List.append_nil]
    exact h
  | snoc _ move ih =>
    rw [← List.append_assoc]
    exact .snoc ih move

/-- Moves that lead nowhere, each with its call. -/
theorem repeated (h : ∀ c ∈ log, Moves s [c] s) : Goes s log s := by
  induction log with
  | nil => exact .nil
  | cons c log ih =>
    obtain ⟨hc, hlog⟩ := List.forall_mem_cons.1 h
    exact (one hc).trans (ih hlog)

end Goes

variable {σ : Type}

/-- The session goes from one to the other, and the log grows by the calls of its moves. -/
def Reaches (s : Session) (l : Link σ) (t : Session) (l' : Link σ) : Prop :=
  ∃ log, l'.calls = l.calls ++ log ∧ s.Goes log t

theorem Reaches.refl (s : Session) (l : Link σ) : s.Reaches l s l :=
  ⟨[], (List.append_nil _).symm, .nil⟩

theorem Reaches.trans {s t u : Session} {l l' l'' : Link σ} (h : s.Reaches l t l')
    (h' : t.Reaches l' u l'') : s.Reaches l u l'' := by
  obtain ⟨log, hlog, hgoes⟩ := h
  obtain ⟨log', hlog', hgoes'⟩ := h'
  exact ⟨log ++ log', by rw [hlog', hlog, List.append_assoc], hgoes.trans hgoes'⟩

variable [Endpoint σ]

theorem start_reaches (s : Session) (l : Link σ) :
    s.Reaches l (s.start.run l).2.1 (s.start.run l).1 := by
  obtain ⟨c, hc, hcalls⟩ := l.calls_ask (.initiate s.key)
  rcases s.start_cases l with ⟨-, hrun⟩ | ⟨hidle, ⟨e, hanswer, hrun⟩ | ⟨name, hanswer, hrun⟩⟩
  · rw [hrun]
    exact .refl s l
  · rw [hanswer] at hc
    rw [hrun]
    exact ⟨[c], hcalls, .one (.refused hidle hc)⟩
  · rw [hanswer] at hc
    rw [hrun]
    exact ⟨[c], hcalls, .one (.opened hidle hc)⟩

theorem sendParts_reaches (s : Session) (jobs : List BoundPart) (l : Link σ) :
    s.Reaches l ((s.sendParts jobs).run l).2.1 ((s.sendParts jobs).run l).1 := by
  rcases s.sendParts_cases jobs l with ⟨-, hrun⟩ | ⟨hstage, name, hupload, hsent⟩
  · rw [hrun]
    exact .refl s l
  · obtain ⟨log, hlog, hparts⟩ := PartRun.sentBy_of_run s.policy name s.cancel jobs l
    have henter : s.Goes [] { s with stage := .uploading } :=
      .one (.entered (leadsTo_uploading.2 hstage) (by rw [hstage]; decide) rfl)
    have hgoes : s.Goes log { s with stage := .uploading } := by
      refine henter.trans (.repeated fun c hc => ?_)
      obtain ⟨job, -, hsent⟩ := hparts c hc
      exact .part rfl hupload hsent.about.1 hsent.about.2
    rcases hsent with ⟨e, -, hrun⟩ | ⟨receipts, -, hrun⟩
    · rw [hrun]
      exact ⟨log, hlog, hgoes⟩
    · rw [hrun]
      refine ⟨log, hlog, ?_⟩
      have hkept := hgoes.trans (.one (.kept _ receipts))
      rw [List.append_nil] at hkept
      exact hkept

theorem complete_reaches (s : Session) (l : Link σ) :
    s.Reaches l (s.complete.run l).2.1 (s.complete.run l).1 := by
  rcases s.complete_cases l with ⟨-, hrun⟩ |
    ⟨hstage, name, hupload, failed, last, hcalls, hfailed, hdecided⟩
  · rw [hrun]
    exact .refl s l
  · have henter : s.Goes [] { s with stage := .completing } :=
      .one (.entered (leadsTo_completing.2 hstage) (by rw [hstage]; decide) rfl)
    have hgoes : s.Goes failed { s with stage := .completing } := by
      refine henter.trans (.repeated fun c hc => ?_)
      obtain ⟨e, hc⟩ := hfailed c hc
      exact .failed rfl hupload hc
    refine ⟨_, hcalls, ?_⟩
    rcases hdecided with ⟨e, hlast, hrun⟩ | ⟨written, hlast, hrun⟩
    · rw [hrun]
      exact hgoes.trans (.one (.failed rfl hupload hlast))
    · rw [hrun]
      exact hgoes.trans (.one (.completed rfl hupload hlast))

theorem abort_reaches (s : Session) (l : Link σ) :
    s.Reaches l (s.abort.run l).2.1 (s.abort.run l).1 := by
  rcases s.abort_cases l with ⟨-, hrun⟩ | ⟨hstage, name, hupload, c, answer, hcalls, hc, hleft, -⟩
  · rw [hrun]
    exact .refl s l
  · have hbegun : s.stage ≠ .idle := by
      intro hidle
      rw [hidle] at hstage
      cases hstage
    rw [hleft]
    exact ⟨[c], hcalls, .trans (.one (.entered hstage hbegun rfl)) (.one (.aborted rfl hupload hc))⟩

theorem execute_reaches (s : Session) (jobs : List BoundPart) (l : Link σ) :
    s.Reaches l ((s.execute jobs).run l).2.1 ((s.execute jobs).run l).1 := by
  rw [execute_run]
  have hstart := s.start_reaches l
  generalize s.start.run l = started at hstart ⊢
  obtain ⟨l₁, s₁, e | name⟩ := started
  · exact hstart
  · have hsent := hstart.trans (s₁.sendParts_reaches jobs l₁)
    dsimp only
    generalize (s₁.sendParts jobs).run l₁ = sent at hsent ⊢
    obtain ⟨l₂, s₂, e | ⟨⟩⟩ := sent
    · exact hsent.trans (s₂.abort_reaches l₂)
    · have hdone := hsent.trans (s₂.complete_reaches l₂)
      dsimp only
      generalize s₂.complete.run l₂ = done at hdone ⊢
      obtain ⟨l₃, s₃, e | written⟩ := done
      · exact hdone.trans (s₃.abort_reaches l₃)
      · exact hdone

/-! ## What the moves keep -/

theorem Moves.leads {s t : Session} {log : List Call} (h : s.Moves log t) :
    t.stage = s.stage ∨ s.stage.leadsTo t.stage = true := by
  cases h with
  | refused => exact .inl rfl
  | opened stage => exact .inr (leadsTo_initiated.2 stage)
  | entered step => exact .inr step
  | part => exact .inl rfl
  | kept => exact .inl rfl
  | failed => exact .inl rfl
  | completed stage => exact .inr (by rw [stage]; rfl)
  | aborted stage => exact .inr (by rw [stage]; rfl)

/-- A session that is over says nothing more. -/
theorem Moves.quiet {s t : Session} {log : List Call} (h : s.Moves log t) (hover : s.stage.isFinal = true) :
    log = [] ∧ t.stage = s.stage := by
  cases h with
  | entered step =>
    revert step hover
    cases s.stage <;> simp [SessionStage.leadsTo, SessionStage.isFinal]
  | kept => exact ⟨rfl, rfl⟩
  | refused stage | opened stage | part stage | failed stage | completed stage | aborted stage =>
    rw [stage] at hover
    cases hover

theorem Goes.leads {s t : Session} {log : List Call} (h : s.Goes log t) :
    SessionStage.Leads s.stage t.stage := by
  induction h with
  | nil => exact .refl
  | snoc _ move ih =>
    rcases move.leads with heq | hstep
    · rw [heq]
      exact ih
    · exact ih.tail hstep

theorem Goes.quiet {s t : Session} {log : List Call} (h : s.Goes log t)
    (hover : s.stage.isFinal = true) : log = [] ∧ t.stage = s.stage := by
  induction h with
  | nil => exact ⟨rfl, rfl⟩
  | snoc _ move ih =>
    obtain ⟨rfl, hstage⟩ := ih
    obtain ⟨rfl, hnext⟩ := move.quiet (hstage ▸ hover)
    exact ⟨rfl, hnext.trans hstage⟩

/-- The log of a session for `key` tells where the session is. -/
structure Told (key : ObjectKey) (s : Session) (log : List Call) : Prop where
  sameKey : s.key = key
  /-- The upload has a name from its start on. -/
  named : s.upload = none ↔ s.stage = .idle
  opened : log.countP Call.opens = if s.stage = .idle then 0 else 1
  completed : log.countP Call.completes = if s.stage = .completed then 1 else 0
  aborted : log.countP Call.aborts = if s.stage = .aborted then 1 else 0
  disciplined : Disciplined key log
  opening : ∀ name, s.upload = some name → ∃ c ∈ log, c.Answered (.initiate key) (.ok name)

theorem told_nil (key : ObjectKey) (policy : PartPolicy) (cancel : Option Signal) :
    Told key { key, policy, cancel } [] := by
  refine ⟨rfl, iff_of_true rfl rfl, rfl, rfl, rfl, ⟨Nat.zero_le _, Nat.zero_le _, Nat.zero_le _, .nil, ?_⟩,
    fun _ h => by cases h⟩
  intro before c hprefix
  cases (List.append_eq_nil_iff.1 (List.prefix_nil.1 hprefix)).2

/-- A step from stage to stage that neither begins nor ends a session has no part in its ends. -/
theorem ends_apart {source target : SessionStage} (step : source.leadsTo target = true)
    (begun : source ≠ .idle) (goesOn : target.isFinal = false) :
    ∀ stage ∈ [SessionStage.idle, .completed, .aborted], target = stage ↔ source = stage := by
  cases source <;> cases target <;> revert step begun goesOn <;> decide

namespace Told

variable {key : ObjectKey} {s t : Session} {log : List Call} {c : Call}

/-- A move without a call. -/
theorem silent (h : s.Told key log) (hkey : t.key = s.key) (hupload : t.upload = s.upload)
    (hstage : ∀ stage ∈ [SessionStage.idle, .completed, .aborted], t.stage = stage ↔ s.stage = stage) :
    t.Told key log := by
  have hidle := hstage .idle (by simp)
  have hcompleted := hstage .completed (by simp)
  have haborted := hstage .aborted (by simp)
  refine ⟨hkey.trans h.sameKey, ?_, ?_, ?_, ?_, h.disciplined, ?_⟩
  · rw [hupload, hidle]
    exact h.named
  · rw [h.opened]
    simp only [hidle]
  · rw [h.completed]
    simp only [hcompleted]
  · rw [h.aborted]
    simp only [haborted]
  · rw [hupload]
    exact h.opening

/-- A move with a call. -/
theorem call (h : s.Told key log) (hover : s.stage.isFinal = false) (hkey : t.key = s.key)
    (hnamed : t.upload = none ↔ t.stage = .idle)
    (hopens : (if c.opens then 1 else 0) + (if s.stage = .idle then 0 else 1) =
      if t.stage = .idle then 0 else 1)
    (hcompletes : c.completes = decide (t.stage = .completed))
    (haborts : c.aborts = decide (t.stage = .aborted))
    (habout : ∀ name, c.request.upload? = some name → s.upload = some name)
    (hupload : ∀ name, t.upload = some name →
      s.upload = some name ∨ c.Answered (.initiate key) (.ok name)) : t.Told key (log ++ [c]) := by
  have hcompleted : s.stage ≠ .completed := by
    intro hstage
    rw [hstage] at hover
    cases hover
  have haborted : s.stage ≠ .aborted := by
    intro hstage
    rw [hstage] at hover
    cases hover
  have hnone := h.aborted
  rw [if_neg haborted] at hnone
  have hfirst := h.completed
  rw [if_neg hcompleted] at hfirst
  have hcountOpens : (log ++ [c]).countP Call.opens = if t.stage = .idle then 0 else 1 := by
    rw [List.countP_append, h.opened, List.countP_singleton, Nat.add_comm]
    exact hopens
  have hcountCompletes : (log ++ [c]).countP Call.completes = if t.stage = .completed then 1 else 0 := by
    rw [List.countP_append, hfirst, List.countP_singleton, hcompletes, Nat.zero_add]
    simp
  have hcountAborts : (log ++ [c]).countP Call.aborts = if t.stage = .aborted then 1 else 0 := by
    rw [List.countP_append, hnone, List.countP_singleton, haborts, Nat.zero_add]
    simp
  refine ⟨hkey.trans h.sameKey, hnamed, hcountOpens, hcountCompletes, hcountAborts,
    ⟨?_, ?_, ?_, ?_, ?_⟩, ?_⟩
  · rw [hcountOpens]
    split <;> decide
  · rw [hcountCompletes]
    split <;> decide
  · rw [hcountAborts]
    split <;> decide
  · -- None of the calls before was an abort.
    refine List.pairwise_append.2 ⟨h.disciplined.order, List.pairwise_singleton .., ?_⟩
    intro b hb d _ habort
    exact absurd habort (List.countP_eq_zero.1 hnone b hb)
  · intro before d hprefix name hname
    rcases List.prefix_concat_iff.1 hprefix with heq | hprefix
    · obtain ⟨rfl, hd⟩ := List.append_inj' heq rfl
      cases hd
      exact h.opening name (habout name hname)
    · exact h.disciplined.named before d hprefix name hname
  · intro name hname
    rcases hupload name hname with hname | hc
    · obtain ⟨o, ho, hopening⟩ := h.opening name hname
      exact ⟨o, List.mem_append_left _ ho, hopening⟩
    · exact ⟨c, List.mem_append_right _ (List.mem_singleton.2 rfl), hc⟩

/-- What a move keeps. -/
theorem move (h : s.Told key log) {calls : List Call} (hmove : s.Moves calls t) :
    t.Told key (log ++ calls) := by
  cases hmove with
  | refused stage call =>
    obtain ⟨started, time, rfl⟩ := call
    exact h.call (by rw [stage]; rfl) rfl h.named (by rw [stage]; rfl) (by rw [stage]; rfl)
      (by rw [stage]; rfl) (fun _ hname => by cases hname) fun _ hname => .inl hname
  | opened stage call =>
    have hopening := h.sameKey ▸ call
    obtain ⟨started, time, rfl⟩ := call
    refine h.call (by rw [stage]; rfl) rfl ?_ (by rw [stage]; rfl) rfl rfl
      (fun _ hname => by cases hname) ?_
    · exact iff_of_false (fun h => by cases h) (fun h => by cases h)
    · intro upload hupload
      cases hupload
      exact .inr hopening
  | entered step begun goesOn =>
    rw [List.append_nil]
    exact h.silent rfl rfl (ends_apart step begun goesOn)
  | part stage upload call named =>
    refine h.call (by rw [stage]; rfl) rfl h.named ?_ ?_ ?_ ?_ fun _ hname => .inl hname
    · simp [Call.opens, call, stage]
    · simp [Call.completes, call, stage]
    · simp [Call.aborts, call, stage]
    · intro name hname
      rw [upload, ← named, hname]
  | kept receipts =>
    rw [List.append_nil]
    exact h.silent rfl rfl fun _ _ => .rfl
  | failed stage upload call =>
    obtain ⟨started, time, rfl⟩ := call
    exact h.call (by rw [stage]; rfl) rfl h.named (by rw [stage]; rfl) (by rw [stage]; rfl)
      (by rw [stage]; rfl) (fun _ hname => upload.trans hname) fun _ hname => .inl hname
  | completed stage upload call =>
    obtain ⟨started, time, rfl⟩ := call
    refine h.call (by rw [stage]; rfl) rfl ?_ (by rw [stage]; rfl) rfl rfl
      (fun _ hname => upload.trans hname) fun _ hname => .inl hname
    exact iff_of_false (fun hnone => by cases upload.symm.trans hnone) (fun h => by cases h)
  | aborted stage upload call =>
    obtain ⟨started, time, rfl⟩ := call
    refine h.call (by rw [stage]; rfl) rfl ?_ (by rw [stage]; rfl) rfl rfl
      (fun _ hname => upload.trans hname) fun _ hname => .inl hname
    exact iff_of_false (fun hnone => by cases upload.symm.trans hnone) (fun h => by cases h)

theorem goes (h : s.Told key log) {calls : List Call} (hgoes : s.Goes calls t) :
    t.Told key (log ++ calls) := by
  induction hgoes with
  | nil =>
    rw [List.append_nil]
    exact h
  | snoc _ hmove ih =>
    rw [← List.append_assoc]
    exact ih.move hmove

end Told

end Session

/-! ## Histories of a session -/

/-- What may be asked of a session. -/
inductive SessionCall where
  | start
  | sendParts (jobs : List BoundPart)
  | complete
  | abort
  | execute (jobs : List BoundPart)

/-- What a session answers with, unless it fails. -/
def SessionCall.Answer : SessionCall → Type
  | .start => String
  | .sendParts _ => Unit
  | .complete => ObjectSummary
  | .abort => Unit
  | .execute _ => ObjectSummary

/-- What a session lives through: it is called, a signal is raised, or time passes. -/
inductive SessionEvent where
  | call (call : SessionCall)
  | raise (signal : Signal)
  | wait (length : Nat)

/-- A call of a session: the link and the session before and after it, and its answer. -/
structure Occasion (σ : Type) where
  link : Link σ
  session : Session
  call : SessionCall
  after : Link σ
  left : Session
  answer : Except SessionError call.Answer

namespace Occasion

variable {σ : Type}

/-- The calls that were made on an occasion. -/
def log (o : Occasion σ) : List Call := o.after.calls.drop o.link.calls.length

/-- How the session failed on an occasion, if it did. -/
def failure? (o : Occasion σ) : Option SessionError :=
  match o.answer with
  | .ok _ => none
  | .error e => some e

end Occasion

namespace Session

def perform (s : Session) : (c : SessionCall) → Dialogue (Session × Except SessionError c.Answer)
  | .start => s.start
  | .sendParts jobs => s.sendParts jobs
  | .complete => s.complete
  | .abort => s.abort
  | .execute jobs => s.execute jobs

variable {σ : Type} [Endpoint σ]

/-- The occasion on which a session is called. The call is awaited to its end. -/
def occasion (s : Session) (l : Link σ) (c : SessionCall) : Occasion σ :=
  let out := (s.perform c).run l
  ⟨l, s, c, out.1, out.2.1, out.2.2⟩

/-- The calls of a session over a history, first to last. -/
def course (s : Session) (l : Link σ) : List SessionEvent → List (Occasion σ)
  | [] => []
  | .call c :: events =>
    s.occasion l c :: course (s.occasion l c).left (s.occasion l c).after events
  | .raise signal :: events => course s (l.raise signal) events
  | .wait length :: events => course s (l.passTo (l.now + length)) events

theorem perform_reaches (s : Session) (c : SessionCall) (l : Link σ) :
    s.Reaches l ((s.perform c).run l).2.1 ((s.perform c).run l).1 := by
  cases c with
  | start => exact s.start_reaches l
  | sendParts jobs => exact s.sendParts_reaches jobs l
  | complete => exact s.complete_reaches l
  | abort => exact s.abort_reaches l
  | execute jobs => exact s.execute_reaches jobs l

/-- What a session is not ready for it refuses without a word. -/
theorem perform_refused (s : Session) (c : SessionCall) (l : Link σ) (source target : SessionStage)
    (h : ((s.perform c).run l).2.2 = .error (.invalidTransition source target)) :
    ((s.perform c).run l).1 = l ∧ ((s.perform c).run l).2.1 = s := by
  cases c with
  | start =>
    change (s.start.run l).2.2 = _ at h
    show (s.start.run l).1 = l ∧ (s.start.run l).2.1 = s
    rcases s.start_cases l with ⟨-, hrun⟩ | ⟨-, ⟨e, -, hrun⟩ | ⟨name, -, hrun⟩⟩
    · rw [hrun]
      exact ⟨rfl, rfl⟩
    · rw [hrun] at h
      cases h
    · rw [hrun] at h
      cases h
  | sendParts jobs =>
    change ((s.sendParts jobs).run l).2.2 = _ at h
    show ((s.sendParts jobs).run l).1 = l ∧ ((s.sendParts jobs).run l).2.1 = s
    rcases s.sendParts_cases jobs l with ⟨-, hrun⟩ | ⟨-, name, -, ⟨e, -, hrun⟩ | ⟨receipts, -, hrun⟩⟩
    · rw [hrun]
      exact ⟨rfl, rfl⟩
    · rw [hrun] at h
      cases h
    · rw [hrun] at h
      cases h
  | complete =>
    change (s.complete.run l).2.2 = _ at h
    show (s.complete.run l).1 = l ∧ (s.complete.run l).2.1 = s
    rcases s.complete_cases l with ⟨-, hrun⟩ |
      ⟨-, name, -, failed, last, -, -, ⟨e, -, hrun⟩ | ⟨written, -, hrun⟩⟩
    · rw [hrun]
      exact ⟨rfl, rfl⟩
    · rw [hrun] at h
      cases h
    · rw [hrun] at h
      cases h
  | abort =>
    change (s.abort.run l).2.2 = _ at h
    show (s.abort.run l).1 = l ∧ (s.abort.run l).2.1 = s
    rcases s.abort_cases l with ⟨-, hrun⟩ | ⟨-, name, -, c, answer, -, -, -, hanswer⟩
    · rw [hrun]
      exact ⟨rfl, rfl⟩
    · rw [hanswer] at h
      cases answer <;> cases h
  | execute jobs =>
    change ((s.execute jobs).run l).2.2 = _ at h
    show ((s.execute jobs).run l).1 = l ∧ ((s.execute jobs).run l).2.1 = s
    by_cases hidle : s.stage = .idle
    · -- Once it may start, a transaction is refused nothing.
      cases hanswer : (l.ask (.initiate s.key)).2 with
      | error e =>
        rw [s.execute_unopened hidle jobs l hanswer] at h
        cases h
      | ok name =>
        obtain ⟨opening, parts, rest, -, -, -, hconcludes⟩ := s.execute_concludes hidle jobs l hanswer
        exact absurd h (hconcludes.not_refused source target)
    · rw [s.execute_refused hidle]
      exact ⟨rfl, rfl⟩

end Session

/-- What a call of a session keeps to. -/
structure Occasion.Lawful {σ : Type} (o : Occasion σ) : Prop where
  /-- The stages follow the steps of a session, -/
  forward : o.session.stage.Leads o.left.stage
  /-- and a session that has moved on never comes back. -/
  noReturn : o.left.stage ≠ o.session.stage → ¬o.left.stage.Leads o.session.stage
  named : o.session.upload.isSome ↔ o.session.stage ≠ .idle
  leftNamed : o.left.upload.isSome ↔ o.left.stage ≠ .idle
  /-- What is refused changes nothing, and nothing is sent. -/
  refused : ∀ source target, o.answer = .error (.invalidTransition source target) →
    o.left = o.session ∧ o.after = o.link
  /-- A session that is over sends nothing. -/
  silent : o.session.stage.isFinal = true → o.after.calls = o.link.calls

namespace Session

variable {σ : Type} [Endpoint σ]

/-- An occasion of a session whose log, since the calls of `origin`, tells where it is. -/
structure Witnessed (key : ObjectKey) (origin : List Call) (o : Occasion σ) : Prop where
  performed : (o.session.perform o.call).run o.link = (o.after, o.left, o.answer)
  told : ∃ log, o.link.calls = origin ++ log ∧ o.session.Told key log

theorem witnessed_of_course {key : ObjectKey} {origin : List Call} (events : List SessionEvent) :
    ∀ (s : Session) (l : Link σ), (∃ log, l.calls = origin ++ log ∧ s.Told key log) →
      ∀ o ∈ s.course l events, Witnessed key origin o := by
  induction events with
  | nil => exact fun _ _ _ _ ho => by cases ho
  | cons event events ih =>
    intro s l htold
    cases event with
    | call c =>
      intro o ho
      rcases List.mem_cons.1 ho with rfl | ho
      · exact ⟨rfl, htold⟩
      · refine ih _ _ ?_ o ho
        obtain ⟨log, hlog, htold⟩ := htold
        obtain ⟨calls, hcalls, hgoes⟩ : s.Reaches l (s.occasion l c).left (s.occasion l c).after :=
          s.perform_reaches c l
        exact ⟨log ++ calls, by rw [hcalls, hlog, List.append_assoc], htold.goes hgoes⟩
    | raise signal => exact ih s (l.raise signal) htold
    | wait length =>
      refine ih s (l.passTo (l.now + length)) ?_
      rw [Link.calls_passTo]
      exact htold

end Session

/-- **A session keeps to its protocol.** Whatever is asked of a new session, in whatever order, and
whatever the store answers: its stages only go forward, its upload has a name once it has begun, what it is
not ready for it refuses without a word, and its log is disciplined. -/
theorem session_protocol {σ : Type} [Endpoint σ] (key : ObjectKey) (policy : PartPolicy)
    (cancel : Option Signal) (l : Link σ) (events : List SessionEvent) :
    ∀ o ∈ ({ key, policy, cancel } : Session).course l events,
      o.Lawful ∧ ∃ log, o.after.calls = l.calls ++ log ∧ Disciplined key log := by
  intro o ho
  obtain ⟨hperformed, log, hlog, htold⟩ := Session.witnessed_of_course events _ l
    ⟨[], (List.append_nil _).symm, Session.told_nil key policy cancel⟩ o ho
  obtain ⟨calls, hcalls, hgoes⟩ := o.session.perform_reaches o.call o.link
  have hrefused := o.session.perform_refused o.call o.link
  rw [hperformed] at hcalls hgoes hrefused
  have hleft := htold.goes hgoes
  refine ⟨⟨hgoes.leads, ?_, ?_, ?_, ?_, ?_⟩, log ++ calls, ?_, hleft.disciplined⟩
  · intro hmoved hback
    rcases hgoes.leads.eq_or_before with heq | hforth
    · exact hmoved heq.symm
    · rcases hback.eq_or_before with heq | hbefore
      · exact hmoved heq
      · exact Nat.lt_asymm hforth hbefore
  · rw [Option.isSome_iff_ne_none, ne_eq, htold.named]
  · rw [Option.isSome_iff_ne_none, ne_eq, hleft.named]
  · intro source target h
    exact (hrefused source target h).symm
  · intro hover
    rw [show o.after.calls = _ from hcalls, (hgoes.quiet hover).1, List.append_nil]
  · rw [show o.after.calls = _ from hcalls, hlog, List.append_assoc]

/-- A session whose completion fails is aborted, and then refuses to complete the upload after all. -/
theorem completion_after_abort_refused :
    let policy : PartPolicy :=
      { concurrency := 1, retry := { limit := 0, pause := 10, longestPause := 10 }, timeout := 50 }
    let failing : Conditions := { reaction := fun lane _ =>
      match lane with
      | .complete => { failure := some (.http 503 "busy") }
      | _ => {} }
    let link : Link DryRun := { endpoint := {}, conditions := failing }
    let key : ObjectKey := ⟨"k", by decide⟩
    let session : Session := { key, policy }
    let started := session.occasion link .start
    let sent := started.left.occasion started.after (.sendParts [⟨1, 2, .buffer [1, 2] 0⟩])
    let failed := sent.left.occasion sent.after .complete
    let aborted := failed.left.occasion failed.after .abort
    let refused := aborted.left.occasion aborted.after .complete
    failed.failure? = some (.completeFailed (.http 503 "busy")) ∧
      refused.failure? = some (.invalidTransition .aborted .completing) ∧
      refused.Lawful ∧ ∃ log, refused.after.calls = link.calls ++ log ∧ Disciplined key log := by
  intro policy failing link key session started sent failed aborted refused
  have hfailed : failed.failure? = some (.completeFailed (.http 503 "busy")) := by
    unfold failed sent started session key link failing policy
    cbv
  have hrefused : refused.failure? = some (.invalidTransition .aborted .completing) := by
    unfold refused aborted failed sent started session key link failing policy
    cbv
  have hcourse : refused ∈ session.course link [.call .start,
      .call (.sendParts [⟨1, 2, .buffer [1, 2] 0⟩]), .call .complete, .call .abort, .call .complete] := by
    change refused ∈ [started, sent, failed, aborted, refused]
    simp
  exact ⟨hfailed, hrefused, session_protocol key policy none link _ refused hcourse⟩

end ObjectFlush
