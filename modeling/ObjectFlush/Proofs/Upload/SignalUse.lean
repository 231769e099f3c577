import ObjectFlush.Proofs.Upload.CancelledFlush
import ObjectFlush.Proofs.Upload.Protocol
import ObjectFlush.Proofs.Upload.Signals

/-!
Sessions and flushes as uses of the signal that cancels them. A use keeps to the signal (`SignalUse.heeds_dialogue`):
it is cancelled by that signal only, and raises it when it makes an abort, as a transaction does that fails after its
start. If the signal is raised all the while, a transaction is cancelled (`SignalUse.doomed_dialogue`).
-/

namespace ObjectFlush

/-! ## A session and its signal -/

namespace Session

open Dialogue

variable {α : Type} {signal : Signal} {aborted : Bool} {s : Session}

/-- The session watches the signal, and has made its abort or not. -/
structure Watches (signal : Signal) (aborted : Bool) (s : Session) : Prop where
  cancel : s.cancel = some signal
  stage : aborted = true → s.stage = .aborted

theorem Watches.unaborted (h : s.Watches signal aborted) (hstage : s.stage ≠ .aborted) : aborted = false :=
  Bool.eq_false_iff.2 fun haborted => hstage (h.stage haborted)

theorem Watches.of_cancel (h : s.cancel = some signal) : s.Watches signal false :=
  ⟨h, fun haborted => absurd haborted Bool.false_ne_true⟩

/-- The upload has been started and not ended, so that an abort may be made. -/
structure IsOpen (s : Session) : Prop where
  stage : s.stage.leadsTo .aborting = true
  upload : s.upload.isSome = true

/-- What a call leaves: a session that watches the signal, and if it was cancelled, somebody else is to blame. -/
structure Answers (signal : Signal) (aborted : Bool) (blamed : Prop) (out : Session × Except SessionError α) :
    Prop where
  watches : out.1.Watches signal aborted
  blames : out.2 = .error (.upload .cancelled) → blamed

/-- What a transaction leaves. One that fails after its start has made its abort. -/
structure Transacted (signal : Signal) (aborted : Bool) (blamed : Prop)
    (out : Session × Except SessionError ObjectSummary) : Prop extends Answers signal aborted blamed out where
  aborts : ∀ e, out.2 = .error e → (∃ cause, e = .initFailed cause) ∨ aborted = true

section

variable (h : s.Watches signal aborted) (blamed : Prop)
include h

theorem heeds_start : s.start.Heeds signal (Answers signal) aborted blamed := by
  unfold start
  split
  · next hstage =>
    obtain rfl : aborted = false := h.unaborted (by rw [leadsTo_initiated.1 hstage]; decide)
    refine .ask (fun hlane => by cases hlane) fun answer => ?_
    cases answer with
    | ok name => exact .done ⟨.of_cancel h.cancel, fun hout => by cases hout⟩
    | error e => exact .done ⟨h, fun hout => by cases hout⟩
  · exact .done ⟨h, fun hout => by cases hout⟩

theorem heeds_sendParts (parts : List BoundPart) :
    (s.sendParts parts).Heeds signal
      (fun aborted' blamed' out =>
        Answers signal aborted' blamed' out ∧ (s.IsOpen → out.1.IsOpen)) aborted blamed := by
  unfold sendParts
  rcases s.enter_cases .uploading with ⟨-, henter⟩ | ⟨hstage, name, -, henter⟩
  · rw [henter]
    exact .done ⟨⟨h, fun hout => by cases hout⟩, id⟩
  · rw [henter]
    obtain rfl : aborted = false := h.unaborted (by rw [leadsTo_uploading.1 hstage]; decide)
    refine .parts rfl h.cancel fun outcome => ?_
    cases outcome with
    | ok receipts =>
      exact .done ⟨⟨.of_cancel h.cancel, fun hout => by cases hout⟩, fun hopen => ⟨rfl, hopen.upload⟩⟩
    | error e =>
      refine .done ⟨⟨.of_cancel h.cancel, fun hout => .inr ?_⟩, fun hopen => ⟨rfl, hopen.upload⟩⟩
      cases hout
      rfl

theorem heeds_complete : s.complete.Heeds signal
    (fun aborted' blamed' out => Answers signal aborted' blamed' out ∧
      (s.IsOpen → ∀ e, out.2 = .error e → out.1.IsOpen)) aborted blamed := by
  unfold complete
  rcases s.enter_cases .completing with ⟨-, henter⟩ | ⟨hstage, name, -, henter⟩
  · rw [henter]
    exact .done ⟨⟨h, fun hout => by cases hout⟩, fun hopen _ _ => hopen⟩
  · rw [henter]
    obtain rfl : aborted = false := h.unaborted (by rw [leadsTo_completing.1 hstage]; decide)
    have hlane : (Request.complete name s.receipts).lane ≠ .abort := fun hlane => by cases hlane
    refine (heeds_persist s.policy.retry hlane false blamed).bind ?_
    rintro aborted' blamed' answer ⟨rfl, -⟩ -
    cases answer with
    | ok written => exact .done ⟨⟨.of_cancel h.cancel, fun hout => by cases hout⟩, fun _ _ he => by cases he⟩
    | error e =>
      exact .done ⟨⟨.of_cancel h.cancel, fun hout => by cases hout⟩, fun hopen _ _ => ⟨rfl, hopen.upload⟩⟩

theorem heeds_abort : s.abort.Heeds signal
    (fun aborted' blamed' out => Answers signal aborted' blamed' out ∧ (s.IsOpen → aborted' = true)) aborted
    blamed := by
  unfold abort
  rcases s.enter_cases .aborting with ⟨hnone, henter⟩ | ⟨-, name, -, henter⟩
  · rw [henter]
    refine .done ⟨⟨h, fun hout => by cases hout⟩, fun hopen => ?_⟩
    have hupload := hopen.upload
    rw [hnone hopen.stage] at hupload
    cases hupload
  · rw [henter]
    simp only [h.cancel]
    refine .abort fun answer => ?_
    cases answer with
    | ok _ => exact .done ⟨⟨⟨rfl, fun _ => rfl⟩, fun hout => by cases hout⟩, fun _ => rfl⟩
    | error e => exact .done ⟨⟨⟨rfl, fun _ => rfl⟩, fun hout => by cases hout⟩, fun _ => rfl⟩

/-- After a failure the upload is aborted, and the failure is what is reported. -/
theorem heeds_discard (hopen : s.IsOpen) {e : SessionError} (hblames : e = .upload .cancelled → blamed) :
    (s.abort >>= fun out => return (out.1, .error e)).Heeds signal (Transacted signal) aborted blamed := by
  refine (heeds_abort h blamed).bind fun aborted' blamed' out hout hstill => ?_
  refine .done ⟨⟨hout.1.watches, fun hcancelled => ?_⟩, fun _ _ => .inr (hout.2 hopen)⟩
  exact hstill (hblames (Except.error.inj hcancelled))

theorem heeds_execute (hidle : s.stage = .idle) (parts : List BoundPart) :
    (s.execute parts).Heeds signal (Transacted signal) aborted blamed := by
  obtain rfl : aborted = false := h.unaborted (by rw [hidle]; decide)
  rw [execute, start, if_pos (by rw [hidle]; rfl)]
  refine .ask (fun hlane => by cases hlane) fun answer => ?_
  cases answer with
  | error e =>
    refine .done ⟨⟨h, fun hout => by cases hout⟩, fun e' he' => .inl ⟨e, ?_⟩⟩
    exact (Except.error.inj he').symm
  | ok name =>
    have hopened : IsOpen { s with stage := .initiated, upload := some name } := ⟨rfl, rfl⟩
    have hwatches : Watches signal false { s with stage := .initiated, upload := some name } := .of_cancel h.cancel
    refine (heeds_sendParts hwatches blamed parts).bind ?_
    rintro aborted₁ blamed₁ ⟨s₁, e | _⟩ ⟨hout₁, hopen₁⟩ -
    · exact heeds_discard hout₁.watches blamed₁ (hopen₁ hopened) fun he => hout₁.blames (congrArg _ he)
    refine (heeds_complete hout₁.watches blamed₁).bind ?_
    rintro aborted₂ blamed₂ ⟨s₂, e | written⟩ ⟨hout₂, hopen₂⟩ -
    · exact heeds_discard hout₂.watches blamed₂ (hopen₂ (hopen₁ hopened) e rfl) fun he =>
        hout₂.blames (congrArg _ he)
    · exact .done ⟨⟨hout₂.watches, fun hout => by cases hout⟩, fun _ he => by cases he⟩

theorem heeds_perform (c : SessionCall) : (s.perform c).Heeds signal (Answers signal) aborted blamed := by
  cases c with
  | start => exact heeds_start h blamed
  | sendParts parts => exact (heeds_sendParts h blamed parts).mono fun _ _ _ hout => hout.1
  | complete => exact (heeds_complete h blamed).mono fun _ _ _ hout => hout.1
  | abort => exact (heeds_abort h blamed).mono fun _ _ _ hout => hout.1
  | execute parts =>
    by_cases hidle : s.stage = .idle
    · exact (heeds_execute h blamed hidle parts).mono fun _ _ _ hout => hout.toAnswers
    · rw [perform, execute, start, if_neg fun hstage => hidle (leadsTo_initiated.1 hstage)]
      exact .done ⟨h, fun hout => by cases hout⟩

end

theorem doomed_abort (s : Session) (signal : Signal) : s.abort.Doomed signal fun _ => True := by
  unfold abort
  split
  · trivial
  · next s' name _ =>
    have hsignal : (Dialogue.signal s'.cancel).Doomed signal fun _ => True := by cases s'.cancel <;> trivial
    refine hsignal.bind fun _ _ answer => ?_
    cases answer <;> trivial

/-- A transaction that is held while its signal is raised is cancelled, unless its start is refused. -/
theorem doomed_execute (hidle : s.stage = .idle) (hcancel : s.cancel = some signal) (parts : List BoundPart) :
    (s.execute parts).Doomed signal fun out =>
      out.2 = .error (.upload .cancelled) ∨ ∃ cause, out.2 = .error (.initFailed cause) := by
  rw [execute, start, if_pos (by rw [hidle]; rfl)]
  intro answer
  cases answer with
  | error e => exact .inr ⟨e, rfl⟩
  | ok name =>
    have habort := doomed_abort { s with stage := .uploading, upload := some name } signal
    exact ⟨hcancel, habort.bind fun _ _ => .inl rfl⟩

end Session

/-! ## Uses of a signal -/

/-- The failure that an answer is, if it is one. -/
def FlushError.among {α : Type} : Except FlushError α → List FlushError
  | .ok _ => []
  | .error e => [e]

theorem FlushError.mem_among {α : Type} {e : FlushError} {answer : Except SessionError α} :
    e ∈ among (answer.mapError .session) ↔ ∃ cause, answer = .error cause ∧ e = .session cause := by
  cases answer <;> simp [among, Except.mapError]

/-- The calls of a session, each made some time after the one before, and the failures they end with. -/
def Session.failures (s : Session) : List (Nat × SessionCall) → Dialogue (List FlushError)
  | [] => return []
  | c :: rest => do
    Dialogue.wait c.1
    let out ← s.perform c.2
    return FlushError.among (out.2.mapError .session) ++ (← out.1.failures rest)

/-- What is done under a signal that may cancel other things too: a file is written, or the calls of one session are
made. -/
inductive SignalUse where
  | flush (uploader : Flusher) (order : FlushOrder)
  | session (key : ObjectKey) (policy : PartPolicy) (calls : List (Nat × SessionCall))

namespace SignalUse

def dialogue (signal : Signal) : SignalUse → Dialogue (List FlushError)
  | .flush uploader order => do return FlushError.among (← uploader.flush { order with cancel := some signal })
  | .session key policy calls => Session.failures { key, policy, cancel := some signal } calls

/-- What is done is one transaction from its start to its end. -/
def Transacts : SignalUse → Prop
  | .flush uploader order => ¬uploader.GoesWhole order
  | .session _ _ calls => ∃ pause parts, calls = [(pause, .execute parts)]

/-- The failures that a use may end with: it is cancelled only if somebody else is to blame, and a transaction that
fails after its start has made its abort. -/
structure Ends (use : SignalUse) (aborted : Bool) (blamed : Prop) (failures : List FlushError) : Prop where
  blames : .session (.upload .cancelled) ∈ failures → blamed
  aborts : use.Transacts → ∀ e ∈ failures, (∃ cause, e = .session (.initFailed cause)) ∨ aborted = true

theorem ends_of_transacted {signal : Signal} {aborted : Bool} {blamed : Prop} (use : SignalUse)
    {out : Session × Except SessionError ObjectSummary} (h : Session.Transacted signal aborted blamed out) :
    use.Ends aborted blamed (FlushError.among (out.2.mapError .session)) := by
  refine ⟨fun hin => ?_, fun _ e he => ?_⟩
  · obtain ⟨cause, hout, hcause⟩ := FlushError.mem_among.1 hin
    cases hcause
    exact h.blames hout
  · obtain ⟨cause, hout, rfl⟩ := FlushError.mem_among.1 he
    exact (h.aborts cause hout).imp_left fun ⟨refusal, hrefusal⟩ => ⟨refusal, congrArg _ hrefusal⟩

end SignalUse

section

open Dialogue

variable {signal : Signal}

namespace Flusher

theorem heeds_send (f : Flusher) (key : ObjectKey) (data : Bytes) (aborted : Bool) (blamed : Prop) :
    (f.send key data).Heeds signal (fun _ _ out => ∀ e, out ≠ .error (.session e)) aborted blamed := by
  have hlane : (Request.put key data).lane ≠ .abort := fun hlane => by cases hlane
  refine (heeds_persist f.settings.repeatPolicy hlane aborted blamed).bind fun _ _ answer _ _ => ?_
  cases answer with
  | ok written => exact .done fun e he => by cases he
  | error e => exact .done fun e he => by cases he

theorem heeds_sendFile (f : Flusher) (key : ObjectKey) (source : LocalFile) (size : Nat) (aborted : Bool)
    (blamed : Prop) :
    (f.sendFile key source size).Heeds signal (fun _ _ out => ∀ e, out ≠ .error (.session e)) aborted blamed := by
  unfold sendFile
  split
  · exact .done fun e he => by cases he
  · split
    · exact f.heeds_send key _ aborted blamed
    · exact .done fun e he => by cases he

theorem heeds_flush (f : Flusher) (order : FlushOrder) (blamed : Prop) :
    (f.flush { order with cancel := some signal }).Heeds signal
      (fun aborted' blamed' out => (SignalUse.flush f order).Ends aborted' blamed' (FlushError.among out)) false
      blamed := by
  have hwhole : f.GoesWhole order → (f.sendFile order.key order.source order.size).Heeds signal
      (fun aborted' blamed' out => (SignalUse.flush f order).Ends aborted' blamed' (FlushError.among out)) false
      blamed := by
    intro hgoes
    refine (f.heeds_sendFile _ _ _ false blamed).mono fun aborted' blamed' out hout => ⟨fun hin => ?_, absurd hgoes⟩
    cases out with
    | ok written => cases hin
    | error e => exact absurd (congrArg _ (List.mem_singleton.1 hin).symm) (hout _)
  rw [flush_eq]
  rcases f.choose_cases order.size (f.planned order.size order.dirty order.stored)
      (f.sendFile order.key order.source order.size)
      (f.sendParts order.key · (.file order.source) (some signal)) with
    ⟨hsmall, hway⟩ | ⟨-, ⟨parts, -, hway⟩ | ⟨e, hplan, ⟨-, hway⟩ | ⟨-, hway⟩⟩⟩
  · rw [hway]
    exact hwhole (.inl hsmall)
  · rw [hway]
    have hwatches : Session.Watches signal false
        { key := order.key, policy := f.settings.partPolicy, cancel := some signal } := .of_cancel rfl
    refine (Session.heeds_execute hwatches blamed rfl _).bind ?_
    rintro aborted' blamed' ⟨s, e | written⟩ hout -
    · exact .done (SignalUse.ends_of_transacted _ hout)
    · exact .done (SignalUse.ends_of_transacted _ hout)
  · rw [hway]
    exact hwhole (.inr ⟨e, hplan⟩)
  · rw [hway]
    refine .done ⟨fun hin => ?_, absurd (.inr ⟨e, hplan⟩)⟩
    cases List.mem_singleton.1 hin

theorem doomed_flush (f : Flusher) {order : FlushOrder} (hparts : ¬f.GoesWhole order) :
    (f.flush { order with cancel := some signal }).Doomed signal fun out =>
      out = .error (.session (.upload .cancelled)) ∨ ∃ cause, out = .error (.session (.initFailed cause)) := by
  rw [flush_eq]
  rcases f.choose_cases order.size (f.planned order.size order.dirty order.stored)
      (f.sendFile order.key order.source order.size)
      (f.sendParts order.key · (.file order.source) (some signal)) with
    ⟨hsmall, -⟩ | ⟨-, ⟨parts, -, hway⟩ | ⟨e, hplan, -⟩⟩
  · exact absurd (.inl hsmall) hparts
  · rw [hway]
    refine (Session.doomed_execute (s := { key := order.key, policy := f.settings.partPolicy, cancel := some signal })
      rfl rfl _).bind ?_
    rintro ⟨s, out⟩ (rfl | ⟨cause, rfl⟩)
    · exact .inl rfl
    · exact .inr ⟨cause, rfl⟩
  · exact absurd (.inr ⟨e, hplan⟩) hparts

end Flusher

/-- Whatever is asked of a session, it is cancelled only if somebody else is to blame. -/
theorem Session.heeds_failures (calls : List (Nat × SessionCall)) :
    ∀ {s : Session} {aborted : Bool} (blamed : Prop), s.Watches signal aborted →
      (s.failures calls).Heeds signal
        (fun _ blamed' fs =>
          (.session (.upload .cancelled) ∈ fs → blamed') ∧ (blamed → blamed')) aborted blamed := by
  induction calls with
  | nil => exact fun blamed _ => .done ⟨fun hin => absurd hin List.not_mem_nil, id⟩
  | cons c rest ih =>
    intro s aborted blamed hs
    refine .pause ((heeds_perform hs blamed c.2).bind fun aborted₁ blamed₁ out hout hstill₁ => ?_)
    refine (ih blamed₁ hout.watches).bind fun aborted₂ blamed₂ more hmore _ => .done ⟨fun hin => ?_, ?_⟩
    · rcases List.mem_append.1 hin with hfirst | hlater
      · obtain ⟨cause, hcause, heq⟩ := FlushError.mem_among.1 hfirst
        cases heq
        exact hmore.2 (hout.blames hcause)
      · exact hmore.1 hlater
    · exact fun hblamed => hmore.2 (hstill₁ hblamed)

namespace SignalUse

theorem heeds_dialogue (signal : Signal) (use : SignalUse) :
    (use.dialogue signal).Heeds signal use.Ends false False := by
  cases use with
  | flush uploader order =>
    exact (uploader.heeds_flush order False).bind fun _ _ out hout _ => .done hout
  | session key policy calls =>
    have hwatches : Session.Watches signal false { key, policy, cancel := some signal } := .of_cancel rfl
    by_cases htransacts : (SignalUse.session key policy calls).Transacts
    · obtain ⟨pause, parts, rfl⟩ := htransacts
      refine .pause ((Session.heeds_execute hwatches False rfl parts).bind fun aborted' blamed' out hout _ => .done ?_)
      rw [List.append_nil]
      exact ends_of_transacted _ hout
    · exact (Session.heeds_failures calls False hwatches).mono fun _ _ _ hout =>
        ⟨hout.1, fun h => absurd h htransacts⟩

theorem doomed_dialogue (signal : Signal) {use : SignalUse} (h : use.Transacts) :
    (use.dialogue signal).Doomed signal fun fs =>
      fs = [.session (.upload .cancelled)] ∨ ∃ cause, fs = [.session (.initFailed cause)] := by
  cases use with
  | flush uploader order =>
    refine (uploader.doomed_flush h).bind ?_
    rintro out (rfl | ⟨cause, rfl⟩)
    · exact .inl rfl
    · exact .inr ⟨cause, rfl⟩
  | session key policy calls =>
    obtain ⟨pause, parts, rfl⟩ := h
    refine Doomed.bind (d := Session.execute { key, policy, cancel := some signal } parts)
      (Session.doomed_execute rfl rfl parts) ?_
    rintro ⟨s, out⟩ (rfl | ⟨cause, rfl⟩)
    · exact .inl rfl
    · exact .inr ⟨cause, rfl⟩

end SignalUse

end

end ObjectFlush
