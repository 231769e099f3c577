import ObjectFlush.Upload.Session
import ObjectFlush.Proofs.Upload.Contract
import ObjectFlush.Proofs.Upload.Dispatch

/-!
What a session says to the store, call by call: all that each of its steps can do, and so what a whole
transaction comes to (`execute_outcome`). A start that is refused is all there is to it. After any other
start the transaction ends with one of two calls, a completion that succeeds or the abort, and it is the
first failure that is reported.
-/

namespace ObjectFlush

/-- Calls of `r` that failed, one and all. -/
def AllFailed (r : Request) (log : List Call) : Prop := ∀ c ∈ log, ∃ e, c.Answered r (.error e)

theorem AllFailed.request_eq {r : Request} {log : List Call} (h : AllFailed r log) {c : Call}
    (hc : c ∈ log) : c.request = r := by
  obtain ⟨e, hfailed⟩ := h c hc
  exact hfailed.request_eq

namespace Dialogue

variable {σ : Type} [Endpoint σ]

theorem run_after {α β : Type} (d : Dialogue α) (f : α → Dialogue β) (l : Link σ) :
    (d >>= f).run l = (f (d.run l).2).run (d.run l).1 := run_bind d f l

theorem run_request (r : Request) (l : Link σ) : (request r).run l = l.ask r := rfl

theorem run_sendParts (r : PartRun) (l : Link σ) :
    (sendParts r).run l = ((r.run l).1, (r.run l).2.2) := rfl

theorem calls_signal (signal : Option Signal) (l : Link σ) :
    ((Dialogue.signal signal).run l).1.calls = l.calls := by
  cases signal <;> rfl

/-- A request that is repeated fails until its last call, which decides. -/
theorem calls_persist (policy : RepeatPolicy) (r : Request) (l : Link σ) :
    ∃ failed last, ((persist policy r).run l).1.calls = l.calls ++ (failed ++ [last]) ∧
      AllFailed r failed ∧ last.Answered r ((persist policy r).run l).2 := by
  let Failing (l' : Link σ) : Prop := ∃ failed, l'.calls = l.calls ++ failed ∧ AllFailed r failed
  let Decided (answer : Except RequestError r.Answer) (l' : Link σ) : Prop :=
    ∃ failed last, l'.calls = l.calls ++ (failed ++ [last]) ∧ AllFailed r failed ∧
      last.Answered r answer
  have hrequest : Contract Failing (request r) Decided := by
    refine contract_request fun l' ⟨failed, hcalls, hfailed⟩ => ?_
    obtain ⟨c, hc, hask⟩ := l'.calls_ask r
    refine ⟨failed, c, ?_, hfailed, hc⟩
    rw [hask, hcalls, List.append_assoc]
  have hfail : ∀ e l', Decided (.error e) l' → Failing l' := by
    rintro e l' ⟨failed, last, hcalls, hfailed, hlast⟩
    refine ⟨failed ++ [last], hcalls, ?_⟩
    exact List.forall_mem_append.2 ⟨hfailed, List.forall_mem_singleton.2 ⟨e, hlast⟩⟩
  have hpause : ∀ l' base, Failing l' → Failing (l'.pause base) := by
    rintro l' base ⟨failed, hcalls, hfailed⟩
    refine ⟨failed, ?_, hfailed⟩
    show ((l'.drawPause base).1.passTo _).calls = _
    rw [Link.calls_passTo]
    exact hcalls
  exact contract_persist policy hrequest hfail hpause l ⟨[], (List.append_nil _).symm, fun _ h => by cases h⟩

end Dialogue

/-- All that a run of bound parts adds to the log is calls of these parts. -/
theorem PartRun.sentBy_of_run {σ : Type} [Endpoint σ] (policy : PartPolicy) (name : String)
    (cancel : Option Signal) (jobs : List BoundPart) (l : Link σ) :
    ∃ log, ((PartRun.start policy name cancel (jobs.map BoundPart.toRequest)).run l).1.calls =
        l.calls ++ log ∧ ∀ c ∈ log, ∃ job ∈ jobs, job.SentBy name c.request := by
  obtain ⟨log, hlog, hsends⟩ := sends_of_run policy name cancel (jobs.map BoundPart.toRequest) l
  refine ⟨log, hlog, fun c hc => ?_⟩
  obtain ⟨p, hp, hsends⟩ := hsends c hc
  obtain ⟨job, hjob, rfl⟩ := List.mem_map.1 hp
  exact ⟨job, hjob, job.sentBy_of_sends hsends⟩

/-- A run that ends well has a receipt for each part, in order, over whatever link. -/
theorem PartRun.complete_of_run {σ : Type} [Endpoint σ] {policy : PartPolicy} {upload : String}
    {cancel : Option Signal} {parts : List PartRequest} {l : Link σ} {receipts : List Receipt}
    (h : ((PartRun.start policy upload cancel parts).run l).2.2 = .ok receipts) :
    Complete parts receipts :=
  (run_spec (I := fun _ => True) policy cancel (fun _ _ _ _ _ _ => trivial) trivial).2 receipts h

namespace Session

variable {σ : Type} [Endpoint σ]

/-! ## The steps of a session -/

theorem leadsTo_initiated {stage : SessionStage} : stage.leadsTo .initiated = true ↔ stage = .idle := by
  cases stage <;> decide

theorem leadsTo_uploading {stage : SessionStage} : stage.leadsTo .uploading = true ↔ stage = .initiated := by
  cases stage <;> decide

theorem leadsTo_completing {stage : SessionStage} :
    stage.leadsTo .completing = true ↔ stage = .uploading := by
  cases stage <;> decide

theorem enter_cases (s : Session) (target : SessionStage) :
    (s.stage.leadsTo target = true → s.upload = none) ∧
        s.enter target = .error (.invalidTransition s.stage target) ∨
      s.stage.leadsTo target = true ∧ ∃ name, s.upload = some name ∧
        s.enter target = .ok ({ s with stage := target }, name) := by
  unfold enter
  split
  · next hstage hupload => exact .inr ⟨hstage, _, hupload, rfl⟩
  · next hnot =>
    refine .inl ⟨fun hstage => ?_, rfl⟩
    cases hupload : s.upload with
    | none => rfl
    | some name => exact absurd hupload (hnot name hstage)

/-- All that a start can do. -/
theorem start_cases (s : Session) (l : Link σ) :
    s.stage ≠ .idle ∧ s.start.run l = (l, s, .error (.invalidTransition s.stage .initiated)) ∨
      s.stage = .idle ∧
        ((∃ e, (l.ask (.initiate s.key)).2 = .error e ∧
            s.start.run l = ((l.ask (.initiate s.key)).1, s, .error (.initFailed e))) ∨
          ∃ name, (l.ask (.initiate s.key)).2 = .ok name ∧ s.start.run l =
            ((l.ask (.initiate s.key)).1, { s with stage := .initiated, upload := some name }, .ok name)) := by
  unfold start
  split
  · next hstage =>
    refine .inr ⟨leadsTo_initiated.1 hstage, ?_⟩
    rw [Dialogue.run_after, Dialogue.run_request]
    cases (l.ask (.initiate s.key)).2 with
    | error e => exact .inl ⟨e, rfl, rfl⟩
    | ok name => exact .inr ⟨name, rfl, rfl⟩
  · next hstage => exact .inl ⟨fun hidle => hstage (leadsTo_initiated.2 hidle), rfl⟩

/-- All that sending the parts can do. -/
theorem sendParts_cases (s : Session) (jobs : List BoundPart) (l : Link σ) :
    (s.stage = .initiated → s.upload = none) ∧
        (s.sendParts jobs).run l = (l, s, .error (.invalidTransition s.stage .uploading)) ∨
      s.stage = .initiated ∧ ∃ name, s.upload = some name ∧
        let sent := (PartRun.start s.policy name s.cancel (jobs.map BoundPart.toRequest)).run l
        (∃ e, sent.2.2 = .error e ∧ (s.sendParts jobs).run l =
            (sent.1, { s with stage := .uploading }, .error (.upload e))) ∨
          ∃ receipts, sent.2.2 = .ok receipts ∧ (s.sendParts jobs).run l =
            (sent.1, { s with stage := .uploading, receipts }, .ok ()) := by
  rcases s.enter_cases .uploading with ⟨hnot, henter⟩ | ⟨hstage, name, hupload, henter⟩
  · refine .inl ⟨fun hstage => hnot (leadsTo_uploading.2 hstage), ?_⟩
    rw [sendParts, henter]
    rfl
  · refine .inr ⟨leadsTo_uploading.1 hstage, name, hupload, ?_⟩
    rw [sendParts, henter]
    simp only [Dialogue.run_after, Dialogue.run_sendParts]
    cases ((PartRun.start s.policy name s.cancel (jobs.map BoundPart.toRequest)).run l).2.2 with
    | error e => exact .inl ⟨e, rfl, rfl⟩
    | ok receipts => exact .inr ⟨receipts, rfl, rfl⟩

/-- All that a completion can do. -/
theorem complete_cases (s : Session) (l : Link σ) :
    (s.stage = .uploading → s.upload = none) ∧
        s.complete.run l = (l, s, .error (.invalidTransition s.stage .completing)) ∨
      s.stage = .uploading ∧ ∃ name, s.upload = some name ∧
        ∃ failed last, (s.complete.run l).1.calls = l.calls ++ (failed ++ [last]) ∧
          AllFailed (.complete name s.receipts) failed ∧
          ((∃ e, last.Answered (.complete name s.receipts) (.error e) ∧
              (s.complete.run l).2 = ({ s with stage := .completing }, .error (.completeFailed e))) ∨
            ∃ written, last.Answered (.complete name s.receipts) (.ok written) ∧
              (s.complete.run l).2 = ({ s with stage := .completed }, .ok written)) := by
  rcases s.enter_cases .completing with ⟨hnot, henter⟩ | ⟨hstage, name, hupload, henter⟩
  · refine .inl ⟨fun hstage => hnot (leadsTo_completing.2 hstage), ?_⟩
    rw [complete, henter]
    rfl
  · refine .inr ⟨leadsTo_completing.1 hstage, name, hupload, ?_⟩
    rw [complete, henter]
    simp only [Dialogue.run_after]
    obtain ⟨failed, last, hcalls, hfailed, hlast⟩ :=
      Dialogue.calls_persist s.policy.retry (.complete name s.receipts) l
    refine ⟨failed, last, ?_, hfailed, ?_⟩
    · rw [← hcalls]
      cases ((Dialogue.persist s.policy.retry (.complete name s.receipts)).run l).2 <;> rfl
    · cases hanswer : ((Dialogue.persist s.policy.retry (.complete name s.receipts)).run l).2 with
      | error e => exact .inl ⟨e, hanswer ▸ hlast, rfl⟩
      | ok written => exact .inr ⟨written, hanswer ▸ hlast, rfl⟩

/-- All that an abort can do. -/
theorem abort_cases (s : Session) (l : Link σ) :
    (s.stage.leadsTo .aborting = true → s.upload = none) ∧
        s.abort.run l = (l, s, .error (.invalidTransition s.stage .aborting)) ∨
      s.stage.leadsTo .aborting = true ∧ ∃ name, s.upload = some name ∧
        ∃ c answer, (s.abort.run l).1.calls = l.calls ++ [c] ∧ c.Answered (.abort name) answer ∧
          (s.abort.run l).2.1 = { s with stage := .aborted } ∧
          (s.abort.run l).2.2 = answer.mapError (.abortFailed name) := by
  rcases s.enter_cases .aborting with ⟨hnot, henter⟩ | ⟨hstage, name, hupload, henter⟩
  · refine .inl ⟨hnot, ?_⟩
    rw [abort, henter]
    rfl
  · refine .inr ⟨hstage, name, hupload, ?_⟩
    rw [abort, henter]
    simp only [Dialogue.run_after, Dialogue.run_request]
    generalize hquiet : ((Dialogue.signal s.cancel).run l).1 = quiet
    have hcalls : quiet.calls = l.calls := by
      rw [← hquiet]
      exact Dialogue.calls_signal s.cancel l
    obtain ⟨c, hc, hask⟩ := quiet.calls_ask (.abort name)
    rw [hcalls] at hask
    refine ⟨c, (quiet.ask (.abort name)).2, ?_, hc, ?_⟩
    · rw [← hask]
      cases (quiet.ask (.abort name)).2 <;> rfl
    · cases (quiet.ask (.abort name)).2 <;> exact ⟨rfl, rfl⟩

/-- An upload that is under way can be aborted. -/
theorem aborts (s : Session) {name : String} (hstage : s.stage.leadsTo .aborting = true)
    (hupload : s.upload = some name) (l : Link σ) :
    ∃ c answer, (s.abort.run l).1.calls = l.calls ++ [c] ∧ c.Answered (.abort name) answer ∧
      (s.abort.run l).2.1 = { s with stage := .aborted } := by
  rcases s.abort_cases l with ⟨hnot, -⟩ | ⟨-, _, hname, c, answer, hcalls, hc, hleft, -⟩
  · cases hupload.symm.trans (hnot hstage)
  · cases hupload.symm.trans hname
    exact ⟨c, answer, hcalls, hc, hleft⟩

/-! ## The whole transaction -/

/-- A transaction goes from one step to the next as long as they succeed. -/
theorem execute_run (s : Session) (jobs : List BoundPart) (l : Link σ) :
    (s.execute jobs).run l =
      match s.start.run l with
      | (l, s, .error e) => (l, s, .error e)
      | (l, s, .ok _) =>
        match (s.sendParts jobs).run l with
        | (l, s, .error e) => ((s.abort.run l).1, (s.abort.run l).2.1, .error e)
        | (l, s, .ok ()) =>
          match s.complete.run l with
          | (l, s, .error e) => ((s.abort.run l).1, (s.abort.run l).2.1, .error e)
          | (l, s, .ok written) => (l, s, .ok written) := by
  unfold execute
  rw [Dialogue.run_after]
  rcases s.start.run l with ⟨l₁, s₁, e | name⟩
  · rfl
  · simp only [Dialogue.run_after]
    rcases (s₁.sendParts jobs).run l₁ with ⟨l₂, s₂, e | ⟨⟩⟩
    · exact Dialogue.run_after s₂.abort _ l₂
    · simp only [Dialogue.run_after]
      rcases s₂.complete.run l₂ with ⟨l₃, s₃, e | written⟩
      · exact Dialogue.run_after s₃.abort _ l₃
      · rfl

/-- How a transaction ends that was started under `name`, once its parts have come to `sent`: the calls
that it still makes, the session that it leaves, and its result. -/
inductive Concludes (s : Session) (name : String) (parts : List PartRequest) :
    PartRun.Outcome → List Call → Session × Except SessionError ObjectSummary → Prop
  | committed {receipts failed last written} (all : PartRun.Complete parts receipts)
    (others : AllFailed (.complete name receipts) failed)
    (decided : last.Answered (.complete name receipts) (.ok written)) :
    Concludes s name parts (.ok receipts) (failed ++ [last])
      ({ s with stage := .completed, upload := some name, receipts }, .ok written)
  | uncommitted {receipts failed last e closing answer} (all : PartRun.Complete parts receipts)
    (others : AllFailed (.complete name receipts) failed)
    (decided : last.Answered (.complete name receipts) (.error e))
    (closed : closing.Answered (.abort name) answer) :
    Concludes s name parts (.ok receipts) (failed ++ [last, closing])
      ({ s with stage := .aborted, upload := some name, receipts }, .error (.completeFailed e))
  | unsent {e closing answer} (closed : closing.Answered (.abort name) answer) :
    Concludes s name parts (.error e) [closing]
      ({ s with stage := .aborted, upload := some name }, .error (.upload e))

/-- Once it may start, a transaction is refused nothing. -/
theorem Concludes.not_refused {s : Session} {name : String} {parts : List PartRequest}
    {sent : PartRun.Outcome} {rest : List Call} {out : Session × Except SessionError ObjectSummary}
    (h : s.Concludes name parts sent rest out) (source target : SessionStage) :
    out.2 ≠ .error (.invalidTransition source target) := by
  cases h <;> exact fun h => by cases h

/-- A session that has begun is no transaction any more. -/
theorem execute_refused (s : Session) (hbegun : s.stage ≠ .idle) (jobs : List BoundPart) (l : Link σ) :
    (s.execute jobs).run l = (l, s, .error (.invalidTransition s.stage .initiated)) := by
  rw [execute_run]
  rcases s.start_cases l with ⟨-, hstart⟩ | ⟨hidle, -⟩
  · rw [hstart]
  · exact absurd hidle hbegun

/-- What a transaction does that is not started. -/
theorem execute_unopened (s : Session) (hidle : s.stage = .idle) (jobs : List BoundPart) (l : Link σ)
    {e : RequestError} (hrefused : (l.ask (.initiate s.key)).2 = .error e) :
    (s.execute jobs).run l = ((l.ask (.initiate s.key)).1, s, .error (.initFailed e)) := by
  rw [execute_run]
  rcases s.start_cases l with ⟨hnot, -⟩ | ⟨-, ⟨_, hanswer, hstart⟩ | ⟨_, hanswer, -⟩⟩
  · exact absurd hidle hnot
  · cases hrefused.symm.trans hanswer
    rw [hstart]
  · cases hrefused.symm.trans hanswer

/-- What a transaction does once its start has succeeded. -/
theorem execute_rest (s : Session) (hidle : s.stage = .idle) (jobs : List BoundPart) (l : Link σ)
    {name : String} (hopened : (l.ask (.initiate s.key)).2 = .ok name) :
    let sent := (PartRun.start s.policy name s.cancel (jobs.map BoundPart.toRequest)).run
      (l.ask (.initiate s.key)).1
    ∃ rest, ((s.execute jobs).run l).1.calls = sent.1.calls ++ rest ∧
      s.Concludes name (jobs.map BoundPart.toRequest) sent.2.2 rest ((s.execute jobs).run l).2 := by
  intro sent
  rw [execute_run]
  rcases s.start_cases l with ⟨hnot, -⟩ | ⟨-, ⟨e, hanswer, -⟩ | ⟨_, hanswer, hstart⟩⟩
  · exact absurd hidle hnot
  · cases hopened.symm.trans hanswer
  · cases hopened.symm.trans hanswer
    rw [hstart]
    rcases ({ s with stage := .initiated, upload := some name } : Session).sendParts_cases jobs
      (l.ask (.initiate s.key)).1 with
      ⟨hnot, -⟩ | ⟨-, _, hname, ⟨e, hrun, hsent⟩ | ⟨receipts, hrun, hsent⟩⟩
    · cases hnot rfl
    · cases hname
      simp only [hsent]
      obtain ⟨closing, answer, hcalls, hclosing, hleft⟩ :=
        ({ s with stage := .uploading, upload := some name } : Session).aborts rfl rfl sent.1
      refine ⟨[closing], hcalls, ?_⟩
      rw [show sent.2.2 = _ from hrun, hleft]
      exact .unsent hclosing
    · cases hname
      have hall := PartRun.complete_of_run hrun
      simp only [hsent]
      rw [show sent.2.2 = _ from hrun]
      rcases ({ s with stage := .uploading, upload := some name, receipts } : Session).complete_cases
        sent.1 with ⟨hnot, -⟩ | ⟨-, _, hname, failed, last, hcalls, hfailed, hdecided⟩
      · cases hnot rfl
      · cases hname
        generalize Dialogue.run (complete _) sent.1 = done at hcalls hdecided ⊢
        obtain ⟨l', out⟩ := done
        rcases hdecided with ⟨e, hlast, hout⟩ | ⟨written, hlast, hout⟩
        · cases hout
          obtain ⟨closing, answer, habort, hclosing, hleft⟩ :=
            ({ s with stage := .completing, upload := some name, receipts } : Session).aborts rfl rfl l'
          refine ⟨failed ++ [last, closing], ?_, ?_⟩
          · rw [habort, show l'.calls = _ from hcalls]
            simp
          · dsimp only
            rw [hleft]
            exact .uncommitted hall hfailed hlast hclosing
        · cases hout
          exact ⟨failed ++ [last], hcalls, .committed hall hfailed hlast⟩

/-- All that a transaction does whose start succeeds. -/
theorem execute_concludes (s : Session) (hidle : s.stage = .idle) (jobs : List BoundPart) (l : Link σ)
    {name : String} (hopened : (l.ask (.initiate s.key)).2 = .ok name) :
    let sent := (PartRun.start s.policy name s.cancel (jobs.map BoundPart.toRequest)).run
      (l.ask (.initiate s.key)).1
    ∃ opening parts rest, opening.Answered (.initiate s.key) (.ok name) ∧
      ((s.execute jobs).run l).1.calls = l.calls ++ opening :: (parts ++ rest) ∧
      (∀ c ∈ parts, ∃ job ∈ jobs, job.SentBy name c.request) ∧
      s.Concludes name (jobs.map BoundPart.toRequest) sent.2.2 rest ((s.execute jobs).run l).2 := by
  intro sent
  obtain ⟨opening, hopening, hcalls⟩ := l.calls_ask (.initiate s.key)
  obtain ⟨parts, hsent, hparts⟩ := PartRun.sentBy_of_run s.policy name s.cancel jobs
    (l.ask (.initiate s.key)).1
  obtain ⟨rest, hrest, hconcludes⟩ := s.execute_rest hidle jobs l hopened
  refine ⟨opening, parts, rest, hopened ▸ hopening, ?_, hparts, hconcludes⟩
  calc ((s.execute jobs).run l).1.calls
      = (l.ask (.initiate s.key)).1.calls ++ parts ++ rest := by rw [hrest, hsent]
    _ = l.calls ++ [opening] ++ parts ++ rest := by rw [hcalls]
    _ = l.calls ++ opening :: (parts ++ rest) := by simp

end Session

/-- **What a transaction comes to.** If its start is refused, nothing else is sent, and it stays as it was.
Otherwise the parts are sent, and either the completion succeeds, with one receipt for each part in order,
and its answer is the result; or the upload is aborted by the last call, whatever comes of that, no
completion has succeeded, and the first failure is the result. -/
theorem execute_outcome {σ : Type} [Endpoint σ] (key : ObjectKey) (policy : PartPolicy)
    (cancel : Option Signal) (jobs : List BoundPart) (l : Link σ) :
    let s : Session := { key, policy, cancel }
    let opened := l.ask (.initiate key)
    let out := (s.execute jobs).run l
    ∃ opening, opening.Answered (.initiate key) opened.2 ∧
      match opened.2 with
      | .error e => out.1.calls = l.calls ++ [opening] ∧ out.2 = (s, .error (.initFailed e))
      | .ok name =>
        let sent := (PartRun.start policy name cancel (jobs.map BoundPart.toRequest)).run opened.1
        ∃ parts rest, out.1.calls = l.calls ++ opening :: (parts ++ rest) ∧
          (∀ c ∈ parts, ∃ job ∈ jobs, job.SentBy name c.request) ∧
          s.Concludes name (jobs.map BoundPart.toRequest) sent.2.2 rest out.2 := by
  intro s opened out
  cases hanswer : opened.2 with
  | error e =>
    obtain ⟨opening, hopening, hcalls⟩ := l.calls_ask (.initiate key)
    have hout : out = (opened.1, s, .error (.initFailed e)) := s.execute_unopened rfl jobs l hanswer
    rw [hout]
    exact ⟨opening, hanswer ▸ hopening, hcalls, rfl⟩
  | ok name =>
    obtain ⟨opening, parts, rest, hopening, hlog, hparts, hconcludes⟩ :=
      s.execute_concludes rfl jobs l hanswer
    exact ⟨opening, hopening, parts, rest, hlog, hparts, hconcludes⟩

end ObjectFlush
