import ObjectFlush.Proofs.Upload.Protocol

/-!
What stands behind a completion. A session asks for it only after its parts were sent, and with the receipts
that came of that. A transaction does so only if all parts succeeded; but a session that is led step by step
remembers no failure of its parts, and then asks to have the object assembled from no parts at all
(`completion_receipts`, `completion_after_refused_part`).
-/

namespace ObjectFlush

namespace Occasion

variable {σ : Type}

/-- The occasion sent parts, and `receipts` is what it left: one receipt for each part in order, or none at
all if a part failed or the signal was raised. -/
def Leaves (o : Occasion σ) (receipts : List Receipt) : Prop :=
  ∃ jobs, o.call = .sendParts jobs ∧
    match o.failure? with
    | none => PartRun.Complete (jobs.map BoundPart.toRequest) receipts
    | some e => (∃ cause, e = .upload cause) ∧ receipts = []

/-- What a session asks to have assembled, it has sent before, or on this very occasion. -/
def Backed (earlier : List (Occasion σ)) (o : Occasion σ) : Prop :=
  ∀ c ∈ o.log, ∀ name receipts, c.request = .complete name receipts →
    (∃ jobs, o.call = .execute jobs ∧ PartRun.Complete (jobs.map BoundPart.toRequest) receipts) ∨
      o.call = .complete ∧ ∃ sent ∈ earlier, sent.Leaves receipts

variable {o : Occasion σ} {earlier : List (Occasion σ)}

theorem log_eq {calls : List Call} (h : o.after.calls = o.link.calls ++ calls) : o.log = calls := by
  rw [log, h, List.drop_left]

/-- Calls that complete nothing need nothing behind them. -/
theorem Backed.of_lane {calls : List Call} (h : o.after.calls = o.link.calls ++ calls)
    (hcalls : ∀ c ∈ calls, c.request.lane ≠ .complete) : o.Backed earlier := by
  intro c hc name receipts hrequest
  rw [log_eq h] at hc
  refine absurd ?_ (hcalls c hc)
  rw [hrequest]
  rfl

/-- Nor does one call that asks for something else. -/
theorem Backed.of_call {c : Call} {r : Request} {answer : Except RequestError r.Answer}
    (h : o.after.calls = o.link.calls ++ [c]) (hc : c.Answered r answer) (hr : r.lane ≠ .complete) :
    o.Backed earlier := by
  refine .of_lane h (List.forall_mem_singleton.2 ?_)
  rw [hc.request_eq]
  exact hr

end Occasion

namespace Session

variable {σ : Type}

/-- What a session remembers of its parts, after the occasions in `earlier`. -/
structure Remembers (earlier : List (Occasion σ)) (s : Session) : Prop where
  unsent : s.stage = .idle ∨ s.stage = .initiated → s.receipts = []
  sent : s.stage = .uploading → ∃ o ∈ earlier, o.Leaves s.receipts

theorem Remembers.mono {earlier : List (Occasion σ)} {s : Session} (h : s.Remembers earlier)
    (more : List (Occasion σ)) : s.Remembers (earlier ++ more) := by
  refine ⟨h.unsent, fun hstage => ?_⟩
  obtain ⟨o, ho, hleaves⟩ := h.sent hstage
  exact ⟨o, List.mem_append_left _ ho, hleaves⟩

theorem remembers_new (key : ObjectKey) (policy : PartPolicy) (cancel : Option Signal)
    (earlier : List (Occasion σ)) : ({ key, policy, cancel } : Session).Remembers earlier :=
  ⟨fun _ => rfl, fun h => by cases h⟩

/-- A session that is past its parts remembers nothing of them. -/
theorem remembers_past {earlier : List (Occasion σ)} {s : Session}
    (hpast : s.stage ∈ [SessionStage.completing, .completed, .aborted]) : s.Remembers earlier := by
  refine ⟨fun hstage => ?_, fun hstage => ?_⟩
  · rcases hstage with hstage | hstage <;> (rw [hstage] at hpast; simp at hpast)
  · rw [hstage] at hpast
    simp at hpast

/-- A transaction asks only for what its parts came to. -/
theorem Concludes.completions {s : Session} {name : String} {parts : List PartRequest}
    {sent : PartRun.Outcome} {rest : List Call} {out : Session × Except SessionError ObjectSummary}
    (h : s.Concludes name parts sent rest out) :
    ∀ c ∈ rest, ∀ about receipts, c.request = .complete about receipts →
      PartRun.Complete parts receipts := by
  have hsame : ∀ {kept receipts : List Receipt} {c : Call} {about : String},
      c.request = .complete name kept → c.request = .complete about receipts → kept = receipts := by
    intro kept receipts c about hkept hrequest
    exact (Request.complete.inj (hkept.symm.trans hrequest)).2
  cases h with
  | committed all others decided =>
    intro c hc about receipts hrequest
    rcases List.mem_append.1 hc with hc | hc
    · exact hsame (others.request_eq hc) hrequest ▸ all
    · rw [List.mem_singleton.1 hc] at hrequest
      exact hsame decided.request_eq hrequest ▸ all
  | uncommitted all others decided closed =>
    intro c hc about receipts hrequest
    rcases List.mem_append.1 hc with hc | hc
    · exact hsame (others.request_eq hc) hrequest ▸ all
    · rcases List.mem_cons.1 hc with rfl | hc
      · exact hsame decided.request_eq hrequest ▸ all
      · rw [List.mem_singleton.1 hc] at hrequest
        cases closed.request_eq.symm.trans hrequest
  | unsent closed =>
    intro c hc about receipts hrequest
    rw [List.mem_singleton.1 hc] at hrequest
    cases closed.request_eq.symm.trans hrequest

theorem Concludes.past {s : Session} {name : String} {parts : List PartRequest}
    {sent : PartRun.Outcome} {rest : List Call} {out : Session × Except SessionError ObjectSummary}
    (h : s.Concludes name parts sent rest out) :
    out.1.stage ∈ [SessionStage.completing, .completed, .aborted] := by
  cases h <;> simp

/-- What a call of a session comes to: there is something behind its completions, and the session
remembers on. -/
def StaysBacked (earlier : List (Occasion σ)) (o : Occasion σ) : Prop :=
  o.Backed earlier ∧ o.left.Remembers (earlier ++ [o])

variable {s : Session} {earlier : List (Occasion σ)}

/-- A call that is refused changes nothing. -/
theorem staysBacked_refused (h : s.Remembers earlier) {o : Occasion σ} (hafter : o.after = o.link)
    (hleft : o.left = s) : StaysBacked earlier o := by
  have hcalls : o.after.calls = o.link.calls ++ [] := by rw [hafter, List.append_nil]
  refine ⟨.of_lane hcalls (List.forall_mem_nil _), ?_⟩
  rw [hleft]
  exact h.mono [o]

variable [Endpoint σ]

theorem occasion_eq {c : SessionCall} {l l' : Link σ} {s' : Session}
    {answer : Except SessionError c.Answer} (h : (s.perform c).run l = (l', s', answer)) :
    s.occasion l c = ⟨l, s, c, l', s', answer⟩ := by
  rw [occasion, h]

theorem start_staysBacked (h : s.Remembers earlier) (l : Link σ) :
    StaysBacked earlier (s.occasion l .start) := by
  obtain ⟨opening, hopening, hcalls⟩ := l.calls_ask (.initiate s.key)
  have hlane : (Request.initiate s.key).lane ≠ .complete := fun h => by cases h
  rcases s.start_cases l with ⟨-, hrun⟩ | ⟨hidle, ⟨e, -, hrun⟩ | ⟨name, -, hrun⟩⟩
  · rw [occasion_eq (c := .start) hrun]
    exact staysBacked_refused h rfl rfl
  · rw [occasion_eq (c := .start) hrun]
    exact ⟨.of_call hcalls hopening hlane, h.mono _⟩
  · rw [occasion_eq (c := .start) hrun]
    exact ⟨.of_call hcalls hopening hlane, fun _ => h.unsent (.inl hidle), fun hstage => by cases hstage⟩

theorem sendParts_staysBacked (h : s.Remembers earlier) (jobs : List BoundPart) (l : Link σ) :
    StaysBacked earlier (s.occasion l (.sendParts jobs)) := by
  rcases s.sendParts_cases jobs l with ⟨-, hrun⟩ | ⟨hstage, name, -, hsent⟩
  · rw [occasion_eq (c := .sendParts jobs) hrun]
    exact staysBacked_refused h rfl rfl
  · obtain ⟨log, hlog, hparts⟩ := PartRun.sentBy_of_run s.policy name s.cancel jobs l
    have hlane : ∀ c ∈ log, c.request.lane ≠ .complete := by
      intro c hc
      obtain ⟨job, -, hsent⟩ := hparts c hc
      rw [hsent.about.1]
      exact fun h => by cases h
    rcases hsent with ⟨e, -, hrun⟩ | ⟨receipts, hreceipts, hrun⟩
    · rw [occasion_eq (c := .sendParts jobs) hrun]
      refine ⟨.of_lane hlog hlane, fun hstage => ?_, fun _ => ?_⟩
      · rcases hstage with hstage | hstage <;> cases hstage
      · -- The session keeps the receipts that it had: none.
        exact ⟨_, List.mem_append_right _ (List.mem_singleton.2 rfl), jobs, rfl, ⟨e, rfl⟩,
          h.unsent (.inr hstage)⟩
    · rw [occasion_eq (c := .sendParts jobs) hrun]
      refine ⟨.of_lane hlog hlane, fun hstage => ?_, fun _ => ?_⟩
      · rcases hstage with hstage | hstage <;> cases hstage
      · exact ⟨_, List.mem_append_right _ (List.mem_singleton.2 rfl), jobs, rfl,
          PartRun.complete_of_run hreceipts⟩

theorem complete_staysBacked (h : s.Remembers earlier) (l : Link σ) :
    StaysBacked earlier (s.occasion l .complete) := by
  rcases s.complete_cases l with ⟨-, hrun⟩ |
    ⟨hstage, name, -, failed, last, hcalls, hfailed, hdecided⟩
  · rw [occasion_eq (c := .complete) hrun]
    exact staysBacked_refused h rfl rfl
  · refine ⟨fun c hc _ receipts hrequest => .inr ⟨rfl, ?_⟩, remembers_past ?_⟩
    · -- All its calls ask for the receipts that the session remembers.
      rw [Occasion.log_eq (o := s.occasion l .complete) hcalls] at hc
      have hsame : c.request = .complete name s.receipts := by
        rcases List.mem_append.1 hc with hc | hc
        · exact hfailed.request_eq hc
        · rw [List.mem_singleton.1 hc]
          rcases hdecided with ⟨e, hlast, -⟩ | ⟨written, hlast, -⟩
          · exact hlast.request_eq
          · exact hlast.request_eq
      cases hsame.symm.trans hrequest
      exact h.sent hstage
    · show (s.complete.run l).2.1.stage ∈ _
      rcases hdecided with ⟨e, -, hrun⟩ | ⟨written, -, hrun⟩
      · rw [hrun]
        simp
      · rw [hrun]
        simp

theorem abort_staysBacked (h : s.Remembers earlier) (l : Link σ) :
    StaysBacked earlier (s.occasion l .abort) := by
  rcases s.abort_cases l with ⟨-, hrun⟩ | ⟨-, name, -, c, answer, hcalls, hc, hleft, -⟩
  · rw [occasion_eq (c := .abort) hrun]
    exact staysBacked_refused h rfl rfl
  · refine ⟨.of_call hcalls hc (fun h => by cases h), remembers_past ?_⟩
    show (s.abort.run l).2.1.stage ∈ _
    rw [hleft]
    simp

theorem execute_staysBacked (h : s.Remembers earlier) (jobs : List BoundPart) (l : Link σ) :
    StaysBacked earlier (s.occasion l (.execute jobs)) := by
  by_cases hidle : s.stage = .idle
  · cases hanswer : (l.ask (.initiate s.key)).2 with
    | error e =>
      obtain ⟨opening, hopening, hcalls⟩ := l.calls_ask (.initiate s.key)
      rw [occasion_eq (c := .execute jobs) (s.execute_unopened hidle jobs l hanswer)]
      exact ⟨.of_call hcalls hopening (fun h => by cases h), h.mono _⟩
    | ok name =>
      obtain ⟨opening, parts, rest, hopening, hlog, hparts, hconcludes⟩ :=
        s.execute_concludes hidle jobs l hanswer
      refine ⟨fun c hc about receipts hrequest => .inl ⟨jobs, rfl, ?_⟩, remembers_past hconcludes.past⟩
      rw [Occasion.log_eq (o := s.occasion l (.execute jobs)) hlog] at hc
      rcases List.mem_cons.1 hc with rfl | hc
      · cases hopening.request_eq.symm.trans hrequest
      · rcases List.mem_append.1 hc with hc | hc
        · obtain ⟨job, -, hsent⟩ := hparts c hc
          rw [hrequest] at hsent
          cases hsent.about.1
        · exact hconcludes.completions c hc about receipts hrequest
  · rw [occasion_eq (c := .execute jobs) (s.execute_refused hidle jobs l)]
    exact staysBacked_refused h rfl rfl

theorem perform_staysBacked (h : s.Remembers earlier) (c : SessionCall) (l : Link σ) :
    StaysBacked earlier (s.occasion l c) := by
  cases c with
  | start => exact start_staysBacked h l
  | sendParts jobs => exact sendParts_staysBacked h jobs l
  | complete => exact complete_staysBacked h l
  | abort => exact abort_staysBacked h l
  | execute jobs => exact execute_staysBacked h jobs l

/-- There is something behind every completion of a history. -/
theorem backed_of_course (events : List SessionEvent) :
    ∀ (s : Session) (l : Link σ) (earlier : List (Occasion σ)), s.Remembers earlier →
      ∀ before o after, s.course l events = before ++ o :: after → o.Backed (earlier ++ before) := by
  induction events with
  | nil => exact fun _ _ _ _ before o after h => by cases before <;> cases h
  | cons event events ih =>
    intro s l earlier hs before o after hcourse
    cases event with
    | call c =>
      obtain ⟨hbacked, hleft⟩ := perform_staysBacked hs c l
      cases before with
      | nil =>
        cases hcourse
        rw [List.append_nil]
        exact hbacked
      | cons first before =>
        obtain ⟨rfl, hrest⟩ := List.cons.inj hcourse
        have hnext := ih _ _ _ hleft before o after hrest
        rw [List.append_assoc] at hnext
        exact hnext
    | raise signal => exact ih s (l.raise signal) earlier hs before o after hcourse
    | wait length => exact ih s (l.passTo (l.now + length)) earlier hs before o after hcourse

end Session

/-- Every completion follows parts that were all sent, and has one receipt for each of them, in order. -/
def CompletesWhatWasSent {σ : Type} (course : List (Occasion σ)) : Prop :=
  ∀ before o after, course = before ++ o :: after → ∀ c ∈ o.log, ∀ name receipts,
    c.request = .complete name receipts → ∃ sent ∈ before, ∃ jobs, sent.call = .sendParts jobs ∧
      sent.failure? = none ∧ PartRun.Complete (jobs.map BoundPart.toRequest) receipts

/-- A session that is led step by step completes what was sent, as long as its parts do not fail. -/
theorem completesWhatWasSent_of_sent {σ : Type} [Endpoint σ] (key : ObjectKey) (policy : PartPolicy)
    (cancel : Option Signal) (l : Link σ) (events : List SessionEvent)
    (hsteps : ∀ o ∈ ({ key, policy, cancel } : Session).course l events, ∀ jobs, o.call ≠ .execute jobs)
    (hsent : ∀ o ∈ ({ key, policy, cancel } : Session).course l events, ∀ cause,
      o.failure? ≠ some (.upload cause)) :
    CompletesWhatWasSent (({ key, policy, cancel } : Session).course l events) := by
  intro before o after hcourse c hc name receipts hrequest
  have hbacked := Session.backed_of_course events { key, policy, cancel } l [] (Session.remembers_new ..)
    before o after hcourse
  rcases hbacked c hc name receipts hrequest with ⟨jobs, hcall, -⟩ | ⟨-, sent, hearlier, jobs, hcall, hleft⟩
  · exact absurd hcall (hsteps o (by rw [hcourse]; simp) jobs)
  · rw [List.nil_append] at hearlier
    cases hfailure : sent.failure? with
    | none =>
      rw [hfailure] at hleft
      exact ⟨sent, hearlier, jobs, hcall, hfailure, hleft⟩
    | some e =>
      rw [hfailure] at hleft
      obtain ⟨⟨cause, rfl⟩, -⟩ := hleft
      exact absurd hfailure (hsent sent (by rw [hcourse]; exact List.mem_append_left _ hearlier) cause)

/-- **What stands behind a completion.** Whatever is asked of a new session: a completion that it sends
within a transaction has one receipt for each part of it, in order. One that it sends otherwise has the
receipts of the parts that it sent before, if all of them succeeded; if they did not, it has none. -/
theorem completion_receipts {σ : Type} [Endpoint σ] (key : ObjectKey) (policy : PartPolicy)
    (cancel : Option Signal) (l : Link σ) (events : List SessionEvent) :
    ∀ before o after, ({ key, policy, cancel } : Session).course l events = before ++ o :: after →
      o.Backed before := by
  exact Session.backed_of_course events { key, policy, cancel } l [] (Session.remembers_new ..)

/-- Two parts that are sent in another order than that of their numbers are completed in order. -/
theorem completion_of_two_parts :
    let policy : PartPolicy :=
      { concurrency := 1, retry := { limit := 0, pause := 10, longestPause := 10 }, timeout := 50 }
    let link : Link DryRun := { endpoint := {}, conditions := {} }
    let session : Session := { key := ⟨"k", by decide⟩, policy }
    let jobs : List BoundPart := [⟨2, 1, .buffer [1, 2] 1⟩, ⟨1, 1, .buffer [1, 2] 0⟩]
    let started := session.occasion link .start
    let sent := started.left.occasion started.after (.sendParts jobs)
    let completed := sent.left.occasion sent.after .complete
    session.course link [.call .start, .call (.sendParts jobs), .call .complete] =
        [started, sent] ++ completed :: [] ∧
      completed.log.map (·.request) = [.complete "upload-0" [⟨1, "etag-1"⟩, ⟨2, "etag-2"⟩]] ∧
      completed.Backed [started, sent] := by
  intro policy link session jobs started sent completed
  have hasked : completed.log.map (·.request) = [.complete "upload-0" [⟨1, "etag-1"⟩, ⟨2, "etag-2"⟩]] := by
    unfold completed sent started session link policy jobs
    cbv
  exact ⟨rfl, hasked, completion_receipts ⟨"k", by decide⟩ policy none link
    [.call .start, .call (.sendParts jobs), .call .complete] [started, sent] completed [] rfl⟩

/-- A session that is asked to complete an upload whose one part was refused has it completed with no
parts at all. -/
theorem completion_after_refused_part :
    let policy : PartPolicy :=
      { concurrency := 1, retry := { limit := 0, pause := 10, longestPause := 10 }, timeout := 50 }
    let refusing : Conditions := { reaction := fun lane _ =>
      match lane with
      | .part _ => { failure := some (.http 403 "denied") }
      | _ => {} }
    let link : Link DryRun := { endpoint := {}, conditions := refusing }
    let session : Session := { key := ⟨"k", by decide⟩, policy }
    let job : BoundPart := ⟨1, 2, .buffer [1, 2] 0⟩
    ¬CompletesWhatWasSent
      (session.course link [.call .start, .call (.sendParts [job]), .call .complete]) := by
  intro policy refusing link session job hlaw
  let started := session.occasion link .start
  let refused := started.left.occasion started.after (.sendParts [job])
  let completed := refused.left.occasion refused.after .complete
  have hasked : completed.log.map (·.request) = [.complete "upload-0" []] := by
    unfold completed refused started session link refusing policy job
    cbv
  have hrefused : refused.failure? = some (.upload (.partFailed 1 (.http 403 "denied"))) := by
    unfold refused started session link refusing policy job
    cbv
  have hcomplete : Request.complete "upload-0" [] ∈ completed.log.map (·.request) := by
    rw [hasked]
    exact List.mem_singleton.2 rfl
  obtain ⟨c, hc, hrequest⟩ := List.mem_map.1 hcomplete
  obtain ⟨sent, hsent, jobs, hjobs, hnone, -⟩ :=
    hlaw [started, refused] completed [] rfl c hc "upload-0" [] hrequest
  rcases List.mem_cons.1 hsent with rfl | hsent
  · cases hjobs
  · rw [List.mem_singleton.1 hsent, hrefused] at hnone
    cases hnone

end ObjectFlush
