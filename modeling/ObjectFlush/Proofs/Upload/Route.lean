import ObjectFlush.Exchange.DryRun
import ObjectFlush.Proofs.Exchange.Healthy
import ObjectFlush.Proofs.Plan.Filling
import ObjectFlush.Proofs.Upload.Flush
import ObjectFlush.Proofs.Upload.Opening
import ObjectFlush.Proofs.Upload.Protocol

/-!
What a write sends over a link, whichever way it goes. A single request is a put, made once or more; what goes in
parts is begun first, and puts nothing after that (`Flusher.sent_sendParts`). From this `single_put_limit` reads
off which puts exceed the limit for them.
-/

namespace ObjectFlush

/-- The calls that the dialogue makes over the link. -/
def Dialogue.sent {σ α : Type} [Endpoint σ] (d : Dialogue α) (l : Link σ) : List Call :=
  (d.run l).1.calls.drop l.calls.length

theorem Dialogue.sent_eq {σ α : Type} [Endpoint σ] {d : Dialogue α} {l : Link σ} {log : List Call}
    (h : (d.run l).1.calls = l.calls ++ log) : d.sent l = log := by
  rw [sent, h, List.drop_left]

theorem Dialogue.sent_pure {σ α : Type} [Endpoint σ] (a : α) (l : Link σ) : (pure a : Dialogue α).sent l = [] :=
  Dialogue.sent_eq (List.append_nil _).symm

theorem LocalFile.length_of_read (f : LocalFile) {offset len : Nat} {data : Bytes}
    (h : f.read offset len = .ok data) : data.length = len := by
  have hfills : Bytes.Fills (fun _ _ => True) offset len data := f.fills_read h fun _ _ _ => trivial
  exact hfills.1

/-- What follows the parts of a transaction is a completion with a receipt for each of them, or the abort. -/
theorem Session.Concludes.closes {s : Session} {name : String} {parts : List PartRequest}
    {sent : PartRun.Outcome} {rest : List Call} {out : Session × Except SessionError ObjectSummary}
    (h : s.Concludes name parts sent rest out) :
    ∀ c ∈ rest, c.request = .abort name ∨
      ∃ receipts, PartRun.Complete parts receipts ∧ c.request = .complete name receipts := by
  cases h with
  | committed all others decided =>
    refine List.forall_mem_append.2 ⟨fun c hc => .inr ⟨_, all, others.request_eq hc⟩, ?_⟩
    exact List.forall_mem_singleton.2 (.inr ⟨_, all, decided.request_eq⟩)
  | uncommitted all others decided closed =>
    refine List.forall_mem_append.2 ⟨fun c hc => .inr ⟨_, all, others.request_eq hc⟩, ?_⟩
    exact List.forall_mem_cons.2 ⟨.inr ⟨_, all, decided.request_eq⟩,
      List.forall_mem_singleton.2 (.inl closed.request_eq)⟩
  | unsent closed => exact List.forall_mem_singleton.2 (.inl closed.request_eq)

namespace Flusher

variable (f : Flusher)

/-! ## The calls of each way -/

section Sent

variable {σ : Type} [Endpoint σ] (l : Link σ)

theorem run_send (key : ObjectKey) (data : Bytes) :
    (f.send key data).run l = (((Dialogue.persist f.settings.repeatPolicy (.put key data)).run l).1,
      ((Dialogue.persist f.settings.repeatPolicy (.put key data)).run l).2.mapError .request) := by
  rw [send, Dialogue.run_after]
  cases ((Dialogue.persist f.settings.repeatPolicy (.put key data)).run l).2 <;> rfl

/-- The session in which planned parts are sent. -/
def session (key : ObjectKey) (cancel : Option Signal) : Session := { key, policy := f.settings.partPolicy, cancel }

theorem run_sendParts (key : ObjectKey) (parts : List Portion) (source : FreshContent) (cancel : Option Signal) :
    (f.sendParts key parts source cancel).run l =
      ((((f.session key cancel).execute (bindPortions parts source key)).run l).1,
        (((f.session key cancel).execute (bindPortions parts source key)).run l).2.2.mapError .session) := by
  rw [sendParts, Dialogue.run_after]
  unfold session
  cases (Dialogue.run (Session.execute _ (bindPortions parts source key)) l).2.2 <;> rfl

/-- A single request is made at least once, and nothing else is. -/
theorem sent_send (key : ObjectKey) (data : Bytes) :
    (f.send key data).sent l ≠ [] ∧ ∀ c ∈ (f.send key data).sent l, c.request = .put key data := by
  obtain ⟨failed, last, hcalls, hfailed, hlast⟩ :=
    Dialogue.calls_persist f.settings.repeatPolicy (.put key data) l
  rw [Dialogue.sent_eq (d := f.send key data) (by rw [run_send]; exact hcalls)]
  refine ⟨by simp, ?_⟩
  exact List.forall_mem_append.2
    ⟨fun c => hfailed.request_eq, List.forall_mem_singleton.2 hlast.request_eq⟩

/-- A file goes with a single request only if that may carry it. -/
theorem sent_sendFile (key : ObjectKey) (source : LocalFile) (size : Nat) :
    ∀ c ∈ (f.sendFile key source size).sent l, size ≤ f.settings.maxSinglePut ∧
      ∃ data, data.length = size ∧ c.request = .put key data := by
  unfold sendFile
  split
  · exact fun c hc => by rw [Dialogue.sent_pure] at hc; cases hc
  · next hfits =>
    split
    · next data hread =>
      exact fun c hc => ⟨Nat.le_of_not_lt hfits, data, source.length_of_read hread, (f.sent_send l key data).2 c hc⟩
    · exact fun c hc => by rw [Dialogue.sent_pure] at hc; cases hc

/-- What goes in parts is begun first of all. Nothing is opened after that, and a completion has a receipt for
each part. -/
theorem sent_sendParts (key : ObjectKey) (parts : List Portion) (source : FreshContent)
    (cancel : Option Signal) :
    ∃ opening rest, (f.sendParts key parts source cancel).sent l = opening :: rest ∧
      opening.request = .initiate key ∧
      ∀ c ∈ rest, c.request.OpensNone ∧
        ∀ name receipts, c.request = .complete name receipts → receipts.length = parts.length := by
  let jobs := bindPortions parts source key
  have hrun : ((f.sendParts key parts source cancel).run l).1 = (((f.session key cancel).execute jobs).run l).1 :=
    congrArg Prod.fst (f.run_sendParts l key parts source cancel)
  cases hanswer : (l.ask (.initiate key)).2 with
  | error e =>
    obtain ⟨opening, hopening, hcalls⟩ := l.calls_ask (.initiate key)
    rw [(f.session key cancel).execute_unopened rfl jobs l hanswer] at hrun
    exact ⟨opening, [], Dialogue.sent_eq (hrun ▸ hcalls), hopening.request_eq, List.forall_mem_nil _⟩
  | ok name =>
    obtain ⟨opening, sent, rest, hopening, hcalls, hsent, hconcludes⟩ :=
      (f.session key cancel).execute_concludes rfl jobs l hanswer
    refine ⟨opening, sent ++ rest, Dialogue.sent_eq (hrun ▸ hcalls), hopening.request_eq, ?_⟩
    refine List.forall_mem_append.2 ⟨fun c hc => ?_, fun c hc => ?_⟩
    · obtain ⟨job, -, hjob⟩ := hsent c hc
      have hpart : c.request.IsPart := ⟨job.number, hjob.about.1⟩
      refine ⟨hpart.opensNone, fun name receipts hrequest => ?_⟩
      rw [hrequest] at hjob
      cases hjob.about.1
    · rcases hconcludes.closes c hc with habort | ⟨receipts, hall, hcomplete⟩
      · rw [habort]
        exact ⟨rfl, fun _ _ h => by cases h⟩
      · rw [hcomplete]
        refine ⟨rfl, fun _ _ h => ?_⟩
        cases h
        have hlength := hall.numbers.length_eq
        simpa [jobs, bindPortions] using hlength

end Sent

end Flusher

/-- A request whose first call succeeds is not repeated. -/
theorem Dialogue.run_persist {σ : Type} [Endpoint σ] (policy : RepeatPolicy) {r : Request}
    {l : Link σ} {a : r.Answer}
    (h : (l.ask r).2 = .ok a) : (persist policy r).run l = l.ask r := by
  unfold persist RepeatPolicy.run
  cases policy.limit with
  | zero => rfl
  | succ left =>
    unfold RepeatPolicy.attempt
    rw [run_after, run_request, h]
    exact Prod.ext rfl h.symm

namespace Flusher

variable (f : Flusher)

/-- Over a healthy link a local store takes every put, with one call. -/
theorem run_send_local {l : Link LocalEndpoint} {timeout : Nat} (hhealthy : l.conditions.Healthy timeout)
    (key : ObjectKey) (data : Bytes) :
    (f.send key data).run l = ((l.ask (.put key data)).1, .ok ⟨key.text, data.length, Digest.tag data⟩) := by
  have hanswer : (l.ask (.put key data)).2 = .ok ⟨key.text, data.length, Digest.tag data⟩ :=
    Link.result_ask hhealthy (.put key data)
  rw [run_send, Dialogue.run_persist f.settings.repeatPolicy hanswer, hanswer]
  rfl

end Flusher

/-! ## What a write sends -/

/-- No put of the log carries more than `limit` bytes. -/
def PutsWithin (limit : Nat) (log : List Call) : Prop :=
  ∀ c ∈ log, ∀ key data, c.request = .put key data → data.length ≤ limit

namespace Flusher

variable {σ : Type} [Endpoint σ] (f : Flusher) (l : Link σ)

theorem putsWithin_sendFile (key : ObjectKey) (source : LocalFile) (size : Nat) :
    PutsWithin f.settings.maxSinglePut ((f.sendFile key source size).sent l) := by
  intro c hc key' data' hput
  obtain ⟨hfits, data, hlength, hrequest⟩ := f.sent_sendFile l key source size c hc
  cases hrequest.symm.trans hput
  rw [hlength]
  exact hfits

theorem putsWithin_send_iff (key : ObjectKey) (data : Bytes) :
    PutsWithin f.settings.maxSinglePut ((f.send key data).sent l) ↔ data.length ≤ f.settings.maxSinglePut := by
  obtain ⟨hsent, hputs⟩ := f.sent_send l key data
  constructor
  · intro h
    obtain ⟨c, hc⟩ := List.exists_mem_of_ne_nil _ hsent
    exact h c hc key data (hputs c hc)
  · intro hfits c hc key' data' hput
    cases (hputs c hc).symm.trans hput
    exact hfits

theorem putsWithin_sendParts (key : ObjectKey) (parts : List Portion) (source : FreshContent)
    (cancel : Option Signal) (limit : Nat) :
    PutsWithin limit ((f.sendParts key parts source cancel).sent l) := by
  obtain ⟨opening, rest, hsent, hopening, hrest⟩ := f.sent_sendParts l key parts source cancel
  rw [hsent]
  refine List.forall_mem_cons.2 ⟨fun key' data hput => ?_, fun c hc key' data hput => ?_⟩
  · cases hopening.symm.trans hput
  · have hnone := (hrest c hc).1
    rw [hput] at hnone
    cases hnone

end Flusher

theorem putsWithin_pure {σ α : Type} [Endpoint σ] (l : Link σ) (a : α) (limit : Nat) :
    PutsWithin limit ((pure a : Dialogue α).sent l) := by
  rw [Dialogue.sent_pure]
  exact List.forall_mem_nil _

/-- **Where the limit for puts holds.** Over every link, and whatever becomes of its calls, a flush sends no put
above the limit, neither for a file below the threshold nor in place of a plan with too many parts. The write
of a buffer keeps to the limit as well, but for a buffer above the limit and below the threshold: that is sent. -/
theorem single_put_limit {σ : Type} [Endpoint σ] (f : Flusher) (l : Link σ) :
    (∀ order : FlushOrder, PutsWithin f.settings.maxSinglePut ((f.flush order).sent l)) ∧
      ∀ (key : ObjectKey) (data : Bytes),
        PutsWithin f.settings.maxSinglePut ((f.flushBuffer key data).sent l) ↔
          ¬(f.settings.maxSinglePut < data.length ∧ data.length < f.settings.multipartThreshold) := by
  refine ⟨fun order => ?_, fun key data => ?_⟩
  · rw [f.flush_eq]
    exact f.choose_of_ways (P := fun d => PutsWithin f.settings.maxSinglePut (d.sent l))
      (f.putsWithin_sendFile l _ _ _) (fun parts _ => f.putsWithin_sendParts l _ parts _ _ _)
      fun e => putsWithin_pure l _ _
  · rw [f.flushBuffer_eq]
    rcases f.choose_cases data.length (f.planned data.length [] false) (f.send key data)
      (f.sendParts key · (.buffer data) none) with
      ⟨hsmall, h⟩ | ⟨hlarge, ⟨parts, -, h⟩ | ⟨e, -, ⟨hfits, h⟩ | ⟨-, h⟩⟩⟩
    · rw [h, f.putsWithin_send_iff l]
      omega
    · rw [h]
      exact iff_of_true (f.putsWithin_sendParts l _ _ _ _ _) (by omega)
    · rw [h, f.putsWithin_send_iff l]
      omega
    · rw [h]
      exact iff_of_true (putsWithin_pure l _ _) (by omega)

/-- A buffer of six bytes is put where puts may carry four, because it is below the threshold. -/
theorem small_buffer_put_above_limit :
    let f : Flusher := ⟨{ multipartThreshold := 20, maxSinglePut := 4 }, rfl⟩
    let link : Link DryRun := { endpoint := {} }
    ¬PutsWithin f.settings.maxSinglePut ((f.flushBuffer ⟨"k", by decide⟩ [0, 1, 2, 3, 4, 5]).sent link) := by
  intro f link hlaw
  have hsent : ((f.flushBuffer ⟨"k", by decide⟩ [0, 1, 2, 3, 4, 5]).sent link).map (·.request) =
      [.put ⟨"k", by decide⟩ [0, 1, 2, 3, 4, 5]] := by
    unfold link f
    cbv
  have hput := List.mem_singleton_self (Request.put ⟨"k", by decide⟩ [0, 1, 2, 3, 4, 5])
  rw [← hsent] at hput
  obtain ⟨c, hc, hrequest⟩ := List.mem_map.1 hput
  exact absurd (hlaw c hc _ _ hrequest) (by decide)

end ObjectFlush
