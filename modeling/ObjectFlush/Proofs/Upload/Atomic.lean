import ObjectFlush.Proofs.Plan.Filling
import ObjectFlush.Proofs.Store.Alone
import ObjectFlush.Proofs.Upload.Flush
import ObjectFlush.Proofs.Upload.PartLedger

/-!
A flush over a store that nobody else uses is atomic: it replaces the object under its key or changes no
object, and leaves no upload behind (`flush_atomic`). Calls may be lost, take any time, be given up and be
repeated; only if the store never sees the abort does an upload stay. Which abort that is, is known before
the flush starts: it makes one at most.
-/

namespace ObjectFlush

open Dialogue

/-- A part run makes no call but for its parts, and keeps what the requests of its parts keep. -/
theorem Dialogue.contract_sendParts {σ : Type} [Endpoint σ] (policy : PartPolicy) {upload : String}
    (cancel : Option Signal) {parts : List PartRequest} (hdistinct : (parts.map (·.number)).Nodup)
    {P : σ → Prop} (hkeep : PartRequest.AllKeep parts upload P) (origin : Link σ) :
    Contract (fun l => origin.Spares .abort l ∧ P l.endpoint)
      (sendParts (.start policy upload cancel parts)) fun outcome l =>
        (∀ receipts, outcome = .ok receipts → PartRun.Complete parts receipts) ∧
          origin.Spares .abort l ∧ P l.endpoint := by
  intro l h
  obtain ⟨hspares, hl⟩ := h
  obtain ⟨hkept, hcomplete⟩ := PartRun.run_spec policy cancel hkeep hl
  obtain ⟨failure, htracks⟩ :=
    ((PartRun.Tracks.start policy upload cancel parts l).run hdistinct).tracks
  refine ⟨hcomplete, hspares.trans (.of_calls_append htracks.conditions htracks.calls_eq ?_), hkept⟩
  intro c hc
  obtain ⟨p, -, payload, -, hrequest⟩ := htracks.sent c hc
  rw [hrequest, Payload.lane_request]
  exact fun heq => by cases heq

/-- A request whose answer has no tag is lost, or served; but for an abort it makes no call to abort. -/
theorem Dialogue.contract_ask {σ : Type} [Endpoint σ] {r : Request}
    (hr : ∀ tag a, r.retag tag a = a) (hlane : r.lane ≠ .abort) {P : σ → Prop} {Q : r.Answer → σ → Prop}
    (hserve : ∀ s, P s → OrStill P Q (Endpoint.serve s r).2 (Endpoint.serve s r).1) (origin : Link σ) :
    Contract (fun l => origin.Spares .abort l ∧ P l.endpoint) (request r) fun answer l =>
      origin.Spares .abort l ∧ OrStill P Q answer l.endpoint := by
  apply contract_request
  intro l h
  obtain ⟨hspares, hl⟩ := h
  exact ⟨hspares.trans (l.spares_ask hlane), triple_ask hr hserve l hl⟩

/-- The bucket behind the link. -/
def Link.bucket (l : Link LocalEndpoint) : Bucket := l.endpoint.bucket

variable {origin l : Link LocalEndpoint} {name : String} {key : ObjectKey}
  {Part : Nat → Bytes → Prop} {New : Bytes → Prop}

/-- Since `origin` an upload was started, and neither it nor any other has ended. -/
def Uploading (origin : Link LocalEndpoint) (name : String) (key : ObjectKey)
    (Part : Nat → Bytes → Prop) (l : Link LocalEndpoint) : Prop :=
  origin.Spares .abort l ∧ Bucket.Beside origin.bucket name key Part l.bucket

/-- Since `origin` no object has changed, and no upload has come or gone, unless an abort was made and
lost. -/
structure Restored (origin l : Link LocalEndpoint) : Prop where
  objects : l.bucket.objects = origin.bucket.objects
  uploads : (origin.callsIn .abort < l.callsIn .abort →
      (origin.conditions.reaction .abort (origin.callsIn .abort)).failure = none) →
    l.bucket.uploads = origin.bucket.uploads
  aborts : l.callsIn .abort ≤ origin.callsIn .abort + 1

/-- What a write comes to: the object is replaced, or everything is as it was. -/
def Settles {ε : Type} (origin : Link LocalEndpoint) (key : ObjectKey) (New : Bytes → Prop) :
    Except ε ObjectSummary → Link LocalEndpoint → Prop
  | .ok written, l => origin.Spares .abort l ∧ Bucket.Replaces origin.bucket key New written l.bucket
  | .error _, l => Restored origin l

/-- Nothing has happened to the bucket since `origin`. -/
def Unchanged (origin l : Link LocalEndpoint) : Prop :=
  origin.Spares .abort l ∧ l.endpoint = origin.endpoint

theorem Unchanged.restored (h : Unchanged origin l) : Restored origin l := by
  obtain ⟨hspares, hendpoint⟩ := h
  have hbucket : l.bucket = origin.bucket := congrArg LocalEndpoint.bucket hendpoint
  exact ⟨by rw [hbucket], fun _ => by rw [hbucket], by rw [hspares.calls]; omega⟩

theorem Unchanged.pause (h : Unchanged origin l) (base : Nat) : Unchanged origin (l.pause base) :=
  ⟨h.1.trans (l.spares_pause _ base), (l.endpoint_pause base).trans h.2⟩

theorem Uploading.pause (h : Uploading origin name key Part l) (base : Nat) :
    Uploading origin name key Part (l.pause base) := by
  refine ⟨h.1.trans (l.spares_pause _ base), ?_⟩
  show Bucket.Beside origin.bucket name key Part (l.pause base).endpoint.bucket
  rw [Link.endpoint_pause]
  exact h.2

/-! ## A session -/

namespace Session

theorem contract_start {s : Session} (hstage : s.stage = .idle)
    (hunused : origin.bucket.uploads.get? (Store.uploadName origin.endpoint.started) = none)
    (Part : Nat → Bytes → Prop) :
    Contract (Unchanged origin) s.start fun out l =>
      match out.2 with
      | .ok name => out.1 = { s with stage := .initiated, upload := some name } ∧
          Uploading origin name s.key Part l
      | .error _ => Unchanged origin l := by
  have hask : Contract (Unchanged origin) (request (.initiate s.key)) fun answer l =>
      origin.Spares .abort l ∧ OrStill (· = origin.endpoint)
        (fun name e => Bucket.Beside origin.bucket name s.key Part e.bucket) answer l.endpoint := by
    refine contract_ask (P := fun e => e = origin.endpoint) (fun _ _ => rfl) (by simp [Request.lane]) ?_
      origin
    rintro _ rfl
    obtain ⟨name, hok, hbeside⟩ := LocalEndpoint.beside_initiate hunused s.key Part
    rw [hok]
    exact hbeside
  rw [start, if_pos (by rw [hstage]; rfl)]
  refine hask.bind ?_
  intro answer
  cases answer with
  | ok name => exact contract_pure fun l hl => ⟨rfl, hl⟩
  | error err => exact contract_pure fun l hl => hl

theorem contract_sendParts (s : Session) (hstage : s.stage = .initiated) (hupload : s.upload = some name)
    {jobs : List BoundPart} (hdistinct : ((jobs.map BoundPart.toRequest).map (·.number)).Nodup)
    (hkeep : PartRequest.AllKeep (jobs.map BoundPart.toRequest) name
      fun e : LocalEndpoint => Bucket.Beside origin.bucket name key Part e.bucket) :
    Contract (Uploading origin name key Part) (s.sendParts jobs) fun out l =>
      (out.1.stage = .uploading ∧ out.1.upload = some name ∧
        (out.2 = .ok () → PartRun.Complete (jobs.map BoundPart.toRequest) out.1.receipts)) ∧
      Uploading origin name key Part l := by
  have hsend : Contract (Uploading origin name key Part)
      (Dialogue.sendParts (.start s.policy name s.cancel (jobs.map BoundPart.toRequest)))
      fun outcome l =>
        (∀ receipts, outcome = .ok receipts →
          PartRun.Complete (jobs.map BoundPart.toRequest) receipts) ∧ Uploading origin name key Part l :=
    Dialogue.contract_sendParts s.policy s.cancel hdistinct hkeep origin
  have henter := enter_eq .uploading (by rw [hstage]; rfl) hupload
  rw [sendParts, henter]
  refine hsend.bind ?_
  intro outcome
  cases outcome with
  | ok receipts =>
    apply contract_pure
    intro l h
    obtain ⟨hcomplete, hl⟩ := h
    exact ⟨⟨rfl, hupload, fun _ => hcomplete receipts rfl⟩, hl⟩
  | error err =>
    apply contract_pure
    intro l h
    obtain ⟨_, hl⟩ := h
    exact ⟨⟨rfl, hupload, fun h => by cases h⟩, hl⟩

theorem contract_complete {s : Session} (hstage : s.stage = .uploading) (hupload : s.upload = some name)
    (hnew : ∀ chunks : List Bytes,
      List.Forall₂ (fun (r : Receipt) chunk => Part r.number chunk) s.receipts chunks →
        New chunks.flatten) :
    Contract (Uploading origin name key Part) s.complete fun out l =>
      match out.2 with
      | .ok written => origin.Spares .abort l ∧ Bucket.Replaces origin.bucket key New written l.bucket
      | .error _ => (out.1.stage = .completing ∧ out.1.upload = some name) ∧
          Uploading origin name key Part l := by
  have hask : Contract (Uploading origin name key Part) (request (.complete name s.receipts))
      fun answer l => origin.Spares .abort l ∧
        OrStill (fun e => Bucket.Beside origin.bucket name key Part e.bucket)
          (fun written e => Bucket.Replaces origin.bucket key New written e.bucket) answer l.endpoint := by
    refine contract_ask (r := .complete name s.receipts)
      (P := fun e => Bucket.Beside origin.bucket name key Part e.bucket)
      (fun _ _ => rfl) (by simp [Request.lane]) ?_ origin
    intro e hbeside
    have hcomplete := LocalEndpoint.replaces_complete hbeside s.receipts
    cases ha : (Endpoint.serve e (.complete name s.receipts)).2 with
    | error err =>
      rw [ha] at hcomplete
      exact hcomplete
    | ok written =>
      rw [ha] at hcomplete
      obtain ⟨chunks, hchunks, hreplaces⟩ := hcomplete
      refine hreplaces.imp ?_
      rintro data rfl
      exact hnew chunks hchunks
  have henter := enter_eq .completing (by rw [hstage]; rfl) hupload
  rw [complete, henter]
  refine (contract_persist s.policy.retry hask (fun err l h => h) fun l base h => h.pause base).bind ?_
  intro answer
  cases answer with
  | ok written => exact contract_pure fun l h => h
  | error err => exact contract_pure fun l h => ⟨⟨rfl, hupload⟩, h⟩

/-- An abort that is not lost gives back the bucket. -/
theorem contract_abort {s : Session} (hstage : s.stage.leadsTo .aborting = true)
    (hupload : s.upload = some name) :
    Contract (Uploading origin name key Part) s.abort fun _ l => Restored origin l := by
  have hask : Contract (Uploading origin name key Part) (request (.abort name))
      fun _ l => Restored origin l := by
    apply contract_request
    intro l h
    obtain ⟨hspares, hbeside⟩ := h
    have hcalls : (l.ask (.abort name)).1.callsIn .abort = origin.callsIn .abort + 1 := by
      rw [← hspares.calls]
      exact l.callsIn_ask (.abort name)
    refine ⟨?_, ?_, Nat.le_of_eq hcalls⟩
    · show (l.ask (.abort name)).1.endpoint.bucket.objects = _
      rcases (l.ask_ends (.abort name)).untagged fun _ _ => rfl with ⟨hsame, -⟩ | ⟨hserved, -⟩
      · rw [hsame]
        exact hbeside.objects
      · rw [hserved, LocalEndpoint.restored_abort hbeside]
    · intro hstore
      have hfailure := hstore (by rw [hcalls]; exact Nat.lt_succ_self _)
      rw [← hspares.conditions, ← hspares.calls] at hfailure
      show (l.ask (.abort name)).1.endpoint.bucket.uploads = _
      rw [Link.served_ask hfailure, LocalEndpoint.restored_abort hbeside]
  have henter := enter_eq .aborting hstage hupload
  rw [abort, henter]
  have hraise : ∀ (l : Link LocalEndpoint) (signal : Signal), Uploading origin name key Part l →
      Uploading origin name key Part (l.raise signal) := fun _ _ h =>
    ⟨⟨h.1.conditions, h.1.calls⟩, h.2⟩
  refine (contract_signal hraise).bind fun _ => hask.bind ?_
  intro answer
  cases answer with
  | ok u => exact contract_pure fun l h => h
  | error err => exact contract_pure fun l h => h

/-- A transaction replaces the object, or takes back all that it did. -/
theorem contract_execute {s : Session} (hstage : s.stage = .idle)
    (hunused : origin.bucket.uploads.get? (Store.uploadName origin.endpoint.started) = none)
    {jobs : List BoundPart} (hdistinct : ((jobs.map BoundPart.toRequest).map (·.number)).Nodup)
    (hkeep : ∀ name, PartRequest.AllKeep (jobs.map BoundPart.toRequest) name
      fun e : LocalEndpoint => Bucket.Beside origin.bucket name s.key Part e.bucket)
    (hnew : ∀ receipts, PartRun.Complete (jobs.map BoundPart.toRequest) receipts →
      ∀ chunks : List Bytes,
        List.Forall₂ (fun (r : Receipt) chunk => Part r.number chunk) receipts chunks →
          New chunks.flatten) :
    Contract (Unchanged origin) (s.execute jobs) fun out l => Settles origin s.key New out.2 l := by
  refine (contract_start hstage hunused Part).bind ?_
  intro out
  obtain ⟨s₁, started⟩ := out
  cases started with
  | error err => exact contract_pure fun l hl => hl.restored
  | ok name =>
    apply Contract.of_fact
    intro hs₁
    subst hs₁
    refine (contract_sendParts _ rfl rfl hdistinct (hkeep name)).bind ?_
    intro out
    obtain ⟨s₂, sent⟩ := out
    apply Contract.of_fact
    intro h
    obtain ⟨hstage₂, hupload₂, hcomplete⟩ := h
    cases sent with
    | error err =>
      refine (contract_abort (by rw [hstage₂]; rfl) hupload₂).bind ?_
      intro out
      exact contract_pure fun l hl => hl
    | ok u =>
      refine (contract_complete hstage₂ hupload₂ (hnew _ (hcomplete rfl))).bind ?_
      intro out
      obtain ⟨s₃, completed⟩ := out
      cases completed with
      | ok written => exact contract_pure fun l hl => hl
      | error err =>
        apply Contract.of_fact
        intro h
        obtain ⟨hstage₃, hupload₃⟩ := h
        refine (contract_abort (by rw [hstage₃]; rfl) hupload₃).bind ?_
        intro out
        exact contract_pure fun l hl => hl

end Session

/-! ## A flush -/

/-- What a part of a plan carries: its own range of the object, or bytes that may fill its place. -/
theorem WellPlanned.payload_cases {size : Nat} {ranges : List DirtyRange} {b : PartBounds} {parts : List Portion}
    (h : WellPlanned size ranges b parts) {source : FreshContent} {May : Nat → UInt8 → Prop}
    {old : Option StoredObject}
    (hfresh : ∀ i x, source.bytes[i]? = some x → May i x)
    (hold : b.mayCopy = true → ∀ o, old = some o → ∀ i x, ¬Dirty ranges i → o.data[i]? = some x → May i x)
    {request : PartRequest} (hrequest : request ∈ (bindPortions parts source key).map BoundPart.toRequest)
    {payload : Payload} (hpayload : request.payload = .ok payload) :
    (∃ offset length, payload = .copy ⟨key, offset, length⟩ ∧ ∀ o data, old = some o →
      o.data.slice? offset length = some data → FillsPart May parts request.number data) ∨
    ∃ data, payload = .bytes data ∧ FillsPart May parts request.number data := by
  obtain ⟨job, hjob, rfl⟩ := List.mem_map.1 hrequest
  obtain ⟨p, hp, rfl⟩ := List.mem_map.1 hjob
  rcases BoundPart.payload_eq_ok hpayload with ⟨range, hrange, rfl⟩ | ⟨data, hread, rfl⟩
  · have hk : p.kind = .copy := Portion.isCopy_bind.1 (by rw [hrange]; rfl)
    have hmay : b.mayCopy = true := by
      by_contra hno
      exact h.uploads (Bool.eq_false_iff.2 hno) p hp hk
    rw [Portion.source_bind_copy hk] at hrange
    cases hrange
    refine .inl ⟨p.offset, p.size, rfl, fun o data ho hslice => ?_⟩
    exact ⟨p, hp, rfl, Bytes.fills_slice? hslice fun i x h₁ h₂ hx =>
      hold hmay o ho i x (h.clean p hp hk i h₁ h₂) hx⟩
  · exact .inr ⟨data, rfl, p, hp, rfl, Portion.fills_read_bind hread hfresh⟩

/-- What receipts for all parts stand for fills the whole object. -/
theorem WellPlanned.fills_of_complete {size : Nat} {ranges : List DirtyRange} {b : PartBounds} {parts : List Portion}
    (h : WellPlanned size ranges b parts) {source : FreshContent} {May : Nat → UInt8 → Prop}
    {receipts : List Receipt}
    (hcomplete : PartRun.Complete ((bindPortions parts source key).map BoundPart.toRequest) receipts)
    {chunks : List Bytes}
    (hchunks : List.Forall₂ (fun (r : Receipt) chunk => FillsPart May parts r.number chunk) receipts chunks) :
    Bytes.Fills May 0 size chunks.flatten := by
  have hnumbered : List.Forall₂ (FillsPart May parts) (receipts.map (·.number)) chunks :=
    List.forall₂_map_left_iff.2 hchunks
  rw [h.numbers_of_complete hcomplete] at hnumbered
  exact h.fills_flatten hnumbered

/-- Each part comes to stand beside the others with bytes that may fill its place. -/
theorem WellPlanned.allKeep_beside {size : Nat} {ranges : List DirtyRange} {b : PartBounds}
    {parts : List Portion} (h : WellPlanned size ranges b parts) {source : FreshContent}
    {May : Nat → UInt8 → Prop} {bucket : Bucket}
    (hfresh : ∀ i x, source.bytes[i]? = some x → May i x)
    (hold : b.mayCopy = true → ∀ o, bucket.objects.get? key = some o →
      ∀ i x, ¬Dirty ranges i → o.data[i]? = some x → May i x) (name : String) :
    PartRequest.AllKeep ((bindPortions parts source key).map BoundPart.toRequest) name
      fun e : LocalEndpoint => Bucket.Beside bucket name key (FillsPart May parts) e.bucket := by
  intro request hrequest payload hpayload e he
  rcases h.payload_cases hfresh hold hrequest hpayload with ⟨offset, length, rfl, hcopy⟩ | ⟨data, rfl, hdata⟩
  · exact LocalEndpoint.beside_copyPart he hcopy
  · exact LocalEndpoint.beside_uploadPart he hdata

namespace Flusher

variable {May : Nat → UInt8 → Prop}

theorem contract_send (f : Flusher) (key : ObjectKey) {data : Bytes} (hnew : New data) :
    Contract (Unchanged origin) (f.send key data) (Settles origin key New) := by
  have hask : Contract (Unchanged origin) (request (.put key data)) fun answer l =>
      origin.Spares .abort l ∧ OrStill (· = origin.endpoint)
        (fun written e => Bucket.Replaces origin.bucket key New written e.bucket) answer l.endpoint := by
    refine contract_ask (P := fun e => e = origin.endpoint) (fun _ _ => rfl) (by simp [Request.lane]) ?_
      origin
    rintro _ rfl
    have hreplaces := Bucket.replaces_put origin.bucket key data origin.endpoint.options
    refine hreplaces.imp ?_
    rintro bytes rfl
    exact hnew
  refine (contract_persist f.settings.repeatPolicy hask (fun err l h => h) fun l base h =>
    h.pause base).bind ?_
  intro answer
  cases answer with
  | ok written => exact contract_pure fun l h => h
  | error err => exact contract_pure fun l (h : Unchanged origin l) => h.restored

theorem contract_sendFile (f : Flusher) (key : ObjectKey) {source : LocalFile}
    (hfresh : ∀ i x, source.bytes[i]? = some x → May i x) (size : Nat) :
    Contract (Unchanged origin) (f.sendFile key source size)
      (Settles origin key (Bytes.Fills May 0 size)) := by
  unfold sendFile
  split
  · exact contract_pure fun l h => h.restored
  · split
    · next data hread => exact f.contract_send key (LocalFile.fills_read hread hfresh)
    · exact contract_pure fun l h => h.restored

theorem contract_sendParts (f : Flusher) (key : ObjectKey) (cancel : Option Signal)
    (hunused : origin.bucket.uploads.get? (Store.uploadName origin.endpoint.started) = none) {size : Nat}
    {ranges : List DirtyRange} {b : PartBounds} {parts : List Portion} {source : FreshContent}
    (hplan : plan size ranges b = .ok parts) (hfresh : ∀ i x, source.bytes[i]? = some x → May i x)
    (hold : b.mayCopy = true → ∀ o, origin.bucket.objects.get? key = some o →
      ∀ i x, ¬Dirty ranges i → o.data[i]? = some x → May i x) :
    Contract (Unchanged origin) (f.sendParts key parts source cancel)
      (Settles origin key (Bytes.Fills May 0 size)) := by
  have h := (cut_of_plan hplan).wellPlanned (numbers_of_plan hplan)
  let session : Session := { key, policy := f.settings.partPolicy, cancel }
  have hexecute := session.contract_execute rfl hunused
    (by rw [numbers_bindPortions]; exact h.nodup_numbers) (h.allKeep_beside hfresh hold)
    fun _ hcomplete _ => h.fills_of_complete hcomplete
  refine hexecute.bind ?_
  intro out
  obtain ⟨s, out⟩ := out
  cases out with
  | ok written => exact contract_pure fun l h => h
  | error err => exact contract_pure fun l h => h

end Flusher

/-- The byte that a flush may store at a place: the local one or, where nothing is dirty and the store is
said to hold the object, the stored one. -/
def FlushOrder.Allows (order : FlushOrder) (old : Option StoredObject) (i : Nat) (x : UInt8) : Prop :=
  order.source.bytes[i]? = some x ∨
    order.stored = true ∧ ¬Dirty order.dirty i ∧ ∃ o, old = some o ∧ o.data[i]? = some x

namespace Flusher

theorem contract_flush (f : Flusher) (order : FlushOrder)
    (hunused : origin.bucket.uploads.get? (Store.uploadName origin.endpoint.started) = none) :
    Contract (Unchanged origin) (f.flush order) (Settles origin order.key
      (Bytes.Fills (order.Allows (origin.bucket.objects.get? order.key)) 0 order.size)) := by
  have hfresh : ∀ i x, (FreshContent.file order.source).bytes[i]? = some x →
      order.Allows (origin.bucket.objects.get? order.key) i x := fun i x hx => .inl hx
  rw [flush_eq]
  refine f.choose_of_ways (P := fun d => Contract (Unchanged origin) d (Settles origin order.key _)) ?_ ?_ ?_
  · exact f.contract_sendFile order.key hfresh order.size
  · intro parts hplan
    refine f.contract_sendParts order.key order.cancel hunused hplan hfresh ?_
    intro hmay o ho i x hclean hx
    exact .inr ⟨(Bool.and_eq_true_iff.1 hmay).2, hclean, o, ho, hx⟩
  · exact fun e => contract_pure fun l h => h.restored

theorem contract_flushBuffer (f : Flusher) (key : ObjectKey) (data : Bytes)
    (hunused : origin.bucket.uploads.get? (Store.uploadName origin.endpoint.started) = none) :
    Contract (Unchanged origin) (f.flushBuffer key data) (Settles origin key (· = data)) := by
  rw [flushBuffer_eq]
  refine f.choose_of_ways (P := fun d => Contract (Unchanged origin) d (Settles origin key (· = data))) ?_ ?_ ?_
  · exact f.contract_send key rfl
  · intro parts hplan
    have hparts : Contract (Unchanged origin) (f.sendParts key parts (.buffer data) none)
        (Settles origin key (Bytes.Fills (fun i x => data[i]? = some x) 0 data.length)) :=
      f.contract_sendParts key none hunused hplan (fun i x hx => hx) fun hmay => by
        cases (Bool.and_eq_true_iff.1 hmay).2
    refine hparts.consequence (fun l h => h) ?_
    intro out l hsettles
    cases out with
    | ok written => exact ⟨hsettles.1, hsettles.2.imp fun bytes => Bytes.eq_of_fills⟩
    | error err => exact hsettles
  · exact fun e => contract_pure fun l h => h.restored

end Flusher

/-- What a flush comes to, from `before` on. -/
structure Atomic (before : Link LocalEndpoint) (key : ObjectKey) (New : Bytes → Prop)
    (out : Link LocalEndpoint × Except FlushError ObjectSummary) : Prop where
  /-- A flush that fails changes no object. -/
  failed : ∀ e, out.2 = .error e → out.1.bucket.objects = before.bucket.objects
  /-- After one that succeeds a new object is stored, and the summary is of that object. -/
  written : ∀ written, out.2 = .ok written → ∃ o, out.1.bucket.objects.get? key = some o ∧ New o.data ∧
    o.record.size = o.data.length ∧ written = ⟨key.text, o.data.length, o.record.tag⟩
  others : ∀ other, other ≠ key → out.1.bucket.objects.get? other = before.bucket.objects.get? other
  /-- The uploads in progress and their parts are what they were, unless an abort was made and lost. -/
  uploads : (before.callsIn .abort < out.1.callsIn .abort →
      (before.conditions.reaction .abort (before.callsIn .abort)).failure = none) →
    out.1.bucket.uploads = before.bucket.uploads
  aborts : out.1.callsIn .abort ≤ before.callsIn .abort + 1

theorem Settles.atomic {out : Link LocalEndpoint × Except FlushError ObjectSummary}
    (h : Settles origin key New out.2 out.1) : Atomic origin key New out := by
  obtain ⟨l, outcome⟩ := out
  cases outcome with
  | error e =>
    have h : Restored origin l := h
    refine ⟨fun _ _ => h.objects, (fun _ hok => by cases hok), fun other _ => ?_, h.uploads, h.aborts⟩
    show l.bucket.objects.get? other = _
    rw [h.objects]
  | ok written =>
    obtain ⟨hspares, huploads, o, hobjects, hnew, hsize, hwritten⟩ := h
    refine ⟨(fun _ herror => by cases herror), ?_, ?_, fun _ => huploads, ?_⟩
    · intro written' hok
      cases hok
      refine ⟨o, ?_, hnew, hsize, hwritten⟩
      show l.bucket.objects.get? key = some o
      rw [hobjects, Table.get?_set, if_pos rfl]
    · intro other hother
      show l.bucket.objects.get? other = _
      rw [hobjects, Table.get?_set, if_neg hother]
    · show l.callsIn .abort ≤ _
      rw [hspares.calls]
      omega

/-- **A flush is atomic and leaves nothing behind.** Over a store that nobody else uses, whatever becomes of
the single calls: if it fails, every object is as it was; if it succeeds, the object under its key is new,
of the size that was ordered and of the bytes that were, and every other is as it was. The uploads in
progress are the same in both cases, unless the one abort that it makes was lost. -/
theorem flush_atomic (f : Flusher) {l : Link LocalEndpoint} (hfresh : l.endpoint.Fresh) :
    (∀ order : FlushOrder, Atomic l order.key
      (Bytes.Fills (order.Allows (l.bucket.objects.get? order.key)) 0 order.size)
      ((f.flush order).run l)) ∧
    ∀ key data, Atomic l key (· = data) ((f.flushBuffer key data).run l) := by
  have hunused := hfresh _ (Nat.le_refl _)
  have hstart : Unchanged l l := ⟨.refl .., rfl⟩
  refine ⟨fun order => Settles.atomic ?_, fun key data => Settles.atomic ?_⟩
  · exact f.contract_flush order hunused l hstart
  · exact f.contract_flushBuffer key data hunused l hstart

/-- The second of two parts is refused while the first is under way, and while an upload for another key is in
progress: the bucket is as it was. -/
theorem refused_flush_leaves_nothing :
    let key : ObjectKey := ⟨"k", by decide⟩
    let old : StoredObject := ⟨[1, 2, 3], 3, "", .bucketDefault, none, .either⟩
    let refusing : Conditions := { reaction := fun lane _ =>
      match lane with
      | .part 1 => { delay := 50 }
      | .part _ => { delay := 5, failure := some (.http 403 "denied") }
      | _ => {} }
    let store : LocalEndpoint := ⟨{ objects := [(key, old)] }, 0, {}, 1⟩
    let link : Link LocalEndpoint :=
      { endpoint := (Endpoint.serve store (.initiate ⟨"other", by decide⟩)).1, conditions := refusing }
    let flusher : Flusher :=
      ⟨{ minPartSize := 1, maxPartSize := 2, multipartThreshold := 1, retryLimit := 0 }, by decide⟩
    let out := (flusher.flushBuffer key [7, 8, 9, 10]).run link
    link.endpoint.Fresh ∧ out.2 = .error (.session (.upload (.partFailed 2 (.http 403 "denied")))) ∧
      out.1.callsIn .abort = 1 ∧ out.1.bucket = link.bucket ∧
      Atomic link key (· = [7, 8, 9, 10]) out := by
  intro key old refusing store link flusher out
  have hfresh : link.endpoint.Fresh := LocalEndpoint.Fresh.serve (e := store)
    (LocalEndpoint.fresh_of_no_uploads rfl) _
  have hfailed : out.2 = .error (.session (.upload (.partFailed 2 (.http 403 "denied")))) := by
    unfold out flusher link store refusing old key
    cbv
  have haborts : out.1.callsIn .abort = 1 := by
    unfold out flusher link store refusing old key
    cbv
  have hatomic := (flush_atomic flusher hfresh).2 key [7, 8, 9, 10]
  have hbucket : out.1.bucket = link.bucket := by
    have hobjects := hatomic.failed _ hfailed
    have huploads := hatomic.uploads fun _ => rfl
    exact congrArg₂ Bucket.mk hobjects huploads
  exact ⟨hfresh, hfailed, haborts, hbucket, hatomic⟩

end ObjectFlush
