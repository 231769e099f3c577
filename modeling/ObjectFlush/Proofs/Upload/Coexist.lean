import ObjectFlush.Proofs.Store.Concurrent
import ObjectFlush.Proofs.Upload.Atomic
import ObjectFlush.Proofs.Upload.Interference

/-!
Flushes to one local store, each to a key of its own. Whatever the others do to their keys, and whatever becomes of
its calls, a flush either replaces the object under its key by what it had to write, or leaves it as it was
(`Flusher.assures_flush`, `Flusher.assures_flushBuffer`); and to the keys of others it does nothing.
-/

namespace ObjectFlush

namespace LocalEndpoint

/-- The pact of those who write to a store: one has the key to oneself, and keeps to it. -/
def exclusive (key : ObjectKey) : Pact LocalEndpoint where
  rely e e' := e.Fresh → e'.Fresh ∧ Undisturbed key e.bucket e'.bucket
  guar e e' := e.Fresh → e'.Fresh ∧ Bucket.KeepsTo key e.bucket e'.bucket
  rely_refl e h := ⟨h, .refl key e.bucket⟩
  rely_trans h h' ha := ⟨(h' (h ha).1).1, (h ha).2.trans (h' (h ha).1).2⟩
  guar_refl e h := ⟨h, .refl key e.bucket⟩
  guar_trans h h' ha := ⟨(h' (h ha).1).1, (h ha).2.trans (h' (h ha).1).2⟩

/-- What one does to one's own key, the others may rely on for theirs. -/
theorem rely_of_guar {key other : ObjectKey} {e e' : LocalEndpoint} (h : (exclusive key).guar e e')
    (hother : other ≠ key) : (exclusive other).rely e e' :=
  fun hfresh => ⟨(h hfresh).1, (h hfresh).2 other hother⟩

/-- The names for uploads that are still to be given are not in use, and the bucket is as `P` says. -/
def Holds (P : Bucket → Prop) (e : LocalEndpoint) : Prop := e.Fresh ∧ P e.bucket

/-- The object under the key is `old`. -/
def Untouched (key : ObjectKey) (old : Option StoredObject) : LocalEndpoint → Prop :=
  Holds fun b => b.objects.get? key = old

/-- An upload for the key is in progress. -/
def Staging (name : String) (key : ObjectKey) (Part : Nat → Bytes → Prop) (old : Option StoredObject) :
    LocalEndpoint → Prop :=
  Holds fun b => b.Stages name key Part old

/-- The object under the key holds bytes that `New` allows. -/
def Replaced (key : ObjectKey) (New : Bytes → Prop) : LocalEndpoint → Prop :=
  Holds fun b => ∃ o, b.objects.get? key = some o ∧ New o.data

/-- What a write comes to: the object is replaced, or it is still `old`. -/
def Writes {ε : Type} (key : ObjectKey) (old : Option StoredObject) (New : Bytes → Prop) :
    Except ε ObjectSummary → LocalEndpoint → Prop
  | .ok _ => Replaced key New
  | .error _ => Untouched key old

variable {key : ObjectKey} {old : Option StoredObject} {Part : Nat → Bytes → Prop} {New : Bytes → Prop}
  {name : String}

theorem stable_holds {P : Bucket → Prop} (h : ∀ a b, Undisturbed key a b → P a → P b) :
    (exclusive key).Stable (Holds P) :=
  fun e e' he hrely => ⟨(hrely he.1).1, h e.bucket e'.bucket (hrely he.1).2 he.2⟩

theorem stable_untouched : (exclusive key).Stable (Untouched key old) :=
  stable_holds fun _ _ hab ha => hab.object.trans ha

theorem stable_staging : (exclusive key).Stable (Staging name key Part old) :=
  stable_holds fun _ _ hab ha => hab.stages ha

theorem stable_replaced : (exclusive key).Stable (Replaced key New) :=
  stable_holds fun _ _ hab ⟨o, ho, hnew⟩ => ⟨o, hab.object.trans ho, hnew⟩

theorem stable_writes {ε : Type} (out : Except ε ObjectSummary) :
    (exclusive key).Stable (Writes key old New out) := by
  cases out with
  | ok written => exact stable_replaced
  | error e => exact stable_untouched

theorem Staging.untouched {e : LocalEndpoint} (h : Staging name key Part old e) : Untouched key old e :=
  ⟨h.1, h.2.object⟩

/-- A request of a store keeps the pact if it keeps to the key. -/
theorem guar_serve {e : LocalEndpoint} {r : Request} (h : Bucket.KeepsTo key e.bucket (Endpoint.serve e r).1.bucket) :
    (exclusive key).guar e (Endpoint.serve e r).1 :=
  fun hfresh => ⟨hfresh.serve r, h⟩

end LocalEndpoint

open Dialogue LocalEndpoint

variable {key : ObjectKey} {old : Option StoredObject} {Part : Nat → Bytes → Prop} {New : Bytes → Prop}
  {name : String}

/-! ## A session -/

namespace Session

theorem assures_start {s : Session} (hstage : s.stage = .idle) (old : Option StoredObject)
    (Part : Nat → Bytes → Prop) :
    Assures (exclusive s.key) (Untouched s.key old) s.start fun out e =>
      match out.2 with
      | .ok name => out.1 = { s with stage := .initiated, upload := some name } ∧ Staging name s.key Part old e
      | .error _ => Untouched s.key old e := by
  have hask : Assures (exclusive s.key) (Untouched s.key old) (request (.initiate s.key))
      (OrStill (Untouched s.key old) fun name => Staging name s.key Part old) := by
    -- To start an upload touches no object, and the name that it gets is new.
    refine assures_ask (fun _ _ => rfl) stable_untouched ?_ (fun _ _ he => he) ?_
    · rintro (err | name)
      · exact stable_untouched
      · exact stable_staging
    · rintro e ⟨hfresh, hobject⟩
      obtain ⟨hkeeps, name, hok, hstages⟩ := stages_initiate hfresh hobject Part
      rw [hok]
      exact ⟨guar_serve hkeeps, hfresh.serve _, hstages⟩
  rw [start, if_pos (by rw [hstage]; rfl)]
  refine hask.bind fun answer => ?_
  cases answer with
  | ok name =>
    exact assures_pure (fun e e' he hrely => ⟨he.1, stable_staging e e' he.2 hrely⟩) fun e he => ⟨rfl, he⟩
  | error err => exact assures_pure stable_untouched fun e he => he

theorem assures_sendParts (s : Session) (hstage : s.stage = .initiated) (hupload : s.upload = some name)
    {jobs : List BoundPart}
    (hkeep : PartRequest.AllUphold (exclusive key) (jobs.map BoundPart.toRequest) name (Staging name key Part old)) :
    Assures (exclusive key) (Staging name key Part old) (s.sendParts jobs) fun out e =>
      (out.1.stage = .uploading ∧ out.1.upload = some name ∧
        (out.2 = .ok () → PartRun.Complete (jobs.map BoundPart.toRequest) out.1.receipts)) ∧
      Staging name key Part old e := by
  have henter := enter_eq .uploading (by rw [hstage]; rfl) hupload
  rw [sendParts, henter]
  refine (Dialogue.assures_sendParts s.policy s.cancel stable_staging hkeep).bind fun outcome => ?_
  cases outcome with
  | ok receipts =>
    refine assures_pure (fun e e' he hrely => ⟨he.1, stable_staging e e' he.2 hrely⟩) ?_
    rintro e ⟨hcomplete, he⟩
    exact ⟨⟨rfl, hupload, fun _ => hcomplete receipts rfl⟩, he⟩
  | error err =>
    refine assures_pure (fun e e' he hrely => ⟨he.1, stable_staging e e' he.2 hrely⟩) ?_
    rintro e ⟨-, he⟩
    exact ⟨⟨rfl, hupload, fun hok => by cases hok⟩, he⟩

theorem assures_complete {s : Session} (hstage : s.stage = .uploading) (hupload : s.upload = some name)
    (hnew : ∀ chunks : List Bytes,
      List.Forall₂ (fun (r : Receipt) chunk => Part r.number chunk) s.receipts chunks → New chunks.flatten) :
    Assures (exclusive key) (Staging name key Part old) s.complete fun out e =>
      match out.2 with
      | .ok _ => Replaced key New e
      | .error _ => (out.1.stage = .completing ∧ out.1.upload = some name) ∧ Staging name key Part old e := by
  have hstable : ∀ answer, (exclusive key).Stable
      (OrStill (Staging name key Part old) (fun _ : ObjectSummary => Replaced key New) answer) := by
    rintro (err | written)
    · exact stable_staging
    · exact stable_replaced
  have hask : Assures (exclusive key) (Staging name key Part old) (request (.complete name s.receipts))
      (OrStill (Staging name key Part old) fun _ => Replaced key New) := by
    refine assures_ask (r := .complete name s.receipts) (fun _ _ => rfl) stable_staging hstable (fun _ _ he => he) ?_
    rintro e ⟨hfresh, hstages⟩
    obtain ⟨hkeeps, hout⟩ := stages_complete hstages s.receipts
    refine ⟨guar_serve hkeeps, ?_⟩
    cases ha : (Endpoint.serve e (.complete name s.receipts)).2 with
    | error err =>
      rw [ha] at hout
      exact ⟨hfresh.serve _, hout⟩
    | ok written =>
      rw [ha] at hout
      obtain ⟨chunks, hchunks, o, ho, hdata, -⟩ := hout
      exact ⟨hfresh.serve _, o, ho, hdata ▸ hnew chunks hchunks⟩
  have henter := enter_eq .completing (by rw [hstage]; rfl) hupload
  rw [complete, henter]
  refine (assures_persist s.policy.retry (r := .complete name s.receipts) stable_staging hstable hask
    fun err e he => he).bind fun answer => ?_
  cases answer with
  | ok written => exact assures_pure stable_replaced fun e he => he
  | error err =>
    exact assures_pure (fun e e' he hrely => ⟨he.1, stable_staging e e' he.2 hrely⟩) fun e he =>
      ⟨⟨rfl, hupload⟩, he⟩

/-- Discarding one's upload does not touch the object. -/
theorem assures_abort {s : Session} (hstage : s.stage.leadsTo .aborting = true) (hupload : s.upload = some name) :
    Assures (exclusive key) (Staging name key Part old) s.abort fun _ => Untouched key old := by
  have hask : Assures (exclusive key) (Staging name key Part old) (request (.abort name))
      fun _ => Untouched key old := by
    refine assures_ask (r := .abort name) (fun _ _ => rfl) stable_staging (fun _ => stable_untouched)
      (fun _ _ he => he.untouched) ?_
    rintro e ⟨hfresh, hstages⟩
    obtain ⟨hkeeps, hobject⟩ := stages_abort hstages
    exact ⟨guar_serve hkeeps, hfresh.serve _, hobject⟩
  have henter := enter_eq .aborting hstage hupload
  rw [abort, henter]
  refine (assures_signal s.cancel stable_staging).bind fun _ => hask.bind fun answer => ?_
  cases answer with
  | ok u => exact assures_pure stable_untouched fun e he => he
  | error err => exact assures_pure stable_untouched fun e he => he

/-- A transaction replaces the object by the parts that it sent, or leaves it as it was. -/
theorem assures_execute {s : Session} (hstage : s.stage = .idle) (old : Option StoredObject) {jobs : List BoundPart}
    (hkeep : ∀ name, PartRequest.AllUphold (exclusive s.key) (jobs.map BoundPart.toRequest) name
      (Staging name s.key Part old))
    (hnew : ∀ receipts, PartRun.Complete (jobs.map BoundPart.toRequest) receipts → ∀ chunks : List Bytes,
      List.Forall₂ (fun (r : Receipt) chunk => Part r.number chunk) receipts chunks → New chunks.flatten) :
    Assures (exclusive s.key) (Untouched s.key old) (s.execute jobs) fun out => Writes s.key old New out.2 := by
  refine (assures_start hstage old Part).bind fun out => ?_
  obtain ⟨s₁, err | name⟩ := out
  · exact assures_pure stable_untouched fun e he => he
  · refine Assures.of_fact fun hs₁ => ?_
    subst hs₁
    refine (assures_sendParts _ rfl rfl (hkeep name)).bind fun out => ?_
    obtain ⟨s₂, sent⟩ := out
    refine Assures.of_fact fun h => ?_
    obtain ⟨hstage₂, hupload₂, hcomplete⟩ := h
    cases sent with
    | error err =>
      -- Some part failed: the upload is discarded, and the object has not been touched.
      refine (assures_abort (by rw [hstage₂]; rfl) hupload₂).bind fun out => ?_
      exact assures_pure stable_untouched fun e he => he
    | ok u =>
      refine (assures_complete hstage₂ hupload₂ (hnew _ (hcomplete rfl))).bind fun out => ?_
      obtain ⟨s₃, err | written⟩ := out
      · -- The completion failed: the upload is still there to be discarded, and the object is as it was.
        refine Assures.of_fact fun h => ?_
        obtain ⟨hstage₃, hupload₃⟩ := h
        refine (assures_abort (by rw [hstage₃]; rfl) hupload₃).bind fun out => ?_
        exact assures_pure stable_untouched fun e he => he
      · exact assures_pure stable_replaced fun e he => he

end Session

/-! ## A flush -/

variable {May : Nat → UInt8 → Prop}

/-- Each part comes to stand in the upload with bytes that may fill its place. -/
theorem WellPlanned.allUphold_staging {size : Nat} {ranges : List DirtyRange} {b : PartBounds} {parts : List Portion}
    (h : WellPlanned size ranges b parts) {source : FreshContent}
    (hfresh : ∀ i x, source.bytes[i]? = some x → May i x)
    (hold : b.mayCopy = true → ∀ o, old = some o → ∀ i x, ¬Dirty ranges i → o.data[i]? = some x → May i x)
    (name : String) :
    PartRequest.AllUphold (exclusive key) ((bindPortions parts source key).map BoundPart.toRequest) name
      (Staging name key (FillsPart May parts) old) := by
  rintro request hrequest payload hpayload e ⟨hnames, hstages⟩
  rcases h.payload_cases hfresh hold hrequest hpayload with ⟨offset, length, rfl, hcopy⟩ | ⟨data, rfl, hdata⟩
  · obtain ⟨hkeeps, hstages'⟩ := stages_copyPart hstages hcopy
    exact ⟨guar_serve hkeeps, hnames.serve _, hstages'⟩
  · obtain ⟨hkeeps, hstages'⟩ := stages_uploadPart hstages hdata
    exact ⟨guar_serve hkeeps, hnames.serve _, hstages'⟩

namespace Flusher

theorem assures_send (f : Flusher) (key : ObjectKey) (old : Option StoredObject) {data : Bytes} (hnew : New data) :
    Assures (exclusive key) (Untouched key old) (f.send key data) (Writes key old New) := by
  have hask : Assures (exclusive key) (Untouched key old) (request (.put key data)) (Writes key old New) := by
    refine assures_ask (fun _ _ => rfl) stable_untouched stable_writes (fun _ _ he => he) ?_
    rintro e ⟨hfresh, -⟩
    obtain ⟨hkeeps, written, hok, o, ho, hdata, -⟩ := keepsTo_put e key data
    rw [hok]
    exact ⟨guar_serve hkeeps, hfresh.serve _, o, ho, hdata ▸ hnew⟩
  refine (assures_persist f.settings.repeatPolicy stable_untouched stable_writes hask fun err e he => he).bind ?_
  intro answer
  cases answer with
  | ok written => exact assures_pure stable_replaced fun e he => he
  | error err => exact assures_pure stable_untouched fun e he => he

theorem assures_sendFile (f : Flusher) (key : ObjectKey) (old : Option StoredObject) {source : LocalFile}
    (hfresh : ∀ i x, source.bytes[i]? = some x → May i x) (size : Nat) :
    Assures (exclusive key) (Untouched key old) (f.sendFile key source size)
      (Writes key old (Bytes.Fills May 0 size)) := by
  unfold sendFile
  split
  · exact assures_pure stable_untouched fun e he => he
  · split
    · next data hread => exact f.assures_send key old (LocalFile.fills_read hread hfresh)
    · exact assures_pure stable_untouched fun e he => he

theorem assures_sendParts (f : Flusher) (key : ObjectKey) (old : Option StoredObject) (cancel : Option Signal)
    {size : Nat} {ranges : List DirtyRange} {b : PartBounds} {parts : List Portion} {source : FreshContent}
    (hplan : plan size ranges b = .ok parts) (hfresh : ∀ i x, source.bytes[i]? = some x → May i x)
    (hold : b.mayCopy = true → ∀ o, old = some o → ∀ i x, ¬Dirty ranges i → o.data[i]? = some x →
      May i x) :
    Assures (exclusive key) (Untouched key old) (f.sendParts key parts source cancel)
      (Writes key old (Bytes.Fills May 0 size)) := by
  have h := (cut_of_plan hplan).wellPlanned (numbers_of_plan hplan)
  let session : Session := { key, policy := f.settings.partPolicy, cancel }
  have hexecute := session.assures_execute rfl old (h.allUphold_staging hfresh hold)
    fun _ hcomplete _ => h.fills_of_complete hcomplete
  refine hexecute.bind fun out => ?_
  obtain ⟨s, err | written⟩ := out
  · exact assures_pure stable_untouched fun e he => he
  · exact assures_pure stable_replaced fun e he => he

/-- Beside flushes to other keys, a flush replaces the object by bytes that it may store, or leaves it alone. -/
theorem assures_flush (f : Flusher) (order : FlushOrder) (old : Option StoredObject) :
    Assures (exclusive order.key) (Untouched order.key old) (f.flush order)
      (Writes order.key old (Bytes.Fills (order.Allows old) 0 order.size)) := by
  have hfresh : ∀ i x, (FreshContent.file order.source).bytes[i]? = some x → order.Allows old i x :=
    fun i x hx => .inl hx
  rw [flush_eq]
  refine f.choose_of_ways
    (P := fun d => Assures (exclusive order.key) (Untouched order.key old) d (Writes order.key old _)) ?_ ?_ ?_
  · exact f.assures_sendFile order.key old hfresh order.size
  · intro parts hplan
    refine f.assures_sendParts order.key old order.cancel hplan hfresh ?_
    intro hmay o ho i x hclean hx
    exact .inr ⟨(Bool.and_eq_true_iff.1 hmay).2, hclean, o, ho, hx⟩
  · exact fun err => assures_pure stable_untouched fun e he => he

theorem assures_flushBuffer (f : Flusher) (key : ObjectKey) (data : Bytes) (old : Option StoredObject) :
    Assures (exclusive key) (Untouched key old) (f.flushBuffer key data) (Writes key old (· = data)) := by
  rw [flushBuffer_eq]
  refine f.choose_of_ways
    (P := fun d => Assures (exclusive key) (Untouched key old) d (Writes key old (· = data))) ?_ ?_ ?_
  · exact f.assures_send key old rfl
  · intro parts hplan
    have hparts : Assures (exclusive key) (Untouched key old) (f.sendParts key parts (.buffer data) none)
        (Writes key old (Bytes.Fills (fun i x => data[i]? = some x) 0 data.length)) :=
      f.assures_sendParts key old none hplan (fun i x hx => hx) fun hmay => by
        cases (Bool.and_eq_true_iff.1 hmay).2
    -- Parts that fill the object with bytes of the buffer are the buffer.
    refine hparts.imp fun out e hout => ?_
    cases out with
    | ok written =>
      obtain ⟨hfresh, o, ho, hfills⟩ := hout
      exact ⟨hfresh, o, ho, Bytes.eq_of_fills hfills⟩
    | error err => exact hout
  · exact fun err => assures_pure stable_untouched fun e he => he

end Flusher

end ObjectFlush
