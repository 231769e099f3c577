import ObjectFlush.Proofs.Plan.Rebuild
import ObjectFlush.Proofs.Store.Shared
import ObjectFlush.Proofs.Upload.Choice
import ObjectFlush.Proofs.Upload.Triple

/-!
A flush as a whole, over a store that others use too. It either delivers the file, byte for byte, or
leaves the object under the key as it was: `Flusher.triple_flush`. This holds whatever becomes of the
single calls, and of a flush by one request, by a session, or by a session that gave up.
-/

namespace ObjectFlush

/-! ## What the parts of a plan hold -/

/-- The bytes of the file in the part of that number. -/
def contentOf (file : Bytes) (parts : List Portion) (number : Nat) : Bytes :=
  match parts[number - 1]? with
  | some p => file.slice p.offset p.size
  | none => []

theorem numbers_bindPortions (parts : List Portion) (source : FreshContent) (key : ObjectKey) :
    ((bindPortions parts source key).map BoundPart.toRequest).map (·.number) =
      parts.map (·.number) := by
  rw [bindPortions, List.map_map, List.map_map]
  rfl

/-- What a part sends that is not copied. -/
theorem Portion.payload_bind_upload {p : Portion} {source : FreshContent} {file : Bytes} (key : ObjectKey)
    (hsource : source.Holds file) (hk : p.kind = .upload) (hstop : p.stop ≤ file.length) :
    (p.bind source key).toRequest.payload = .ok (.bytes (file.slice p.offset p.size)) := by
  have hread := Portion.read_bind key hsource hk hstop
  unfold BoundPart.toRequest
  split
  · next range hr => simp [BoundPart.read, hr] at hread
  · rw [hread]
    rfl

namespace WellPlanned

variable {ranges : List DirtyRange} {b : PartBounds} {parts : List Portion} {file : Bytes}

/-- Receipts for all parts are in the order of the plan. -/
theorem numbers_of_complete {size : Nat} (h : WellPlanned size ranges b parts) {source : FreshContent}
    {key : ObjectKey} {receipts : List Receipt}
    (hc : PartRun.Complete ((bindPortions parts source key).map BoundPart.toRequest) receipts) :
    receipts.map (·.number) = parts.map (·.number) := by
  -- The receipts are sorted and have the numbers of the parts, which a plan numbers in order.
  have hperm := hc.numbers
  rw [numbers_bindPortions] at hperm
  have hsorted : (parts.map (·.number)).Pairwise (· ≤ ·) := by
    rw [h.numbers]
    exact List.pairwise_le_range'
  exact hperm.eq_of_pairwise (fun _ _ _ _ => Nat.le_antisymm) hc.ascending hsorted

/-- The number of a part says where it stands. -/
theorem getElem?_number {size : Nat} (h : WellPlanned size ranges b parts) {p : Portion} (hp : p ∈ parts) :
    parts[p.number - 1]? = some p := by
  obtain ⟨i, hi, rfl⟩ := List.mem_iff_getElem.1 hp
  have hnumber : parts[i].number = i + 1 := by
    have hget := congrArg (fun numbers : List Nat => numbers[i]?) h.numbers
    simp only [List.getElem?_map, List.getElem?_range', hi, List.getElem?_eq_getElem,
      Option.map_some, Option.some.injEq] at hget
    omega
  rw [hnumber, Nat.add_sub_cancel, List.getElem?_eq_getElem hi]

theorem contentOf_number (h : WellPlanned file.length ranges b parts) {p : Portion} (hp : p ∈ parts) :
    contentOf file parts p.number = file.slice p.offset p.size := by
  rw [contentOf, h.getElem?_number hp]

/-- Receipts for all parts stand for the whole file. -/
theorem flatten_contentOf (h : WellPlanned file.length ranges b parts) {source : FreshContent}
    {key : ObjectKey} {receipts : List Receipt}
    (hc : PartRun.Complete ((bindPortions parts source key).map BoundPart.toRequest) receipts) :
    (receipts.map fun r => contentOf file parts r.number).flatten = file := by
  calc (receipts.map fun r => contentOf file parts r.number).flatten
      = ((receipts.map (·.number)).map (contentOf file parts)).flatten := by rw [List.map_map]; rfl
    _ = (parts.map fun p => contentOf file parts p.number).flatten := by
        rw [h.numbers_of_complete hc, List.map_map]; rfl
    _ = (parts.map fun p => file.slice p.offset p.size).flatten := by
        rw [List.map_congr_left fun p hp => h.contentOf_number hp]
    _ = file := h.flatten_slices

variable {key : ObjectKey} {old : Option StoredObject} {source : FreshContent}

/-- Each part fills its place in the upload with its bytes of the file, whether they are sent or
copied from the object. -/
theorem allKeep_gathers (h : WellPlanned file.length ranges b parts) (hsource : source.Holds file)
    (hagree : b.mayCopy = true → ∀ o, old = some o → AgreesOutside ranges file o.data)
    (name : String) :
    PartRequest.AllKeep ((bindPortions parts source key).map BoundPart.toRequest) name
      fun s : SharedEndpoint key => s.Gathers name (contentOf file parts) old := by
  intro request hrequest payload hpayload s hs
  obtain ⟨job, hjob, rfl⟩ := List.mem_map.1 hrequest
  obtain ⟨p, hp, rfl⟩ := List.mem_map.1 hjob
  have hcontent := h.contentOf_number hp
  have hstop := h.stop_le p hp
  cases hk : p.kind with
  | copy =>
    have hmay : b.mayCopy = true := by
      by_contra hno
      exact h.uploads (Bool.eq_false_iff.2 hno) p hp hk
    simp only [BoundPart.toRequest, Portion.source_bind_copy hk] at hpayload
    cases hpayload
    apply SharedEndpoint.serve_copyPart hs
    intro o data ho hslice
    obtain ⟨-, hdata⟩ := Bytes.slice?_eq_some_iff.1 hslice
    rw [← hdata]
    show o.data.slice p.offset p.size = contentOf file parts p.number
    rw [hcontent, (hagree hmay o ho).slice_eq hstop fun i h₁ h₂ => h.clean p hp hk i h₁ h₂]
  | upload =>
    rw [Portion.payload_bind_upload key hsource hk hstop] at hpayload
    cases hpayload
    exact SharedEndpoint.serve_uploadPart hs hcontent.symm

end WellPlanned

/-- What a write of `data` comes to: it is delivered, or it failed and the object is still `old`. -/
def SharedEndpoint.Settled {ε : Type} {key : ObjectKey} (old : Option StoredObject) (data : Bytes) :
    Except ε ObjectSummary → SharedEndpoint key → Prop
  | .ok written, s => s.Delivered data written
  | .error _, s => s.object = old

open Dialogue SharedEndpoint

variable {key : ObjectKey} {old : Option StoredObject} {content : Nat → Bytes} {name : String}

/-! ## A session -/

namespace Session

theorem enter_eq {s : Session} (target : SessionStage) (hstage : s.stage.leadsTo target = true)
    (hupload : s.upload = some name) : s.enter target = .ok ({ s with stage := target }, name) := by
  simp only [enter, hstage, hupload]

theorem triple_start {s : Session} (hstage : s.stage = .idle) (old : Option StoredObject)
    (content : Nat → Bytes) :
    Triple (fun e : SharedEndpoint s.key => e.object = old) s.start fun out e =>
      match out.2 with
      | .ok name =>
        out.1 = { s with stage := .initiated, upload := some name } ∧ e.Gathers name content old
      | .error _ => e.object = old := by
  have hask : Triple (fun e : SharedEndpoint s.key => e.object = old) (request (.initiate s.key))
      (OrStill (fun e => e.object = old) fun name e => e.Gathers name content old) := by
    refine triple_ask (fun _ _ => rfl) ?_
    intro e he
    obtain ⟨name, hok, hg⟩ := serve_initiate he content
    rw [hok]
    exact hg
  rw [start, if_pos (by rw [hstage]; rfl)]
  refine hask.bind ?_
  intro answer
  cases answer with
  | ok name => exact triple_pure fun e hg => ⟨rfl, hg⟩
  | error err => exact triple_pure fun e he => he

theorem triple_sendParts (s : Session) (hstage : s.stage = .initiated) (hupload : s.upload = some name)
    {jobs : List BoundPart}
    (hkeep : PartRequest.AllKeep (jobs.map BoundPart.toRequest) name
      fun e : SharedEndpoint key => e.Gathers name content old) :
    Triple (fun e : SharedEndpoint key => e.Gathers name content old) (s.sendParts jobs) fun out e =>
      match out.2 with
      | .ok _ => (out.1.stage = .uploading ∧ out.1.upload = some name ∧
          PartRun.Complete (jobs.map BoundPart.toRequest) out.1.receipts) ∧ e.Gathers name content old
      | .error _ => e.Gathers name content old := by
  have henter := enter_eq .uploading (by rw [hstage]; rfl) hupload
  rw [sendParts, henter]
  refine (Dialogue.triple_sendParts s.policy s.cancel hkeep).bind ?_
  intro outcome
  cases outcome with
  | ok receipts =>
    apply triple_pure
    intro e h
    obtain ⟨hg, hc⟩ := h
    exact ⟨⟨rfl, hupload, hc receipts rfl⟩, hg⟩
  | error err =>
    apply triple_pure
    intro e h
    obtain ⟨hg, _⟩ := h
    exact hg

theorem triple_complete {s : Session} (hstage : s.stage = .uploading) (hupload : s.upload = some name) :
    Triple (fun e : SharedEndpoint key => e.Gathers name content old) s.complete fun out e =>
      Settled old (s.receipts.map fun r => content r.number).flatten out.2 e := by
  have hask : Triple (fun e : SharedEndpoint key => e.Gathers name content old)
      (request (.complete name s.receipts)) (OrStill (fun e => e.Gathers name content old)
        fun written e => e.Delivered (s.receipts.map fun r => content r.number).flatten written) := by
    refine triple_ask (r := .complete name s.receipts) (fun _ _ => rfl) ?_
    intro e he
    have hserve := serve_complete he s.receipts
    cases ha : (Endpoint.serve e (.complete name s.receipts)).2 with
    | ok written => rw [ha] at hserve; exact hserve
    | error err => rw [ha] at hserve; exact hserve
  have henter := enter_eq .completing (by rw [hstage]; rfl) hupload
  rw [complete, henter]
  refine (triple_persist s.policy.retry hask fun err e h => h).bind ?_
  intro answer
  cases answer with
  | ok written => exact triple_pure fun e h => h
  | error err => exact triple_pure fun e h => h.object

/-- Discarding an upload never touches the object, whatever becomes of it. -/
theorem triple_abort (s : Session) :
    Triple (fun e : SharedEndpoint key => e.object = old) s.abort fun _ e => e.object = old := by
  unfold abort
  split
  · exact triple_pure fun e h => h
  · next s' name _ =>
    have hask : Triple (fun e : SharedEndpoint key => e.object = old) (request (.abort name))
        fun _ e => e.object = old := by
      apply triple_request
      intro e he e' answer hends
      exact hends.keeps (I := fun e : SharedEndpoint key => e.object = old) he (serve_abort he name)
    refine (triple_signal s'.cancel).bind fun _ => hask.bind ?_
    intro answer
    cases answer with
    | ok u => exact triple_pure fun e h => h
    | error err => exact triple_pure fun e h => h

/-- A transaction delivers the content of its parts or leaves the object as it was. -/
theorem triple_execute {s : Session} (hstage : s.stage = .idle) {jobs : List BoundPart} {data : Bytes}
    (hkeep : ∀ name, PartRequest.AllKeep (jobs.map BoundPart.toRequest) name
      fun e : SharedEndpoint s.key => e.Gathers name content old)
    (hdata : ∀ receipts, PartRun.Complete (jobs.map BoundPart.toRequest) receipts →
      (receipts.map fun r => content r.number).flatten = data) :
    Triple (fun e : SharedEndpoint s.key => e.object = old) (s.execute jobs) fun out e =>
      Settled old data out.2 e := by
  refine (triple_start hstage old content).bind ?_
  intro out
  obtain ⟨s₁, started⟩ := out
  cases started with
  | error err => exact triple_pure fun e he => he
  | ok name =>
    apply Triple.of_fact
    intro hs₁
    subst hs₁
    refine (triple_sendParts _ rfl rfl (hkeep name)).bind ?_
    intro out
    obtain ⟨s₂, sent⟩ := out
    cases sent with
    | error err =>
      -- Nothing was completed, so the object is as it was when the upload is discarded.
      refine (s₂.triple_abort.consequence (fun e hg => hg.object) fun _ _ he => he).bind ?_
      intro out
      exact triple_pure fun e he => he
    | ok u =>
      apply Triple.of_fact
      intro h
      obtain ⟨hstage₂, hupload₂, hc⟩ := h
      refine (triple_complete hstage₂ hupload₂).bind ?_
      intro out
      obtain ⟨s₃, completed⟩ := out
      rw [hdata _ hc]
      cases completed with
      | ok written => exact triple_pure fun e h => h
      | error err =>
        refine s₃.triple_abort.bind ?_
        intro out
        exact triple_pure fun e he => he

end Session

/-! ## A flush -/

namespace Flusher

variable {file : Bytes}

theorem triple_send (f : Flusher) (key : ObjectKey) (old : Option StoredObject) (data : Bytes) :
    Triple (fun e : SharedEndpoint key => e.object = old) (f.send key data) (Settled old data) := by
  have hask : Triple (fun e : SharedEndpoint key => e.object = old) (request (.put key data))
      (Settled old data) := by
    apply triple_request
    intro e he e' answer hends
    rcases hends.untagged fun _ _ => rfl with ⟨rfl, err, rfl⟩ | ⟨rfl, rfl⟩
    · exact he
    · obtain ⟨written, hok, hdelivered⟩ := serve_put e data
      rw [hok]
      exact hdelivered
  refine (triple_persist f.settings.repeatPolicy hask fun err e h => h).bind ?_
  intro answer
  cases answer with
  | ok written => exact triple_pure fun e h => h
  | error err => exact triple_pure fun e h => h

theorem triple_sendFile (f : Flusher) (key : ObjectKey) (old : Option StoredObject)
    {source : LocalFile} (hsource : (FreshContent.file source).Holds file) :
    Triple (fun e : SharedEndpoint key => e.object = old) (f.sendFile key source file.length)
      (Settled old file) := by
  unfold sendFile
  split
  · exact triple_pure fun e h => h
  · rw [LocalFile.read_all hsource]
    exact f.triple_send key old file

variable {ranges : List DirtyRange} {b : PartBounds} {parts : List Portion} {source : FreshContent}

theorem triple_sendParts (f : Flusher) (key : ObjectKey) (cancel : Option Signal)
    (hplan : plan file.length ranges b = .ok parts) (hsource : source.Holds file)
    (hagree : b.mayCopy = true → ∀ o, old = some o → AgreesOutside ranges file o.data) :
    Triple (fun e : SharedEndpoint key => e.object = old) (f.sendParts key parts source cancel)
      (Settled old file) := by
  have h := (cut_of_plan hplan).wellPlanned (numbers_of_plan hplan)
  let session : Session := { key, policy := f.settings.partPolicy, cancel }
  have hexecute := session.triple_execute rfl (fun name => h.allKeep_gathers hsource hagree name)
    fun receipts hc => h.flatten_contentOf hc
  refine hexecute.bind ?_
  intro out
  obtain ⟨s, out⟩ := out
  cases out with
  | ok written => exact triple_pure fun e h => h
  | error err => exact triple_pure fun e h => h

/-- **A flush delivers the file or leaves the object alone.** The order has to name the bytes of the
file and, where something is stored, ranges outside which the file agrees with it. -/
theorem triple_flush (f : Flusher) {order : FlushOrder}
    (hsource : (FreshContent.file order.source).Holds file) (hsize : order.size = file.length)
    (hagree : order.stored = true → ∀ o, old = some o → AgreesOutside order.dirty file o.data) :
    Triple (fun e : SharedEndpoint order.key => e.object = old) (f.flush order)
      (Settled old file) := by
  rw [flush_eq, hsize]
  refine f.choose_of_ways (P := fun d => Triple _ d (Settled old file)) ?_ ?_ ?_
  · exact f.triple_sendFile order.key old hsource
  · intro parts hplan
    apply f.triple_sendParts order.key order.cancel hplan hsource
    intro hmay
    exact hagree (Bool.and_eq_true_iff.1 hmay).2
  · exact fun e => triple_pure fun e h => h

end Flusher

end ObjectFlush
