import ObjectFlush.Proofs.Store.Collected
import ObjectFlush.Proofs.Upload.Route
import ObjectFlush.Proofs.Upload.Smooth

/-!
The planner and the store agree. Over a local store, under healthy conditions, a flush fails only where the limits of
its settings say so: `healthy_flush`. For this every part of a plan has to pass all that the store demands, of
its number, of its size, and of the range that it copies, and the receipts have to pass for the completion.
-/

namespace ObjectFlush

/-! ## A transaction that is granted -/

/-- Parts whose numbers ascend are in order as they are given. -/
theorem StableOrder.eq_range {parts : List PartRequest} {order : List Nat} (h : StableOrder parts order)
    (hascending : (parts.map (·.number)).Pairwise (· < ·)) : order = List.range parts.length := by
  have hget : ∀ i ∈ order, ∃ p, parts[i]? = some p := by
    intro i hi
    have hlt := List.mem_range.1 (h.places.mem_iff.1 hi)
    exact ⟨_, List.getElem?_eq_getElem hlt⟩
  have hsorted : order.Pairwise (· ≤ ·) := by
    refine h.sorted.imp_of_mem fun {i j} hi hj hij => ?_
    obtain ⟨p, hp⟩ := hget i hi
    obtain ⟨q, hq⟩ := hget j hj
    rcases hij p q hp hq with hlt | ⟨-, hlt⟩
    · -- The later of two parts has the greater number.
      by_contra hnot
      obtain ⟨hi', rfl⟩ := List.getElem?_eq_some_iff.1 hp
      obtain ⟨hj', rfl⟩ := List.getElem?_eq_some_iff.1 hq
      have := List.pairwise_iff_getElem.1 hascending j i (by simpa using hj') (by simpa using hi') (by omega)
      simp only [List.getElem_map] at this
      omega
    · exact Nat.le_of_lt hlt
  exact h.places.eq_of_pairwise (fun _ _ _ _ => Nat.le_antisymm) hsorted List.pairwise_le_range

/-- What holds of the places of a list, one by one, holds of its elements. -/
theorem forall₂_of_range {α β : Type} {R : α → β → Prop} {xs : List α} {ys : List β}
    (h : List.Forall₂ (fun i y => ∃ x, xs[i]? = some x ∧ R x y) (List.range xs.length) ys) :
    List.Forall₂ R xs ys := by
  rw [List.forall₂_iff_get] at h ⊢
  obtain ⟨hlength, hget⟩ := h
  refine ⟨by simpa using hlength, fun i h₁ h₂ => ?_⟩
  obtain ⟨x, hx, hR⟩ := hget i (by simpa using h₁) h₂
  simp only [List.get_eq_getElem, List.getElem_range] at hx hR
  rw [List.getElem?_eq_getElem h₁] at hx
  cases hx
  exact hR

/-- The calls of an upload that sends each part once, in order, between its start and its completion. -/
structure SentOnce (key : ObjectKey) (jobs : List BoundPart) (log : List Call) : Prop where
  calls : ∃ opening parts closing name receipts, log = opening :: (parts ++ [closing]) ∧
    opening.request = .initiate key ∧
    List.Forall₂ (fun (job : BoundPart) (c : Call) => job.SentBy name c.request) jobs parts ∧
    closing.request = .complete name receipts

namespace Session

variable {σ : Type} [Endpoint σ] {l : Link σ} {name : String}

theorem start_run {s : Session} (hidle : s.stage = .idle) (h : (l.ask (.initiate s.key)).2 = .ok name) :
    s.start.run l =
      ((l.ask (.initiate s.key)).1, { s with stage := .initiated, upload := some name }, .ok name) := by
  rcases s.start_cases l with ⟨hnot, -⟩ | ⟨-, ⟨e, hanswer, -⟩ | ⟨_, hanswer, hstart⟩⟩
  · exact absurd hidle hnot
  · cases h.symm.trans hanswer
  · cases h.symm.trans hanswer
    exact hstart

theorem complete_run {s : Session} (hstage : s.stage = .uploading) (hupload : s.upload = some name)
    {written : ObjectSummary} (h : (l.ask (.complete name s.receipts)).2 = .ok written) :
    s.complete.run l = ((l.ask (.complete name s.receipts)).1, { s with stage := .completed }, .ok written) := by
  rw [complete, enter_eq .completing (by rw [hstage]; rfl) hupload]
  show Dialogue.run (Dialogue.persist s.policy.retry (.complete name s.receipts) >>= _) l = _
  rw [Dialogue.run_after, Dialogue.run_persist s.policy.retry h, h]
  rfl

/-- A transaction succeeds under healthy conditions if it is granted its start, its parts, and its completion. -/
theorem execute_granted {I : List Receipt → σ → Prop} {s : Session} (name : String)
    (hidle : s.stage = .idle) {jobs : List BoundPart}
    (hascending : (jobs.map (·.number)).Pairwise (· < ·)) (hhealthy : l.conditions.Healthy s.policy.timeout)
    (hquiet : l.Quiet s.cancel) (hopened : (Endpoint.serve l.endpoint (.initiate s.key)).2 = .ok name)
    (hI : I [] (Endpoint.serve l.endpoint (.initiate s.key)).1)
    (hgranted : ∀ job ∈ jobs, job.toRequest.Granted I name) {P : ObjectSummary → Prop}
    (hcomplete : ∀ receipts given e, PartRun.Complete (jobs.map BoundPart.toRequest) receipts →
      given.Perm receipts → I given e →
        ∃ written, (Endpoint.serve e (.complete name receipts)).2 = .ok written ∧ P written) :
    ∃ written log, ((s.execute jobs).run l).2.2 = .ok written ∧ P written ∧
      ((s.execute jobs).run l).1.calls = l.calls ++ log ∧ SentOnce s.key jobs log := by
  have hanswer : (l.ask (.initiate s.key)).2 = .ok name := (Link.result_ask hhealthy _).trans hopened
  obtain ⟨opening, hopening, hcalls⟩ := l.calls_ask (.initiate s.key)
  obtain ⟨receipts, given, order, sent, hsent, hall, hperm, hgiven, hhealthy', horder, hlog, hparts⟩ :=
    granted_run (l := (l.ask (.initiate s.key)).1) s.policy name s.cancel
      (List.forall_mem_map.2 hgranted) (by rw [l.conditions_ask]; exact hhealthy) (hquiet.ask _)
      (by rw [Link.endpoint_ask hhealthy]; exact hI)
  rw [horder.eq_range (by rw [List.map_map]; exact hascending)] at hparts
  have hjobs := (List.forall₂_map_left_iff.1 (forall₂_of_range hparts)).imp fun _ _ => BoundPart.sentBy_of_sends
  obtain ⟨written, hwritten, hP⟩ := hcomplete receipts given _ hall hperm hgiven
  generalize hrun : (PartRun.start s.policy name s.cancel (jobs.map BoundPart.toRequest)).run
    (l.ask (.initiate s.key)).1 = out at *
  have hdone : (out.1.ask (.complete name receipts)).2 = .ok written := (Link.result_ask hhealthy' _).trans hwritten
  obtain ⟨closing, hclosing, hlast⟩ := out.1.calls_ask (.complete name receipts)
  have hexecute : (s.execute jobs).run l = ((out.1.ask (.complete name receipts)).1,
      { s with stage := .completed, upload := some name, receipts }, .ok written) := by
    rw [execute_run, s.start_run hidle hanswer]
    dsimp only
    rcases ({ s with stage := .initiated, upload := some name } : Session).sendParts_cases jobs
      (l.ask (.initiate s.key)).1 with ⟨hnot, -⟩ | ⟨-, _, hname, ⟨e, herror, -⟩ | ⟨_, hok, hstep⟩⟩
    · cases hnot rfl
    · cases hname
      dsimp only at herror
      rw [hrun, hsent] at herror
      cases herror
    · cases hname
      dsimp only at hok hstep
      rw [hrun, hsent] at hok
      cases hok
      rw [hstep, hrun]
      dsimp only
      rw [complete_run (s := { s with stage := .uploading, upload := some name, receipts }) rfl rfl hdone]
  refine ⟨written, opening :: (sent ++ [closing]), by rw [hexecute], hP, ?_,
    ⟨opening, sent, closing, name, receipts, rfl, hopening.request_eq, hjobs, hclosing.request_eq⟩⟩
  rw [hexecute]
  calc (out.1.ask (.complete name receipts)).1.calls
      = l.calls ++ [opening] ++ sent ++ [closing] := by rw [hlast, hlog, hcalls]
    _ = l.calls ++ opening :: (sent ++ [closing]) := by simp

end Session

/-! ## What the parts of a plan need -/

/-- There is a local byte for each byte of the object, and a stored one for each that may be copied. -/
structure Supplied (size : Nat) (ranges : List DirtyRange) (mayCopy : Bool) (file : Bytes)
    (old : Option StoredObject) : Prop where
  fresh : size ≤ file.length
  stored : mayCopy = true → ∀ i < size, ¬Dirty ranges i → ∃ o, old = some o ∧ i < o.data.length

/-- The bytes that a part sends, or those that it copies. -/
def Portion.content (file : Bytes) (old : Option StoredObject) (p : Portion) : Bytes :=
  match p.kind with
  | .upload => file.slice p.offset p.size
  | .copy => Bytes.slice ((old.map (·.data)).getD []) p.offset p.size

/-- The content of the part of that number. -/
def contentFrom (file : Bytes) (old : Option StoredObject) (parts : List Portion) (number : Nat) : Bytes :=
  ((parts[number - 1]?).map (·.content file old)).getD []

namespace WellPlanned

variable {size : Nat} {ranges : List DirtyRange} {b : PartBounds} {parts : List Portion} {file : Bytes}
  {old : Option StoredObject}

theorem number_bounds (h : WellPlanned size ranges b parts) {p : Portion} (hp : p ∈ parts) :
    0 < p.number ∧ p.number ≤ parts.length := by
  have hmem : p.number ∈ List.range' 1 parts.length := by
    rw [← h.numbers]
    exact List.mem_map_of_mem hp
  have := List.mem_range'_1.1 hmem
  omega

theorem ascending (h : WellPlanned size ranges b parts) : (parts.map (·.number)).Pairwise (· < ·) := by
  rw [h.numbers]
  exact List.pairwise_lt_range'

theorem contentFrom_number (h : WellPlanned size ranges b parts) {p : Portion} (hp : p ∈ parts) :
    contentFrom file old parts p.number = p.content file old := by
  rw [contentFrom, h.getElem?_number hp]
  rfl

/-- What a part copies lies inside the stored object. -/
theorem copy_inside (h : WellPlanned size ranges b parts) (hs : Supplied size ranges b.mayCopy file old)
    {p : Portion} (hp : p ∈ parts) (hk : p.kind = .copy) :
    ∃ o, old = some o ∧ p.offset + p.size ≤ o.data.length := by
  have hmay : b.mayCopy = true := by
    by_contra hno
    exact h.uploads (Bool.eq_false_iff.2 hno) p hp hk
  have hpos := h.nonempty p hp
  have hstop : p.stop ≤ size := h.tiles.stop_le p.span (List.mem_map_of_mem hp)
  have hclean := h.clean p hp hk (p.offset + p.size - 1)
  unfold Portion.stop at hstop hclean
  obtain ⟨o, ho, hlt⟩ := hs.stored hmay (p.offset + p.size - 1) (by omega) (hclean (by omega) (by omega))
  exact ⟨o, ho, by omega⟩

theorem length_content (h : WellPlanned size ranges b parts) (hs : Supplied size ranges b.mayCopy file old)
    {p : Portion} (hp : p ∈ parts) : (p.content file old).length = p.size := by
  have hstop : p.stop ≤ size := h.tiles.stop_le p.span (List.mem_map_of_mem hp)
  unfold Portion.content
  cases hk : p.kind with
  | upload => exact Bytes.length_slice (Nat.le_trans hstop hs.fresh)
  | copy =>
    obtain ⟨o, rfl, hle⟩ := h.copy_inside hs hp hk
    exact Bytes.length_slice hle

theorem sum_size (h : WellPlanned size ranges b parts) : total (·.size) parts = size := by
  have hzeros : WellPlanned (Bytes.zeros size).length ranges b parts := by rw [Bytes.length_zeros]; exact h
  rw [hzeros.sum_sizes, Bytes.length_zeros]

/-- The receipts of a plan stand for as many bytes as the object has. -/
theorem length_receipts (h : WellPlanned size ranges b parts) (hs : Supplied size ranges b.mayCopy file old)
    {receipts : List Receipt} (hnumbers : receipts.map (·.number) = parts.map (·.number)) :
    (receipts.map fun r => contentFrom file old parts r.number).flatten.length = size := by
  calc (receipts.map fun r => contentFrom file old parts r.number).flatten.length
      = ((receipts.map (·.number)).map (contentFrom file old parts)).flatten.length := by rw [List.map_map]; rfl
    _ = (parts.map fun p => (contentFrom file old parts p.number).length).sum := by
        rw [hnumbers, List.length_flatten, List.map_map, List.map_map]; rfl
    _ = (parts.map (·.size)).sum := by
        rw [List.map_congr_left fun p hp => by rw [h.contentFrom_number hp, h.length_content hs hp]]
    _ = size := by rw [← total_eq_sum, h.sum_size]

/-- Each receipt but the last stands for a part of the least size. -/
theorem floor_receipts (h : WellPlanned size ranges b parts) (hs : Supplied size ranges b.mayCopy file old)
    {receipts : List Receipt} (hnumbers : receipts.map (·.number) = parts.map (·.number)) :
    ∀ r ∈ receipts.dropLast, b.minSize ≤ (contentFrom file old parts r.number).length := by
  intro r hr
  have hmem : r.number ∈ parts.dropLast.map (·.number) := by
    rw [List.map_dropLast, ← hnumbers, ← List.map_dropLast]
    exact List.mem_map_of_mem hr
  obtain ⟨p, hp, hnumber⟩ := List.mem_map.1 hmem
  have hpart := List.dropLast_subset _ hp
  rw [← hnumber, h.contentFrom_number hpart, h.length_content hs hpart]
  exact h.floor p hp

/-- The store grants every part of a plan, if it takes that many. -/
theorem granted (h : WellPlanned size ranges b parts) (hs : Supplied size ranges b.mayCopy file old)
    {source : FreshContent} (hsource : source.Holds file) (hmax : parts.length ≤ Bucket.maxPartNumber)
    (floor : Nat) (name : String) (key : ObjectKey) :
    ∀ job ∈ bindPortions parts source key,
      job.toRequest.Granted (LocalEndpoint.Collects floor name key (contentFrom file old parts) old) name := by
  intro job hjob
  obtain ⟨p, hp, rfl⟩ := List.mem_map.1 hjob
  obtain ⟨hpos, hle⟩ := h.number_bounds hp
  have hnumber := Nat.le_trans hle hmax
  have hstop : p.stop ≤ size := h.tiles.stop_le p.span (List.mem_map_of_mem hp)
  cases hk : p.kind with
  | upload =>
    have hpayload : (p.bind source key).toRequest.payload = .ok (.bytes (contentFrom file old parts p.number)) := by
      rw [Portion.payload_bind_upload key hsource hk (Nat.le_trans hstop hs.fresh), h.contentFrom_number hp,
        Portion.content, hk]
    refine ⟨_, hpayload, fun receipts e hcollects => ?_⟩
    obtain ⟨b', hstored, hnext⟩ := hcollects.bucket.storePart hpos hnumber
    obtain ⟨hanswer, hleft⟩ := hcollects.answer hstored hnext
    exact ⟨_, congrArg (Except.map id) hanswer, hleft⟩
  | copy =>
    obtain ⟨o, rfl, hinside⟩ := h.copy_inside hs hp hk
    have hpayload : (p.bind source key).toRequest.payload = .ok (.copy ⟨key, p.offset, p.size⟩) := by
      simp only [BoundPart.toRequest, Portion.source_bind_copy hk]
    have hslice : o.data.slice? p.offset p.size = some (contentFrom file (some o) parts p.number) := by
      rw [Bytes.slice?_of_le hinside, h.contentFrom_number hp, Portion.content, hk]
      rfl
    refine ⟨_, hpayload, fun receipts e hcollects => ?_⟩
    obtain ⟨b', hstored, hnext⟩ := hcollects.bucket.fillPart hpos hnumber rfl (h.nonempty p hp) hslice
    obtain ⟨hanswer, hleft⟩ := hcollects.answer hstored hnext
    exact ⟨_, congrArg (Except.map id) hanswer, hleft⟩

/-- Once all parts are there, the store grants the completion of the upload. -/
theorem completes (h : WellPlanned size ranges b parts) (hs : Supplied size ranges b.mayCopy file old)
    (hpos : 0 < size) {source : FreshContent} {name : String} {key : ObjectKey} {receipts given : List Receipt}
    {e : LocalEndpoint}
    (hall : PartRun.Complete ((bindPortions parts source key).map BoundPart.toRequest) receipts)
    (hperm : given.Perm receipts)
    (hcollects : LocalEndpoint.Collects b.minSize name key (contentFrom file old parts) old given e) :
    ∃ written, (Endpoint.serve e (.complete name receipts)).2 = .ok written ∧ written.size = size := by
  have hnumbers := h.numbers_of_complete hall
  have hascending : receipts.Pairwise fun r r' => r.number < r'.number := by
    refine List.pairwise_map.1 ?_
    rw [hnumbers]
    exact h.ascending
  have hlength := h.length_receipts hs hnumbers
  have hlisted : receipts ≠ [] := by
    rintro rfl
    rw [← hlength] at hpos
    exact Nat.lt_irrefl 0 hpos
  have hpositive : ∀ r ∈ receipts, 1 ≤ r.number := by
    intro r hr
    have hmem : r.number ∈ parts.map (·.number) := hnumbers ▸ List.mem_map_of_mem hr
    obtain ⟨p, hp, hnumber⟩ := List.mem_map.1 hmem
    rw [← hnumber]
    exact (h.number_bounds hp).1
  have hlarge : ∀ r ∈ receipts.dropLast, e.minPartSize ≤ (contentFrom file old parts r.number).length :=
    fun r hr => Nat.le_trans hcollects.floor (h.floor_receipts hs hnumbers r hr)
  obtain ⟨b', hfinished⟩ :=
    (hcollects.bucket.perm hperm.symm).finishUpload e.minPartSize hlisted hpositive hascending hlarge e.options
  refine ⟨⟨key.text, _, Bucket.multipartTag receipts⟩, ?_, hlength⟩
  show (e.answer (e.bucket.finishUpload name receipts e.minPartSize e.options)).2 = _
  rw [hfinished]
  rfl

end WellPlanned

/-! ## A flush -/

/-- The order can be met, and nothing stands in its way: the source holds the file, the store holds what may be copied
and demands no more of the parts than the settings allow for, the conditions are healthy, and nobody cancels. -/
structure Flusher.Unhindered (f : Flusher) (order : FlushOrder) (l : Link LocalEndpoint) : Prop where
  nonempty : 0 < order.size
  source : ∃ file, (FreshContent.file order.source).Holds file ∧ order.size ≤ file.length
  stored : order.stored = true → ∀ i < order.size, ¬Dirty order.dirty i →
    ∃ o, l.endpoint.bucket.objects.get? order.key = some o ∧ i < o.data.length
  maxParts : f.settings.maxParts ≤ Bucket.maxPartNumber
  minPartSize : l.endpoint.minPartSize ≤ f.settings.minPartSize
  healthy : l.conditions.Healthy f.settings.partTimeout
  quiet : l.Quiet order.cancel

namespace Flusher

variable {f : Flusher} {order : FlushOrder} {l : Link LocalEndpoint}

theorem Unhindered.run_sendParts (h : f.Unhindered order l) {parts : List Portion}
    (hplan : f.planned order.size order.dirty order.stored = .ok parts) :
    ∃ written, ((f.sendParts order.key parts (.file order.source) order.cancel).run l).2 = .ok written ∧
      written.size = order.size ∧ SentOnce order.key (bindPortions parts (.file order.source) order.key)
        ((f.sendParts order.key parts (.file order.source) order.cancel).sent l) := by
  obtain ⟨file, hsource, hlong⟩ := h.source
  have hwell := (cut_of_plan hplan).wellPlanned (numbers_of_plan hplan)
  have hmax : parts.length ≤ Bucket.maxPartNumber := Nat.le_trans (plan_eq_ok_iff.1 hplan).2.1 h.maxParts
  have hsupplied : Supplied order.size order.dirty (f.settings.copyPart && order.stored) file
      (l.endpoint.bucket.objects.get? order.key) :=
    ⟨hlong, fun hmay => h.stored (Bool.and_eq_true_iff.1 hmay).2⟩
  have hascending : ((bindPortions parts (.file order.source) order.key).map (·.number)).Pairwise (· < ·) := by
    rw [bindPortions, List.map_map]
    exact hwell.ascending
  have hgranted := hwell.granted hsupplied hsource hmax f.settings.minPartSize
    (Store.uploadName l.endpoint.started) order.key
  have hstarted : LocalEndpoint.Collects f.settings.minPartSize (Store.uploadName l.endpoint.started) order.key
      (contentFrom file (l.endpoint.bucket.objects.get? order.key) parts)
      (l.endpoint.bucket.objects.get? order.key) [] (Endpoint.serve l.endpoint (.initiate order.key)).1 :=
    ⟨h.minPartSize, Bucket.collects_startUpload rfl _ _⟩
  obtain ⟨written, log, hok, hsize, hlog, hsent⟩ :=
    Session.execute_granted (s := f.session order.key order.cancel) (P := fun w => w.size = order.size) _ rfl hascending
      h.healthy h.quiet rfl hstarted hgranted fun _ _ _ => hwell.completes hsupplied h.nonempty
  refine ⟨written, ?_, hsize, ?_⟩
  · rw [Flusher.run_sendParts, hok]
    rfl
  · have hcalls : ((f.sendParts order.key parts (.file order.source) order.cancel).run l).1.calls =
        l.calls ++ log := by
      rw [Flusher.run_sendParts]
      exact hlog
    rw [Dialogue.sent_eq hcalls]
    exact hsent

end Flusher

end ObjectFlush
