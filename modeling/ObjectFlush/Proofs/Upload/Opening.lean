import ObjectFlush.Proofs.Upload.Choice
import ObjectFlush.Proofs.Upload.Serial

/-!
What a flush opens at the store. It writes its object with puts, one after the other, or it begins one multipart
upload and opens nothing after that (`Dialogue.Opens`), and it succeeds only if it has made a call. In a schedule
this is read off the requests of an errand (`Standing.Speaks`).
-/

namespace ObjectFlush

namespace Request

/-- The key that the request opens a multipart upload for, or puts an object under. -/
def opened? : Request → Option ObjectKey
  | .initiate key | .put key _ => some key
  | .uploadPart .. | .copyPart .. | .complete .. | .abort _ => none

/-- The request puts an object under the key. -/
def Puts (key : ObjectKey) (r : Request) : Prop := ∃ data, r = .put key data

/-- The request opens nothing. -/
def OpensNone (r : Request) : Prop := r.opened? = none

theorem IsPart.opensNone {r : Request} (h : r.IsPart) : r.OpensNone := by
  obtain ⟨number, hlane⟩ := h
  cases r with
  | initiate key => cases hlane
  | put key data => cases hlane
  | _ => rfl

end Request

namespace Dialogue

variable {α β ε : Type} {P Q : Request → Prop}

theorem Only.imp {d : Dialogue α} (h : d.Only P) (hpq : ∀ r, P r → Q r) : d.Only Q := by
  induction d with
  | done a => trivial
  | ask r next ih => exact ⟨hpq r h.1, fun answer => ih answer (h.2 answer)⟩
  | pause base next ih => exact ih h
  | parts run next ih =>
    exact ⟨⟨h.1.1, fun r hr => hpq r (h.1.2 r hr)⟩, fun outcome => ih outcome (h.2 outcome)⟩
  | raise s next ih => exact ih h

/-- What a dialogue about one object opens: nothing, if it is refused at once, else the object for puts or for one
multipart upload. -/
inductive Opens (key : ObjectKey) : Dialogue (Except ε β) → Prop
  | refused (e : ε) : Opens key (.done (.error e))
  | puts {data : Bytes} {next : Except RequestError ObjectSummary → Dialogue (Except ε β)}
    (rest : ∀ answer, (next answer).Only (Request.Puts key)) : Opens key (.ask (.put key data) next)
  | session {next : Except RequestError String → Dialogue (Except ε β)}
    (rest : ∀ answer, (next answer).Only Request.OpensNone) : Opens key (.ask (.initiate key) next)

theorem Opens.only {key : ObjectKey} {d : Dialogue (Except ε β)} (h : d.Opens key) : d.Only fun _ => True := by
  cases h with
  | refused e => trivial
  | puts rest => exact ⟨trivial, fun answer => (rest answer).imp fun _ _ => trivial⟩
  | session rest => exact ⟨trivial, fun answer => (rest answer).imp fun _ _ => trivial⟩

end Dialogue

/-! ## A flush -/

namespace Dialogue

variable {α β ε : Type} {P : Request → Prop}

theorem Only.of_persist {policy : RepeatPolicy} {r : Request} (hr : P r)
    {f : Except RequestError r.Answer → Dialogue α} (hf : ∀ answer, (f answer).Only P) :
    (persist policy r >>= f).Only P :=
  (only_persist policy hr).bind hf

/-- A request that may be repeated is first made once. -/
theorem exists_persist_bind_eq (policy : RepeatPolicy) (r : Request)
    (f : Except RequestError r.Answer → Dialogue α) :
    ∃ next, persist policy r >>= f = .ask r next := by
  unfold persist RepeatPolicy.run
  cases policy.limit with
  | zero => exact ⟨_, rfl⟩
  | succ left => exact ⟨_, rfl⟩

theorem opens_persist (policy : RepeatPolicy) (key : ObjectKey) (data : Bytes)
    {f : Except RequestError ObjectSummary → Dialogue (Except ε β)}
    (hf : ∀ answer, (f answer).Only (Request.Puts key)) : (persist policy (.put key data) >>= f).Opens key := by
  have honly : (persist policy (.put key data) >>= f).Only (Request.Puts key) := .of_persist ⟨data, rfl⟩ hf
  obtain ⟨next, hnext⟩ := exists_persist_bind_eq policy (.put key data) f
  rw [hnext] at honly ⊢
  exact .puts honly.2

end Dialogue

namespace Session

open Dialogue

theorem only_sendParts (s : Session) (parts : List BoundPart) : (s.sendParts parts).Only Request.OpensNone := by
  unfold sendParts
  split
  · trivial
  · refine Only.bind (d := Dialogue.sendParts _)
      ⟨⟨rfl, fun _ => Request.IsPart.opensNone⟩, fun _ => trivial⟩ ?_
    intro outcome
    cases outcome <;> trivial

theorem only_complete (s : Session) : s.complete.Only Request.OpensNone := by
  unfold complete
  split
  · trivial
  · next s' name _ =>
    have hcomplete : Request.OpensNone (.complete name s'.receipts) := rfl
    refine Only.of_persist hcomplete fun answer => ?_
    cases answer <;> trivial

theorem only_abort (s : Session) : s.abort.Only Request.OpensNone := by
  unfold abort
  split
  · trivial
  · next s' name _ =>
    have hsignal : (signal s'.cancel).Only Request.OpensNone := by cases s'.cancel <;> trivial
    refine hsignal.bind fun _ => Only.bind (d := request (.abort name)) ⟨rfl, fun _ => trivial⟩ ?_
    intro answer
    cases answer <;> trivial

/-- What a transaction does once it is begun. -/
theorem only_continue (s : Session) (parts : List BoundPart) :
    Only Request.OpensNone (do
      match ← s.sendParts parts with
      | (s, .error e) => return ((← s.abort).1, (.error e : Except SessionError ObjectSummary))
      | (s, .ok ()) =>
        match ← s.complete with
        | (s, .error e) => return ((← s.abort).1, .error e)
        | (s, .ok written) => return (s, .ok written)) := by
  refine (s.only_sendParts parts).bind ?_
  rintro ⟨s, e | _⟩
  · exact s.only_abort.bind fun _ => trivial
  · refine s.only_complete.bind ?_
    rintro ⟨s, e | written⟩
    · exact s.only_abort.bind fun _ => trivial
    · exact True.intro

/-- A transaction opens one upload, and that is its first call. -/
theorem opens_execute {s : Session} (hstage : s.stage = .idle) (parts : List BoundPart) {ε β : Type}
    {f : Session × Except SessionError ObjectSummary → Dialogue (Except ε β)}
    (hf : ∀ out, (f out).Only Request.OpensNone) : (s.execute parts >>= f).Opens s.key := by
  rw [execute, start, if_pos (by rw [hstage]; rfl)]
  refine .session fun answer => ?_
  cases answer with
  | error e => exact hf _
  | ok name => exact (only_continue _ parts).bind hf

end Session

namespace Flusher

open Dialogue

theorem opens_send (f : Flusher) (key : ObjectKey) (data : Bytes) : (f.send key data).Opens key := by
  refine opens_persist f.settings.repeatPolicy key data fun answer => ?_
  cases answer <;> trivial

theorem opens_sendFile (f : Flusher) (key : ObjectKey) (source : LocalFile) (size : Nat) :
    (f.sendFile key source size).Opens key := by
  unfold sendFile
  split
  · exact .refused _
  · split
    · exact f.opens_send key _
    · exact .refused _

theorem opens_sendParts (f : Flusher) (key : ObjectKey) (parts : List Portion) (source : FreshContent)
    (cancel : Option Signal) : (f.sendParts key parts source cancel).Opens key := by
  refine Session.opens_execute (s := { key, policy := f.settings.partPolicy, cancel }) rfl _ ?_
  rintro ⟨s, e | written⟩ <;> trivial

theorem opens_flush (f : Flusher) (order : FlushOrder) : (f.flush order).Opens order.key := by
  rw [flush_eq]
  exact f.choose_of_ways (P := (·.Opens order.key)) (f.opens_sendFile ..) (fun _ _ => f.opens_sendParts ..)
    fun _ => .refused _

theorem opens_flushBuffer (f : Flusher) (key : ObjectKey) (data : Bytes) : (f.flushBuffer key data).Opens key := by
  rw [flushBuffer_eq]
  exact f.choose_of_ways (P := (·.Opens key)) (f.opens_send key data) (fun _ _ => f.opens_sendParts ..)
    fun _ => .refused _

end Flusher

/-! ## In a schedule -/

namespace Standing

variable {σ β ε : Type} [Endpoint σ] {key : ObjectKey} {rs : List Request} {s : Standing (Except ε β)}

/-- Where an errand stands that has made the requests `rs`: it has not spoken yet, it was refused, it puts its
object, or it has begun its upload. -/
inductive Speaks (key : ObjectKey) : List Request → Standing (Except ε β) → Prop
  | fresh {start : Nat} {d : Dialogue (Except ε β)} (opens : d.Opens key) : Speaks key [] (.fresh start d)
  | queued {d : Dialogue (Except ε β)} (opens : d.Opens key) : Speaks key [] (.queued d)
  | given {due : Nat} {d : Dialogue (Except ε β)} (opens : d.Opens key) : Speaks key [] (.pausing due d)
  | refused {s : Standing (Except ε β)} (e : ε)
    (ended : s = .over (.error e) ∨ ∃ time contended, s = .finished ⟨.error e, time, contended⟩) :
    Speaks key [] s
  | puts {r : Request} {rs : List Request} {s : Standing (Except ε β)} (made : ∀ r' ∈ r :: rs, r'.Puts key)
    (rest : s.Only (Request.Puts key)) : Speaks key (r :: rs) s
  | session {rs : List Request} {s : Standing (Except ε β)} (made : ∀ r ∈ rs, r.OpensNone)
    (rest : s.Only Request.OpensNone) : Speaks key (.initiate key :: rs) s

omit [Endpoint σ] in
theorem Speaks.keyed (h : Speaks key rs s) : ∀ r ∈ rs, ∀ k, r.opened? = some k → k = key := by
  have hnone : ∀ {r : Request} {k}, r.OpensNone → r.opened? = some k → k = key := fun hr hk => by
    rw [hr] at hk
    cases hk
  cases h with
  | fresh => exact List.forall_mem_nil _
  | queued => exact List.forall_mem_nil _
  | given => exact List.forall_mem_nil _
  | refused => exact List.forall_mem_nil _
  | puts made rest =>
    rintro r hr k hk
    obtain ⟨data, rfl⟩ := made r hr
    exact (Option.some.inj hk).symm
  | session made rest =>
    refine List.forall_mem_cons.2 ⟨fun k hk => (Option.some.inj hk).symm, fun r hr k hk => hnone (made r hr) hk⟩

omit [Endpoint σ] in
/-- Of two requests that open something, the earlier is a put. -/
theorem Speaks.pairwise (h : Speaks key rs s) : rs.Pairwise fun r r' => r'.OpensNone ∨ r.Puts key := by
  cases h with
  | fresh => exact .nil
  | queued => exact .nil
  | given => exact .nil
  | refused => exact .nil
  | puts made rest => exact (List.pairwise_of_forall_mem_list fun r hr _ _ => .inr (made r hr))
  | session made rest =>
    exact .cons (fun r hr => .inl (made r hr)) (List.pairwise_of_forall_mem_list fun _ _ r hr => .inl (made r hr))

omit [Endpoint σ] in
/-- Nothing succeeds without a request. -/
theorem Speaks.ne_nil (h : Speaks key rs s) {f : Finish (Except ε β)} {written : β} (hf : s.finish? = some f)
    (hok : f.value = .ok written) : rs ≠ [] := by
  cases h with
  | fresh => cases hf
  | queued => cases hf
  | given => cases hf
  | refused e ended =>
    rcases ended with rfl | ⟨time, contended, rfl⟩
    · cases hf
    · cases hf
      cases hok
  | puts => exact nofun
  | session => exact nofun

/-- A dialogue that begins with a request makes that request, and then others. -/
theorem heads_talk_ask {P : Request → Prop} (r : Request)
    {next : Except RequestError r.Answer → Dialogue (Except ε β)}
    (hrest : ∀ answer, (next answer).Only P) (l : Link σ) :
    ∃ added, (talk (.ask r next) l).1.heads = l.heads ++ (r, l.now) :: added ∧
      (∀ r' ∈ added.map (·.1), P r') ∧ (talk (.ask r next) l).2.Only P := by
  simp only [talk]
  split
  · obtain ⟨htouches, honly⟩ := touches_talk (hrest ((l.start r).1.finish r (l.start r).2).2)
      (l := ((l.start r).1.finish r (l.start r).2).1)
    obtain ⟨added, hadded, hP⟩ := htouches.heads
    refine ⟨added, ?_, List.forall_mem_map.2 fun head hhead => (hP head hhead).1, honly⟩
    rw [hadded, Link.heads_finish (Link.issued_start (Nat.zero_le _)), l.heads_start, List.append_assoc]
    rfl
  · exact ⟨[], l.heads_start r, List.forall_mem_nil _, hrest⟩

/-- An errand begins with the request that opens its object, unless it is refused. -/
theorem speaks_talk {d : Dialogue (Except ε β)} (h : d.Opens key) (l : Link σ) :
    ∃ added, (talk d l).1.heads = l.heads ++ added ∧ Speaks key (added.map (·.1)) (talk d l).2 := by
  cases h with
  | refused e => exact ⟨[], (List.append_nil _).symm, .refused e (.inl rfl)⟩
  | @puts data next rest =>
    obtain ⟨added, hadded, hP, honly⟩ := heads_talk_ask (.put key data) rest l
    exact ⟨_, hadded, .puts (List.forall_mem_cons.2 ⟨⟨data, rfl⟩, hP⟩) honly⟩
  | @session next rest =>
    obtain ⟨added, hadded, hP, honly⟩ := heads_talk_ask (.initiate key) rest l
    exact ⟨_, hadded, .session hP honly⟩

theorem Speaks.proceed {l : Link σ} (h : Speaks key rs s) (hissues : l.Issues s.pending) :
    ∃ added, (s.proceed l).1.heads = l.heads ++ added ∧ Speaks key (rs ++ added.map (·.1)) (s.proceed l).2 := by
  have hsame : ∀ {l' : Link σ} {s'}, s.proceed l = (l', s') → l'.heads = l.heads → Speaks key rs s' →
      ∃ added, (s.proceed l).1.heads = l.heads ++ added ∧ Speaks key (rs ++ added.map (·.1)) (s.proceed l).2 := by
    intro l' s' hout hheads hs'
    exact ⟨[], by rw [hout, hheads, List.append_nil], by rw [hout, List.map_nil, List.append_nil]; exact hs'⟩
  have hgoes : ∀ {P : Request → Prop}, s.Only P → ∃ added, (s.proceed l).1.heads = l.heads ++ added ∧
      (∀ r ∈ added.map (·.1), P r) ∧ (s.proceed l).2.Only P := by
    intro P hs
    obtain ⟨htouches, honly⟩ := touches_proceed hs hissues
    obtain ⟨added, hadded, hP⟩ := htouches.heads
    exact ⟨added, hadded, List.forall_mem_map.2 fun head hhead => (hP head hhead).1, honly⟩
  cases h with
  | fresh opens => exact hsame rfl rfl (.fresh opens)
  | queued opens => exact hsame rfl rfl (.queued opens)
  | given opens =>
    simp only [proceed]
    split
    · exact speaks_talk opens l
    · exact ⟨[], (List.append_nil _).symm, .given opens⟩
  | refused e ended =>
    rcases ended with rfl | ⟨time, contended, rfl⟩
    · exact hsame rfl rfl (.refused e (.inl rfl))
    · exact hsame rfl rfl (.refused e (.inr ⟨time, contended, rfl⟩))
  | puts made rest =>
    obtain ⟨added, hadded, hP, honly⟩ := hgoes rest
    exact ⟨added, hadded, .puts (List.forall_mem_append.2 ⟨made, hP⟩) honly⟩
  | session made rest =>
    obtain ⟨added, hadded, hP, honly⟩ := hgoes rest
    exact ⟨added, hadded, .session (List.forall_mem_append.2 ⟨made, hP⟩) honly⟩

end Standing

namespace Schedule

variable {σ α : Type} {s s' : Schedule σ α} {base i j : Nat}

/-- The requests of an errand, first to last. -/
def requests (s : Schedule σ α) (base i : Nat) : List Request :=
  ((s.calls base).filter (·.1 = i)).map (·.2.request)

theorem requests_eq (s : Schedule σ α) (base i : Nat) :
    s.requests base i = ((s.callers.zip (s.link.heads.drop base)).filter (·.1 = i)).map (·.2.1) := by
  have hheads : s.link.heads.drop base = (s.link.calls.drop base).map Call.head := List.map_drop.symm
  rw [hheads, List.zip_map_right, List.filter_map, List.map_map]
  rfl

/-- A step adds to the requests of its errand, and of no other. -/
theorem requests_put {leases : Leases Nat} {link : Link σ} {course : Course α} {added : List (Request × Nat)}
    (hcounted : s.link.calls.length = base + s.callers.length) (hadded : link.heads = s.link.heads ++ added) (j : Nat) :
    (s.put i leases link course).requests base j =
      s.requests base j ++ if i = j then added.map (·.1) else [] := by
  have hlength : link.calls.length - s.link.calls.length = added.length := by
    rw [← Link.length_heads, ← Link.length_heads, hadded, List.length_append, Nat.add_sub_cancel_left]
  have hbase : base ≤ s.link.heads.length := by rw [Link.length_heads]; omega
  have hsplit : (s.callers.length : Nat) = (s.link.heads.drop base).length := by
    rw [List.length_drop, Link.length_heads]; omega
  have hzip : ∀ heads : List (Request × Nat), (List.replicate heads.length i).zip heads = heads.map (i, ·) := by
    intro heads
    induction heads with
    | nil => rfl
    | cons head rest ih => exact congrArg ((i, head) :: ·) ih
  have hown : ((added.map ((i, ·) : Request × Nat → Nat × Request × Nat)).filter (·.1 = j)).map (·.2.1) =
      if i = j then added.map (·.1) else [] := by
    rw [List.filter_map, List.map_map]
    split
    · next heq =>
      rw [List.filter_eq_self.2 fun _ _ => by simpa using heq]
      rfl
    · next hne =>
      rw [List.filter_eq_nil_iff.2 fun _ _ => by simpa using hne]
      rfl
  rw [requests_eq, requests_eq, ← hown]
  show (((s.callers ++ List.replicate _ i).zip (link.heads.drop base)).filter _).map _ = _
  rw [hlength, hadded, List.drop_append_of_le_length hbase, List.zip_append hsplit, hzip, List.filter_append,
    List.map_append]

theorem requests_await (due : Nat) : (s.await due).requests base i = s.requests base i := by
  show ((s.callers.zip ((s.link.passTo due).calls.drop base)).filter _).map _ = _
  rw [Link.calls_passTo]
  rfl

theorem Made.mem_requests {p : Nat} {c : Call} (h : s.Made base i p c) : c.request ∈ s.requests base i :=
  List.mem_map.2 ⟨(i, c), List.mem_filter.2 ⟨List.mem_of_getElem? (calls_eq_some_iff.2 h), by simp⟩, rfl⟩

theorem exists_made_of_mem {r : Request} (h : r ∈ s.requests base i) : ∃ p c, s.Made base i p c := by
  obtain ⟨⟨j, c⟩, hx, -⟩ := List.mem_map.1 h
  obtain ⟨hin, hj⟩ := List.mem_filter.1 hx
  obtain ⟨p, hp⟩ := List.mem_iff_getElem?.1 hin
  obtain rfl : j = i := by simpa using hj
  exact ⟨p, c, calls_eq_some_iff.1 hp⟩

section

variable {β ε : Type} {s s' : Schedule σ (Except ε β)}

/-- Each errand stands where one stands that has made its requests. -/
def Voiced (base : Nat) (s : Schedule σ (Except ε β)) : Prop :=
  ∀ (i : Nat) (course : Course (Except ε β)), s.errands[i]? = some course →
    course.standing.Speaks course.key (s.requests base i)

theorem Voiced.put (h : s.Voiced base) (hs : s.Orderly base) {leases : Leases Nat} {link : Link σ}
    {course course' : Course (Except ε β)} {added : List (Request × Nat)} (hc : s.errands[i]? = some course)
    (hadded : link.heads = s.link.heads ++ added)
    (hspeaks : course'.standing.Speaks course'.key (s.requests base i ++ added.map (·.1))) :
    (s.put i leases link course').Voiced base := by
  intro j c hj
  rw [requests_put hs.counted hadded]
  rw [errands_put hc] at hj
  split at hj
  · next heq =>
    subst heq
    cases hj
    rw [if_pos rfl]
    exact hspeaks
  · next hne =>
    rw [if_neg hne, List.append_nil]
    exact h j c hj

theorem Voiced.step [Endpoint σ] (h : s.Voiced base) (hs : s.Orderly base) (hstep : Step i s s') : s'.Voiced base := by
  -- But for going on with the dialogue nothing is said.
  have hquiet : ∀ {leases : Leases Nat} {link : Link σ} {course course' : Course (Except ε β)},
      s.errands[i]? = some course → link.calls = s.link.calls →
        (∀ {rs}, course.standing.Speaks course.key rs → course'.standing.Speaks course'.key rs) →
          (s.put i leases link course').Voiced base := by
    intro leases link course course' hc hcalls hspeaks
    have hadded : link.heads = s.link.heads ++ [] := by
      rw [Link.heads, hcalls, List.append_nil, Link.heads]
    refine h.put hs hc hadded ?_
    rw [List.map_nil, List.append_nil]
    exact hspeaks (h i course hc)
  cases hstep with
  | join errand _ =>
    refine hquiet errand rfl fun {rs} hrs => ?_
    cases hrs with
    | fresh opens => exact .queued opens
    | refused e ended => simp at ended
    | puts made rest => exact .puts made rest
    | session made rest => exact .session made rest
  | grant errand _ =>
    refine hquiet errand rfl fun {rs} hrs => ?_
    cases hrs with
    | fresh opens => exact .given opens
    | refused e ended => simp at ended
    | puts made rest => exact .puts made rest
    | session made rest => exact .session made rest
  | notice errand _ =>
    refine hquiet errand rfl fun {rs} hrs => ?_
    cases hrs with
    | queued opens => exact .given opens
    | refused e ended => simp at ended
    | puts made rest => exact .puts made rest
    | session made rest => exact .session made rest
  | go errand _ =>
    obtain ⟨added, hadded, hspeaks⟩ :=
      (h i _ errand).proceed (hs.sound.issues _ (List.mem_of_getElem? errand))
    exact h.put hs errand hadded hspeaks
  | ring errand _ => exact hquiet errand rfl id
  | leave errand _ =>
    refine hquiet errand rfl fun {rs} hrs => ?_
    cases hrs with
    | refused e ended =>
      rcases ended with heq | ⟨time, contended, heq⟩
      · cases heq
        exact .refused e (.inr ⟨_, _, rfl⟩)
      · cases heq
    | puts made rest => exact .puts made trivial
    | session made rest => exact .session made trivial

theorem Voiced.await (h : s.Voiced base) (due : Nat) : (s.await due).Voiced base := by
  intro i course hc
  rw [requests_await]
  exact h i course hc

theorem voiced_start (l : Link σ) {errands : List (Errand (Except ε β))}
    (h : ∀ e ∈ errands, e.dialogue.Opens e.key) :
    (start l errands).Voiced l.calls.length := by
  intro i course hc
  obtain ⟨e, he, rfl⟩ := errands_start (List.mem_of_getElem? hc)
  exact .fresh (h e he)

/-- Of the calls of one errand that open something, each but the last is a put. -/
theorem Voiced.opens (h : s.Voiced base) {course : Course (Except ε β)} (hc : s.errands[i]? = some course) {p q : Nat}
    {c d : Call} (hpq : p < q) (hp : s.Made base i p c) (hq : s.Made base i q d) :
    d.request.OpensNone ∨ c.request.Puts course.key := by
  have hpairwise := (h i course hc).pairwise
  rw [requests, List.pairwise_map, List.pairwise_filter] at hpairwise
  have hp' := calls_eq_some_iff.2 hp
  have hq' := calls_eq_some_iff.2 hq
  obtain ⟨hltp, hgetp⟩ := List.getElem?_eq_some_iff.1 hp'
  obtain ⟨hltq, hgetq⟩ := List.getElem?_eq_some_iff.1 hq'
  have hall := List.pairwise_iff_getElem.1 hpairwise p q hltp hltq hpq
  rw [hgetp, hgetq] at hall
  exact hall (by simp) (by simp)

/-- What an errand opens is the object of its key. -/
theorem Voiced.opened (h : s.Voiced base) {course : Course (Except ε β)} (hc : s.errands[i]? = some course) {p : Nat}
    {c : Call} (hp : s.Made base i p c) {key : ObjectKey} (hkey : c.request.opened? = some key) : course.key = key :=
  ((h i course hc).keyed _ hp.mem_requests key hkey).symm

/-- An errand that has succeeded has made a call. -/
theorem Voiced.made_of_ok (h : s.Voiced base) {f : Finish (Except ε β)} {written : β} (hf : s.finish? i = some f)
    (hok : f.value = .ok written) : ∃ p c, s.Made base i p c := by
  obtain ⟨course, hc, hf⟩ := Option.bind_eq_some_iff.1 hf
  obtain ⟨r, hr⟩ := List.exists_mem_of_ne_nil _ ((h i course hc).ne_nil hf hok)
  exact exists_made_of_mem hr

end

end Schedule

end ObjectFlush
