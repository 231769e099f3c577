import ObjectFlush.Proofs.Upload.Delivery
import ObjectFlush.Proofs.Upload.Scripted

/-!
The result of a part run does not depend on its schedule: `outcome_independent_of_schedule`. Two runs that send
the same parts, and whose requests for each part are answered alike in turn, come to the same, however many
parts they send at once, however long their calls and their pauses take, and in whatever order these end.

The answers to the requests for a part have one among them that decides (`Decides`), and which one it is does
not depend on anything else. A run that ends well has followed the answers of every part up to that one
(`PartRun.Fulfilled`), which leaves nothing open about its receipts and its requests but the order of the
latter.
-/

namespace ObjectFlush

/-! ## The answer that decides -/

/-- A success comes among the answers after failures that may pass, `limit` of them at most. -/
def Reached (limit : Nat) (answers : Nat → Except RequestError String) : Prop :=
  ∃ k ≤ limit, (∃ tag, answers k = .ok tag) ∧ ∀ j < k, ∃ e, answers j = .error e ∧ e.retryable = true

/-- Before any success there comes among the answers a failure that is for good, or more than `limit` others. -/
def TurnedAway (limit : Nat) (answers : Nat → Except RequestError String) : Prop :=
  ∃ k, (∀ j < k, ∀ tag, answers j ≠ .ok tag) ∧
    ((∃ e, answers k = .error e ∧ e.retryable = false) ∨ limit < k)

theorem Reached.not_turnedAway {limit : Nat} {answers : Nat → Except RequestError String}
    (h : Reached limit answers) : ¬TurnedAway limit answers := by
  intro hturned
  obtain ⟨k, hk, ⟨tag, htag⟩, hpassing⟩ := h
  obtain ⟨m, hfails, hlast⟩ := hturned
  have hle : m ≤ k := Nat.not_lt.1 fun hlt => hfails k hlt tag htag
  rcases hlast with ⟨e, he, hgood⟩ | hlt
  · rcases Nat.lt_or_eq_of_le hle with hlt | rfl
    · obtain ⟨e', he', hretry⟩ := hpassing m hlt
      rw [he] at he'
      cases he'
      rw [hgood] at hretry
      cases hretry
    · rw [he] at htag
      cases htag
  · omega

/-- The `k`-th answer decides what becomes of a part: those before it were failures that may pass, and it is no
such failure, or else one too many. -/
structure Decides (limit : Nat) (answers : Nat → Except RequestError String) (k : Nat) : Prop where
  le : k ≤ limit
  passing : ∀ j < k, ∃ e, answers j = .error e ∧ e.retryable = true
  final : ∀ e, answers k = .error e → e.retryable = true → k = limit

namespace Decides

variable {limit k k' : Nat} {answers : Nat → Except RequestError String}

theorem not_lt (h : Decides limit answers k) (h' : Decides limit answers k') : ¬k < k' := by
  intro hlt
  obtain ⟨e, he, hretry⟩ := h'.passing k hlt
  have hlimit := h.final e he hretry
  have hle := h'.le
  omega

theorem unique (h : Decides limit answers k) (h' : Decides limit answers k') : k = k' :=
  Nat.le_antisymm (Nat.not_lt.1 (h'.not_lt h)) (Nat.not_lt.1 (h.not_lt h'))

/-- What decides is a success, if one is reached. -/
theorem ok_of_reached (h : Decides limit answers k) (hreached : Reached limit answers) :
    ∃ tag, answers k = .ok tag := by
  obtain ⟨m, hm, ⟨tag, htag⟩, hpassing⟩ := hreached
  have hdecides : Decides limit answers m := by
    refine ⟨hm, hpassing, fun e he => ?_⟩
    rw [htag] at he
    cases he
  exact ⟨tag, h.unique hdecides ▸ htag⟩

end Decides

/-- The last attempt at a part was answered with what decides. -/
theorem PartPolicy.Concluded.decides {policy : PartPolicy} {answer : Except RequestError String}
    {as : List Attempt} (h : policy.Concluded answer as) {answers : Nat → Except RequestError String}
    (hfollows : Follows answers as) :
    ∃ k, Decides policy.retry.limit answers k ∧ answers k = answer ∧ as.length = k + 1 := by
  obtain ⟨failed, last, left, rfl, htried, hcame, hleft⟩ := h
  have hlast : answers failed.length = answer := by
    rw [← hfollows.outcome List.getElem?_concat_length]
    exact hcame.outcome
  have hcount := htried.count
  refine ⟨failed.length, ⟨by omega, fun j hj => ?_, fun e he hretry => ?_⟩, hlast, List.length_append⟩
  · have hj' : (failed ++ [last])[j]? = some failed[j] := by
      rw [List.getElem?_append_left hj, List.getElem?_eq_getElem hj]
    rw [← hfollows.outcome hj']
    exact htried.passing _ (List.getElem_mem hj)
  · have hnone := hleft e (hlast.symm.trans he) hretry
    omega

/-! ## A run that ends well -/

namespace PartRequest

/-- The part can be read, and among the answers to its requests a success is reached. -/
def Deliverable (limit : Nat) (script : Script) (p : PartRequest) : Prop :=
  (∃ payload, p.payload = .ok payload) ∧ Reached limit (script p.number)

/-- The part cannot be read, or it is refused. -/
def Undeliverable (limit : Nat) (script : Script) (p : PartRequest) : Prop :=
  (∃ e, p.payload = .error e) ∨ TurnedAway limit (script p.number)

theorem Undeliverable.not_deliverable {limit : Nat} {script : Script} {p : PartRequest}
    (h : p.Undeliverable limit script) : ¬p.Deliverable limit script := by
  intro hdeliverable
  obtain ⟨⟨payload, hpayload⟩, hreached⟩ := hdeliverable
  rcases h with ⟨e, he⟩ | hturned
  · rw [hpayload] at he
    cases he
  · exact hreached.not_turnedAway hturned

theorem Sends.lane {p : PartRequest} {upload : String} {q : Request} (h : p.Sends upload q) :
    q.lane = .part p.number := by
  obtain ⟨payload, -, rfl⟩ := h
  exact payload.lane_request upload p.number

end PartRequest

namespace PartRun

/-- The receipts and the calls of a run that has delivered every part, each by the answer that decides. -/
structure Fulfilled (limit : Nat) (script : Script) (upload : String) (parts : List PartRequest)
    (log : List Call) (receipts : List Receipt) : Prop where
  numbers : (receipts.map (·.number)).Perm (parts.map (·.number))
  ascending : receipts.Pairwise (·.number < ·.number)
  tags : ∀ receipt ∈ receipts, ∃ k, Decides limit (script receipt.number) k ∧
    script receipt.number k = .ok receipt.tag
  sent : ∀ c ∈ log, ∃ p ∈ parts, p.Sends upload c.request
  answered : ∀ p ∈ parts, ∃ k tag, Decides limit (script p.number) k ∧ script p.number k = .ok tag ∧
    log.countP (·.request.lane = .part p.number) = k + 1

namespace Fulfilled

variable {limit : Nat} {script : Script} {upload : String} {parts : List PartRequest}
  {log log' : List Call} {receipts receipts' : List Receipt}

theorem mem_of_mem (h : Fulfilled limit script upload parts log receipts)
    (h' : Fulfilled limit script upload parts log' receipts') {receipt : Receipt}
    (hreceipt : receipt ∈ receipts) : receipt ∈ receipts' := by
  have hnumber := h'.numbers.mem_iff.2 (h.numbers.mem_iff.1 (List.mem_map_of_mem hreceipt))
  obtain ⟨other, hother, heq⟩ := List.mem_map.1 hnumber
  obtain ⟨k, hdecides, htag⟩ := h.tags receipt hreceipt
  obtain ⟨k', hdecides', htag'⟩ := h'.tags other hother
  rw [heq] at hdecides' htag'
  obtain rfl := hdecides.unique hdecides'
  have hsame : other = receipt := by
    rw [htag] at htag'
    cases other
    cases receipt
    cases heq
    cases htag'
    rfl
  rw [← hsame]
  exact hother

/-- The script leaves one list of receipts. -/
theorem receipts_eq (h : Fulfilled limit script upload parts log receipts)
    (h' : Fulfilled limit script upload parts log' receipts') : receipts = receipts' := by
  have hnodup : ∀ {log receipts}, Fulfilled limit script upload parts log receipts → receipts.Nodup :=
    fun h => h.ascending.imp fun hlt heq => absurd (congrArg Receipt.number heq) (Nat.ne_of_lt hlt)
  have hperm : receipts.Perm receipts' :=
    (List.perm_ext_iff_of_nodup (hnodup h) (hnodup h')).2 fun _ => ⟨h.mem_of_mem h', h'.mem_of_mem h⟩
  exact hperm.eq_of_pairwise (fun a b _ _ hab hba => absurd hba (Nat.lt_asymm hab)) h.ascending h'.ascending

/-- A request for a part is made by every call for that part, and by no other. -/
theorem count_request (h : Fulfilled limit script upload parts log receipts)
    (hdistinct : (parts.map (·.number)).Nodup) {p : PartRequest} (hp : p ∈ parts) {q : Request}
    (hsends : p.Sends upload q) :
    (log.map (·.request)).count q = log.countP (·.request.lane = .part p.number) := by
  rw [List.count_eq_countP, List.countP_map]
  apply List.countP_congr
  intro c hc
  simp only [Function.comp_apply, beq_iff_eq, decide_eq_true_eq]
  constructor
  · intro heq
    rw [heq]
    exact hsends.lane
  · intro hlane
    obtain ⟨p', hp', hsends'⟩ := h.sent c hc
    rw [hsends'.lane] at hlane
    obtain rfl := List.inj_on_of_nodup_map hdistinct hp' hp (Request.Lane.part.inj hlane)
    obtain ⟨payload, hpayload, hq⟩ := hsends
    obtain ⟨payload', hpayload', hc'⟩ := hsends'
    rw [hpayload] at hpayload'
    cases hpayload'
    rw [hq, hc']

/-- The script leaves one collection of requests. -/
theorem requests_perm (h : Fulfilled limit script upload parts log receipts)
    (h' : Fulfilled limit script upload parts log' receipts') (hdistinct : (parts.map (·.number)).Nodup) :
    (log.map (·.request)).Perm (log'.map (·.request)) := by
  have hnone : ∀ {log receipts q}, Fulfilled limit script upload parts log receipts →
      (¬∃ p ∈ parts, p.Sends upload q) → (log.map (·.request)).count q = 0 := by
    intro log receipts q h hq
    apply List.count_eq_zero_of_not_mem
    intro hmem
    obtain ⟨c, hc, rfl⟩ := List.mem_map.1 hmem
    exact hq (h.sent c hc)
  refine List.perm_iff_count.2 fun q => ?_
  by_cases hq : ∃ p ∈ parts, p.Sends upload q
  · obtain ⟨p, hp, hsends⟩ := hq
    obtain ⟨k, -, hdecides, -, hcount⟩ := h.answered p hp
    obtain ⟨k', -, hdecides', -, hcount'⟩ := h'.answered p hp
    rw [h.count_request hdistinct hp hsends, h'.count_request hdistinct hp hsends, hcount, hcount',
      hdecides.unique hdecides']
  · rw [hnone h hq, hnone h' hq]

end Fulfilled

section

variable {σ : Type} {policy : PartPolicy} {upload : String} {parts : List PartRequest} {script : Script}
  {origin l : Link σ} {r : PartRun}

/-- A part that is over was answered up to the answer that decides, if it was attempted. -/
theorem Played.decides (h : Played script parts origin.calls.length l r) {i : Nat} {p : PartRequest}
    (hp : parts[i]? = some p) (hover : i ∉ r.held.map (·.slot)) {answer : Except RequestError String}
    (hconcluded : policy.Concluded answer (attempts (l.since origin.calls.length) p.number)) :
    ∃ k, Decides policy.retry.limit (script p.number) k ∧ script p.number k = answer ∧
      (l.since origin.calls.length).countP (·.request.lane = .part p.number) = k + 1 := by
  rw [← length_attempts]
  exact hconcluded.decides ((h.ended i p hp).resolve_left hover)

/-- A part that is done when nothing is held any more. -/
theorem Tracks.receipt_of_mem (h : Tracks policy upload parts origin none l r) (hheld : r.held = []) {i : Nat}
    {p : PartRequest} (hp : parts[i]? = some p) : ∃ receipt ∈ r.receipts, receipt.number = p.number := by
  rcases h.ended i p hp with hin | ⟨-, hreceipt⟩ | ⟨-, e, he, -⟩
  · rw [hheld] at hin
    cases hin
  · exact hreceipt
  · cases he

/-- A part that was attempted can be read. -/
theorem Tracks.payload_of_attempt {failure : Option PartRunError}
    (h : Tracks policy upload parts origin failure l r) (hdistinct : (parts.map (·.number)).Nodup)
    {p : PartRequest} (hp : p ∈ parts)
    (hattempted : 0 < (l.since origin.calls.length).countP (·.request.lane = .part p.number)) :
    ∃ payload, p.payload = .ok payload := by
  obtain ⟨c, hc, hlane⟩ := List.countP_pos_iff.1 hattempted
  obtain ⟨p', hp', hsends⟩ := h.sent c hc
  rw [hsends.lane, decide_eq_true_eq] at hlane
  obtain rfl := List.inj_on_of_nodup_map hdistinct hp' hp (Request.Lane.part.inj hlane)
  obtain ⟨payload, hpayload, -⟩ := hsends
  exact ⟨payload, hpayload⟩

/-- A part fails if it cannot be read, or by the answer that decides. -/
theorem Played.fails (h : Played script parts origin.calls.length l r) {e : PartRunError}
    (htracks : Tracks policy upload parts origin (some e) l r) :
    ∃ p ∈ parts, ¬p.Deliverable policy.retry.limit script := by
  obtain ⟨i, p, hp, hstatus, -, hfails⟩ := htracks.failed_part
  refine ⟨p, List.mem_of_getElem? hp, fun hdeliverable => ?_⟩
  obtain ⟨⟨payload, hpayload⟩, hreached⟩ := hdeliverable
  rcases hfails with ⟨cause, -, hconcluded⟩ | ⟨reason, hreason, -⟩
  · have hover : i ∉ r.held.map (·.slot) := by
      intro hin
      obtain ⟨x, hx, rfl⟩ := List.mem_map.1 hin
      rw [htracks.status x hx] at hstatus
      cases x <;> cases hstatus
    obtain ⟨k, hdecides, hcause, -⟩ := h.decides hp hover hconcluded
    obtain ⟨tag, htag⟩ := hdecides.ok_of_reached hreached
    rw [hcause] at htag
    cases htag
  · rw [hpayload] at hreason
    cases hreason

theorem Played.fulfilled (h : Played script parts origin.calls.length l r)
    (htracks : Tracks policy upload parts origin none l r) (hdistinct : (parts.map (·.number)).Nodup)
    (hheld : r.held = []) {receipts : List Receipt} (hsorted : receipts = r.sorted)
    (hcomplete : Complete parts receipts) :
    Fulfilled policy.retry.limit script upload parts (l.since origin.calls.length) receipts := by
  have hover : ∀ i, i ∉ r.held.map (·.slot) := by
    rw [hheld]
    exact fun i => List.not_mem_nil
  refine ⟨hcomplete.numbers, ?_, ?_, htracks.sent, ?_⟩
  · have hnodup := hcomplete.numbers.nodup_iff.2 hdistinct
    exact List.pairwise_map.1 ((hcomplete.ascending.and hnodup).imp fun h => Nat.lt_of_le_of_ne h.1 h.2)
  · intro receipt hreceipt
    rw [hsorted] at hreceipt
    have hvouched := htracks.vouched receipt ((List.mergeSort_perm r.receipts _).mem_iff.1 hreceipt)
    obtain ⟨⟨i, p, hp, hnumber, -⟩, hconcluded⟩ := hvouched
    rw [← hnumber] at hconcluded ⊢
    obtain ⟨k, hdecides, htag, -⟩ := h.decides hp (hover i) hconcluded
    exact ⟨k, hdecides, htag⟩
  · intro p hp
    obtain ⟨i, hi⟩ := List.mem_iff_getElem?.1 hp
    obtain ⟨receipt, hreceipt, hnumber⟩ := htracks.receipt_of_mem hheld hi
    have hconcluded := (htracks.vouched receipt hreceipt).2
    rw [hnumber] at hconcluded
    obtain ⟨k, hdecides⟩ := h.decides hi (hover i) hconcluded
    exact ⟨k, _, hdecides⟩

/-- What a run comes to whose answers are settled in advance: it delivers every part, or there is one that it
could not deliver. -/
theorem run_of_rehearsed [Endpoint σ] {cancel : Option Signal} (hdistinct : (parts.map (·.number)).Nodup)
    (hquiet : l.Quiet cancel) (hrehearsed : Rehearsed script policy upload parts l.calls.length l) :
    let out := (start policy upload cancel parts).run l
    (∃ receipts, out.2.2 = .ok receipts ∧ (∀ p ∈ parts, p.Deliverable policy.retry.limit script) ∧
      out.2.1.statuses = parts.map (fun _ => .done) ∧ ∃ log, out.1.calls = l.calls ++ log ∧
        Fulfilled policy.retry.limit script upload parts log receipts) ∨
    (∃ e, out.2.2 = .error e) ∧ ∃ p ∈ parts, ¬p.Deliverable policy.retry.limit script := by
  intro out
  have hstart := Tracks.start policy upload cancel parts l
  have hend := hstart.run hdistinct
  have hplayed := (Played.start script policy upload cancel parts l).run hstart hdistinct hrehearsed
  have hnot := (Going.start policy upload cancel parts l).not_cancelled hquiet
  have hcomplete : ∀ receipts, ((start policy upload cancel parts).run l).2.2 = .ok receipts →
      Complete parts receipts :=
    (run_spec policy cancel (I := fun _ => True) (fun _ _ _ _ _ _ => trivial) trivial).2
  unfold out
  generalize (start policy upload cancel parts).run l = out at *
  obtain ⟨l', r', outcome⟩ := out
  cases outcome with
  | error e => exact .inr ⟨⟨e, rfl⟩, hplayed.fails (hend.tracks_error fun he => hnot (congrArg _ he))⟩
  | ok receipts =>
    obtain ⟨htracks, hheld, hsorted⟩ := hend
    have hfulfilled := hplayed.fulfilled htracks hdistinct hheld hsorted (hcomplete receipts rfl)
    refine .inl ⟨receipts, rfl, fun p hp => ?_, htracks.all_done hheld, _, htracks.calls_eq, hfulfilled⟩
    obtain ⟨k, tag, hdecides, htag, hcount⟩ := hfulfilled.answered p hp
    have hread := htracks.payload_of_attempt hdistinct hp (by omega)
    exact ⟨hread, k, hdecides.le, ⟨tag, htag⟩, hdecides.passing⟩

end

end PartRun

/-- **The result of a run does not depend on its schedule.** Take any two runs that send the same parts and repeat
requests equally often, and whose requests for each part are answered alike in turn, within the time allowed.
How many parts they send at once, how long they pause, what each call takes, what else their endpoints do: all
that may differ. If every part can be delivered, both end with the same receipts, all parts are done, and they
have made the same requests, if in another order. If some part cannot be, both fail. -/
theorem outcome_independent_of_schedule {σ τ : Type} [Endpoint σ] [Endpoint τ] (script : Script)
    (upload : String) (jobs : List BoundPart) (hdistinct : (jobs.map (·.number)).Nodup)
    (policy policy' : PartPolicy) (hlimit : policy'.retry.limit = policy.retry.limit)
    (cancel cancel' : Option Signal) (l : Link σ) (l' : Link τ) (hquiet : l.Quiet cancel)
    (hquiet' : l'.Quiet cancel')
    (hrehearsed : PartRun.Rehearsed script policy upload (jobs.map (·.toRequest)) l.calls.length l)
    (hrehearsed' : PartRun.Rehearsed script policy' upload (jobs.map (·.toRequest)) l'.calls.length l') :
    let parts := jobs.map (·.toRequest)
    let out := (PartRun.start policy upload cancel parts).run l
    let out' := (PartRun.start policy' upload cancel' parts).run l'
    ((∀ p ∈ parts, p.Deliverable policy.retry.limit script) →
      (∃ receipts, out.2.2 = .ok receipts ∧ out'.2.2 = .ok receipts) ∧
      out.2.1.statuses = jobs.map (fun _ => .done) ∧ out'.2.1.statuses = jobs.map (fun _ => .done) ∧
      ∃ log log', out.1.calls = l.calls ++ log ∧ out'.1.calls = l'.calls ++ log' ∧
        (log.map (·.request)).Perm (log'.map (·.request))) ∧
    ((∃ p ∈ parts, p.Undeliverable policy.retry.limit script) →
      (∃ e, out.2.2 = .error e) ∧ ∃ e, out'.2.2 = .error e) := by
  intro parts out out'
  have hnumbers : parts.map (·.number) = jobs.map (·.number) := by
    rw [List.map_map]
    rfl
  have hall : parts.map (fun _ => PartStatus.done) = jobs.map fun _ => .done := List.map_map
  rw [← hnumbers] at hdistinct
  have hrun := PartRun.run_of_rehearsed hdistinct hquiet hrehearsed
  have hrun' := PartRun.run_of_rehearsed hdistinct hquiet' hrehearsed'
  rw [hlimit] at hrun'
  refine ⟨fun hdeliverable => ?_, fun hundeliverable => ?_⟩
  · have hgood : ¬∃ p ∈ parts, ¬p.Deliverable policy.retry.limit script := by
      rintro ⟨p, hp, hnot⟩
      exact hnot (hdeliverable p hp)
    obtain ⟨receipts, hok, -, hstatuses, log, hcalls, hfulfilled⟩ := hrun.resolve_right fun h => hgood h.2
    obtain ⟨receipts', hok', -, hstatuses', log', hcalls', hfulfilled'⟩ :=
      hrun'.resolve_right fun h => hgood h.2
    obtain rfl := hfulfilled.receipts_eq hfulfilled'
    have hrequests := hfulfilled.requests_perm hfulfilled' hdistinct
    exact ⟨⟨receipts, hok, hok'⟩, hstatuses.trans hall, hstatuses'.trans hall, log, log', hcalls, hcalls',
      hrequests⟩
  · obtain ⟨p, hp, hbad⟩ := hundeliverable
    have hnot : ¬∀ p ∈ parts, p.Deliverable policy.retry.limit script :=
      fun hdeliverable => hbad.not_deliverable (hdeliverable p hp)
    constructor
    · rcases hrun with ⟨-, -, hdeliverable, -⟩ | ⟨herror, -⟩
      · exact absurd hdeliverable hnot
      · exact herror
    · rcases hrun' with ⟨-, -, hdeliverable, -⟩ | ⟨herror, -⟩
      · exact absurd hdeliverable hnot
      · exact herror

/-- Two parts, the first of which is turned away once. One run sends them one by one; another sends both at once,
with long calls, and gets to the second part first. Then both again, with a second part that is refused. -/
theorem two_schedules_one_outcome :
    let busy : RequestError := .http 503 "busy"
    let policy : PartPolicy :=
      { concurrency := 1, retry := { limit := 1, pause := 10, longestPause := 100 }, timeout := 20 }
    let policy' : PartPolicy :=
      { concurrency := 2, retry := { limit := 1, pause := 3, longestPause := 5 }, timeout := 50 }
    let jobs : List BoundPart := [⟨2, 2, .buffer [1, 2, 3, 4] 2⟩, ⟨1, 2, .buffer [1, 2, 3, 4] 0⟩]
    let denied : RequestError := .http 403 "denied"
    let script (refusal : Option RequestError) : Script := fun number n =>
      match number, n with
      | 1, 0 => .error busy
      | 1, _ => .ok "etag-1"
      | _, _ => match refusal with
        | none => .ok "etag-2"
        | some e => .error e
    let link (delay : Nat) (refusal : Option RequestError) : Link DryRun :=
      { endpoint := {}, conditions := { reaction := fun lane n =>
        match lane, n with
        | .part 1, 0 => { delay, failure := some busy }
        | .part 2, _ => { delay, failure := refusal }
        | _, _ => { delay } } }
    let run (policy : PartPolicy) (l : Link DryRun) :=
      (PartRun.start policy "u" none (jobs.map (·.toRequest))).run l
    let requests (l : Link DryRun) := l.calls.map (·.request)
    let receipts : List Receipt := [⟨1, "etag-1"⟩, ⟨2, "etag-2"⟩]
    let first : Request := .uploadPart "u" 1 [1, 2]
    let second : Request := .uploadPart "u" 2 [3, 4]
    ((∀ p ∈ jobs.map (·.toRequest), p.Deliverable 1 (script none)) ∧
      (run policy (link 5 none)).2.2 = .ok receipts ∧ (run policy' (link 40 none)).2.2 = .ok receipts ∧
      requests (run policy (link 5 none)).1 = [first, first, second] ∧
      requests (run policy' (link 40 none)).1 = [first, second, first]) ∧
    (∃ p ∈ jobs.map (·.toRequest), p.Undeliverable 1 (script (some denied))) ∧
      (∃ e, (run policy (link 5 (some denied))).2.2 = .error e) ∧
      ∃ e, (run policy' (link 40 (some denied))).2.2 = .error e := by
  intro busy policy policy' jobs denied script link run requests receipts first second
  have hrehearsed : ∀ (policy : PartPolicy) (delay : Nat) (refusal : Option RequestError),
      delay ≤ policy.timeout →
        PartRun.Rehearsed (script refusal) policy "u" (jobs.map (·.toRequest)) 0 (link delay refusal) := by
    intro policy delay refusal hdelay p hp payload hpayload n endpoint
    have hparts : p = ⟨2, .ok (.bytes [3, 4])⟩ ∨ p = ⟨1, .ok (.bytes [1, 2])⟩ := by
      rcases List.mem_cons.1 hp with hp | hp
      · exact .inl hp
      · exact .inr (List.mem_singleton.1 hp)
    rcases hparts with rfl | rfl
    · cases hpayload
      cases refusal with
      | none => exact ⟨hdelay, rfl⟩
      | some e => exact ⟨hdelay, rfl⟩
    · cases hpayload
      cases n with
      | zero => exact ⟨hdelay, rfl⟩
      | succ n => exact ⟨hdelay, rfl⟩
  have hdistinct : (jobs.map (·.number)).Nodup := by decide
  have hquiet : ∀ refusal delay, (link delay refusal).Quiet none := fun _ _ _ hs => by cases hs
  have hruns := fun refusal => outcome_independent_of_schedule (script refusal) "u" jobs hdistinct policy policy'
    rfl none none (link 5 refusal) (link 40 refusal) (hquiet refusal 5) (hquiet refusal 40)
    (hrehearsed policy 5 refusal (by decide)) (hrehearsed policy' 40 refusal (by decide))
  have hdeliverable : ∀ p ∈ jobs.map (·.toRequest), p.Deliverable 1 (script none) := by
    intro p hp
    rcases List.mem_cons.1 hp with rfl | hp
    · exact ⟨⟨_, rfl⟩, 0, by decide, ⟨_, rfl⟩, fun j hj => absurd hj (Nat.not_lt_zero j)⟩
    · rw [List.mem_singleton.1 hp]
      refine ⟨⟨_, rfl⟩, 1, by decide, ⟨_, rfl⟩, fun j hj => ?_⟩
      rw [Nat.lt_one_iff.1 hj]
      exact ⟨busy, rfl, rfl⟩
  have hundeliverable : ∃ p ∈ jobs.map (·.toRequest), p.Undeliverable 1 (script (some denied)) :=
    ⟨⟨2, .ok (.bytes [3, 4])⟩, List.mem_cons_self,
      .inr ⟨0, fun j hj => absurd hj (Nat.not_lt_zero j), .inl ⟨denied, rfl, rfl⟩⟩⟩
  have hfirst : (run policy (link 5 none)).2.2 = .ok receipts := by
    unfold run link jobs policy busy receipts
    cbv
  refine ⟨⟨hdeliverable, hfirst, ?_, ?_, ?_⟩, hundeliverable, (hruns (some denied)).2 hundeliverable⟩
  · obtain ⟨⟨receipts', hok, hok'⟩, -⟩ := (hruns none).1 hdeliverable
    rw [← hfirst]
    exact hok'.trans hok.symm
  · unfold requests run link jobs policy busy first second
    cbv
  · unfold requests run link jobs policy' busy first second
    cbv

end ObjectFlush
