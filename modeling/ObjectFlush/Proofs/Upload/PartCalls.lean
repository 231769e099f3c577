import ObjectFlush.Proofs.Upload.RepeatLaw

/-!
The calls of one part, known by their places in the log. A call that is over was answered in time, or was given up
because its answer would have come too late (`Call.Timely`). What the calls of a part came to keeps to the law of
repetition, at each step of a turn: `ActivePart.call_records` to `ReadyPart.look_records`.

A turn of a part may end a call that was made turns before, between the calls of others. It leaves all calls but its
own as they are (`Link.Keeps`), whatever the numbers of the parts.
-/

namespace ObjectFlush

/-- The call was answered as soon as its answer was there, and that was in time; or it was given up, as the answer
would have come too late. -/
structure Call.Timely (timeout : Nat) (reaction : Reaction) (c : Call) : Prop where
  answered : ∀ time answer, c.finish = some (time, answer) →
    time = c.started + reaction.delay ∧ reaction.delay ≤ timeout
  givenUp : c.finish = none → timeout < reaction.delay

/-- A call without an end counts as one that has timed out, which may pass. -/
theorem Call.timed_out_of_none {c : Call} (h : c.finish = none) :
    c.failure? = some .timeout ∧ MayPass c.failure? := by
  have hfailure : c.failure? = some .timeout := by rw [Call.failure?, h]
  exact ⟨hfailure, hfailure ▸ mayPass_some.2 rfl⟩

/-- A call whose answer would come too late is given up. -/
theorem Call.Timely.finish_eq_none {timeout : Nat} {reaction : Reaction} {c : Call} (h : c.Timely timeout reaction)
    (hlate : timeout < reaction.delay) : c.finish = none := by
  cases hfinish : c.finish with
  | none => rfl
  | some finish =>
    have := (h.answered finish.1 finish.2 hfinish).2
    omega

namespace Link

variable {σ : Type} {timeout place : Nat} {r : Request} {t : Ticket} {own places : List Nat}
  {failure : Option RequestError} {P Q : List (Option RequestError) → Prop} {l l' l'' : Link σ}

/-- What is in store for a call of `r` at a place of the log. -/
def inStore (l : Link σ) (place : Nat) (r : Request) : Reaction :=
  l.conditions.reaction r.lane ((l.calls.take place).countP (·.request.lane = r.lane))

/-- From `l` to `l'`, calls may be started, but of those that were there only the ones at `own` may end. -/
structure Keeps (own : List Nat) (l l' : Link σ) : Prop where
  conditions : l'.conditions = l.conditions
  heads : l.heads <+: l'.heads
  calls : ∀ i < l.calls.length, i ∉ own → l'.calls[i]? = l.calls[i]?

namespace Keeps

theorem of_eq (own : List Nat) (hconditions : l'.conditions = l.conditions) (hcalls : l'.calls = l.calls) :
    l.Keeps own l' := by
  have hheads : l'.heads = l.heads := congrArg (List.map Call.head) hcalls
  exact ⟨hconditions, hheads ▸ List.prefix_refl _, fun i _ _ => by rw [hcalls]⟩

theorem length_le (h : l.Keeps own l') : l.calls.length ≤ l'.calls.length := by
  rw [← length_heads, ← length_heads]
  exact h.heads.length_le

/-- What ends on the way was among `own`, or was started on the way. -/
theorem trans {own' : List Nat} (h : l.Keeps own l') (h' : l'.Keeps own' l'')
    (hown : ∀ i ∈ own', i ∈ own ∨ l.calls.length ≤ i) : l.Keeps own l'' := by
  refine ⟨h'.conditions.trans h.conditions, h.heads.trans h'.heads, fun i hi hnot => ?_⟩
  rw [h'.calls i (Nat.lt_of_lt_of_le hi h.length_le) fun hmem => (hown i hmem).elim hnot (by omega)]
  exact h.calls i hi hnot

theorem inStore_eq (h : l.Keeps own l') (hplace : place ≤ l.calls.length) (r : Request) :
    l'.inStore place r = l.inStore place r := by
  have hcount : ∀ link : Link σ, (link.calls.take place).countP (·.request.lane = r.lane) =
      (link.heads.take place).countP (·.1.lane = r.lane) := by
    intro link
    rw [Link.heads, ← List.map_take, List.countP_map]
    rfl
  obtain ⟨more, hmore⟩ := h.heads
  rw [inStore, inStore, h.conditions, hcount l', hcount l, ← hmore,
    List.take_append_of_le_length (by rwa [length_heads])]

end Keeps

theorem keeps_start (l : Link σ) (r : Request) : l.Keeps [] (l.start r).1 :=
  ⟨rfl, ⟨_, (l.heads_start r).symm⟩, fun _ hi _ => List.getElem?_append_left hi⟩

theorem keeps_drawPause (l : Link σ) (pause : Nat) : l.Keeps [] (l.drawPause pause).1 := .of_eq [] rfl rfl

/-- The call of the ticket is one of `r` that has no end yet, and what is going to happen to it was in store for it. -/
structure Pends (l : Link σ) (r : Request) (t : Ticket) : Prop where
  call : l.calls[t.place]? = some ⟨r, t.started, none⟩
  reaction : t.reaction = l.inStore t.place r

namespace Pends

theorem lt_length (h : l.Pends r t) : t.place < l.calls.length := (List.getElem?_eq_some_iff.1 h.call).1

theorem keep (h : l.Pends r t) (hkeep : l.Keeps own l') (hplace : t.place ∉ own) : l'.Pends r t := by
  refine ⟨(hkeep.calls _ h.lt_length hplace).trans h.call, h.reaction.trans ?_⟩
  exact (hkeep.inStore_eq (Nat.le_of_lt h.lt_length) r).symm

end Pends

theorem pends_start (l : Link σ) (r : Request) : (l.start r).1.Pends r (l.start r).2 := by
  have hstore : (l.start r).1.inStore l.calls.length r = l.inStore l.calls.length r :=
    (l.keeps_start r).inStore_eq (Nat.le_refl _) r
  refine ⟨?_, ?_⟩
  · show (l.calls ++ [_])[l.calls.length]? = _
    simp [start]
  · show l.conditions.reaction r.lane (l.callsIn r.lane) = (l.start r).1.inStore l.calls.length r
    rw [hstore, inStore, List.take_length, callsIn]

theorem keeps_finish [Endpoint σ] (h : l.Pends r t) : l.Keeps [t.place] (l.finish r t).1 := by
  have hissued : l.Issued 0 r t := by
    refine ⟨Nat.zero_le _, ?_⟩
    rw [heads, List.getElem?_map, h.call]
    rfl
  refine ⟨rfl, heads_finish hissued ▸ List.prefix_refl _, fun i _ hi => ?_⟩
  exact List.getElem?_set_ne fun heq => hi (List.mem_singleton.2 heq.symm)

/-- The call at `place` is one of `r`, and it is over: it came to `failure`. -/
def Over (timeout : Nat) (l : Link σ) (r : Request) (place : Nat) (failure : Option RequestError) : Prop :=
  ∃ c, l.calls[place]? = some c ∧ c.request = r ∧ c.failure? = failure ∧ c.Timely timeout (l.inStore place r)

namespace Over

theorem lt_length (h : l.Over timeout r place failure) : place < l.calls.length := by
  obtain ⟨c, hc, -⟩ := h
  exact (List.getElem?_eq_some_iff.1 hc).1

theorem keep (h : l.Over timeout r place failure) (hkeep : l.Keeps own l') (hplace : place ∉ own) :
    l'.Over timeout r place failure := by
  have hlt := h.lt_length
  obtain ⟨c, hc, hrequest, hfailure, htimely⟩ := h
  refine ⟨c, (hkeep.calls _ hlt hplace).trans hc, hrequest, hfailure, ?_⟩
  rw [hkeep.inStore_eq (Nat.le_of_lt hlt)]
  exact htimely

end Over

/-- A call that is answered at its time is over. -/
theorem Pends.over_finish [Endpoint σ] (h : l.Pends r t) (htime : l.now = t.started + t.reaction.delay)
    (hle : t.reaction.delay ≤ timeout) :
    (l.finish r t).1.Over timeout r t.place (failureOf (l.finish r t).2) := by
  refine ⟨⟨r, t.started, some (l.now, (l.finish r t).2)⟩, ?_, rfl, rfl, ?_, fun hnone => by cases hnone⟩
  · exact List.getElem?_set_self h.lt_length
  · rw [(keeps_finish h).inStore_eq (Nat.le_of_lt h.lt_length), ← h.reaction]
    intro time answer hfinish
    cases hfinish
    exact ⟨htime, hle⟩

/-- A call whose answer is going to be late may be given up, and has timed out then. -/
theorem Pends.over_giveUp (h : l.Pends r t) (hlate : timeout < t.reaction.delay) :
    l.Over timeout r t.place (some .timeout) :=
  ⟨⟨r, t.started, none⟩, h.call, rfl, rfl, fun _ _ hfinish => (by cases hfinish), fun _ => h.reaction ▸ hlate⟩

/-- The calls at `places` are calls of `r` that are over, and what they came to is as `P` says. -/
def Tells (timeout : Nat) (l : Link σ) (r : Request) (places : List Nat)
    (P : List (Option RequestError) → Prop) : Prop :=
  ∃ failures, List.Forall₂ (l.Over timeout r) places failures ∧ P failures

namespace Tells

theorem nil (h : P []) : l.Tells timeout r [] P := ⟨[], .nil, h⟩

theorem imp (h : l.Tells timeout r places P) (hpq : ∀ failures, P failures → Q failures) :
    l.Tells timeout r places Q := by
  obtain ⟨failures, hover, hp⟩ := h
  exact ⟨failures, hover, hpq failures hp⟩

theorem over_of_mem (h : l.Tells timeout r places P) : ∀ i ∈ places, ∃ failure, l.Over timeout r i failure := by
  obtain ⟨failures, hover, -⟩ := h
  exact ((List.forall₂_and_left places failures).1 (hover.imp fun _ _ hc => ⟨⟨_, hc⟩, hc⟩)).1

theorem lt_length (h : l.Tells timeout r places P) : ∀ i ∈ places, i < l.calls.length := by
  intro i hi
  obtain ⟨failure, hover⟩ := h.over_of_mem i hi
  exact hover.lt_length

theorem timely (h : l.Tells timeout r places P) (hplace : place ∈ places) {c : Call}
    (hc : l.calls[place]? = some c) : c.Timely timeout (l.inStore place c.request) := by
  obtain ⟨failure, c', hc', rfl, -, htimely⟩ := h.over_of_mem place hplace
  cases hc.symm.trans hc'
  exact htimely

/-- The calls that are at the places came to what is told. -/
theorem of_calls (h : l.Tells timeout r places P) {calls : List Call}
    (hcalls : List.Forall₂ (fun i c => l.calls[i]? = some c) places calls) : P (calls.map Call.failure?) := by
  obtain ⟨failures, hover, hp⟩ := h
  suffices heq : calls.map Call.failure? = failures by rwa [heq]
  clear hp
  induction hcalls generalizing failures with
  | nil =>
    cases hover
    rfl
  | cons hc _ ih =>
    obtain ⟨⟩ | ⟨hfirst, hrest⟩ := hover
    obtain ⟨c', hc', -, hfailure, -⟩ := hfirst
    cases hc.symm.trans hc'
    rw [List.map_cons, hfailure, ih _ hrest]

theorem keep (h : l.Tells timeout r places P) (hkeep : l.Keeps own l') (hplaces : ∀ i ∈ places, i ∉ own) :
    l'.Tells timeout r places P := by
  obtain ⟨failures, hover, hp⟩ := h
  refine ⟨failures, ?_, hp⟩
  exact ((List.forall₂_and_left places failures).2 ⟨hplaces, hover⟩).imp fun _ _ hc => hc.2.keep hkeep hc.1

theorem concat (h : l.Tells timeout r places P) (hover : l.Over timeout r place failure)
    (hq : ∀ failures, P failures → Q (failures ++ [failure])) : l.Tells timeout r (places ++ [place]) Q := by
  obtain ⟨failures, hcalls, hp⟩ := h
  exact ⟨failures ++ [failure], List.rel_append hcalls (.cons hover .nil), hq failures hp⟩

end Tells

end Link

/-! ## A turn of a part -/

namespace ActivePart

variable {σ : Type} {policy : PartPolicy} {upload : String} {mine own : List Nat} {part : ActivePart}
  {l l' : Link σ}

/-- The calls of a part under way are at `mine`: they came to failures that may pass, but for the one that it waits
for, and it is known of that one whether its answer is going to be late. -/
def Records (policy : PartPolicy) (upload : String) (mine : List Nat) (l : Link σ) (part : ActivePart) : Prop :=
  match part.stage with
  | .pausing => l.Tells policy.timeout (part.request upload) mine (policy.retry.Spent part.left)
  | .calling ticket late =>
    late = decide (policy.timeout < ticket.reaction.delay) ∧ l.Pends (part.request upload) ticket ∧
      ∃ before, mine = before ++ [ticket.place] ∧ ticket.place ∉ before ∧
        l.Tells policy.timeout (part.request upload) before (policy.retry.Spent part.left)

theorem Records.keep (h : part.Records policy upload mine l) (hkeep : l.Keeps own l')
    (hmine : ∀ i ∈ mine, i ∉ own) : part.Records policy upload mine l' := by
  unfold Records at *
  split at h
  · exact h.keep hkeep hmine
  · obtain ⟨hlate, hpends, before, rfl, hnew, htells⟩ := h
    exact ⟨hlate, hpends.keep hkeep (hmine _ (by simp)), before, rfl, hnew,
      htells.keep hkeep fun i hi => hmine i (List.mem_append_left _ hi)⟩

/-- The call that the part waits for is one of its own. -/
theorem Records.places_subset (h : part.Records policy upload mine l) : part.places ⊆ mine := by
  unfold Records at h
  unfold places ticket?
  split at h
  · next hstage =>
    rw [hstage]
    exact List.nil_subset _
  · next ticket late hstage =>
    obtain ⟨-, -, before, rfl, -⟩ := h
    rw [hstage]
    exact List.subset_append_right ..

/-- The calls of a part under way are as many as the policy allows. -/
theorem Records.allows (h : part.Records policy upload mine l) {calls : List Call}
    (hcalls : List.Forall₂ (fun i c => l.calls[i]? = some c) mine calls) :
    policy.retry.Allows (calls.map Call.failure?) := by
  unfold Records at h
  split at h
  · exact (h.of_calls hcalls).allows
  · next ticket late _ =>
    obtain ⟨-, -, before, rfl, -, htells⟩ := h
    have hearlier := (List.forall₂_take_append calls before [ticket.place] hcalls.flip).flip
    have hlast := List.forall₂_drop_append calls before [ticket.place] hcalls.flip
    obtain ⟨c, _, -, hnone, hdrop⟩ := List.forall₂_cons_right_iff.1 hlast
    obtain rfl := List.forall₂_nil_right_iff.1 hnone
    rw [← List.take_append_drop before.length calls, hdrop, List.map_append, List.map_singleton]
    exact ((htells.of_calls hearlier).reached _).allows

/-- Each call of a part under way is over, but for the one that it waits for, and that is its last. -/
theorem Records.timely (h : part.Records policy upload mine l) (hsorted : mine.Pairwise (· < ·)) {place : Nat}
    (hplace : place ∈ mine) {c : Call} (hc : l.calls[place]? = some c) :
    c.Timely policy.timeout (l.inStore place c.request) ∨
      c.finish = none ∧ ∀ later ∈ mine, later ≤ place := by
  unfold Records at h
  split at h
  · exact .inl (h.timely hplace hc)
  · obtain ⟨-, hpends, before, rfl, -, htells⟩ := h
    rcases List.mem_append.1 hplace with hplace | hplace
    · exact .inl (htells.timely hplace hc)
    · obtain rfl := List.mem_singleton.1 hplace
      cases hc.symm.trans hpends.call
      refine .inr ⟨rfl, fun later hlater => ?_⟩
      rcases List.mem_append.1 hlater with hlater | hlater
      · exact Nat.le_of_lt ((List.pairwise_append.1 hsorted).2.2 later hlater _ (by simp))
      · exact Nat.le_of_eq (List.mem_singleton.1 hlater)

/-- How the calls of a part stand when it has just made one: its answer is there, or the part waits for it. -/
def Called (policy : PartPolicy) (upload : String) (part : ActivePart) (mine : List Nat) (l : Link σ) :
    Except RequestError String ⊕ Nat × ActivePart → Prop
  | .inl answer => l.Tells policy.timeout (part.request upload) mine
      (policy.retry.Reached part.left (failureOf answer))
  | .inr (_, next) => next.Records policy upload mine l

end ActivePart

/-- The calls of a part that is over are at `mine`. If it is done, the last of them succeeded; if it has failed, the
last of them decided, or the part had nothing to send. -/
def PartStatus.Told {σ : Type} (policy : PartPolicy) (part : PartRequest) (mine : List Nat) (l : Link σ) :
    PartStatus → Prop
  | .pending | .inFlight => True
  | .done => ∃ r, l.Tells policy.timeout r mine (policy.retry.Settles none)
  | .failed => (∃ r cause, l.Tells policy.timeout r mine (policy.retry.Settles (some cause))) ∨
      (∃ reason, part.payload = .error reason) ∧ mine = []

theorem PartStatus.Told.keep {σ : Type} {policy : PartPolicy} {part : PartRequest} {mine own : List Nat}
    {l l' : Link σ} {status : PartStatus} (h : status.Told policy part mine l) (hkeep : l.Keeps own l')
    (hmine : ∀ i ∈ mine, i ∉ own) : status.Told policy part mine l' := by
  cases status with
  | pending => trivial
  | inFlight => trivial
  | done =>
    obtain ⟨r, htells⟩ := h
    exact ⟨r, htells.keep hkeep hmine⟩
  | failed =>
    rcases h with ⟨r, cause, htells⟩ | hunreadable
    · exact .inl ⟨r, cause, htells.keep hkeep hmine⟩
    · exact .inr hunreadable

/-- How the calls of a part at `mine` stand after a turn of it. -/
def Turn.Records {σ : Type} (policy : PartPolicy) (upload : String) (part : PartRequest) (mine : List Nat)
    (l : Link σ) : Turn → Prop
  | .waits _ next => next.Records policy upload mine l
  | .done _ => PartStatus.done.Told policy part mine l
  | .failed _ => PartStatus.failed.Told policy part mine l

/-- A turn of a part adds its calls to those at `mine`, and no other call of the log ends but those at `own`. -/
structure Turn.Adds {σ : Type} (policy : PartPolicy) (upload : String) (part : PartRequest) (own mine : List Nat)
    (l : Link σ) (out : Link σ × Turn) : Prop where
  keeps : l.Keeps own out.1
  records : ∃ n, out.1.calls.length = l.calls.length + n ∧
    out.2.Records policy upload part (mine ++ List.range' l.calls.length n) out.1

namespace Turn.Adds

variable {σ : Type} {policy : PartPolicy} {upload : String} {part : PartRequest} {mine own : List Nat}
  {l l' : Link σ} {out : Link σ × Turn}

theorem refl {turn : Turn} (h : turn.Records policy upload part mine l) :
    Turn.Adds policy upload part own mine l (l, turn) := by
  refine ⟨.of_eq own rfl rfl, 0, rfl, ?_⟩
  rw [List.range'_zero, List.append_nil]
  exact h

/-- The calls before a turn count for it if they were made within it. -/
theorem after (hkeep : l.Keeps own l') {n : Nat} (hlength : l'.calls.length = l.calls.length + n)
    (h : Turn.Adds policy upload part [] (mine ++ List.range' l.calls.length n) l' out) :
    Turn.Adds policy upload part own mine l out := by
  obtain ⟨hkeeps, m, hm, hrecords⟩ := h
  refine ⟨hkeep.trans hkeeps fun i hi => (by cases hi), n + m, by omega, ?_⟩
  rw [hlength, List.append_assoc, List.range'_append_1] at hrecords
  exact hrecords

end Turn.Adds

namespace ActivePart

variable {σ : Type} [Endpoint σ] {policy : PartPolicy} {upload : String} {mine : List Nat} {part : ActivePart}
  {l : Link σ}

/-- The calls of a part, one more of which has just been made. -/
theorem call_records (h : l.Tells policy.timeout (part.request upload) mine (policy.retry.Spent part.left)) :
    l.Keeps [] (part.call policy upload l).1 ∧
      (part.call policy upload l).1.calls.length = l.calls.length + 1 ∧
      part.Called policy upload (mine ++ [l.calls.length]) (part.call policy upload l).1
        (part.call policy upload l).2 := by
  have hkeep := l.keeps_start (part.request upload)
  have hpends := l.pends_start (part.request upload)
  have hlength : (l.start (part.request upload)).1.calls.length = l.calls.length + 1 := List.length_append
  have htells := h.keep hkeep fun _ _ => List.not_mem_nil
  have hnew : l.calls.length ∉ mine := fun hmem => Nat.lt_irrefl _ (h.lt_length _ hmem)
  simp only [call]
  split
  · next hdelay =>
    have hfinish := Link.keeps_finish hpends
    refine ⟨hkeep.trans hfinish fun i hi => .inr (List.mem_singleton.1 hi ▸ Nat.le_refl _), ?_, ?_⟩
    · show (List.set _ _ _).length = _
      rw [List.length_set, hlength]
    · have hanswer := failureOf_map (part.payload.tag upload part.number)
        ((l.start (part.request upload)).1.finish (part.request upload) (l.start (part.request upload)).2).2
      refine (htells.keep hfinish ?_).concat (hpends.over_finish (by rw [hdelay]; rfl) (by omega)) ?_
      · intro i hi hmem
        obtain rfl := List.mem_singleton.1 hmem
        exact hnew hi
      · intro failures hspent
        exact hanswer ▸ hspent.reached _
  · split
    · next hdelay htimeout =>
      refine ⟨hkeep, hlength, htells.concat (hpends.over_giveUp (by omega)) fun failures hspent => ?_⟩
      exact hspent.reached _
    · exact ⟨hkeep, hlength, rfl, hpends, mine, rfl, hnew, htells⟩

variable (policy upload) in
/-- The calls of a part whose last call has come to `answer`. -/
theorem conclude_records (left : Nat) :
    ∀ (part : ActivePart) (backoff : Nat) (l : Link σ) (answer : Except RequestError String) (mine : List Nat),
      l.Tells policy.timeout (part.request upload) mine (policy.retry.Reached left (failureOf answer)) →
        Turn.Adds policy upload ⟨part.number, .ok part.payload⟩ [] mine l
          (part.conclude policy upload left backoff l answer) := by
  -- Only a failure that may pass leads on, and it costs one of the repetitions that are left.
  induction left with
  | zero =>
    intro part backoff l answer mine h
    have hsettles := h.imp fun _ hreached => (⟨0, hreached, fun _ => rfl⟩ : policy.retry.Settles _ _)
    cases answer with
    | ok tag => exact .refl ⟨_, hsettles⟩
    | error e => exact .refl (.inl ⟨_, e, hsettles⟩)
  | succ left ih =>
    intro part backoff l answer mine h
    cases answer with
    | ok tag =>
      exact .refl ⟨_, h.imp fun _ hreached => ⟨left + 1, hreached, fun hpass => absurd hpass not_mayPass_none⟩⟩
    | error e =>
      simp only [conclude]
      split
      · next he =>
        let again : ActivePart := { part with left, backoff := policy.retry.next backoff }
        have hpause : l.Keeps [] (l.drawPause backoff).1 := l.keeps_drawPause backoff
        have hspent : (l.drawPause backoff).1.Tells policy.timeout (again.request upload) mine
            (policy.retry.Spent again.left) :=
          (h.keep hpause fun _ _ => List.not_mem_nil).imp fun _ hreached => hreached.next (mayPass_some.2 he)
        split
        · -- The pause takes no time: the part calls again within the same turn.
          obtain ⟨hkeep, hlength, hcalled⟩ := call_records hspent
          have hkept := hpause.trans hkeep fun i hi => (by cases hi)
          split
          · next l' answer hc =>
            rw [hc] at hkept hlength hcalled
            exact .after hkept hlength (ih again (policy.retry.next backoff) l' answer _ hcalled)
          · next l' time next hc =>
            rw [hc] at hkept hlength hcalled
            exact ⟨hkept, 1, hlength, hcalled⟩
        · refine ⟨hpause, 0, rfl, ?_⟩
          rw [List.range'_zero, List.append_nil]
          exact hspent
      · next he =>
        refine .refl (.inl ⟨_, e, h.imp fun _ hreached => ⟨left + 1, hreached, fun hpass => ?_⟩⟩)
        exact absurd (mayPass_some.1 hpass) he

theorem attempt_records (h : l.Tells policy.timeout (part.request upload) mine (policy.retry.Spent part.left)) :
    Turn.Adds policy upload ⟨part.number, .ok part.payload⟩ [] mine l (part.attempt policy upload l) := by
  obtain ⟨hkeep, hlength, hcalled⟩ := call_records h
  simp only [attempt]
  split
  · next l' answer hc =>
    rw [hc] at hkeep hlength hcalled
    exact .after hkeep hlength (conclude_records policy upload part.left part part.backoff l' answer _ hcalled)
  · next l' time next hc =>
    rw [hc] at hkeep hlength hcalled
    exact ⟨hkeep, 1, hlength, hcalled⟩

/-- The calls of a part under way that has its turn, at the time at which it is due. -/
theorem wake_records (h : part.Records policy upload mine l) (hdue : part.DueAt policy l.now) :
    Turn.Adds policy upload ⟨part.number, .ok part.payload⟩ part.places mine l (part.wake policy upload l) := by
  unfold Records at h
  simp only [wake, places, ticket?]
  cases hstage : part.stage with
  | pausing =>
    rw [hstage] at h
    exact attempt_records h
  | calling ticket late =>
    rw [hstage] at h
    obtain ⟨rfl, hpends, before, rfl, hnew, htells⟩ := h
    have htime := hdue ticket _ hstage
    by_cases hlate : policy.timeout < ticket.reaction.delay
    · -- The call is given up, and has no end in the log.
      rw [decide_eq_true hlate]
      obtain ⟨hkeep, n, hn, hrecords⟩ := conclude_records policy upload part.left part part.backoff l
        (.error .timeout) (before ++ [ticket.place])
        (htells.concat (hpends.over_giveUp hlate) fun _ hspent => hspent.reached _)
      exact ⟨⟨hkeep.conditions, hkeep.heads, fun i hi _ => hkeep.calls i hi List.not_mem_nil⟩, n, hn, hrecords⟩
    · rw [decide_eq_false hlate]
      have hfinish := Link.keeps_finish hpends
      have hafter := htells.keep hfinish fun i hi hmem => hnew (List.mem_singleton.1 hmem ▸ hi)
      have hanswer := failureOf_map (part.payload.tag upload part.number)
        (l.finish (part.request upload) ticket).2
      refine Turn.Adds.after hfinish (n := 0) List.length_set ?_
      rw [List.range'_zero, List.append_nil]
      refine conclude_records policy upload part.left part part.backoff _ _ _
        (hafter.concat (hpends.over_finish (by omega) (Nat.not_lt.1 hlate)) fun _ hspent => ?_)
      exact hanswer ▸ hspent.reached _

end ActivePart

namespace ReadyPart

variable {σ : Type} {policy : PartPolicy} {upload : String} {mine own : List Nat} {part : ReadyPart} {l l' : Link σ}

/-- The calls of a part that the run holds are at `mine`. -/
def Records (policy : PartPolicy) (upload : String) (mine : List Nat) (l : Link σ) : ReadyPart → Prop
  | .fresh .. => mine = []
  | .woken part => part.Records policy upload mine l

theorem Records.keep (h : part.Records policy upload mine l) (hkeep : l.Keeps own l')
    (hmine : ∀ i ∈ mine, i ∉ own) : part.Records policy upload mine l' := by
  cases part with
  | fresh slot part => exact h
  | woken part => exact ActivePart.Records.keep h hkeep hmine

theorem Records.places_subset (h : part.Records policy upload mine l) : part.places ⊆ mine := by
  cases part with
  | fresh slot part => exact List.nil_subset _
  | woken part => exact ActivePart.Records.places_subset h

/-- The calls of a part that has its turn. -/
theorem look_records [Endpoint σ] (h : part.Records policy upload mine l) (hdue : part.Due policy l.now) :
    Turn.Adds policy upload part.part part.places mine l (part.look policy upload l) := by
  cases part with
  | woken part => exact ActivePart.wake_records h hdue
  | fresh slot part =>
    obtain ⟨number, payload⟩ := part
    obtain rfl : mine = [] := h
    cases payload with
    | error e => exact .refl (.inr ⟨⟨e, rfl⟩, rfl⟩)
    | ok payload =>
      have hnew : l.Tells policy.timeout ((ActivePart.first policy slot number payload).request upload) []
          (policy.retry.Spent policy.retry.limit) := .nil policy.retry.spent_nil
      exact ActivePart.attempt_records hnew

end ReadyPart

end ObjectFlush
