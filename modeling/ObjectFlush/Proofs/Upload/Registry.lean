import ObjectFlush.Proofs.Upload.Leases

/-!
Leases over any interleaving of calls to one registry: whoever asks, waits, is handed a key, gives up or lets
go, and whoever only looks. A claim has the number of the call that made it. What was given is read off the
answers, and what was let go of off the calls alone (`Holds`, `Awaits`), so that a registry which keeps a lease
that was dropped is not excused. At every time a key is held at most once, can be taken if and only if nobody
holds or awaits it, is handed to the first who waits once nobody holds it, and has a slot if and only if
somebody holds or awaits it (`registry_excludes`).
-/

namespace ObjectFlush

/-- A call to the registry. To poll is to look whether a wait is over; to drop is to let go of a lease, or
to give up a wait. -/
inductive LeaseCall where
  | acquire (key : ObjectKey)
  | attempt (key : ObjectKey)
  | poll (claim : Nat)
  | drop (claim : Nat)
  | check (key : ObjectKey)

inductive LeaseAnswer where
  | granted
  | waiting
  | busy
  | dropped
  /-- There is no such claim, or no longer. -/
  | unknown
  | active (isActive : Bool)
  deriving DecidableEq

namespace Leases

/-- One call. The claim that it makes, if it makes one, has the number `now`. -/
def perform (l : Leases Nat) (now : Nat) : LeaseCall → Leases Nat × LeaseAnswer
  | .acquire key => (l.acquire now key).map id fun granted => if granted then .granted else .waiting
  | .attempt key => (l.attempt now key).map id fun granted => if granted then .granted else .busy
  | .poll i =>
    match l.poll i with
    | some (l, granted) => (l, if granted then .granted else .waiting)
    | none => (l, .unknown)
  | .drop i =>
    match l.release i with
    | some l => (l, .dropped)
    | none => (l, .unknown)
  | .check key => (l.check key).map id .active

/-- The leases after some calls, and the calls with their answers. The first has the number `now`. -/
def run (l : Leases Nat) (now : Nat) : List LeaseCall → Leases Nat × List (LeaseCall × LeaseAnswer)
  | [] => (l, [])
  | c :: rest =>
    let (l, a) := l.perform now c
    let (l, course) := l.run (now + 1) rest
    (l, (c, a) :: course)

end Leases

section

variable (course : List (LeaseCall × LeaseAnswer)) (i : Nat) (key : ObjectKey)

/-- What the call of number `i` was given, or waits for, was dropped by a later call. -/
def Dropped : Prop := ∃ j a, i < j ∧ course[j]? = some (.drop i, a)

/-- The call of number `i` was given the lease, at once or when it was polled, and it was not dropped. -/
def Holds : Prop :=
  (course[i]? = some (.acquire key, .granted) ∨ course[i]? = some (.attempt key, .granted) ∨
    (course[i]? = some (.acquire key, .waiting) ∧ (.poll i, .granted) ∈ course)) ∧
  ¬ Dropped course i

/-- The call of number `i` waits for the lease. -/
def Awaits : Prop :=
  course[i]? = some (.acquire key, .waiting) ∧ (.poll i, .granted) ∉ course ∧ ¬ Dropped course i

/-- The call of number `i` holds the lease, or waits for it. -/
def Stands : Bool → Prop
  | true => Holds course i key
  | false => Awaits course i key

variable {course} {i} {key} in
theorem exists_stands_iff :
    (∃ granted, Stands course i key granted) ↔ Holds course i key ∨ Awaits course i key := by
  rw [Bool.exists_bool]
  exact or_comm

end

/-! ## What one more call adds -/

section

variable {course : List (LeaseCall × LeaseAnswer)} {x : LeaseCall × LeaseAnswer} {i : Nat}
  {key key' : ObjectKey} {granted granted' : Bool}

/-- The answer to a call that makes a claim. -/
inductive Makes (key : ObjectKey) : Bool → LeaseCall × LeaseAnswer → Prop
  | granted : Makes key true (.acquire key, .granted)
  | taken : Makes key true (.attempt key, .granted)
  | waiting : Makes key false (.acquire key, .waiting)

/-- A call that changes no claim, and its answer. -/
inductive Idles : LeaseCall × LeaseAnswer → Prop
  | busy (key : ObjectKey) : Idles (.attempt key, .busy)
  | unheard (i : Nat) : Idles (.poll i, .unknown)
  | waiting (i : Nat) : Idles (.poll i, .waiting)
  | active (key : ObjectKey) (b : Bool) : Idles (.check key, .active b)

theorem getElem?_append_of_lt (hi : i < course.length) : (course ++ [x])[i]? = course[i]? :=
  List.getElem?_append_left hi

theorem dropped_append_iff (hi : i < course.length) :
    Dropped (course ++ [x]) i ↔ Dropped course i ∨ x.1 = .drop i := by
  constructor
  · rintro ⟨j, a, hij, hget⟩
    rcases Nat.lt_trichotomy j course.length with hlt | rfl | hgt
    · exact .inl ⟨j, a, hij, by rwa [getElem?_append_of_lt hlt] at hget⟩
    · rw [List.getElem?_concat_length] at hget
      exact .inr (congrArg Prod.fst (Option.some.inj hget))
    · rw [List.getElem?_eq_none (by simpa [Nat.succ_le_iff] using hgt)] at hget
      cases hget
  · rintro (⟨j, a, hij, hget⟩ | hx)
    · have hlt : j < course.length := (List.getElem?_eq_some_iff.1 hget).1
      exact ⟨j, a, hij, by rwa [getElem?_append_of_lt hlt]⟩
    · exact ⟨course.length, x.2, hi, by rw [List.getElem?_concat_length, ← hx]⟩

/-- The last call drops nothing that was made by itself or is still to come. -/
theorem not_dropped_append (hi : course.length ≤ i) : ¬ Dropped (course ++ [x]) i := by
  rintro ⟨j, a, hij, hget⟩
  rw [List.getElem?_eq_none (by simp; omega)] at hget
  cases hget

theorem stands_append_iff (hi : i < course.length) (hpoll : x ≠ (.poll i, .granted)) (hdrop : x.1 ≠ .drop i) :
    Stands (course ++ [x]) i key granted ↔ Stands course i key granted := by
  cases granted <;>
    simp [Stands, Holds, Awaits, getElem?_append_of_lt hi, dropped_append_iff hi, hpoll.symm, hdrop]

/-- A claim was made by the call of its number. -/
theorem Stands.made (h : Stands course i key granted) : ∃ g x, course[i]? = some x ∧ Makes key g x := by
  cases granted with
  | true =>
    rcases h.1 with hget | hget | ⟨hget, -⟩
    · exact ⟨_, _, hget, .granted⟩
    · exact ⟨_, _, hget, .taken⟩
    · exact ⟨_, _, hget, .waiting⟩
  | false => exact ⟨_, _, h.1, .waiting⟩

theorem Stands.lt (h : Stands course i key granted) : i < course.length := by
  obtain ⟨g, x, hget, -⟩ := h.made
  exact (List.getElem?_eq_some_iff.1 hget).1

/-- The last call has a claim if it was answered by one. -/
theorem stands_append_last_iff (hpoll : (.poll course.length, .granted) ∉ course) :
    Stands (course ++ [x]) course.length key granted ↔ Makes key granted x := by
  have hkept : ¬ Dropped (course ++ [x]) course.length := not_dropped_append (Nat.le_refl _)
  cases granted with
  | true =>
    constructor
    · rintro ⟨hmade, -⟩
      simp only [List.getElem?_concat_length, Option.some.injEq] at hmade
      rcases hmade with rfl | rfl | ⟨rfl, hin⟩
      · exact .granted
      · exact .taken
      · simp [hpoll] at hin
    · rintro ⟨⟩
      · exact ⟨.inl List.getElem?_concat_length, hkept⟩
      · exact ⟨.inr (.inl List.getElem?_concat_length), hkept⟩
  | false =>
    constructor
    · rintro ⟨hmade, -⟩
      rw [List.getElem?_concat_length, Option.some.injEq] at hmade
      rw [hmade]
      exact .waiting
    · rintro ⟨⟩
      exact ⟨List.getElem?_concat_length, by simpa using hpoll, hkept⟩

theorem stands_append_of_poll (h : Awaits course i key) :
    Stands (course ++ [(.poll i, .granted)]) i key' granted' ↔ key' = key ∧ granted' = true := by
  have hstands : Stands course i key false := h
  have hlt := hstands.lt
  obtain ⟨hmade, -, hkept⟩ := h
  cases granted' <;>
    simp [Stands, Holds, Awaits, getElem?_append_of_lt hlt, dropped_append_iff hlt, hmade, hkept, eq_comm]

theorem not_stands_append_of_drop {a : LeaseAnswer} (hi : i < course.length) :
    ¬ Stands (course ++ [(.drop i, a)]) i key granted := by
  cases granted <;> simp [Stands, Holds, Awaits, dropped_append_iff hi]

end

/-! ## What the registry holds -/

namespace Leases

/-- Everybody stands in line behind those who asked before. -/
def InTurn (lines : ObjectKey → Option (Line Nat)) : Prop :=
  ∀ key line, lines key = some line → line.claimants.Pairwise (· < ·)

theorem InTurn.update {lines : ObjectKey → Option (Line Nat)} (h : InTurn lines) {key : ObjectKey}
    {s : Option (Line Nat)} (hs : ∀ line, s = some line → line.claimants.Pairwise (· < ·)) :
    InTurn (Function.update lines key s) := by
  intro x line hx
  rw [Function.update_apply] at hx
  split at hx
  · exact hs line hx
  · exact h x line hx

/-- The claims are those that the course tells of, and slots and locks are in keeping with them. -/
structure Told (l : Leases Nat) (course : List (LeaseCall × LeaseAnswer)) : Prop where
  keeps : ∃ lines, l.Keeps lines ∧ InTurn lines
  past : ∀ i, (.poll i, .granted) ∈ course → i < course.length
  stands : ∀ i key granted, (∃ n, ⟨i, key, n, granted⟩ ∈ l.claims) ↔ Stands course i key granted

variable {l l' : Leases Nat} {course : List (LeaseCall × LeaseAnswer)} {x : LeaseCall × LeaseAnswer}
  {lines : ObjectKey → Option (Line Nat)} {i : Nat} {key : ObjectKey}

namespace Told

theorem claimant_lt (h : l.Told course) {c : Claim Nat} (hc : c ∈ l.claims) : c.claimant < course.length :=
  ((h.stands c.claimant c.key c.granted).1 ⟨c.lock, hc⟩).lt

theorem not_mem_claims (h : l.Told course) (n : Nat) (granted : Bool) :
    ⟨course.length, key, n, granted⟩ ∉ l.claims := fun hc =>
  absurd (h.claimant_lt hc) (Nat.lt_irrefl _)

/-- One more call: it has a claim if it made one, and what became of the earlier claims can be read off it. -/
theorem append (h : l.Told course) (hkeeps : l'.Keeps lines) (hturn : InTurn lines)
    (hpoll : ∀ i, x = (.poll i, .granted) → i < course.length)
    (hbound : ∀ c ∈ l'.claims, c.claimant ≤ course.length)
    (hlast : ∀ key granted, (∃ n, ⟨course.length, key, n, granted⟩ ∈ l'.claims) ↔ Makes key granted x)
    (hearlier : ∀ i < course.length, ∀ key granted,
      (∃ n, ⟨i, key, n, granted⟩ ∈ l'.claims) ↔ Stands (course ++ [x]) i key granted) :
    l'.Told (course ++ [x]) := by
  refine ⟨⟨lines, hkeeps, hturn⟩, fun i hi => ?_, fun i key granted => ?_⟩
  · rw [List.length_append, List.length_singleton]
    rcases List.mem_append.1 hi with hin | hin
    · exact Nat.lt_succ_of_lt (h.past i hin)
    · exact Nat.lt_succ_of_lt (hpoll i (List.mem_singleton.1 hin).symm)
  · rcases Nat.lt_trichotomy i course.length with hlt | rfl | hgt
    · exact hearlier i hlt key granted
    · rw [stands_append_last_iff fun hin => Nat.lt_irrefl _ (h.past _ hin)]
      exact hlast key granted
    · refine iff_of_false (fun ⟨n, hc⟩ => absurd (hbound _ hc) (Nat.not_le.2 hgt)) fun hstands => ?_
      have hlt := hstands.lt
      simp only [List.length_append, List.length_singleton] at hlt
      omega

/-- A call that changes no claim. -/
theorem idle (h : l.Told course) (hkeeps : l'.Keeps lines) (hturn : InTurn lines)
    (hclaims : l'.claims = l.claims) (hx : Idles x) : l'.Told (course ++ [x]) := by
  have hmakes : ∀ key g, ¬ Makes key g x := by
    rintro key g ⟨⟩ <;> cases hx
  have hpoll : ∀ i, x ≠ (.poll i, .granted) := by
    rintro i rfl
    cases hx
  have hdrop : ∀ i, x.1 ≠ .drop i := by
    intro i
    cases hx <;> simp
  refine h.append hkeeps hturn (fun i heq => absurd heq (hpoll i)) (fun c hc => ?_) (fun key granted => ?_)
    fun i hi key granted => ?_
  · exact Nat.le_of_lt (h.claimant_lt (hclaims ▸ hc))
  · simp only [hclaims, h.not_mem_claims, exists_false, hmakes]
  · rw [hclaims, stands_append_iff hi (hpoll i) (hdrop i)]
    exact h.stands i key granted

/-- A call that makes a claim. -/
theorem makes (h : l.Told course) (hkeeps : l'.Keeps lines) (hturn : InTurn lines) {granted : Bool} {n : Nat}
    (hmakes : Makes key granted x) (hclaims : l'.claims = ⟨course.length, key, n, granted⟩ :: l.claims) :
    l'.Told (course ++ [x]) := by
  have hpoll : ∀ i, x ≠ (.poll i, .granted) := by
    rintro i rfl
    cases hmakes
  have hdrop : ∀ i, x.1 ≠ .drop i := by
    intro i
    cases hmakes <;> simp
  refine h.append hkeeps hturn (fun i heq => absurd heq (hpoll i)) (fun c hc => ?_) (fun key' granted' => ?_)
    fun i hi key' granted' => ?_
  · rcases List.mem_cons.1 (hclaims ▸ hc) with rfl | hin
    · exact Nat.le_refl _
    · exact Nat.le_of_lt (h.claimant_lt hin)
  · -- Claimants are numbered by their calls, so this one has no other claim.
    have hiff : Makes key' granted' x ↔ key' = key ∧ granted' = granted := by
      constructor
      · intro hmakes'
        cases hmakes <;> cases hmakes' <;> exact ⟨rfl, rfl⟩
      · rintro ⟨rfl, rfl⟩
        exact hmakes
    simp [hclaims, h.not_mem_claims, hiff]
  · rw [stands_append_iff hi (hpoll i) (hdrop i), ← h.stands]
    simp [hclaims, Nat.ne_of_lt hi]

/-- A wait that is over. -/
theorem noticed (h : l.Told course) (hkeeps : l'.Keeps lines) (hturn : InTurn lines) {c : Claim Nat}
    (hc : c ∈ l.claims) (hwait : c.granted = false)
    (hclaims : l'.claims = { c with granted := true } :: l.others c.claimant) :
    l'.Told (course ++ [(.poll c.claimant, .granted)]) := by
  have hlt := h.claimant_lt hc
  refine h.append hkeeps hturn (fun i heq => ?_) (fun c' hc' => ?_) (fun key granted => ?_)
    fun i hi key granted => ?_
  · cases heq
    exact hlt
  · rcases List.mem_cons.1 (hclaims ▸ hc') with rfl | hin
    · exact Nat.le_of_lt hlt
    · exact Nat.le_of_lt (h.claimant_lt (Keeps.mem_others_iff.1 hin).1)
  · refine iff_of_false (fun ⟨n, hin⟩ => ?_) fun hmakes => by cases hmakes
    rcases List.mem_cons.1 (hclaims ▸ hin) with heq | hin
    · exact Nat.ne_of_gt hlt (congrArg Claim.claimant heq)
    · exact h.not_mem_claims _ _ (Keeps.mem_others_iff.1 hin).1
  · simp only [hclaims, List.mem_cons, exists_or, Keeps.mem_others_iff]
    by_cases heq : i = c.claimant
    · subst heq
      have hawaits : Awaits course c.claimant c.key := (h.stands _ _ false).1 ⟨c.lock, hwait ▸ hc⟩
      rw [stands_append_of_poll hawaits]
      simp
    · rw [stands_append_iff hi (by simpa using fun h => heq h.symm) (by simp), ← h.stands]
      simp [heq]

/-- A claim that is given up, if there is one. -/
theorem left (h : l.Told course) (hkeeps : l'.Keeps lines) (hturn : InTurn lines) (a : LeaseAnswer)
    (hclaims : l'.claims = l.others i) : l'.Told (course ++ [(.drop i, a)]) := by
  refine h.append hkeeps hturn (fun j heq => by cases heq) (fun c hc => ?_) (fun key granted => ?_)
    fun j hj key granted => ?_
  · rw [hclaims] at hc
    exact Nat.le_of_lt (h.claimant_lt (Keeps.mem_others_iff.1 hc).1)
  · refine iff_of_false (fun ⟨n, hin⟩ => ?_) fun hmakes => by cases hmakes
    rw [hclaims] at hin
    exact h.not_mem_claims _ _ (Keeps.mem_others_iff.1 hin).1
  · simp only [hclaims, Keeps.mem_others_iff]
    by_cases heq : j = i
    · subst heq
      simp [not_stands_append_of_drop hj]
    · rw [stands_append_iff hj (by simp) (by simpa using fun h => heq h.symm), ← h.stands]
      simp [heq]

/-- A claim joins the line of its key at the end. -/
theorem inTurn_entered (h : l.Told course) (hkeeps : l.Keeps lines) (hturn : InTurn lines) (key : ObjectKey) :
    InTurn (Function.update lines key (some (Line.entered (lines key) course.length))) := by
  refine hturn.update fun line hline => ?_
  obtain rfl := Option.some.inj hline
  cases hbefore : lines key with
  | none => exact List.pairwise_singleton _ _
  | some before =>
    rw [Line.entered, Line.claimants_join, List.pairwise_append]
    refine ⟨hturn key before hbefore, List.pairwise_singleton _ _, fun i hi j hj => ?_⟩
    obtain rfl := List.mem_singleton.1 hj
    obtain ⟨granted, hin⟩ := Line.exists_mem_members hi
    obtain ⟨n, hslot, -⟩ := hkeeps.taken key before hbefore
    exact h.claimant_lt ((hkeeps.mem_claims_iff (c := ⟨i, key, n, granted⟩) hbefore hslot rfl).2 ⟨rfl, hin⟩)

theorem perform (h : l.Told course) (c : LeaseCall) :
    (l.perform course.length c).1.Told (course ++ [(c, (l.perform course.length c).2)]) := by
  obtain ⟨lines, hkeeps, hturn⟩ := h.keeps
  have hnew : ∀ c ∈ l.claims, c.claimant ≠ course.length := fun c hc => Nat.ne_of_lt (h.claimant_lt hc)
  cases c with
  | acquire key =>
    obtain ⟨hkeeps', n, hclaims⟩ := hkeeps.acquire hnew key
    refine h.makes hkeeps' (h.inTurn_entered hkeeps hturn key) ?_ hclaims
    cases hout : (l.acquire course.length key).2 with
    | true => simpa [Leases.perform, hout] using Makes.granted
    | false => simpa [Leases.perform, hout] using Makes.waiting
  | attempt key =>
    -- On a free key an attempt is what asking for the lease is; on a taken one it leaves no claim.
    cases hline : lines key with
    | none =>
      obtain ⟨hkeeps', n, hclaims⟩ := hkeeps.acquire hnew key
      have hout := (hkeeps.acquire_eq_true_iff course.length key).2 hline
      rw [Leases.perform, attempt_free _ (hkeeps.free key hline)]
      refine h.makes hkeeps' (h.inTurn_entered hkeeps hturn key) ?_ hclaims
      simpa [hout] using Makes.taken
    | some line =>
      obtain ⟨hkeeps', hbusy, hclaims⟩ := hkeeps.attempt course.length hline
      refine h.idle hkeeps' hturn hclaims ?_
      simp only [Leases.perform, Prod.map_snd, hbusy, Bool.false_eq_true, if_false]
      exact .busy key
  | poll i =>
    cases hc : l.claim? i with
    | none =>
      have hpoll : l.poll i = none := by rw [poll, hc]
      simp only [Leases.perform, hpoll]
      exact h.idle hkeeps hturn rfl (.unheard i)
    | some c =>
      obtain ⟨hin, rfl⟩ := hkeeps.claim?_eq_some_iff.1 hc
      cases hwait : c.granted with
      | true =>
        have hpoll : l.poll c.claimant = none := by simp [poll, hc, hwait]
        simp only [Leases.perform, hpoll]
        exact h.idle hkeeps hturn rfl (.unheard _)
      | false =>
        obtain ⟨line, hline, hpoll⟩ := hkeeps.poll hc hwait
        split at hpoll
        · obtain ⟨l', hpoll, hkeeps', hclaims⟩ := hpoll
          simp only [Leases.perform, hpoll]
          refine h.noticed hkeeps' (hturn.update fun line' hline' => ?_) hin hwait hclaims
          obtain rfl := Option.some.inj hline'
          exact hturn c.key line hline
        · simp only [Leases.perform, hpoll]
          exact h.idle hkeeps hturn rfl (.waiting _)
  | drop i =>
    cases hc : l.claim? i with
    | none =>
      have hrelease : l.release i = none := by rw [release, hc]
      have hothers : l.others i = l.claims := List.filter_eq_self.2 fun c hin => by
        simpa using List.find?_eq_none.1 hc c hin
      simp only [Leases.perform, hrelease]
      exact h.left hkeeps hturn _ hothers.symm
    | some c =>
      obtain ⟨line, l', hline, hrelease, hkeeps', hclaims⟩ := hkeeps.release hc
      simp only [Leases.perform, hrelease]
      refine h.left hkeeps' (hturn.update fun line' hline' => ?_) _ hclaims
      exact (hturn c.key line hline).sublist (Line.claimants_without hline')
  | check key =>
    rw [Leases.perform, hkeeps.check]
    exact h.idle hkeeps hturn rfl (.active key _)

theorem run (calls : List LeaseCall) :
    ∀ {l : Leases Nat} {course : List (LeaseCall × LeaseAnswer)}, l.Told course →
      (l.run course.length calls).1.Told (course ++ (l.run course.length calls).2) := by
  induction calls with
  | nil =>
    intro l course h
    rwa [Leases.run, List.append_nil]
  | cons c rest ih =>
    intro l course h
    have hrest := ih (h.perform c)
    rw [List.length_append, List.length_singleton, List.append_assoc] at hrest
    exact hrest

end Told

theorem told_empty : ({} : Leases Nat).Told [] := by
  refine ⟨⟨_, keeps_empty, nofun⟩, by simp, fun i key granted => ?_⟩
  exact iff_of_false (fun ⟨n, hc⟩ => by cases hc) fun hstands => Nat.not_lt_zero _ hstands.lt

/-- Whoever the course tells of stands in the line of its key. -/
theorem Told.stands_iff (h : l.Told course) (hkeeps : l.Keeps lines) (granted : Bool) :
    Stands course i key granted ↔ ∃ line, lines key = some line ∧ (i, granted) ∈ line.members := by
  rw [← h.stands]
  constructor
  · rintro ⟨n, hc⟩
    obtain ⟨line, hline, -, hin⟩ := (hkeeps.mem_claims _).1 hc
    exact ⟨line, hline, hin⟩
  · rintro ⟨line, hline, hin⟩
    obtain ⟨n, hslot, -⟩ := hkeeps.taken key line hline
    exact ⟨n, (hkeeps.mem_claims_iff hline hslot rfl).2 ⟨rfl, hin⟩⟩

theorem Told.stands_iff_mem (h : l.Told course) (hkeeps : l.Keeps lines) {line : Line Nat}
    (hline : lines key = some line) (granted : Bool) :
    Stands course i key granted ↔ (i, granted) ∈ line.members := by
  rw [h.stands_iff hkeeps, hline]
  simp

/-- A key has a line if and only if somebody holds or awaits it. -/
theorem Told.isSome_iff (h : l.Told course) (hkeeps : l.Keeps lines) (key : ObjectKey) :
    (lines key).isSome = true ↔ ∃ i, Holds course i key ∨ Awaits course i key := by
  simp only [← exists_stands_iff, h.stands_iff hkeeps]
  constructor
  · intro hsome
    obtain ⟨line, hline⟩ := Option.isSome_iff_exists.1 hsome
    exact ⟨line.holder, line.noticed, line, hline, Line.mem_members_iff.2 (.inl ⟨rfl, rfl⟩)⟩
  · rintro ⟨i, granted, line, hline, -⟩
    rw [hline]
    rfl

/-- Nobody holds or awaits a key that has no line. -/
theorem Told.free_iff (h : l.Told course) (hkeeps : l.Keeps lines) (key : ObjectKey) :
    lines key = none ↔ ∀ i, ¬ Holds course i key ∧ ¬ Awaits course i key := by
  rw [← Option.not_isSome_iff_eq_none, h.isSome_iff hkeeps]
  simp only [not_exists, not_or]

/-- To drop is answered by letting go if and only if there is something to let go of. -/
theorem Told.release_iff (h : l.Told course) (hkeeps : l.Keeps lines) (i : Nat) :
    (l.release i).isSome = true ↔ ∃ key, Holds course i key ∨ Awaits course i key := by
  simp only [← exists_stands_iff, ← h.stands]
  constructor
  · intro hsome
    cases hc : l.claim? i with
    | none => simp [release, hc] at hsome
    | some c =>
      obtain ⟨hin, rfl⟩ := hkeeps.claim?_eq_some_iff.1 hc
      exact ⟨c.key, c.granted, c.lock, hin⟩
  · rintro ⟨key, granted, n, hin⟩
    obtain ⟨line, l', -, hrelease, -⟩ := hkeeps.release (hkeeps.claim?_eq_some_iff.2 ⟨hin, rfl⟩)
    rw [hrelease]
    rfl

/-- A wait is over if and only if nobody holds the key and nobody asked for it earlier who still waits. -/
theorem Told.poll_iff (h : l.Told course) (hkeeps : l.Keeps lines) (hturn : InTurn lines) (i : Nat) :
    (∃ l', l.poll i = some (l', true)) ↔ ∃ key, Awaits course i key ∧
      ∀ j, ¬ Holds course j key ∧ (Awaits course j key → i ≤ j) := by
  have hfirst : ∀ {key line}, lines key = some line → ∀ {j b}, (j, b) ∈ line.members → line.holder ≤ j := by
    intro key line hline j b hj
    rcases List.mem_cons.1 (Line.mem_claimants_of_mem_members hj) with rfl | hin
    · exact Nat.le_refl _
    · exact Nat.le_of_lt ((List.pairwise_cons.1 (hturn key line hline)).1 j hin)
  constructor
  · rintro ⟨l', hpoll⟩
    cases hc : l.claim? i with
    | none => simp [poll, hc] at hpoll
    | some c =>
      cases hwait : c.granted with
      | true => simp [poll, hc, hwait] at hpoll
      | false =>
        obtain ⟨line, hline, hout⟩ := hkeeps.poll hc hwait
        obtain ⟨hin, rfl⟩ := hkeeps.claim?_eq_some_iff.1 hc
        have hawaits : Awaits course c.claimant c.key := (h.stands _ _ false).1 ⟨c.lock, hwait ▸ hin⟩
        have hself := (h.stands_iff_mem hkeeps hline false).1 hawaits
        split at hout
        · next hholder =>
          refine ⟨c.key, hawaits, fun j => ⟨fun hj => ?_, fun hj => ?_⟩⟩
          · -- The head of the line does not know that it holds the key, and the others do not hold it.
            have hmem := (h.stands_iff_mem hkeeps hline true).1 hj
            have hknows := Line.granted_of_mem (hkeeps.ordered c.key line hline) hself
            rw [if_pos hholder] at hknows
            simp [Line.mem_members_iff, ← hknows] at hmem
          · rw [← hholder]
            exact hfirst hline ((h.stands_iff_mem hkeeps hline false).1 hj)
        · rw [hout] at hpoll
          cases hpoll
  · rintro ⟨key, hawaits, hnobody⟩
    obtain ⟨n, hin⟩ := (h.stands i key false).2 hawaits
    obtain ⟨line, hline, hout⟩ := hkeeps.poll (hkeeps.claim?_eq_some_iff.2 ⟨hin, rfl⟩) rfl
    split at hout
    · obtain ⟨l', hpoll, -⟩ := hout
      exact ⟨l', hpoll⟩
    · next hother =>
      have hhead : Stands course line.holder key line.noticed :=
        (h.stands_iff_mem hkeeps hline _).2 (Line.mem_members_iff.2 (.inl ⟨rfl, rfl⟩))
      cases hnoticed : line.noticed with
      | true =>
        rw [hnoticed] at hhead
        exact absurd hhead (hnobody line.holder).1
      | false =>
        rw [hnoticed] at hhead
        have hbefore := hfirst hline ((h.stands_iff_mem hkeeps hline false).1 hawaits)
        exact absurd (Nat.le_antisymm hbefore ((hnobody line.holder).2 hhead)) hother

end Leases

/-- Whatever calls are made to a registry, in whatever order: a key is held by one claimant at most; whether it
is attempted or asked for, it is given at once if and only if nobody holds or awaits it, and a wait for it is
over if and only if nobody holds it and nobody waits who asked for it before; what is held or awaited can be
dropped, and nothing else; a key is reported as active, and has a slot, if and only if somebody holds or awaits
it; and with the last claim the last slot is gone. -/
theorem registry_excludes (calls : List LeaseCall) :
    let out := Leases.run {} 0 calls
    (∀ key i j, Holds out.2 i key → Holds out.2 j key → i = j) ∧
    (∀ key now, (out.1.attempt now key).2 = true ↔ ∀ i, ¬ Holds out.2 i key ∧ ¬ Awaits out.2 i key) ∧
    (∀ key now, (out.1.acquire now key).2 = true ↔ ∀ i, ¬ Holds out.2 i key ∧ ¬ Awaits out.2 i key) ∧
    (∀ i, (∃ l, out.1.poll i = some (l, true)) ↔ ∃ key, Awaits out.2 i key ∧
      ∀ j, ¬ Holds out.2 j key ∧ (Awaits out.2 j key → i ≤ j)) ∧
    (∀ i, (out.1.release i).isSome = true ↔ ∃ key, Holds out.2 i key ∨ Awaits out.2 i key) ∧
    (∀ key, (out.1.check key).2 = true ↔ ∃ i, Holds out.2 i key ∨ Awaits out.2 i key) ∧
    (∀ key, (∃ n, out.1.slots.get? key = some n) ↔ ∃ i, Holds out.2 i key ∨ Awaits out.2 i key) ∧
    ((∀ i key, ¬ Holds out.2 i key ∧ ¬ Awaits out.2 i key) → out.1.slots = []) := by
  intro out
  have h : out.1.Told out.2 := Leases.Told.run calls Leases.told_empty
  obtain ⟨lines, hkeeps, hturn⟩ := h.keeps
  have hclaimed := h.isSome_iff hkeeps
  have hslot : ∀ key, (∃ n, out.1.slots.get? key = some n) ↔ (lines key).isSome = true := by
    intro key
    cases hline : lines key with
    | none => simp [hkeeps.free key hline]
    | some line =>
      obtain ⟨n, hn, -⟩ := hkeeps.taken key line hline
      simp [hn]
  refine ⟨fun key i j hi hj => ?_, fun key now => ?_, fun key now => ?_, h.poll_iff hkeeps hturn,
    h.release_iff hkeeps, fun key => ?_, fun key => ?_, fun hnone => ?_⟩
  · obtain ⟨line, hline, hin⟩ := (h.stands_iff hkeeps true).1 hi
    have hin' := (h.stands_iff_mem hkeeps hline true).1 hj
    -- Those who wait do not know of the lease, so both are the holder.
    have hholder : ∀ {k}, (k, true) ∈ line.members → k = line.holder := fun hk =>
      (Line.mem_members_iff.1 hk).elim And.left fun hwait => absurd hwait.2 (by decide)
    rw [hholder hin, hholder hin']
  · rw [← h.free_iff hkeeps]
    exact hkeeps.attempt_eq_true_iff now key
  · rw [← h.free_iff hkeeps]
    exact hkeeps.acquire_eq_true_iff now key
  · rw [hkeeps.check]
    exact hclaimed key
  · rw [hslot]
    exact hclaimed key
  · cases hslots : out.1.slots with
    | nil => rfl
    | cons e rest =>
      have hfound : ∃ n, out.1.slots.get? e.1 = some n := ⟨e.2, by rw [hslots]; exact if_pos rfl⟩
      obtain ⟨i, hi⟩ := (hclaimed e.1).1 ((hslot e.1).1 hfound)
      exact absurd hi (not_or.2 (hnone i e.1))

end ObjectFlush
