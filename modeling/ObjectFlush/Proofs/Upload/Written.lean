import ObjectFlush.Proofs.Upload.Coexist
import ObjectFlush.Proofs.Upload.Opening

/-!
What the errands of a schedule leave in a local store. Whoever holds the lease of a key has its object to itself,
from the state in which the one before left it (`Schedule.Tended`). So when nobody writes to a key, its object is what
the last one that succeeded has written, or what it was at the start if none has (`Schedule.Explains`).
-/

namespace ObjectFlush

namespace Schedule

section

variable {σ β ε : Type} {s : Schedule σ (Except ε β)} {base i j m : Nat} {key : ObjectKey}

/-- The errand has ended, and well. -/
def Succeeded (s : Schedule σ (Except ε β)) (i : Nat) : Prop :=
  ∃ f written, s.finish? i = some f ∧ f.value = .ok written

theorem succeeded_iff : s.Succeeded i ↔ ((s.finish? i).bind (·.value.toOption)).isSome := by
  simp only [Succeeded, Option.isSome_iff_exists, Option.bind_eq_some_iff]
  constructor
  · rintro ⟨f, written, hf, hok⟩
    exact ⟨written, f, hf, by rw [hok]; rfl⟩
  · rintro ⟨written, f, hf, hok⟩
    refine ⟨f, written, hf, ?_⟩
    cases hvalue : f.value with
    | error e =>
      rw [hvalue] at hok
      cases hok
    | ok written' =>
      rw [hvalue] at hok
      cases hok
      rfl

instance : Decidable (s.Succeeded i) := decidable_of_iff _ succeeded_iff.symm

/-- Of the errands for the key that succeeded, this one has made its calls last. -/
structure WroteLast (base : Nat) (s : Schedule σ (Except ε β)) (key : ObjectKey) (m : Nat) : Prop where
  succeeded : s.Succeeded m
  ofKey : s.key? m = some key
  last : ∀ i, i ≠ m → s.key? i = some key → s.Succeeded i →
    ∀ p q c d, s.Made base i p c → s.Made base m q d → p < q

variable {course course' : Course (Except ε β)} {leases : Leases Nat} {link : Link σ}

/-- An errand that has just succeeded has made its calls last. -/
theorem Orderly.wroteLast (h : s.Orderly base) (hchanges : s.Changes i course course' link)
    {f : Finish (Except ε β)} {written : β} (hf : course'.standing.finish? = some f) (hok : f.value = .ok written) :
    (s.put i leases link course').WroteLast base course.key i := by
  have hc := hchanges.errand
  obtain ⟨-, -, rfl⟩ := hchanges.ends f hf
  have hmade : ∀ {j p c}, (s.put i leases s.link course').Made base j p c ↔ s.Made base j p c := by
    intro j p c
    simp [Made, put]
  refine ⟨⟨f, written, ?_, hok⟩, ?_, fun j hj hkey _ p q c d hp hq => ?_⟩
  · rw [finish?_put hc, if_pos rfl, hf]
  · rw [key?_put hc hchanges.key, key?_of_errand hc]
  · rw [hmade] at hp hq
    rw [key?_put hc hchanges.key, ← key?_of_errand hc] at hkey
    rcases Nat.lt_trichotomy p q with hlt | rfl | hgt
    · exact hlt
    · exact absurd (Option.some.inj (hp.1.symm.trans hq.1)) hj
    · -- A later call of the other would mean that this errand had ended before.
      obtain ⟨⟨f', hf', -⟩, -⟩ := h.apart q p i j d c hgt hq hp (Ne.symm hj) hkey.symm
      rw [hchanges.finish?_eq] at hf'
      cases hf'

/-! ## The object at rest -/

/-- The log explains the object: it is what the last errand that succeeded had to write, or what it was at the
start. -/
def Explains (base : Nat) (key : ObjectKey) (initial : Option StoredObject) (source : Nat → Bytes)
    (s : Schedule σ (Except ε β)) (object : Option StoredObject) : Prop :=
  (object = initial ∧ ∀ i, s.key? i = some key → ¬ s.Succeeded i) ∨
    ∃ m o, s.WroteLast base key m ∧ object = some o ∧ o.data = source m

variable {initial object : Option StoredObject} {source : Nat → Bytes}

/-- What an errand does that does not succeed with this key makes no difference to that. -/
theorem Explains.put (h : s.Explains base key initial source object) (hs : s.Orderly base)
    (hchanges : s.Changes i course course' link)
    (hno : course.key = key → ∀ f written, course'.standing.finish? = some f → f.value ≠ .ok written) :
    (s.put i leases link course').Explains base key initial source object := by
  have hc := hchanges.errand
  have hkey : ∀ j, (s.put i leases link course').key? j = s.key? j := key?_put hc hchanges.key
  have hsucceeded : ∀ {j}, s.key? j = some key →
      ((s.put i leases link course').Succeeded j ↔ s.Succeeded j ∧ i ≠ j) := by
    intro j hj
    by_cases hij : i = j
    · subst hij
      refine ⟨?_, fun hsucc => absurd rfl hsucc.2⟩
      rintro ⟨f, written, hf, hok⟩
      rw [finish?_put hc, if_pos rfl] at hf
      rw [key?_of_errand hc] at hj
      exact absurd hok (hno (Option.some.inj hj) f written hf)
    · simp only [Succeeded, finish?_put hc, hij, if_false, not_false_eq_true, and_true, ne_eq]
  rcases h with ⟨rfl, hnone⟩ | ⟨m, o, hlast, rfl, hdata⟩
  · refine .inl ⟨rfl, fun j hj hsucc => ?_⟩
    rw [hkey] at hj
    exact hnone j hj ((hsucceeded hj).1 hsucc).1
  · -- The errand that moves has not ended yet, so it is not the one that wrote last.
    have hm : i ≠ m := by
      rintro rfl
      obtain ⟨f, written, hf, -⟩ := hlast.succeeded
      rw [hchanges.finish?_eq] at hf
      cases hf
    refine .inr ⟨m, o,
      ⟨(hsucceeded hlast.ofKey).2 ⟨hlast.succeeded, hm⟩, (hkey m).trans hlast.ofKey, ?_⟩, rfl, hdata⟩
    intro j hj hjkey hsucc p q c d hp hq
    rw [hkey] at hjkey
    obtain ⟨hsucc, hij⟩ := (hsucceeded hjkey).1 hsucc
    exact hlast.last j hj hjkey hsucc p q c d ((hs.made_put_iff hc hchanges.touches hij).1 hp)
      ((hs.made_put_iff hc hchanges.touches hm).1 hq)

end

/-! ## Writing in turn -/

section

open LocalEndpoint

variable {ε : Type} {base : Nat} {key : ObjectKey} {initial : Option StoredObject} {source : Nat → Bytes}
  {New : Nat → Option StoredObject → Bytes → Prop}
  {s s' : Schedule LocalEndpoint (Except ε ObjectSummary)} {i j : Nat}

/-- Each errand finds the object of its key as the one before has left it, and makes of it what `New` allows. -/
structure Tended (base : Nat) (key : ObjectKey) (initial : Option StoredObject) (source : Nat → Bytes)
    (New : Nat → Option StoredObject → Bytes → Prop)
    (s : Schedule LocalEndpoint (Except ε ObjectSummary)) : Prop where
  fresh : s.link.endpoint.Fresh
  waits : ∀ i (course : Course (Except ε ObjectSummary)), s.errands[i]? = some course →
    course.standing.claim? ≠ some true →
    course.standing.finish? = none → ∀ old, Dialogue.Assures (exclusive course.key) (Untouched course.key old)
      course.standing.left (Writes course.key old (New i old))
  goes : ∀ i (course : Course (Except ε ObjectSummary)), s.errands[i]? = some course →
    course.standing.claim? = some true →
    ∃ old, (course.key = key → s.Explains base key initial source old) ∧
      course.standing.left.Upholds (exclusive course.key) (Writes course.key old (New i old)) s.link.endpoint
  rests : (∀ i, s.claim i ≠ some (key, true)) →
    s.Explains base key initial source (s.link.endpoint.bucket.objects.get? key)

variable {course course' : Course (Except ε ObjectSummary)} {leases : Leases Nat} {link : Link LocalEndpoint}

theorem Orderly.exclusive {c c' : Course (Except ε ObjectSummary)} (h : s.Orderly base) (hi : s.errands[i]? = some c)
    (hj : s.errands[j]? = some c') (hci : c.standing.claim? = some true) (hcj : c'.standing.claim? = some true)
    (hkey : c.key = c'.key) : i = j := by
  obtain ⟨lines, hseated⟩ := h.seated
  exact hseated.exclusive (claim_eq_some_iff.2 ⟨c, hi, hkey, hci⟩) (claim_eq_some_iff.2 ⟨c', hj, rfl, hcj⟩)

/-- A step leaves the endpoint alone, or its errand holds the lease and keeps to the key. -/
def Abides (s : Schedule LocalEndpoint (Except ε ObjectSummary)) (course : Course (Except ε ObjectSummary))
    (link : Link LocalEndpoint) : Prop :=
  link.endpoint = s.link.endpoint ∨
    course.standing.claim? = some true ∧ (exclusive course.key).guar s.link.endpoint link.endpoint

theorem Abides.fresh (h : s.Abides course link) (hfresh : s.link.endpoint.Fresh) : link.endpoint.Fresh := by
  rcases h with heq | ⟨-, hguar⟩
  · exact heq ▸ hfresh
  · exact (hguar hfresh).1

/-- Others may rely on it for their keys. -/
theorem Abides.rely (h : s.Abides course link) {other : ObjectKey}
    (hother : course.standing.claim? = some true → other ≠ course.key) :
    (exclusive other).rely s.link.endpoint link.endpoint := by
  rcases h with heq | ⟨hholds, hguar⟩
  · rw [heq]
    exact (exclusive other).rely_refl _
  · exact rely_of_guar hguar (hother hholds)

/-- Unless the errand has just ended with this key, the object is explained as before. -/
theorem Explains.put_unfinished {object : Option StoredObject} (h : s.Explains base key initial source object)
    (hs : s.Orderly base) (hchanges : s.Changes i course course' link)
    (hno : course.key = key → course'.standing.finish? = none) :
    (s.put i leases link course').Explains base key initial source object := by
  refine h.put hs hchanges fun hkey f written hf => ?_
  rw [hno hkey] at hf
  cases hf

/-- The others find their objects as they were. -/
theorem Tended.goes_put (h : s.Tended base key initial source New) (hs : s.Orderly base)
    (hchanges : s.Changes i course course' link) (hworld : s.Abides course link) (hij : i ≠ j)
    {c : Course (Except ε ObjectSummary)} (hj : s.errands[j]? = some c) (hclaim : c.standing.claim? = some true) :
    ∃ old, (c.key = key → (s.put i leases link course').Explains base key initial source old) ∧
      c.standing.left.Upholds (exclusive c.key) (Writes c.key old (New j old)) link.endpoint := by
  obtain ⟨old, hold, hleft⟩ := h.goes j c hj hclaim
  have hother : course.standing.claim? = some true → c.key ≠ course.key := fun hi hkey =>
    hij (hs.exclusive hchanges.errand hj hi hclaim hkey.symm)
  refine ⟨old, fun hkey => (hold hkey).put_unfinished hs hchanges fun hkey' => ?_, hleft.rely (hworld.rely hother)⟩
  rw [Option.eq_none_iff_forall_ne_some]
  intro f hf
  -- An errand that ends with the key held it just now.
  exact hother (by rw [(hchanges.ends f hf).1]; rfl) (hkey.trans hkey'.symm)

/-- When nobody writes to the key, the object is as it was explained before. -/
theorem Tended.rests_put (h : s.Tended base key initial source New) (hs : s.Orderly base)
    (hchanges : s.Changes i course course' link) (hworld : s.Abides course link)
    (hno : course.key = key → course'.standing.finish? = none)
    (hfree : ∀ j, (s.put i leases link course').claim j ≠ some (key, true)) :
    (s.put i leases link course').Explains base key initial source (link.endpoint.bucket.objects.get? key) := by
  have hc := hchanges.errand
  have hother : course.standing.claim? = some true → key ≠ course.key := by
    rintro hi rfl
    rcases hchanges.begun hi with hclaim | ⟨f, hf⟩
    · exact hfree i (claim_eq_some_iff.2 ⟨course', errands_put_self hc, hchanges.key, hclaim⟩)
    · rw [hno rfl] at hf
      cases hf
  -- Nobody held the key before the step either: the others stand as they stood.
  have hbefore : ∀ j, s.claim j ≠ some (key, true) := by
    intro j hclaim
    obtain ⟨c, hj, hkey, hclaim⟩ := claim_eq_some_iff.1 hclaim
    by_cases hij : i = j
    · subst hij
      obtain rfl := Option.some.inj (hc.symm.trans hj)
      exact hother hclaim hkey.symm
    · refine hfree j (claim_eq_some_iff.2 ⟨c, ?_, hkey, hclaim⟩)
      rw [errands_put hc, if_neg hij]
      exact hj
  rw [(hworld.rely hother h.fresh).2.object]
  exact (h.rests hbefore).put_unfinished hs hchanges hno

/-- One step of an errand, by what it does to the endpoint, and what the errand comes to. -/
theorem Tended.put (h : s.Tended base key initial source New) (hs : s.Orderly base)
    (hchanges : s.Changes i course course' link) (hworld : s.Abides course link)
    (hwaits : course'.standing.claim? ≠ some true → course'.standing.finish? = none → ∀ old,
      Dialogue.Assures (exclusive course'.key) (Untouched course'.key old) course'.standing.left
        (Writes course'.key old (New i old)))
    (hgoes : course'.standing.claim? = some true → ∃ old,
      (course'.key = key → s.Explains base key initial source old) ∧
        course'.standing.left.Upholds (exclusive course'.key) (Writes course'.key old (New i old)) link.endpoint)
    (hends : course.key = key → ∀ f, course'.standing.finish? = some f →
      (s.put i leases link course').Explains base key initial source (link.endpoint.bucket.objects.get? key)) :
    (s.put i leases link course').Tended base key initial source New := by
  have hc := hchanges.errand
  refine ⟨hworld.fresh h.fresh, fun j c hj => ?_, fun j c hj hclaim => ?_, fun hfree => ?_⟩
  · rw [errands_put hc] at hj
    split at hj
    · next heq =>
      subst heq
      cases hj
      exact hwaits
    · exact h.waits j c hj
  · rw [errands_put hc] at hj
    split at hj
    · next heq =>
      subst heq
      cases hj
      obtain ⟨old, hold, hleft⟩ := hgoes hclaim
      exact ⟨old, fun hkey => (hold hkey).put_unfinished hs hchanges fun _ =>
        Standing.finish?_of_claim hclaim, hleft⟩
    · next hne => exact h.goes_put hs hchanges hworld hne hj hclaim
  · by_cases hend : course.key = key ∧ ∃ f, course'.standing.finish? = some f
    · obtain ⟨hkey, f, hf⟩ := hend
      exact hends hkey f hf
    · refine h.rests_put hs hchanges hworld (fun hkey => ?_) hfree
      rw [Option.eq_none_iff_forall_ne_some]
      exact fun f hf => hend ⟨hkey, f, hf⟩

/-- An errand that is given its lease finds the object as the log explains it. -/
theorem Tended.begin (h : s.Tended base key initial source New) (hs : s.Orderly base) {k : ObjectKey}
    {alarm : Option Alarm} {d : Dialogue (Except ε ObjectSummary)} (hc : s.errands[i]? = some course)
    (hkey : course.key = k) (hleft : course.standing.left = d) (hclaim : course.standing.claim? ≠ some true)
    (hunfinished : course.standing.finish? = none)
    (hstep : Step i s (s.put i leases s.link ⟨k, alarm, .pausing s.link.now d⟩)) :
    (s.put i leases s.link ⟨k, alarm, .pausing s.link.now d⟩).Tended base key initial source New := by
  subst hkey hleft
  -- Nobody else has the lease, for this errand has it now.
  have hfree : course.key = key → ∀ j, s.claim j ≠ some (key, true) := by
    rintro hkey j hj
    obtain ⟨c, hj, hckey, hcclaim⟩ := claim_eq_some_iff.1 hj
    have hij : i ≠ j := by
      rintro rfl
      obtain rfl := Option.some.inj (hc.symm.trans hj)
      exact hclaim hcclaim
    refine hij ((hs.step hstep).exclusive (errands_put_self hc) ?_ rfl hcclaim (hkey.trans hckey.symm))
    rw [errands_put hc, if_neg hij]
    exact hj
  have hchanges := hstep.changes_put hs.sound hc
  refine h.put hs hchanges (.inl rfl) (fun hnot => absurd rfl hnot) (fun _ => ?_) nofun
  refine ⟨s.link.endpoint.bucket.objects.get? course.key, fun hkey => ?_, ?_⟩
  · show s.Explains base key initial source (s.link.endpoint.bucket.objects.get? course.key)
    rw [hkey]
    exact h.rests (hfree hkey)
  · exact h.waits i course hc hclaim hunfinished _ _ ⟨h.fresh, rfl⟩

theorem Tended.step (h : s.Tended base key initial source New) (hs : s.Orderly base)
    (hsource : ∀ i, s.key? i = some key → ∀ old data, New i old data → data = source i) (hstep : Step i s s') :
    s'.Tended base key initial source New := by
  have hstep' := id hstep
  cases hstep with
  | join errand refused =>
    have hwaits := h.waits i _ errand
    exact h.put hs (hstep'.changes_put hs.sound errand) (.inl rfl) (fun _ _ => hwaits nofun rfl) nofun nofun
  | grant errand given => exact h.begin hs errand rfl rfl nofun rfl hstep'
  | notice errand handed => exact h.begin hs errand rfl rfl nofun rfl hstep'
  | go errand holds =>
    obtain ⟨old, hold, hleft⟩ := h.goes i _ errand holds
    obtain ⟨hguar, hleft'⟩ := Standing.upholds_proceed hleft
    have hclaim := Standing.claim?_proceed holds s.link
    refine h.put hs (hstep'.changes_put hs.sound errand) (.inr ⟨holds, hguar⟩) (fun hnot => absurd hclaim hnot)
      (fun _ => ⟨old, hold, hleft'⟩) fun _ f hf => ?_
    rw [Standing.finish?_of_claim hclaim] at hf
    cases hf
  | ring errand unfinished =>
    have hwaits := h.waits i _ errand
    have hgoes := h.goes i _ errand
    refine h.put hs (hstep'.changes_put hs.sound errand) (.inl rfl) hwaits hgoes fun _ f hf => ?_
    rw [unfinished] at hf
    cases hf
  | @leave k alarm value leases contended errand left =>
    have hchanges := hstep'.changes_put hs.sound errand
    refine h.put hs hchanges (.inl rfl) (fun _ => nofun) nofun ?_
    rintro rfl f hf
    cases hf
    obtain ⟨old, hold, hleft⟩ := h.goes i _ errand rfl
    have hpost := hleft _ ((exclusive k).rely_refl _)
    cases value with
    | error e =>
      -- Nothing was written: the object is as the errand found it.
      obtain ⟨-, hobject⟩ := hpost
      rw [hobject]
      refine (hold rfl).put hs hchanges fun _ f written hf => ?_
      cases hf
      exact nofun
    | ok written =>
      obtain ⟨-, o, ho, hnew⟩ := hpost
      refine .inr ⟨i, o, hs.wroteLast hchanges rfl rfl, ho, hsource i ?_ old o.data hnew⟩
      exact key?_of_errand errand

theorem Tended.await (h : s.Tended base key initial source New) (due : Nat) :
    (s.await due).Tended base key initial source New := by
  have hendpoint : (s.await due).link.endpoint = s.link.endpoint := s.link.endpoint_passTo due
  have hexplains : ∀ {object}, s.Explains base key initial source object →
      (s.await due).Explains base key initial source object := by
    intro object hobject
    refine hobject.imp_right fun ⟨m, o, hlast, hrest⟩ => ⟨m, o, ⟨hlast.succeeded, hlast.ofKey, ?_⟩, hrest⟩
    intro j hj hkey hsucc p q c d hp hq
    exact hlast.last j hj hkey hsucc p q c d ((made_await due).1 hp) ((made_await due).1 hq)
  refine ⟨hendpoint ▸ h.fresh, h.waits, fun i course hc hclaim => ?_, fun hfree => ?_⟩
  · obtain ⟨old, hold, hleft⟩ := h.goes i course hc hclaim
    exact ⟨old, fun hkey => hexplains (hold hkey), hendpoint ▸ hleft⟩
  · rw [hendpoint]
    exact hexplains (h.rests hfree)

theorem tended_start (l : Link LocalEndpoint) (hfresh : l.endpoint.Fresh)
    {errands : List (Errand (Except ε ObjectSummary))} (key : ObjectKey) (source : Nat → Bytes)
    (hnew : ∀ i e, errands[i]? = some e → ∀ old,
      Dialogue.Assures (exclusive e.key) (Untouched e.key old) e.dialogue (Writes e.key old (New i old))) :
    (start l errands).Tended l.calls.length key (l.endpoint.bucket.objects.get? key) source New := by
  refine ⟨hfresh, fun i course hc _ _ => ?_, fun i course hc hclaim => ?_, fun _ =>
    .inl ⟨rfl, fun i _ hsucc => ?_⟩⟩
  · obtain ⟨e, he, rfl⟩ := getElem?_start hc
    exact hnew i e he
  · obtain ⟨e, he, rfl⟩ := getElem?_start hc
    cases hclaim
  · obtain ⟨f, written, hf, -⟩ := hsucc
    rw [finish?_start] at hf
    cases hf

end

end Schedule

end ObjectFlush
