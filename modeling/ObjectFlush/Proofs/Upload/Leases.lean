import Mathlib.Data.List.Nodup
import Mathlib.Logic.Function.Basic
import ObjectFlush.Upload.Leases

/-!
What the leases come to, key by key: one claimant holds the key, and the others wait in line
(`Line`). `Leases.Keeps` says that slots, locks, counts of references and claims are those of some lines
and of nothing else. Each operation is evaluated once, down to the references that it leaves, and then
said to do to the line of its key what it should.
-/

namespace ObjectFlush

/-- Who has a claim on a key: who holds it, whether the holder knows, and who waits, first come first. -/
structure Line (ι : Type) where
  holder : ι
  noticed : Bool
  waiting : List ι

namespace Line

variable {ι : Type}

/-- The line of a key that was free. -/
def begun (i : ι) : Line ι := ⟨i, true, []⟩

def join (s : Line ι) (i : ι) : Line ι := { s with waiting := s.waiting ++ [i] }

/-- The line of a key after somebody has asked for it. -/
def entered (s : Option (Line ι)) (i : ι) : Line ι :=
  match s with
  | none => begun i
  | some s => s.join i

def notice (s : Line ι) : Line ι := { s with noticed := true }

/-- The claimants, and whether they know that they hold the key. -/
def members (s : Line ι) : List (ι × Bool) := (s.holder, s.noticed) :: s.waiting.map (·, false)

/-- How many references the claim of the holder is. -/
def ownReferences (s : Line ι) : Nat := if s.noticed then 1 else 2

/-- The lock of the key. -/
def lock (s : Line ι) : Lock ι := ⟨some s.holder, s.waiting, 1 + s.ownReferences + 2 * s.waiting.length⟩

/-- Everybody in the line. -/
def claimants (s : Line ι) : List ι := s.holder :: s.waiting

variable {s s' : Line ι} {i j : ι} {granted : Bool}

theorem mem_members_iff :
    (i, granted) ∈ s.members ↔ (i = s.holder ∧ granted = s.noticed) ∨
      (i ∈ s.waiting ∧ granted = false) := by
  simp [members, eq_comm]

theorem mem_claimants_of_mem_members (h : (i, granted) ∈ s.members) : i ∈ s.claimants := by
  rcases mem_members_iff.1 h with ⟨rfl, -⟩ | ⟨hin, -⟩
  · exact List.mem_cons_self ..
  · exact List.mem_cons_of_mem _ hin

theorem exists_mem_members (h : i ∈ s.claimants) : ∃ granted, (i, granted) ∈ s.members := by
  rcases List.mem_cons.1 h with rfl | hin
  · exact ⟨_, mem_members_iff.2 (.inl ⟨rfl, rfl⟩)⟩
  · exact ⟨_, mem_members_iff.2 (.inr ⟨hin, rfl⟩)⟩

theorem mem_members_join_iff :
    (j, granted) ∈ (s.join i).members ↔ (j, granted) ∈ s.members ∨ (j, granted) = (i, false) := by
  simp [members, join, or_assoc]

theorem claimants_join : (s.join i).claimants = s.claimants ++ [i] := rfl

theorem two_le_references (s : Line ι) : 2 ≤ s.lock.references := by
  simp only [lock, ownReferences]
  split <;> omega

theorem lock_join : (s.join i).lock =
    { s.lock with waiting := s.waiting ++ [i], references := s.lock.references + 2 } := by
  obtain ⟨holder, noticed, waiting⟩ := s
  cases noticed <;> simp [lock, ownReferences, join, Nat.mul_add, Nat.add_assoc]

theorem lock_notice (h : s.noticed = false) :
    s.notice.lock = { s.lock with references := s.lock.references - 1 } := by
  simp [lock, ownReferences, notice, h]

variable [DecidableEq ι]

/-- The line without a claimant, if anybody is left. -/
def without (s : Line ι) (i : ι) : Option (Line ι) :=
  if s.holder = i then
    match s.waiting with
    | [] => none
    | next :: rest => some ⟨next, false, rest⟩
  else some { s with waiting := s.waiting.erase i }

/-- Who knows that it holds the key, or waits for it, in a line in which nobody stands twice. -/
theorem granted_of_mem (hs : s.claimants.Nodup) (h : (i, granted) ∈ s.members) :
    if s.holder = i then granted = s.noticed else granted = false ∧ i ∈ s.waiting := by
  rcases mem_members_iff.1 h with ⟨rfl, hgranted⟩ | ⟨hin, hgranted⟩
  · rwa [if_pos rfl]
  · have hne : s.holder ≠ i := fun heq => (List.nodup_cons.1 hs).1 (heq ▸ hin)
    rw [if_neg hne]
    exact ⟨hgranted, hin⟩

omit [DecidableEq ι] in
theorem mem_members_notice_iff (hs : s.claimants.Nodup) :
    (j, granted) ∈ s.notice.members ↔
      (j, granted) = (s.holder, true) ∨ ((j, granted) ∈ s.members ∧ j ≠ s.holder) := by
  have hholder := (List.nodup_cons.1 hs).1
  simp only [mem_members_iff, notice, Prod.mk.injEq]
  constructor
  · rintro (hfirst | ⟨hin, rfl⟩)
    · exact .inl hfirst
    · exact .inr ⟨.inr ⟨hin, rfl⟩, fun heq => hholder (heq ▸ hin)⟩
  · rintro (hfirst | ⟨⟨rfl, -⟩ | hin, hne⟩)
    · exact .inl hfirst
    · exact absurd rfl hne
    · exact .inr hin

/-- Whoever leaves is the only one who does. -/
theorem mem_members_without (hs : s.claimants.Nodup) (h : s.without i = some s') :
    (j, granted) ∈ s'.members ↔ (j, granted) ∈ s.members ∧ j ≠ i := by
  obtain ⟨holder, noticed, waiting⟩ := s
  obtain ⟨hholder, hwaiting⟩ := List.nodup_cons.1 hs
  unfold without at h
  split at h
  · next heq =>
    dsimp only at heq hholder
    subst heq
    cases waiting with
    | nil => cases h
    | cons next rest =>
      cases h
      simp only [mem_members_iff, List.mem_cons] at hholder ⊢
      constructor
      · rintro (⟨rfl, rfl⟩ | ⟨hin, rfl⟩)
        · exact ⟨.inr ⟨.inl rfl, rfl⟩, fun heq => hholder (.inl heq.symm)⟩
        · exact ⟨.inr ⟨.inr hin, rfl⟩, fun heq => hholder (.inr (heq ▸ hin))⟩
      · rintro ⟨⟨rfl, -⟩ | ⟨rfl | hin, rfl⟩, hne⟩
        · exact absurd rfl hne
        · exact .inl ⟨rfl, rfl⟩
        · exact .inr ⟨hin, rfl⟩
  · next hne =>
    cases h
    dsimp only at hne hwaiting
    simp only [mem_members_iff, hwaiting.mem_erase_iff]
    constructor
    · rintro (⟨rfl, rfl⟩ | ⟨⟨hji, hin⟩, rfl⟩)
      · exact ⟨.inl ⟨rfl, rfl⟩, hne⟩
      · exact ⟨.inr ⟨hin, rfl⟩, hji⟩
    · rintro ⟨⟨rfl, rfl⟩ | ⟨hin, rfl⟩, hji⟩
      · exact .inl ⟨rfl, rfl⟩
      · exact .inr ⟨⟨hji, hin⟩, rfl⟩

/-- Whoever is left stands in the same order as before. -/
theorem claimants_without (h : s.without i = some s') : s'.claimants.Sublist s.claimants := by
  unfold without at h
  split at h
  · cases hw : s.waiting with
    | nil => rw [hw] at h; cases h
    | cons next rest =>
      rw [hw] at h
      cases h
      rw [claimants, claimants, hw]
      exact List.sublist_cons_self _ _
  · cases h
    exact List.erase_sublist.cons_cons _

theorem eq_of_without_eq_none (h : s.without i = none) : s = ⟨i, s.noticed, []⟩ := by
  obtain ⟨holder, noticed, waiting⟩ := s
  unfold without at h
  split at h
  · next heq =>
    dsimp only at heq
    cases waiting with
    | nil => rw [heq]
    | cons next rest => cases h
  · cases h

/-- The lock is passed on to the next, or the wait is given up. -/
theorem lock_without (hs : s.claimants.Nodup) (hi : (i, granted) ∈ s.members) (h : s.without i = some s') :
    s'.lock = { s.lock.leave i with
      references := s.lock.references - if granted then 1 else 2 } := by
  have hgranted := granted_of_mem hs hi
  obtain ⟨holder, noticed, waiting⟩ := s
  unfold without at h
  split at h
  · next heq =>
    dsimp only at heq
    subst heq
    rw [if_pos rfl] at hgranted
    subst hgranted
    cases waiting with
    | nil => cases h
    | cons next rest =>
      cases h
      simp only [lock, ownReferences, Lock.leave, if_true, Lock.pass, List.head?_cons, List.tail_cons,
        List.length_cons, Lock.mk.injEq, true_and, Bool.false_eq_true, if_false]
      split <;> omega
  · next hne =>
    cases h
    dsimp only at hne
    rw [if_neg hne] at hgranted
    obtain ⟨rfl, hin⟩ := hgranted
    dsimp only at hin
    have hlength := List.length_erase_of_mem hin
    have hpos := List.length_pos_of_mem hin
    simp only [lock, ownReferences, Lock.leave, Option.some.injEq, hne, if_false, Lock.mk.injEq, true_and,
      Bool.false_eq_true, hlength]
    split <;> omega

end Line

theorem Table.erase_erase {α β : Type} [DecidableEq α] (a : α) (t : Table α β) :
    (t.erase a).erase a = t.erase a := by
  simp [Table.erase, List.filter_filter]

theorem Table.erase_set {α β : Type} [DecidableEq α] (a : α) (b : β) (t : Table α β) :
    (t.set a b).erase a = t.erase a := by
  rw [Table.set, Table.erase, List.filter_cons_of_neg (by simp)]
  exact Table.erase_erase a t

theorem Table.set_set {α β : Type} [DecidableEq α] (a : α) (b c : β) (t : Table α β) :
    (t.set a b).set a c = t.set a c := by
  rw [Table.set, Table.erase_set, Table.set]

theorem Claim.eq_iff {ι : Type} {c : Claim ι} {i : ι} {key : ObjectKey} {n : Nat} {granted : Bool} :
    c = ⟨i, key, n, granted⟩ ↔ c.key = key ∧ c.lock = n ∧ (c.claimant, c.granted) = (i, granted) := by
  constructor
  · rintro rfl
    exact ⟨rfl, rfl, rfl⟩
  · obtain ⟨i', key', n', granted'⟩ := c
    rintro ⟨rfl, rfl, heq⟩
    cases heq
    rfl

namespace Leases

variable {ι : Type} {l : Leases ι} {i : ι} {key : ObjectKey} {n : Nat} {k : Lock ι} {c : Claim ι}
  {lines : ObjectKey → Option (Line ι)}

/-! ## Lines -/

/-- The slots, the locks and the claims are those of the lines. -/
structure Keeps (l : Leases ι) (lines : ObjectKey → Option (Line ι)) : Prop where
  free : ∀ key, lines key = none → l.slots.get? key = none
  taken : ∀ key line, lines key = some line → ∃ n, l.slots.get? key = some n ∧ n < l.made ∧
    l.locks.get? n = some line.lock
  apart : ∀ key key' n, l.slots.get? key = some n → l.slots.get? key' = some n → key = key'
  mem_claims : ∀ c, c ∈ l.claims ↔ ∃ line, lines c.key = some line ∧ l.slots.get? c.key = some c.lock ∧
    (c.claimant, c.granted) ∈ line.members
  distinct : (l.claims.map (·.claimant)).Nodup
  ordered : ∀ key line, lines key = some line → line.claimants.Nodup

theorem keeps_empty : ({} : Leases ι).Keeps fun _ => none :=
  ⟨fun _ _ => rfl, nofun, nofun, fun c => by simp, List.nodup_nil, nofun⟩

namespace Keeps

theorem slot_lt (h : l.Keeps lines) (hslot : l.slots.get? key = some n) : n < l.made := by
  cases hline : lines key with
  | none =>
    rw [h.free key hline] at hslot
    cases hslot
  | some line =>
    obtain ⟨m, hm, hlt, -⟩ := h.taken key line hline
    rw [hm] at hslot
    cases hslot
    exact hlt

/-- The line of one key changes, and with it what stands for the key. -/
theorem replace (h : l.Keeps lines) {l' : Leases ι} (line : Line ι)
    (hslots : ∀ x, l'.slots.get? x = if x = key then some n else l.slots.get? x)
    (hown : ∀ x, l.slots.get? x = some n → x = key) (hbound : n < l'.made) (hmade : l.made ≤ l'.made)
    (hlocks : ∀ m, l'.locks.get? m = if m = n then some line.lock else l.locks.get? m)
    (hclaims : ∀ c, c ∈ l'.claims ↔ if c.key = key then c.lock = n ∧ (c.claimant, c.granted) ∈ line.members
      else c ∈ l.claims)
    (hdistinct : (l'.claims.map (·.claimant)).Nodup) (hordered : line.claimants.Nodup) :
    l'.Keeps (Function.update lines key (some line)) := by
  refine ⟨fun x hx => ?_, fun x line' hx => ?_, fun x x' m hx hx' => ?_, fun c => ?_, hdistinct,
    fun x line' hx => ?_⟩
  · rw [Function.update_apply] at hx
    split at hx
    · cases hx
    · next hne => rw [hslots, if_neg hne, h.free x hx]
  · rw [Function.update_apply] at hx
    split at hx
    · next heq =>
      cases hx
      exact ⟨n, by rw [hslots, if_pos heq], hbound, by rw [hlocks, if_pos rfl]⟩
    · next hne =>
      obtain ⟨m, hm, hlt, hlock⟩ := h.taken x line' hx
      have hmn : m ≠ n := fun heq => hne (hown x (heq ▸ hm))
      exact ⟨m, by rw [hslots, if_neg hne, hm], by omega, by rw [hlocks, if_neg hmn, hlock]⟩
  · rw [hslots] at hx hx'
    split at hx <;> split at hx'
    · next heq heq' => rw [heq, heq']
    · next heq hne =>
      cases hx
      exact absurd (hown x' hx') hne
    · next hne heq =>
      cases hx'
      exact absurd (hown x hx) hne
    · exact h.apart x x' m hx hx'
  · rw [hclaims, hslots, Function.update_apply]
    split
    · simp [eq_comm]
    · exact h.mem_claims c
  · rw [Function.update_apply] at hx
    split at hx
    · cases hx
      exact hordered
    · exact h.ordered x line' hx

/-- The line of one key ends, and nothing is left of it. -/
theorem remove (h : l.Keeps lines) {l' : Leases ι} (hslot : l.slots.get? key = some n)
    (hslots : l'.slots = l.slots.erase key) (hmade : l'.made = l.made) (hlocks : l'.locks = l.locks.erase n)
    (hclaims : ∀ c, c ∈ l'.claims ↔ c.key ≠ key ∧ c ∈ l.claims)
    (hdistinct : (l'.claims.map (·.claimant)).Nodup) :
    l'.Keeps (Function.update lines key none) := by
  have hget : ∀ x, l'.slots.get? x = if x = key then none else l.slots.get? x := fun x => by
    rw [hslots, Table.get?_erase]
  refine ⟨fun x hx => ?_, fun x line hx => ?_, fun x x' m hx hx' => ?_, fun c => ?_, hdistinct,
    fun x line hx => ?_⟩
  · rw [hget]
    split
    · rfl
    · next hne =>
      rw [Function.update_of_ne hne] at hx
      exact h.free x hx
  · rw [Function.update_apply] at hx
    split at hx
    · cases hx
    · next hne =>
      obtain ⟨m, hm, hlt, hlock⟩ := h.taken x line hx
      have hmn : m ≠ n := fun heq => hne (h.apart x key n (heq ▸ hm) hslot)
      exact ⟨m, by rw [hget, if_neg hne, hm], by rw [hmade]; exact hlt, by
        rw [hlocks, Table.get?_erase, if_neg hmn, hlock]⟩
  · rw [hget] at hx hx'
    split at hx
    · cases hx
    · split at hx'
      · cases hx'
      · exact h.apart x x' m hx hx'
  · rw [hclaims, hget, Function.update_apply]
    split
    · next heq => simp [heq]
    · next hne => simp [hne, h.mem_claims c]
  · rw [Function.update_apply] at hx
    split at hx
    · cases hx
    · exact h.ordered x line hx

/-- The claims on a key are those of its line. -/
theorem mem_claims_iff (h : l.Keeps lines) {line : Line ι} (hline : lines key = some line)
    (hslot : l.slots.get? key = some n) (hc : c.key = key) :
    c ∈ l.claims ↔ c.lock = n ∧ (c.claimant, c.granted) ∈ line.members := by
  rw [h.mem_claims, hc, hline, hslot]
  simp [eq_comm]

/-- Claims of one claimant are one claim. -/
theorem claim_unique (h : l.Keeps lines) {c c' : Claim ι} (hc : c ∈ l.claims) (hc' : c' ∈ l.claims)
    (hsame : c.claimant = c'.claimant) : c = c' :=
  List.inj_on_of_nodup_map h.distinct hc hc' hsame

end Keeps

/-! ## The operations, evaluated -/

theorem acquire_free (i : ι) (h : l.slots.get? key = none) : l.acquire i key =
    ({ slots := l.slots.set key l.made, locks := l.locks.set l.made ⟨some i, [], 2⟩, made := l.made + 1,
       claims := ⟨i, key, l.made, true⟩ :: l.claims }, true) := by
  simp [acquire, slot, h, retain, setLock, Lock.retain, Table.get?_set, Table.set_set, Lock.enter,
    Lock.tryEnter, letGo, prune, references]

theorem attempt_free (i : ι) (h : l.slots.get? key = none) : l.attempt i key = l.acquire i key := by
  rw [acquire_free i h]
  simp [attempt, slot, h, retain, setLock, Lock.retain, Table.get?_set, Table.set_set, Lock.tryEnter,
    letGo, prune, references]

theorem acquire_taken (i : ι) {o : ι} (h : l.slots.get? key = some n) (hk : l.locks.get? n = some k)
    (ho : k.owner = some o) : l.acquire i key =
    ({ l with
       locks := l.locks.set n { k with waiting := k.waiting ++ [i], references := k.references + 2 }
       claims := ⟨i, key, n, false⟩ :: l.claims }, false) := by
  simp [acquire, slot, h, hk, ho, retain, setLock, Lock.retain, Table.get?_set, Table.set_set, Lock.enter,
    Lock.tryEnter]

theorem attempt_taken (i : ι) {o : ι} (h : l.slots.get? key = some n) (hk : l.locks.get? n = some k)
    (ho : k.owner = some o) (hr : 2 ≤ k.references) :
    l.attempt i key = ({ l with locks := l.locks.set n k }, false) := by
  obtain ⟨owner, waiting, r⟩ := k
  dsimp only at ho hr
  subst ho
  have hne : r ≠ 1 := by omega
  have hpos : r ≠ 0 := by omega
  simp [attempt, slot, h, hk, retain, setLock, Lock.retain, Table.get?_set, Table.set_set,
    Lock.tryEnter, letGo, prune, references, hne, hpos]

theorem check_taken (h : l.slots.get? key = some n) (hk : l.locks.get? n = some k)
    (hr : 2 ≤ k.references) : l.check key = (l, true) := by
  have hlt : 1 < k.references := hr
  simp [check, h, references, hk, hlt]

theorem check_free (h : l.slots.get? key = none) : l.check key = (l, false) := by
  simp [check, h]

variable [DecidableEq ι]

theorem poll_granted (hc : l.claim? i = some c) (hwait : c.granted = false)
    (h : l.slots.get? c.key = some c.lock) (hk : l.locks.get? c.lock = some k) (ho : k.owner = some i)
    (hr : 3 ≤ k.references) : l.poll i = some
    ({ l with
       locks := l.locks.set c.lock { k with references := k.references - 1 }
       claims := { c with granted := true } :: l.others i }, true) := by
  have hne : k.references - 1 ≠ 1 := by omega
  have hlt : ¬ k.references ≤ 1 := by omega
  simp [poll, hc, hwait, hk, ho, h, letGo, setLock, prune, references, Table.get?_set, hne, hlt]

theorem poll_waiting (hc : l.claim? i = some c) (hwait : c.granted = false)
    (hk : l.locks.get? c.lock = some k) (ho : k.owner ≠ some i) : l.poll i = some (l, false) := by
  simp [poll, hc, hwait, hk, ho]

/-- How many references a claim is. -/
def ownReferences (c : Claim ι) : Nat := if c.granted then 1 else 2

theorem release_last (hc : l.claim? i = some c) (h : l.slots.get? c.key = some c.lock)
    (hk : l.locks.get? c.lock = some k) (hr : k.references = ownReferences c + 1) : l.release i = some
    { l with
      slots := l.slots.erase c.key
      locks := l.locks.erase c.lock
      claims := l.others i } := by
  have hleave : (k.leave i).references = k.references := by
    unfold Lock.leave
    split <;> rfl
  cases hg : c.granted with
  | true =>
    have hr' : k.references = 2 := by rw [hr, ownReferences, hg]; rfl
    simp [release, hc, hk, h, hg, setLock, letGo, prune, references, Table.get?_set, Table.erase_set, hleave,
      hr']
  | false =>
    have hr' : k.references = 3 := by rw [hr, ownReferences, hg]; rfl
    simp [release, hc, hk, h, hg, setLock, letGo, prune, references, Table.get?_set, Table.erase_set, hleave,
      hr', Table.set_set]

theorem release_more (hc : l.claim? i = some c) (h : l.slots.get? c.key = some c.lock)
    (hk : l.locks.get? c.lock = some k) (hr : ownReferences c + 2 ≤ k.references) : l.release i = some
    { l with
      locks := l.locks.set c.lock { k.leave i with references := k.references - ownReferences c }
      claims := l.others i } := by
  have hleave : (k.leave i).references = k.references := by
    unfold Lock.leave
    split <;> rfl
  cases hg : c.granted with
  | true =>
    simp only [ownReferences, hg, if_true] at hr ⊢
    have hlt : ¬ k.references ≤ 1 := by omega
    have hne : k.references - 1 ≠ 1 := by omega
    simp [release, hc, hk, h, hg, setLock, letGo, prune, references, Table.get?_set, Table.set_set, hleave,
      hlt, hne]
  | false =>
    simp only [ownReferences, hg, Bool.false_eq_true, if_false] at hr ⊢
    have hlt : ¬ k.references ≤ 1 := by omega
    have hlt' : ¬ k.references - 1 ≤ 1 := by omega
    have hne : k.references - 1 - 1 ≠ 1 := by omega
    simp [release, hc, hk, h, hg, setLock, letGo, prune, references, Table.get?_set, Table.set_set, hleave,
      hlt, hlt', hne]
    rfl

/-! ## What the operations do to a line -/

namespace Keeps

theorem acquire (h : l.Keeps lines) (hnew : ∀ c ∈ l.claims, c.claimant ≠ i) (key : ObjectKey) :
    (l.acquire i key).1.Keeps (Function.update lines key (some (Line.entered (lines key) i))) ∧
      ∃ n, (l.acquire i key).1.claims = ⟨i, key, n, (l.acquire i key).2⟩ :: l.claims := by
  have hdistinct : ∀ n b, ((⟨i, key, n, b⟩ :: l.claims : List (Claim ι)).map (·.claimant)).Nodup := by
    intro n b
    refine List.nodup_cons.2 ⟨fun hin => ?_, h.distinct⟩
    obtain ⟨c, hc, heq⟩ := List.mem_map.1 hin
    exact hnew c hc heq
  cases hline : lines key with
  | none =>
    have hslot := h.free key hline
    rw [acquire_free i hslot]
    refine ⟨?_, _, rfl⟩
    refine h.replace (.begun i) (fun x => Table.get?_set ..) (fun x hx => absurd (h.slot_lt hx) (Nat.lt_irrefl _))
      (Nat.lt_succ_self _) (Nat.le_succ _) (fun m => Table.get?_set ..) (fun c => ?_) (hdistinct _ _)
      (List.nodup_singleton i)
    have hnone : c.key = key → c ∉ l.claims := by
      intro heq hc
      obtain ⟨line, hline', -⟩ := (h.mem_claims c).1 hc
      rw [heq, hline] at hline'
      cases hline'
    rw [List.mem_cons, Claim.eq_iff]
    split
    · next heq => simp [heq, hnone heq, Line.members, Line.begun]
    · next hne => simp [hne]
  | some line =>
    obtain ⟨n, hslot, hlt, hlock⟩ := h.taken key line hline
    rw [acquire_taken i hslot hlock rfl]
    refine ⟨?_, _, rfl⟩
    refine h.replace (line.join i) (n := n) (fun x => ?_) (fun x hx => h.apart x key n hx hslot) hlt
      (Nat.le_refl _) (fun m => ?_) (fun c => ?_) (hdistinct _ _) ?_
    · split
      · next heq => rw [heq, hslot]
      · rfl
    · rw [Line.lock_join]
      exact Table.get?_set ..
    · rw [List.mem_cons, Claim.eq_iff, Line.mem_members_join_iff]
      split
      · next heq =>
        rw [h.mem_claims_iff hline hslot heq]
        tauto
      · next hne => simp [hne]
    · rw [Line.claimants_join, List.nodup_append]
      refine ⟨h.ordered key line hline, List.nodup_singleton i, fun j hj j' hj' heq => ?_⟩
      obtain rfl := List.mem_singleton.1 hj'
      obtain ⟨granted, hmem⟩ := Line.exists_mem_members hj
      exact hnew ⟨j, key, n, granted⟩ ((h.mem_claims_iff hline hslot rfl).2 ⟨rfl, hmem⟩) heq

omit [DecidableEq ι] in
/-- Whoever does not want to wait is refused without effect where somebody holds the key. -/
theorem attempt (h : l.Keeps lines) {line : Line ι} (i : ι) (hline : lines key = some line) :
    (l.attempt i key).1.Keeps lines ∧ (l.attempt i key).2 = false ∧
      (l.attempt i key).1.claims = l.claims := by
  obtain ⟨n, hslot, hlt, hlock⟩ := h.taken key line hline
  rw [attempt_taken i hslot hlock rfl line.two_le_references]
  refine ⟨?_, rfl, rfl⟩
  have hlocks : ∀ m, (l.locks.set n line.lock).get? m = l.locks.get? m := by
    intro m
    rw [Table.get?_set]
    split
    · next heq => rw [heq, hlock]
    · rfl
  exact ⟨h.free, fun x line' hx => by
    obtain ⟨m, hm, hbound, hget⟩ := h.taken x line' hx
    exact ⟨m, hm, hbound, (hlocks m).trans hget⟩, h.apart, h.mem_claims, h.distinct, h.ordered⟩

omit [DecidableEq ι] in
theorem acquire_eq_true_iff (h : l.Keeps lines) (i : ι) (key : ObjectKey) :
    (l.acquire i key).2 = true ↔ lines key = none := by
  cases hline : lines key with
  | none => simp [acquire_free i (h.free key hline)]
  | some line =>
    obtain ⟨n, hslot, -, hlock⟩ := h.taken key line hline
    simp [acquire_taken i hslot hlock rfl]

omit [DecidableEq ι] in
theorem attempt_eq_true_iff (h : l.Keeps lines) (i : ι) (key : ObjectKey) :
    (l.attempt i key).2 = true ↔ lines key = none := by
  cases hline : lines key with
  | none => simp [attempt_free i (h.free key hline), acquire_free i (h.free key hline)]
  | some line => simp [(h.attempt i hline).2.1]

omit [DecidableEq ι] in
/-- A key is reported as active if and only if it has a line, and nothing changes. -/
theorem check (h : l.Keeps lines) (key : ObjectKey) : l.check key = (l, (lines key).isSome) := by
  cases hline : lines key with
  | none => exact check_free (h.free key hline)
  | some line =>
    obtain ⟨n, hslot, -, hlock⟩ := h.taken key line hline
    exact check_taken hslot hlock line.two_le_references

theorem claim?_eq_some_iff (h : l.Keeps lines) : l.claim? i = some c ↔ c ∈ l.claims ∧ c.claimant = i := by
  constructor
  · intro hc
    exact ⟨List.mem_of_find?_eq_some hc, by simpa using List.find?_some hc⟩
  · rintro ⟨hc, rfl⟩
    cases hfind : l.claim? c.claimant with
    | none => exact absurd (List.find?_eq_none.1 hfind c hc) (by simp)
    | some c' =>
      have hc' : c' ∈ l.claims := List.mem_of_find?_eq_some hfind
      have hsame : c'.claimant = c.claimant := by simpa using List.find?_some hfind
      rw [h.claim_unique hc' hc hsame]

theorem mem_others_iff {c : Claim ι} : c ∈ l.others i ↔ c ∈ l.claims ∧ c.claimant ≠ i := by
  simp [others]

theorem nodup_others (h : l.Keeps lines) (i : ι) : ((l.others i).map (·.claimant)).Nodup :=
  h.distinct.sublist (List.filter_sublist.map _)

omit [DecidableEq ι] in
/-- A claim stands in the line of its key, whose lock it has. -/
theorem line_of_claim (h : l.Keeps lines) (hc : c ∈ l.claims) : ∃ line, lines c.key = some line ∧
    l.slots.get? c.key = some c.lock ∧ c.lock < l.made ∧ l.locks.get? c.lock = some line.lock ∧
    (c.claimant, c.granted) ∈ line.members := by
  obtain ⟨line, hline, hslot, hmem⟩ := (h.mem_claims c).1 hc
  obtain ⟨n, hn, hlt, hlock⟩ := h.taken c.key line hline
  obtain rfl : c.lock = n := Option.some.inj (hslot.symm.trans hn)
  exact ⟨line, hline, hslot, hlt, hlock, hmem⟩

/-- Apart from its own claim, nothing of a claimant is on other keys. -/
theorem mem_others_of_key_ne (h : l.Keeps lines) (hc : c ∈ l.claims) {c' : Claim ι} (hkey : c'.key ≠ c.key) :
    c' ∈ l.others c.claimant ↔ c' ∈ l.claims := by
  rw [mem_others_iff]
  refine ⟨And.left, fun hc' => ⟨hc', fun hsame => hkey ?_⟩⟩
  rw [h.claim_unique hc' hc hsame]

theorem poll (h : l.Keeps lines) (hc : l.claim? i = some c) (hwait : c.granted = false) :
    ∃ line, lines c.key = some line ∧
      if line.holder = i then ∃ l', l.poll i = some (l', true) ∧
        l'.Keeps (Function.update lines c.key (some line.notice)) ∧
        l'.claims = { c with granted := true } :: l.others i
      else l.poll i = some (l, false) := by
  obtain ⟨hmem, rfl⟩ := h.claim?_eq_some_iff.1 hc
  obtain ⟨line, hline, hslot, hlt, hlock, hin⟩ := h.line_of_claim hmem
  refine ⟨line, hline, ?_⟩
  have hordered := h.ordered c.key line hline
  have hgranted := Line.granted_of_mem hordered hin
  split
  · next hholder =>
    rw [if_pos hholder, hwait] at hgranted
    have hnotice := line.lock_notice hgranted.symm
    -- The slot is one reference and the wait two, of which the holder lets go of one now.
    have hr : 3 ≤ line.lock.references := by
      simp [Line.lock, Line.ownReferences, ← hgranted]
    refine ⟨_, poll_granted hc hwait hslot hlock (by rw [← hholder]; rfl) hr, ?_, rfl⟩
    refine h.replace line.notice (n := c.lock) (fun x => ?_)
      (fun x hx => h.apart x c.key c.lock hx hslot) hlt (Nat.le_refl _) (fun m => ?_) (fun c' => ?_) ?_ hordered
    · split
      · next heq => rw [heq, hslot]
      · rfl
    · rw [hnotice]
      exact Table.get?_set ..
    · rw [List.mem_cons, Claim.eq_iff]
      split
      · next heq =>
        rw [mem_others_iff, h.mem_claims_iff hline hslot heq, Line.mem_members_notice_iff hordered, hholder]
        simp only [heq, true_and]
        tauto
      · next hne => simp [hne, h.mem_others_of_key_ne hmem hne]
    · refine List.nodup_cons.2 ⟨fun hmem' => ?_, h.nodup_others _⟩
      obtain ⟨c', hc', heq⟩ := List.mem_map.1 hmem'
      exact (mem_others_iff.1 hc').2 heq
  · next hholder =>
    exact poll_waiting hc hwait hlock fun heq => hholder (Option.some.inj heq)

theorem release (h : l.Keeps lines) (hc : l.claim? i = some c) :
    ∃ line l', lines c.key = some line ∧ l.release i = some l' ∧
      l'.Keeps (Function.update lines c.key (line.without i)) ∧ l'.claims = l.others i := by
  obtain ⟨hmem, rfl⟩ := h.claim?_eq_some_iff.1 hc
  obtain ⟨line, hline, hslot, hlt, hlock, hin⟩ := h.line_of_claim hmem
  have hordered := h.ordered c.key line hline
  cases hleft : line.without c.claimant with
  | none =>
    -- Nobody is left: but for the references of the claim there is the slot's, and with it the lock is gone.
    have halone := Line.eq_of_without_eq_none hleft
    have hgranted := Line.granted_of_mem hordered hin
    rw [halone, if_pos rfl] at hgranted
    have hr : line.lock.references = ownReferences c + 1 := by
      rw [halone, ownReferences, hgranted, Line.lock, Line.ownReferences, Nat.add_comm 1]
      rfl
    refine ⟨line, _, hline, release_last hc hslot hlock hr, ?_, rfl⟩
    rw [hleft]
    refine h.remove hslot rfl rfl rfl (fun c' => ?_) ?_
    · by_cases hkey : c'.key = c.key
      · simp only [hkey, ne_eq, not_true_eq_false, false_and, iff_false, mem_others_iff, not_and, not_not]
        intro hc'
        have hin' := ((h.mem_claims_iff hline hslot hkey).1 hc').2
        rw [halone] at hin'
        exact List.mem_singleton.1 (Line.mem_claimants_of_mem_members hin')
      · rw [h.mem_others_of_key_ne hmem hkey]
        exact (and_iff_right hkey).symm
    · exact h.nodup_others _
  | some line' =>
    -- Somebody is left, who keeps the lock or inherits it, so the slot stays.
    have hlock' := Line.lock_without hordered hin hleft
    have hr : ownReferences c + 2 ≤ line.lock.references := by
      have hleast := line'.two_le_references
      rw [hlock'] at hleast
      change 2 ≤ line.lock.references - ownReferences c at hleast
      omega
    refine ⟨line, _, hline, release_more hc hslot hlock hr, ?_, rfl⟩
    rw [hleft]
    refine h.replace line' (n := c.lock) (fun x => ?_)
      (fun x hx => h.apart x c.key c.lock hx hslot) hlt (Nat.le_refl _) (fun m => ?_) (fun c' => ?_) ?_
      (hordered.sublist (Line.claimants_without hleft))
    · split
      · next heq => rw [heq, hslot]
      · rfl
    · rw [hlock']
      exact Table.get?_set ..
    · split
      · next heq =>
        rw [mem_others_iff, h.mem_claims_iff hline hslot heq, Line.mem_members_without hordered hleft]
        exact and_assoc
      · next hne => exact h.mem_others_of_key_ne hmem hne
    · exact h.nodup_others _

end Keeps

end Leases

end ObjectFlush
