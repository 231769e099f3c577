import ObjectFlush.Upload.Flusher

/-!
Which way a write goes. A flush and the write of a buffer make the same choice (`Flusher.choose`) between a
single request and an upload in parts: `Flusher.flush_eq`, `Flusher.flushBuffer_eq`. What holds of each way holds
of the write (`Flusher.choose_of_ways`).
-/

namespace ObjectFlush

/-- Valid bounds can be exceeded in one way only. -/
theorem plan_error {fileSize : Nat} {ranges : List DirtyRange} {b : PartBounds} {e : PlanError}
    (hvalid : b.validate = .ok ()) (h : plan fileSize ranges b = .error e) :
    ∃ needed, b.maxParts < needed ∧ e = .tooManyParts needed b.maxParts := by
  unfold plan at h
  rw [hvalid] at h
  simp only [bind, Except.bind] at h
  split at h
  · next hmany =>
    cases h
    exact ⟨_, hmany, rfl⟩
  · cases h

namespace Flusher

theorem valid_partBounds (f : Flusher) (mayCopy : Bool) :
    ({ f.settings.partBounds with mayCopy } : PartBounds).validate = .ok () := by
  have hvalid := f.valid
  unfold UploadSettings.validate at hvalid
  split at hvalid
  · cases hvalid
  · next hbounds => exact hbounds

/-- The plan for `size` bytes, of which clean ones may be copied if the store holds the object. -/
def planned (f : Flusher) (size : Nat) (dirty : List DirtyRange) (stored : Bool) :
    Except PlanError (List Portion) :=
  plan size dirty { f.settings.partBounds with mayCopy := f.settings.copyPart && stored }

/-- The choice between a single request and an upload in parts: what is below the threshold goes whole, and so
does what needs too many parts, if the limit for puts allows. -/
def choose {α : Type} (f : Flusher) (size : Nat) (planned : Except PlanError (List Portion))
    (whole : Dialogue (Except FlushError α)) (inParts : List Portion → Dialogue (Except FlushError α)) :
    Dialogue (Except FlushError α) :=
  if size < f.settings.multipartThreshold then whole
  else match planned with
    | .ok parts => inParts parts
    | .error e => if size ≤ f.settings.maxSinglePut then whole else return .error (.plan e)

variable (f : Flusher)

theorem flush_eq (order : FlushOrder) :
    f.flush order = f.choose order.size (f.planned order.size order.dirty order.stored)
      (f.sendFile order.key order.source order.size)
      (f.sendParts order.key · (.file order.source) order.cancel) := by
  unfold flush choose planned
  split
  · rfl
  · dsimp only
    cases hplan : plan order.size order.dirty
        { f.settings.partBounds with mayCopy := f.settings.copyPart && order.stored } with
    | ok parts => rfl
    | error e =>
      obtain ⟨needed, -, rfl⟩ := plan_error (f.valid_partBounds _) hplan
      rfl

theorem flushBuffer_eq (key : ObjectKey) (data : Bytes) :
    f.flushBuffer key data = f.choose data.length (f.planned data.length [] false) (f.send key data)
      (f.sendParts key · (.buffer data) none) := by
  unfold flushBuffer choose planned
  rw [Bool.and_false]
  split
  · rfl
  · cases hplan : plan data.length [] { f.settings.partBounds with mayCopy := false } with
    | ok parts => rfl
    | error e =>
      obtain ⟨needed, -, rfl⟩ := plan_error (f.valid_partBounds _) hplan
      rfl

section

variable {α : Type} (size : Nat) (planned : Except PlanError (List Portion))
  (whole : Dialogue (Except FlushError α)) (inParts : List Portion → Dialogue (Except FlushError α))

/-- All that a choice can come to. -/
theorem choose_cases :
    (size < f.settings.multipartThreshold ∧ f.choose size planned whole inParts = whole) ∨
      f.settings.multipartThreshold ≤ size ∧
        ((∃ parts, planned = .ok parts ∧ f.choose size planned whole inParts = inParts parts) ∨
          ∃ e, planned = .error e ∧
            ((size ≤ f.settings.maxSinglePut ∧ f.choose size planned whole inParts = whole) ∨
              f.settings.maxSinglePut < size ∧
                f.choose size planned whole inParts = pure (.error (.plan e)))) := by
  unfold choose
  split
  · next hlt => exact .inl ⟨hlt, rfl⟩
  · next hle =>
    refine .inr ⟨Nat.le_of_not_lt hle, ?_⟩
    cases planned with
    | ok parts => exact .inl ⟨parts, rfl, rfl⟩
    | error e =>
      refine .inr ⟨e, rfl, ?_⟩
      by_cases hfits : size ≤ f.settings.maxSinglePut
      · exact .inl ⟨hfits, if_pos hfits⟩
      · exact .inr ⟨Nat.lt_of_not_le hfits, if_neg hfits⟩

variable {size planned whole inParts}

/-- What holds of a write either way, and of one that is refused, holds of the choice. -/
theorem choose_of_ways {P : Dialogue (Except FlushError α) → Prop} (hwhole : P whole)
    (hparts : ∀ parts, planned = .ok parts → P (inParts parts))
    (hrefused : ∀ e, P (pure (.error (.plan e)))) : P (f.choose size planned whole inParts) := by
  rcases f.choose_cases size planned whole inParts with
    ⟨-, h⟩ | ⟨-, ⟨parts, hplan, h⟩ | ⟨e, -, ⟨-, h⟩ | ⟨-, h⟩⟩⟩
  · rw [h]
    exact hwhole
  · rw [h]
    exact hparts parts hplan
  · rw [h]
    exact hwhole
  · rw [h]
    exact hrefused e

end

end Flusher

end ObjectFlush
