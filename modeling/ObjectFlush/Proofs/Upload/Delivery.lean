import Mathlib.Data.List.Permutation
import ObjectFlush.Exchange.DryRun
import ObjectFlush.Proofs.Upload.PartLedger

/-!
What a part run that ends well has done. Requests may fail, take long, or be given up and made again, and
they end in any order; still every part is delivered once (`part_run_delivers_once`). The receipts say so
for the parts, and the log of the link says so for the requests behind them.
-/

namespace ObjectFlush

/-- The attempt was answered with a tag. -/
def Attempt.Succeeds (a : Attempt) : Prop := ∃ time tag, a.finish = some (time, .ok tag)

theorem Attempt.not_succeeds {a : Attempt} {e : RequestError} (h : a.outcome = .error e) :
    ¬a.Succeeds := by
  intro h
  obtain ⟨time, tag, hfinish⟩ := h
  rw [outcome, hfinish] at h
  cases h

theorem RepeatPolicy.Tried.not_succeeds {p : RepeatPolicy} {left : Nat} {failed : List Attempt}
    (h : p.Tried left failed) {a : Attempt} (ha : a ∈ failed) : ¬a.Succeeds := by
  obtain ⟨e, he, -⟩ := h.passing a ha
  exact Attempt.not_succeeds he

/-- Of the attempts the last one succeeded, and no other: it was answered with `tag`, within `timeout`. -/
def DeliveredBy (timeout : Nat) (tag : String) (as : List Attempt) : Prop :=
  ∃ failed last time, as = failed ++ [last] ∧ last.finish = some (time, .ok tag) ∧
    time ≤ last.started + timeout ∧ ∀ a ∈ failed, ¬a.Succeeds

theorem PartPolicy.Concluded.delivered {policy : PartPolicy} {tag : String} {as : List Attempt}
    (h : policy.Concluded (.ok tag) as) : DeliveredBy policy.timeout tag as := by
  obtain ⟨failed, last, left, has, htried, hcame, -⟩ := h
  obtain ⟨time, hfinish, hle⟩ := hcame.inTime tag rfl
  exact ⟨failed, last, time, has, hfinish, hle, fun a ha => htried.not_succeeds ha⟩

/-- The request carries the bytes of the part, or names what is copied, for the upload. -/
def BoundPart.SentBy (upload : String) (job : BoundPart) (r : Request) : Prop :=
  match job.source with
  | .copy source => r = .copyPart upload job.number source
  | _ => ∃ data, job.read = .ok data ∧ r = .uploadPart upload job.number data

theorem BoundPart.sentBy_of_sends {upload : String} {job : BoundPart} {r : Request}
    (h : job.toRequest.Sends upload r) : job.SentBy upload r := by
  obtain ⟨payload, hpayload, hr⟩ := h
  unfold SentBy
  rcases BoundPart.payload_eq_ok hpayload with ⟨source, hsource, rfl⟩ | ⟨data, hread, rfl⟩
  · rw [hsource]
    exact hr
  · split
    · next source hsource => simp [BoundPart.read, hsource] at hread
    · exact ⟨data, hread, hr⟩

/-- The receipts and the calls of a run that has sent every part. -/
structure Delivered (policy : PartPolicy) (upload : String) (jobs : List BoundPart) (log : List Call)
    (receipts : List Receipt) : Prop where
  /-- There is one receipt for each part. -/
  numbers : (receipts.map (·.number)).Perm (jobs.map (·.number))
  ascending : (receipts.map (·.number)).Pairwise (· < ·)
  tags : ∀ receipt ∈ receipts, DeliveredBy policy.timeout receipt.tag (attempts log receipt.number)
  sent : ∀ c ∈ log, ∃ job ∈ jobs, job.SentBy upload c.request

namespace PartRun

/-- When nothing is held any more and no part has failed, all are done. -/
theorem Tracks.all_done {σ : Type} {policy : PartPolicy} {upload : String} {parts : List PartRequest}
    {origin l : Link σ} {r : PartRun}
    (h : Tracks policy upload parts origin none l r) (hheld : r.held = []) :
    r.statuses = parts.map fun _ => .done := by
  refine List.ext_getElem? fun i => ?_
  rw [List.getElem?_map]
  cases hp : parts[i]? with
  | none =>
    rw [List.getElem?_eq_none_iff] at hp
    rw [List.getElem?_eq_none (h.length ▸ hp)]
    rfl
  | some p =>
    rcases h.ended i p hp with hin | ⟨hstatus, -⟩ | ⟨-, e, he, -⟩
    · rw [hheld] at hin
      cases hin
    · exact hstatus
    · cases he

end PartRun

/-- **A part run that ends well has delivered every part once.** The parts may be given in any order, and
their requests may fail, be given up, and end in any order. -/
theorem part_run_delivers_once {σ : Type} [Endpoint σ] (policy : PartPolicy) (upload : String)
    (cancel : Option Signal) (jobs : List BoundPart) (hdistinct : (jobs.map (·.number)).Nodup)
    (l : Link σ) {receipts : List Receipt}
    (hok : ((PartRun.start policy upload cancel (jobs.map (·.toRequest))).run l).2.2 = .ok receipts) :
    ∃ log, ((PartRun.start policy upload cancel (jobs.map (·.toRequest))).run l).1.calls =
        l.calls ++ log ∧
      Delivered policy upload jobs log receipts ∧
      ((PartRun.start policy upload cancel (jobs.map (·.toRequest))).run l).2.1.statuses =
        jobs.map fun _ => .done := by
  have hnumbers : (jobs.map (·.toRequest)).map (·.number) = jobs.map (·.number) := by
    rw [List.map_map]
    rfl
  have hend := (PartRun.Tracks.start policy upload cancel (jobs.map (·.toRequest)) l).run
    (by rw [hnumbers]; exact hdistinct)
  have hcomplete : PartRun.Complete (jobs.map (·.toRequest)) receipts :=
    (PartRun.run_spec policy cancel (I := fun _ => True) (fun _ _ _ _ _ _ => trivial) trivial).2
      receipts hok
  generalize hrun : (PartRun.start policy upload cancel (jobs.map (·.toRequest))).run l = out at *
  obtain ⟨l', r', outcome⟩ := out
  cases hok
  obtain ⟨htracks, hheld, hsorted⟩ := hend
  refine ⟨l'.since l.calls.length, htracks.calls_eq, ⟨?_, ?_, ?_, ?_⟩, ?_⟩
  · rw [← hnumbers]
    exact hcomplete.numbers
  · -- The numbers ascend, and no two are the same.
    have hnodup := hcomplete.numbers.nodup_iff.2 (by rw [hnumbers]; exact hdistinct)
    exact (hcomplete.ascending.and hnodup).imp fun h => Nat.lt_of_le_of_ne h.1 h.2
  · intro receipt hreceipt
    rw [hsorted] at hreceipt
    have hmem := (List.mergeSort_perm r'.receipts _).mem_iff.1 hreceipt
    exact (htracks.vouched receipt hmem).2.delivered
  · intro c hc
    obtain ⟨p, hp, hsends⟩ := htracks.sent c hc
    obtain ⟨job, hjob, rfl⟩ := List.mem_map.1 hp
    exact ⟨job, hjob, BoundPart.sentBy_of_sends hsends⟩
  · have hdone := htracks.all_done hheld
    rw [List.map_map] at hdone
    exact hdone

/-- Two parts, given in the wrong order and one after the other: the first request for the second part
takes too long and is given up. -/
theorem late_part_delivered_once :
    let policy : PartPolicy :=
      { concurrency := 1, retry := { limit := 1, pause := 10, longestPause := 100 }, timeout := 20 }
    let slow : Conditions := { reaction := fun lane n =>
      match lane, n with
      | .part 2, 0 => { delay := 50 }
      | .part 1, _ => { delay := 5 }
      | _, _ => {} }
    let link : Link DryRun := { endpoint := {}, conditions := slow }
    let jobs : List BoundPart := [⟨2, 2, .buffer [1, 2, 3, 4] 2⟩, ⟨1, 2, .buffer [1, 2, 3, 4] 0⟩]
    let out := (PartRun.start policy "u" none (jobs.map (·.toRequest))).run link
    (jobs.map (·.number)).Nodup ∧ out.2.2 = .ok [⟨1, "etag-1"⟩, ⟨2, "etag-2"⟩] ∧
      out.1.calls.map (fun c => (c.request, c.started)) =
        [(.uploadPart "u" 1 [1, 2], 0), (.uploadPart "u" 2 [3, 4], 5), (.uploadPart "u" 2 [3, 4], 35)] ∧
      ∃ log, out.1.calls = link.calls ++ log ∧
        Delivered policy "u" jobs log [⟨1, "etag-1"⟩, ⟨2, "etag-2"⟩] ∧
        out.2.1.statuses = [.done, .done] := by
  intro policy slow link jobs out
  have hdistinct : (jobs.map (·.number)).Nodup := by decide
  have hok : out.2.2 = .ok [⟨1, "etag-1"⟩, ⟨2, "etag-2"⟩] := by
    unfold out link slow jobs policy
    cbv
  have hcalls : out.1.calls.map (fun c => (c.request, c.started)) =
      [(.uploadPart "u" 1 [1, 2], 0), (.uploadPart "u" 2 [3, 4], 5),
        (.uploadPart "u" 2 [3, 4], 35)] := by
    unfold out link slow jobs policy
    cbv
  exact ⟨hdistinct, hok, hcalls, part_run_delivers_once policy "u" none jobs hdistinct link hok⟩

end ObjectFlush
