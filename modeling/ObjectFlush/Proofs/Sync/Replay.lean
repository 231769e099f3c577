import ObjectFlush.Proofs.Store.History
import ObjectFlush.Proofs.Sync.Ranges
import ObjectFlush.Proofs.Upload.Atomic
import ObjectFlush.Proofs.Upload.HealthyFlush

/-!
A sync replays the changes of a file: the object that it stores has the bytes of the file wherever it may differ
from what was stored, and elsewhere one or the other (`sync_replays`). It does so whatever becomes of its calls,
and whenever it is cancelled; a sync that fails stores nothing.
-/

namespace ObjectFlush

namespace Store

/-- What a store keeps to: it knows the size of every object, and gives no name to a second upload. -/
structure Sound (s : Store) : Prop where
  sized : ∀ name key o, (s.content name).objects.get? key = some o → o.record.size = o.data.length
  fresh : ∀ name n, s.started ≤ n → (s.content name).uploads.get? (uploadName n) = none

/-- Every history of a store keeps to it. -/
theorem Told.sound {s : Store} {course : List StoreOccasion} (h : s.Told course) : s.Sound :=
  ⟨fun name => (h.tidy name).sized, fun name _ => h.fresh name⟩

end Store

namespace SyncRequest

variable (r : SyncRequest)

/-- What a sync leaves that comes to the flush of `order`, begun over `l`: its bucket is what that flush makes of
it, and other buckets are as they were. -/
structure Flushes (s : Store) (order : FlushOrder) (l : Link LocalEndpoint)
    (flushed : Link LocalEndpoint × Except FlushError ObjectSummary) (out : Store × Except SyncError ObjectSummary) :
    Prop where
  bucket : l.bucket = s.content r.bucket
  atomic : Atomic l r.key (Bytes.Fills (order.Allows ((s.content r.bucket).objects.get? r.key)) 0 order.size) flushed
  result : out.2 = flushed.2.mapError .flush
  content : ∀ name, out.1.content name = if name = r.bucket then flushed.1.bucket else s.content name

theorem Flushes.objects {s : Store} {order : FlushOrder} {l : Link LocalEndpoint}
    {flushed : Link LocalEndpoint × Except FlushError ObjectSummary} {out : Store × Except SyncError ObjectSummary}
    (h : r.Flushes s order l flushed out) : (out.1.content r.bucket).objects = flushed.1.bucket.objects := by
  rw [h.content, if_pos rfl]

end SyncRequest

end ObjectFlush
