import ObjectFlush.Cache
import ObjectFlush.Dirty.Set
import ObjectFlush.Object.Record
import ObjectFlush.Part.Description
import ObjectFlush.Settings.File
import ObjectFlush.Store.Endpoint
import ObjectFlush.Store.Layout
import ObjectFlush.Exchange.DryRun
import ObjectFlush.Upload.PartRun
import ObjectFlush.Upload.Dialogue
import ObjectFlush.Upload.Session
import ObjectFlush.FileHandle
import ObjectFlush.Upload.Leases
import ObjectFlush.Sync.Basic
import ObjectFlush.Sync.Range
import ObjectFlush.Upload.Schedule
import ObjectFlush.Command.Arguments
import ObjectFlush.Command.Basic
import ObjectFlush.Main
import ObjectFlush.Proofs.Dirty.History
import ObjectFlush.Proofs.Dirty.Joining
import ObjectFlush.Proofs.Dirty.Tags
import ObjectFlush.Proofs.Plan.Structure
import ObjectFlush.Proofs.Plan.Rebuild
import ObjectFlush.Proofs.Part.DiskRead
import ObjectFlush.Proofs.Part.LocalSources
import ObjectFlush.Proofs.Plan.Filling
import ObjectFlush.Proofs.Plan.Determined
import ObjectFlush.Proofs.Plan.PartCount
import ObjectFlush.Proofs.Plan.Padding
import ObjectFlush.Proofs.Store.Bucket
import ObjectFlush.Proofs.Store.Partition
import ObjectFlush.Proofs.Store.EntryName
import ObjectFlush.Proofs.Store.Layout
import ObjectFlush.Proofs.Store.Listing
import ObjectFlush.Proofs.Store.Shared
import ObjectFlush.Proofs.Store.Alone
import ObjectFlush.Proofs.Store.Concurrent
import ObjectFlush.Proofs.Store.History
import ObjectFlush.Proofs.Store.Invariant
import ObjectFlush.Proofs.Store.Separation
import ObjectFlush.Proofs.Store.Assembly
import ObjectFlush.Proofs.Store.Collected
import ObjectFlush.Proofs.Exchange.Link
import ObjectFlush.Proofs.Exchange.Healthy
import ObjectFlush.Proofs.Upload.PartRun
import ObjectFlush.Proofs.Upload.Attempts
import ObjectFlush.Proofs.Upload.PartTurn
import ObjectFlush.Proofs.Upload.PartLedger
import ObjectFlush.Proofs.Upload.Delivery
import ObjectFlush.Proofs.Upload.FailFast
import ObjectFlush.Proofs.Upload.Awaited
import ObjectFlush.Proofs.Upload.Seating
import ObjectFlush.Proofs.Upload.Dispatch
import ObjectFlush.Proofs.Upload.Leases
import ObjectFlush.Proofs.Upload.Registry
import ObjectFlush.Proofs.Upload.Footprint
import ObjectFlush.Proofs.Upload.Turns
import ObjectFlush.Proofs.Upload.Serial
import ObjectFlush.Proofs.Upload.Opening
import ObjectFlush.Proofs.Upload.Interference
import ObjectFlush.Proofs.Upload.Contract
import ObjectFlush.Proofs.Upload.SessionCall
import ObjectFlush.Proofs.Upload.Smooth
import ObjectFlush.Proofs.Upload.Protocol
import ObjectFlush.Proofs.Upload.Completion
import ObjectFlush.Proofs.Upload.Triple
import ObjectFlush.Proofs.Upload.Choice
import ObjectFlush.Proofs.Upload.Flush
import ObjectFlush.Proofs.Upload.BufferFlush
import ObjectFlush.Proofs.Exchange.Alarm
import ObjectFlush.Proofs.Upload.Chronicle
import ObjectFlush.Proofs.Upload.Interruption
import ObjectFlush.Proofs.Upload.Cancellation
import ObjectFlush.Proofs.Upload.CancelledFlush
import ObjectFlush.Proofs.Upload.Scripted
import ObjectFlush.Proofs.Upload.Confluence
import ObjectFlush.Proofs.Upload.Route
import ObjectFlush.Proofs.Upload.RepeatLaw
import ObjectFlush.Proofs.Upload.PartCalls
import ObjectFlush.Proofs.Upload.RunCalls
import ObjectFlush.Proofs.Upload.Repetition
import ObjectFlush.Proofs.Upload.PartPauses
import ObjectFlush.Proofs.Upload.EmptyUpload
import ObjectFlush.Proofs.Upload.HealthyFlush
import ObjectFlush.Proofs.Upload.Atomic
import ObjectFlush.Proofs.Upload.Coexist
import ObjectFlush.Proofs.Upload.Written
import ObjectFlush.Proofs.Upload.Serialized
import ObjectFlush.Proofs.OpenFile.Coherent
import ObjectFlush.Proofs.OpenFile.History
import ObjectFlush.Proofs.OpenFile.Contents
import ObjectFlush.Proofs.OpenFile.Stepwise
import ObjectFlush.Proofs.OpenFile.Generations
import ObjectFlush.Proofs.Upload.Signals
import ObjectFlush.Proofs.Upload.SignalUse
import ObjectFlush.Proofs.Upload.SharedSignal
import ObjectFlush.Proofs.Sync.Replay
import ObjectFlush.Proofs.Sync.Selection
import ObjectFlush.Proofs.Text.Utf8
import ObjectFlush.Proofs.Json.Scalars
import ObjectFlush.Proofs.Json.RoundTrip
import ObjectFlush.Proofs.Json.Records
import ObjectFlush.Proofs.Plan.Alternation
import ObjectFlush.Proofs.Text.Integer
import ObjectFlush.Proofs.Sync.RangeText
import ObjectFlush.Proofs.Json.Fields
import ObjectFlush.Proofs.Settings.Upload
import ObjectFlush.Proofs.Settings.Object
import ObjectFlush.Proofs.Settings.File
