import MediaImporter.Lib.Utf8
import MediaImporter.Lib.LeastOfKinds
import MediaImporter.Lib.Except
import MediaImporter.Lib.UnixPath
import MediaImporter.Lib.PathOrder
import MediaImporter.Lib.FileTree
import MediaImporter.Lib.FileSystem
import MediaImporter.Lib.Program
import MediaImporter.Lib.Weights
import MediaImporter.Lib.Progress
import MediaImporter.Paths
import MediaImporter.Config
import MediaImporter.Integrity
import MediaImporter.Printing
import MediaImporter.Hashing
import MediaImporter.Catalog.Table
import MediaImporter.Catalog.Inspect
import MediaImporter.Catalog.Transaction
import MediaImporter.Store.Staging
import MediaImporter.Materialize.Plan
import MediaImporter.Materialize.Apply
import MediaImporter.Materialize.PlanSound
import MediaImporter.Materialize.Outcome
import MediaImporter.Materialize.Conflict
import MediaImporter.Materialize.Prune
import MediaImporter.Materialize.Postcondition
import MediaImporter.Materialize.Links
import MediaImporter.Materialize.Naming
import MediaImporter.Materialize.Replan
import MediaImporter.Materialize.Recover
import MediaImporter.Lib.Batch
import MediaImporter.Catalog.Connection
import MediaImporter.Catalog.Writer
import MediaImporter.Catalog.History
import MediaImporter.Catalog.Batching
import MediaImporter.Catalog.Serialize
import MediaImporter.Catalog.Answers
import MediaImporter.Store.Inspect
import MediaImporter.Gc.Plan
import MediaImporter.Gc.Apply
import MediaImporter.Gc.Preflight
import MediaImporter.Store.CasTree
import MediaImporter.Store.CasWalk
import MediaImporter.Gc.Decides
import MediaImporter.Audit
import MediaImporter.Telemetry.Delivery
import MediaImporter.Gc.Staged
import MediaImporter.Catalog.Writes
import MediaImporter.Catalog.Recorded
import MediaImporter.Catalog.SourceHistory
import MediaImporter.Gc.Removal
import MediaImporter.Gc.Session
import MediaImporter.Gc.Tracks
import MediaImporter.Gc.Sweeps
import MediaImporter.Gc.Finish
import MediaImporter.Gc.Crash
import MediaImporter.Gc.Safety
import MediaImporter.Gc.Commit
import MediaImporter.Gc.Outcome
import MediaImporter.Gc.Predicts
import MediaImporter.Gc.Settles
import MediaImporter.Commands
import MediaImporter.AuditCovers
import MediaImporter.Ingest.Result
import MediaImporter.Ingest.Workers
import MediaImporter.Ingest.Readers
import MediaImporter.Ingest.Executor
import MediaImporter.Ingest.Retained
import MediaImporter.Ingest.Limits
import MediaImporter.Ingest.Turns
import MediaImporter.Ingest.Attribution
import MediaImporter.Ingest.BatchEvents
import MediaImporter.Ingest.Books
import MediaImporter.Ingest.Alert
import MediaImporter.Ingest.Ledger
import MediaImporter.Store.WriteOnce
import MediaImporter.Store.Content
import MediaImporter.Ingest.Snapshot
import MediaImporter.Ingest.Conserved
import MediaImporter.Ingest.Bridge
import MediaImporter.Ingest.Waits
