import MediaImporter.Catalog.Writer
import MediaImporter.Lib.Transition

/-!
# Reports and events of an import

An import counts what it does in a report, and tells an observer of every step. The observer
of the command line turns the steps into telemetry.

## Main definitions

* `SourceFileCandidate`, `StoredBlob`, `ImportReport` — what goes through an import.
* `IngestEvent`, `telemetry` — what an observer is told, and what it sends on.
-/

namespace MediaImporter

/-- The device a file is on. -/
structure MountId where
  device : ℕ
  deriving DecidableEq

structure SourceFileCandidate where
  relativePath : SourceRelativePath
  sizeBytes : ℕ
  mountId : MountId
  deriving DecidableEq

inductive StoreOutcome
  | created
  | reused
  deriving DecidableEq

structure StoredBlob where
  hash : BlobHash
  sizeBytes : ℕ
  outcome : StoreOutcome
  deriving DecidableEq

inductive HashReason
  | metadataSkippingDisabled
  | noCatalogObservation
  | sizeChanged
  | modifiedTimeUnavailable
  | modifiedTimeChanged
  | catalogSourceInconsistency
  | casEntryMissingOrInvalid
  deriving DecidableEq

inductive ImportDisposition
  | skip (blobHash : BlobHash) (sizeBytes : ℕ) (resurrectionRequired : Bool)
  | hash (reason : HashReason)
  deriving DecidableEq

/-! ## The report -/

structure ImportReport where
  dryRun : Bool
  filesSeen : ℕ
  blobsCreated : ℕ
  blobsReused : ℕ
  bytesSeen : ℕ
  bytesWritten : ℕ
  sourceRecordsInserted : ℕ
  sourceRecordsUpdated : ℕ
  filesSkipped : ℕ
  bytesSkipped : ℕ
  filesHashed : ℕ
  bytesHashed : ℕ
  deriving DecidableEq

namespace ImportReport

def default (dryRun : Bool) : ImportReport := ⟨dryRun, 0, 0, 0, 0, 0, 0, 0, 0, 0, 0, 0⟩

variable (r : ImportReport)

def observedFile (candidate : SourceFileCandidate) : ImportReport :=
  { r with filesSeen := r.filesSeen + 1, bytesSeen := r.bytesSeen + candidate.sizeBytes }

def storeOutcome (outcome : StoreOutcome) (size : ℕ) : ImportReport :=
  match outcome with
  | .created => { r with blobsCreated := r.blobsCreated + 1, bytesWritten := r.bytesWritten + size }
  | .reused => { r with blobsReused := r.blobsReused + 1 }

def sourceOutcome : SourceObservationOutcome → ImportReport
  | .inserted => { r with sourceRecordsInserted := r.sourceRecordsInserted + 1 }
  | .updated => { r with sourceRecordsUpdated := r.sourceRecordsUpdated + 1 }

def applyOutcome : ImportWriteOutcome → ImportReport
  | .imported _ source => r.sourceOutcome source
  | .observedKnown => r

/-- A file of which the catalog already has all there is to know. -/
def skipped (size : ℕ) : ImportReport :=
  { r with
    filesSkipped := r.filesSkipped + 1
    bytesSkipped := r.bytesSkipped + size
    blobsReused := r.blobsReused + 1
    sourceRecordsUpdated := r.sourceRecordsUpdated + 1 }

/-- A file that has been read. -/
def hashed (blob : StoredBlob) (outcome : StoreOutcome) : ImportReport :=
  ({ r with
    filesHashed := r.filesHashed + 1
    bytesHashed := r.bytesHashed + blob.sizeBytes } : ImportReport).storeOutcome outcome
      blob.sizeBytes

end ImportReport

/-! ## Events -/

inductive QueueStage
  | scannerToScheduler
  | perMountWork
  | completedBlobs
  | catalogRequests
  | catalogOutcomes
  deriving DecidableEq

inductive IngestEvent
  | candidateDiscovered (sequence : ℕ) (sourcePath : SourceRelativePath) (mountId : MountId)
  | metadataSkipped (sequence : ℕ) (sourcePath : SourceRelativePath) (sizeBytes : ℕ)
  | workQueued (sequence : ℕ) (sourcePath : SourceRelativePath) (mountId : MountId)
  | workDequeued (sequence : ℕ) (sourcePath : SourceRelativePath) (mountId : MountId)
  | sourceReadStarted (sequence : ℕ) (sourcePath : SourceRelativePath) (mountId : MountId)
  | sourceReadCompleted (sequence : ℕ) (sourcePath : SourceRelativePath) (mountId : MountId)
      (sizeBytes : ℕ)
  | sourceChunkStaged (sequence : ℕ) (sourcePath : SourceRelativePath) (mountId : MountId)
      (sizeBytes : ℕ)
  | workCancelled (sequence : ℕ) (sourcePath : SourceRelativePath) (mountId : MountId)
  | workFailed (sequence : ℕ) (sourcePath : SourceRelativePath) (mountId : MountId)
      (context : String)
  | casStored (sequence : ℕ) (sourcePath : SourceRelativePath) (outcome : StoreOutcome)
      (hash : BlobHash)
  | activeWorkers (mountId : MountId) (active : ℕ)
  | queueOccupancy (stage : QueueStage) (mountId : Option MountId) (occupancy capacity : ℕ)
  | queueBackpressure
  | catalogSubmitted (sequence : ℕ) (sourcePath : SourceRelativePath)
  | catalogCommitted (sequence : ℕ) (sourcePath : SourceRelativePath)
  | catalogBatchCommitted (size : ℕ)
  | catalogCheckpointCompleted (busy log checkpointed : ℤ)
  | catalogCheckpointRequested
  | catalogWriterFinished (checkpoints : ℕ)
  | cancellation
  | shutdown
  deriving DecidableEq

/-- What of the writer's events an import passes on. -/
def CatalogWriterEvent.passedOn : CatalogWriterEvent → Option IngestEvent
  | .batchCommitted size _ => some (.catalogBatchCommitted size)
  | .checkpointCompleted busy log checkpointed =>
      some (.catalogCheckpointCompleted busy log checkpointed)
  | .checkpointRequested _ false => some .catalogCheckpointRequested
  | _ => none

/-- The names of the telemetry events of an import. -/
inductive TelemetryName
  | fileDiscovered
  | fileSkipped
  | fileHashed
  | sourceBytesDelta
  | stagingBytesDelta
  | casBlobCreated
  | casBlobReused
  | activeContentWorkers
  | queueOccupancy
  | queueBackpressure
  | catalogRecordCommitted
  | catalogBatchCommitted
  | catalogCheckpointCompleted
  | catalogCheckpointRequested
  | catalogFinalCheckpoint
  | cancelled
  | operationalFailure
  deriving DecidableEq

/-- An event that is sent, and the bytes it counts if it counts any. -/
structure TelemetryEvent where
  name : TelemetryName
  bytes : ℕ
  deriving DecidableEq

/-- What the observer of the command line sends when it is told of an event. -/
def telemetry (dryRun : Bool) : IngestEvent → List TelemetryEvent
  | .candidateDiscovered _ _ _ => [⟨.fileDiscovered, 0⟩]
  | .metadataSkipped _ _ size => [⟨.fileSkipped, size⟩]
  | .sourceReadCompleted _ _ _ size => [⟨.fileHashed, size⟩]
  | .sourceChunkStaged _ _ _ size =>
      -- a dry run reads the source and stages nothing
      ⟨.sourceBytesDelta, size⟩ :: if dryRun then [] else [⟨.stagingBytesDelta, size⟩]
  | .casStored _ _ .created _ => [⟨.casBlobCreated, 0⟩]
  | .casStored _ _ .reused _ => [⟨.casBlobReused, 0⟩]
  | .activeWorkers _ _ => [⟨.activeContentWorkers, 0⟩]
  | .queueOccupancy _ _ _ _ => [⟨.queueOccupancy, 0⟩]
  | .queueBackpressure => [⟨.queueBackpressure, 0⟩]
  | .catalogCommitted _ _ => [⟨.catalogRecordCommitted, 0⟩]
  | .catalogBatchCommitted _ => [⟨.catalogBatchCommitted, 0⟩]
  | .catalogCheckpointCompleted _ _ _ => [⟨.catalogCheckpointCompleted, 0⟩]
  | .catalogCheckpointRequested => [⟨.catalogCheckpointRequested, 0⟩]
  | .catalogWriterFinished _ => [⟨.catalogFinalCheckpoint, 0⟩]
  | .cancellation => [⟨.cancelled, 0⟩]
  | .workFailed _ _ _ _ => [⟨.operationalFailure, 0⟩]
  | _ => []

end MediaImporter
