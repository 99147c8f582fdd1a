import MediaImporter.Ingest.Event

/-!
# The source workers of an import

Eight threads take files from one bounded queue, read them into the store, and send what they
have stored over another. They share a flag that cancels all of them, a channel for the one
failure that ends the import, a count of the readers of each device, and a count of the
finished files that are not yet handed over.

A move is what one thread does between two accesses to what the threads share. What an
observer is told in between belongs to the move before it, and an observer that panics breaks
its thread in the phase it is in then.

## Main definitions

* `Work`, `Pool`, `SourceWorker` — what is shared, and a thread.
* `SourceWorker.step` — the moves of a thread.
-/

namespace MediaImporter

def maxLiveSourceWorkers : ℕ := 8
def schedulerQueueCapacity : ℕ := 64
def workerQueueCapacity : ℕ := 8
def completionQueueCapacity : ℕ := 8

/-- Finished files are in the channel, or a worker holds them while the channel is full. -/
def completedWorkRetainedCapacity : ℕ := completionQueueCapacity + maxLiveSourceWorkers

structure Work where
  sequence : ℕ
  candidate : SourceFileCandidate
  deriving DecidableEq

def Work.mountId (work : Work) : MountId := work.candidate.mountId

/-- A worker sends only what it has stored. -/
structure CompletedWork where
  work : Work
  blob : StoredBlob
  deriving DecidableEq

structure SourceWorkerFailure where
  sequence : Option ℕ
  sourcePath : Option SourceRelativePath
  mountId : Option MountId
  context : String
  deriving DecidableEq

def SourceWorkerFailure.of (work : Work) (context : String) : SourceWorkerFailure :=
  ⟨some work.sequence, some work.candidate.relativePath, some work.mountId, context⟩

/-- Where a worker is in its loop. -/
inductive WorkerPhase
  | waiting
  | took (work : Work)
  /-- The file is dropped, since the import is cancelled. -/
  | rejecting (work : Work)
  | dequeued (work : Work)
  | reading (work : Work) (stagedBytes : ℕ)
  | readFailed (work : Work) (stagedBytes : ℕ) (context : String)
  /-- The failure is made known, and the worker is about to return. -/
  | reported (work : Work) (stagedBytes : ℕ) (context : String)
  | stored (work : Work) (blob : StoredBlob)
  /-- The file is no longer read, and is not counted among the finished ones yet. -/
  | uncounted (work : Work) (blob : StoredBlob)
  | holding (work : Work) (blob : StoredBlob)
  deriving DecidableEq

/-- The file that a worker is about to stop reading. -/
def WorkerPhase.leaving : WorkerPhase → Option Work
  | .stored work _ | .reported work _ _ => some work
  | _ => none

inductive WorkerStatus
  | running
  /-- An error or a panic has left the loop. -/
  | broken (context : String)
  | exited
  deriving DecidableEq

structure SourceWorker where
  phase : WorkerPhase
  status : WorkerStatus
  /-- The failure that the worker is to send, having been the first to cancel. -/
  signal : Option SourceWorkerFailure
  deriving DecidableEq

/-- What the workers share with each other and with the coordinator. -/
structure Pool where
  jobs : List Work
  jobsOpen : Bool
  completed : List CompletedWork
  failures : List SourceWorkerFailure
  cancelled : Bool
  readers : Counters MountId
  completedRetained : ℕ

def Pool.start : Pool := ⟨[], true, [], [], false, ∅, 0⟩

namespace SourceWorker

def start : SourceWorker := ⟨.waiting, .running, none⟩

/-- The worker runs, and is in a phase. -/
def At (w : SourceWorker) (phase : WorkerPhase) : Prop :=
  w.phase = phase ∧ w.status = .running ∧ w.signal = none

instance (w : SourceWorker) (phase : WorkerPhase) : Decidable (w.At phase) :=
  inferInstanceAs (Decidable (_ ∧ _ ∧ _))

/-- Nothing more comes from the worker. -/
def Gone (w : SourceWorker) : Prop := w.status = .exited ∧ w.signal = none

instance (w : SourceWorker) : Decidable w.Gone := inferInstanceAs (Decidable (_ ∧ _))

def go (w : SourceWorker) (phase : WorkerPhase) : SourceWorker := { w with phase }

/-- `signal_terminal_worker_failure`, up to the sending: only who cancels first sends. -/
def signalling (w : SourceWorker) (p : Pool) (failure : SourceWorkerFailure) : SourceWorker :=
  { w with signal := if p.cancelled then none else some failure }

end SourceWorker

def Pool.cancel (p : Pool) : Pool := { p with cancelled := true }

/-- The occupancy of the finished files, as it is told. -/
def IngestEvent.completedBlobs (retained : ℕ) : IngestEvent :=
  .queueOccupancy .completedBlobs none retained completedWorkRetainedCapacity

def decrementReaders (readers : Counters MountId) (mountId : MountId) : Except String ℕ :=
  readers.lowered "source reader finished without start accounting"
    "active source reader counter underflow" mountId

inductive WorkerMove
  | take (work : Work)
  | close
  | refuse (work : Work)
  | admitted (work : Work)
  | reject (work : Work)
  | start (work : Work)
  | overflow (work : Work)
  | stage (work : Work) (stagedBytes size : ℕ) (rendererFailed : Bool)
  | store (work : Work) (stagedBytes : ℕ) (hash : BlobHash) (outcome : StoreOutcome)
  | fail (work : Work) (stagedBytes : ℕ) (context : String)
  | signal (work : Work) (stagedBytes : ℕ) (context : String)
  | return (work : Work) (stagedBytes : ℕ) (context : String)
  | release (work : Work) (blob : StoredBlob)
  | miscount (phase : WorkerPhase) (work : Work)
  | count (work : Work) (blob : StoredBlob)
  | abandon (work : Work) (blob : StoredBlob)
  | send (work : Work) (blob : StoredBlob)
  | panic (context : String)
  | breakDown (context : String)
  | publish (failure : SourceWorkerFailure)
  deriving DecidableEq

/-- What the observer is told when a read ends: of nothing, if nothing was read. -/
def readCompleted (work : Work) (stagedBytes : ℕ) : List IngestEvent :=
  if stagedBytes > 0 then
    [.sourceReadCompleted work.sequence work.candidate.relativePath work.mountId stagedBytes]
  else []

/-- One move of a worker: its new state, the new state of what is shared, and what the observer
is told. -/
def SourceWorker.step (w : SourceWorker) (p : Pool) :
    WorkerMove → Option (SourceWorker × Pool × List IngestEvent)
  | .take work =>
      if w.At .waiting ∧ p.jobs.head? = some work then
        some (w.go (.took work), { p with jobs := p.jobs.tail }, [])
      else none
  | .close =>
      if w.At .waiting ∧ p.jobs = [] ∧ p.jobsOpen = false then
        some ({ w with status := .exited }, p, [])
      else none
  | .refuse work =>
      -- the flag is set, or the worker finds that the renderer has failed
      if w.At (.took work) then
        some ((w.go (.rejecting work)).signalling p (.of work "telemetry renderer failed"),
          p.cancel, [])
      else none
  | .admitted work =>
      if w.At (.took work) ∧ p.cancelled = false then
        some (w.go (.dequeued work), p,
          [.workDequeued work.sequence work.candidate.relativePath work.mountId])
      else none
  | .reject work =>
      if w.At (.rejecting work) then
        some (w.go .waiting, p,
          [.workCancelled work.sequence work.candidate.relativePath work.mountId])
      else none
  | .start work =>
      match p.readers.raise work.mountId with
      | some readers =>
          if w.At (.dequeued work) then
            some (w.go (.reading work 0), { p with readers },
              [.activeWorkers work.mountId (readers.count work.mountId),
                .sourceReadStarted work.sequence work.candidate.relativePath work.mountId])
          else none
      | none => none
  | .overflow work =>
      if w.At (.dequeued work) ∧ p.readers.raise work.mountId = none then
        some ({ w with status := .broken "active source reader counter overflow" }, p, [])
      else none
  | .stage work stagedBytes size rendererFailed =>
      if w.At (.reading work stagedBytes) ∧ 0 < size ∧ stagedBytes + size < 2 ^ 64 then
        some (w.go (if rendererFailed then
            .readFailed work (stagedBytes + size) "telemetry renderer failed"
          else .reading work (stagedBytes + size)), p,
          .sourceChunkStaged work.sequence work.candidate.relativePath work.mountId size ::
            if rendererFailed then readCompleted work (stagedBytes + size) else [])
      else none
  | .store work stagedBytes hash outcome =>
      -- a file whose size is another than the scan has found is not stored
      if w.At (.reading work stagedBytes) ∧ stagedBytes = work.candidate.sizeBytes then
        some (w.go (.stored work ⟨hash, stagedBytes, outcome⟩), p, readCompleted work stagedBytes)
      else none
  | .fail work stagedBytes context =>
      if w.At (.reading work stagedBytes) then
        some (w.go (.readFailed work stagedBytes context), p, readCompleted work stagedBytes)
      else none
  | .signal work stagedBytes context =>
      if w.At (.readFailed work stagedBytes context) then
        some ((w.go (.reported work stagedBytes context)).signalling p (.of work context),
          p.cancel, [])
      else none
  | .return work stagedBytes context =>
      match decrementReaders p.readers work.mountId with
      | .ok active =>
          if w.At (.reported work stagedBytes context) then
            some (⟨.waiting, .exited, none⟩,
              { p with readers := p.readers.settle work.mountId active },
              [.workFailed work.sequence work.candidate.relativePath work.mountId context,
                .activeWorkers work.mountId active])
          else none
      | .error _ => none
  | .release work blob =>
      match decrementReaders p.readers work.mountId with
      | .ok active =>
          if w.At (.stored work blob) then
            some (w.go (.uncounted work blob),
              { p with readers := p.readers.settle work.mountId active },
              [.activeWorkers work.mountId active])
          else none
      | .error _ => none
  | .miscount phase work =>
      match decrementReaders p.readers work.mountId with
      | .ok _ => none
      | .error error =>
          if w.At phase ∧ phase.leaving = some work then
            some ({ w with status := .broken error }, p, [])
          else none
  | .count work blob =>
      if w.At (.uncounted work blob) then
        some (w.go (.holding work blob),
          { p with completedRetained := fetchAdd p.completedRetained },
          [.completedBlobs (p.completedRetained + 1)])
      else none
  | .abandon work blob =>
      if w.At (.holding work blob) ∧ p.cancelled = true then
        some (w.go .waiting,
          { p with completedRetained := fetchSub p.completedRetained },
          [.workCancelled work.sequence work.candidate.relativePath work.mountId])
      else none
  | .send work blob =>
      if w.At (.holding work blob) ∧ p.completed.length < completionQueueCapacity then
        some (w.go .waiting, { p with completed := p.completed ++ [⟨work, blob⟩] }, [])
      else none
  | .panic context =>
      if w.status = .running ∧ w.signal = none then
        some ({ w with status := .broken context }, p, [])
      else none
  | .breakDown context =>
      if w.status = .broken context then
        some ({ w with status := .exited }.signalling p ⟨none, none, none, context⟩, p.cancel, [])
      else none
  | .publish failure =>
      if w.signal = some failure ∧ p.failures.length < 1 then
        some ({ w with signal := none }, { p with failures := p.failures ++ [failure] }, [])
      else none

end MediaImporter
