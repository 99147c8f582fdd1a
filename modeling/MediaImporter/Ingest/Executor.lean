import MediaImporter.Ingest.Workers
import Mathlib.Data.List.Sort

/-!
# The executor of an import

The coordinator scans the source, hands files to the workers of `Ingest.Workers`, submits what
they have stored to the catalog writer, and resolves the tickets it gets for that. The catalog
writer collects requests in batches; it answers a batch before it announces that the batch is
committed. What the two share are the queue of requests, the answers, the bridge over which
the writer announces events, and a channel for its failure.

An import is a run of the system of the coordinator, the workers and the writer, in any order
of their moves. What the catalog and the disk tell is part of the move that asks them.

## Main definitions

* `Coordinator`, `ImportWriter`, `System` — the threads and what they share.
* `System.step` — one move of one of them.
-/

namespace MediaImporter

open Transition (run)

def catalogQueueCapacity : ℕ := 64
def eventBridgeCapacity : ℕ := 256

structure ExecutorConfig where
  workersPerMount : ℕ
  workersPerMount_pos : 0 < workersPerMount
  writer : CatalogWriterConfig

namespace ExecutorConfig

/-- A device has at most as many workers as there are. -/
def effectiveWorkersPerMount (config : ExecutorConfig) : ℕ :=
  min config.workersPerMount maxLiveSourceWorkers

def maxOutstanding (config : ExecutorConfig) : ℕ := config.writer.maxBatchRecords

end ExecutorConfig

/-! ## The coordinator -/

structure PendingTicket where
  sequence : ℕ
  sourcePath : SourceRelativePath
  deriving DecidableEq

/-- Tickets are kept in the order of their sequences. -/
def insertTicket (ticket : PendingTicket) : List PendingTicket → List PendingTicket
  | [] => [ticket]
  | t :: tickets =>
      if ticket.sequence < t.sequence then ticket :: t :: tickets
      else if ticket.sequence = t.sequence then ticket :: tickets
      else t :: insertTicket ticket tickets

/-- What follows when no failure is found. -/
inductive AfterPoll
  | dispatch
  | decide
  | scan
  deriving DecidableEq

/-- What a ticket was inserted for. -/
inductive Submitted
  | skipped (size : ℕ)
  | hashed (work : Work)
  deriving DecidableEq

inductive CoordinatorPhase
  /-- The head of the loop. -/
  | draining
  | pollingWorkers (next : AfterPoll)
  | pollingWriter (next : AfterPoll)
  | dispatching
  /-- The workers have the file, and it is not counted as active yet. -/
  | submitted (work : Work)
  | deciding
  | scanning
  | skipping (candidate : SourceFileCandidate) (size : ℕ)
  | receiving
  /-- A finished file has left the channel, and is still counted as retained. -/
  | received (completed : CompletedWork)
  | completing (completed : CompletedWork)
  | submitting (completed : CompletedWork)
  | reporting (after : Submitted)
  | resolving (after : Submitted)
  /-- The head of the loop over the tickets that are left. -/
  | ticketing
  | finalDraining
  | finalResolving
  | lastDraining
  | failing
  | closing
  | joining
  | finishing
  | joiningWriter
  | done
  deriving DecidableEq

namespace CoordinatorPhase

def ofPoll : AfterPoll → CoordinatorPhase
  | .dispatch => .dispatching
  | .decide => .deciding
  | .scan => .scanning

/-- What follows when the bridge is found empty. -/
def afterDrain : CoordinatorPhase → Option CoordinatorPhase
  | .draining => some (.pollingWorkers .dispatch)
  | .finalDraining => some .finalResolving
  | .lastDraining => some .closing
  | _ => none

/-- The phases that an error or a panic can end. -/
def CanFail : CoordinatorPhase → Bool
  | .submitted _ | .received _ | .failing | .closing | .joining | .finishing | .joiningWriter
  | .done => false
  | _ => true

end CoordinatorPhase

structure Coordinator where
  phase : CoordinatorPhase
  report : ImportReport
  tickets : List PendingTicket
  pending : List Work
  active : Counters MountId
  lastDispatchedMount : Option MountId
  sequence : ℕ
  scannerDone : Bool
  error : Option String

def Coordinator.start : Coordinator :=
  ⟨.draining, .default false, [], [], ∅, none, 0, false, none⟩

namespace Coordinator

variable (c : Coordinator)

def go (phase : CoordinatorPhase) : Coordinator := { c with phase }

def fail (error : String) : Coordinator := { c with phase := .failing, error := some error }

/-- A file waits for a worker. -/
def enqueue (candidate : SourceFileCandidate) : Coordinator :=
  { c with pending := c.pending ++ [⟨c.sequence, candidate⟩] }

def eligible (limit : ℕ) (work : Work) : Bool := c.active.count work.mountId < limit

/-- The first file that can be handed out, of another device than the last one if possible. -/
def nextIndex (limit : ℕ) : Option ℕ :=
  (c.pending.findIdx? fun work =>
    c.eligible limit work && some work.mountId != c.lastDispatchedMount) <|>
  c.pending.findIdx? (c.eligible limit)

end Coordinator

/-- Who has files pending or active, each once, in order. -/
def occupiedMounts (pending : List Work) (active : Counters MountId) : List MountId :=
  (pending.map Work.mountId ++ active.keys).dedup.insertionSort fun a b => a.device ≤ b.device

def observeWorkOccupancy (pending : List Work) (active : Counters MountId)
    (workersPerMount : ℕ) : List IngestEvent :=
  .queueOccupancy .scannerToScheduler none pending.length schedulerQueueCapacity ::
    (occupiedMounts pending active).map fun mountId =>
      .queueOccupancy .perMountWork (some mountId)
        (pending.countP (·.mountId = mountId) + active.count mountId)
        (schedulerQueueCapacity + min workersPerMount maxLiveSourceWorkers)

def observeCatalogOccupancy (requests pendingOutcomes maxOutstanding : ℕ) : List IngestEvent :=
  [.queueOccupancy .catalogRequests none requests catalogQueueCapacity,
    .queueOccupancy .catalogOutcomes none pendingOutcomes maxOutstanding]

/-- What `complete_work` leaves of the counter of a device. -/
def completeActive (active : Counters MountId) (mountId : MountId) : Except String ℕ :=
  active.lowered "completed work without active mount accounting"
    "active mount worker counter underflow" mountId

/-! ## The catalog writer -/

inductive RequestKind
  | imported
  | known
  deriving DecidableEq

/-- A request to the writer. Its sequence names it. -/
structure ImportRequest where
  sequence : ℕ
  kind : RequestKind
  deriving DecidableEq

/-- An outcome is one of the request. -/
def ImportRequest.Fits : ImportRequest → ImportWriteOutcome → Bool
  | ⟨_, .imported⟩, .imported _ _ => true
  | ⟨_, .known⟩, .observedKnown => true
  | _, _ => false

/-- What the coordinator and the writer share. -/
structure CatalogLink where
  requests : List ImportRequest
  requestsOpen : Bool
  responses : List (ℕ × Except String ImportWriteOutcome)
  bridge : List CatalogWriterEvent
  terminal : List String

def CatalogLink.start : CatalogLink := ⟨[], true, [], [], []⟩

/-- The answer that the ticket of a sequence waits for. -/
def CatalogLink.response (l : CatalogLink) (sequence : ℕ) :
    Option (Except String ImportWriteOutcome) :=
  l.responses.lookup sequence

/-- The writer waits until the bridge has room. -/
def CatalogLink.HasRoom (l : CatalogLink) : Prop := l.bridge.length < eventBridgeCapacity

instance (l : CatalogLink) : Decidable l.HasRoom := inferInstanceAs (Decidable (_ < _))

def CatalogLink.emit (l : CatalogLink) (event : CatalogWriterEvent) : CatalogLink :=
  { l with bridge := l.bridge ++ [event] }

def CatalogLink.submit (l : CatalogLink) (request : ImportRequest) : CatalogLink :=
  { l with requests := l.requests ++ [request] }

inductive ImportWriterPhase
  | receiving
  | opened
  /-- The batch is committed, and its tickets are answered one by one. -/
  | answering (left : List (ImportRequest × ImportWriteOutcome)) (size : ℕ)
  | checkpointDue (size : Option ℕ)
  | checkpointing (size : Option ℕ)
  | flushed (size : ℕ)
  | failing (context : String)
  | stopped
  | failed
  deriving DecidableEq

structure ImportWriter where
  phase : ImportWriterPhase
  batch : List ImportRequest
  /-- The sender of requests is gone. -/
  closing : Bool
  checkpoints : ℕ
  /-- The sizes of the batches that are committed. -/
  committed : List ℕ

def ImportWriter.start : ImportWriter := ⟨.receiving, [], false, 0, []⟩

/-- The writer takes no more requests, and answers none. -/
def ImportWriter.Gone (w : ImportWriter) : Prop := w.phase = .stopped ∨ w.phase = .failed

instance (w : ImportWriter) : Decidable w.Gone := inferInstanceAs (Decidable (_ ∨ _))

inductive ImportWriterMove
  | receive (request : ImportRequest)
  | disconnect
  | openBatch
  | commit (outcomes : List ImportWriteOutcome)
  | rollBack (context : String)
  | answer
  | announce
  | requestCheckpoint
  | checkpoint (busy log checkpointed : ℤ)
  | checkpointFailed (context : String)
  | next
  | shutDown
  | reject
  deriving DecidableEq

/-- One move of the writer. -/
def ImportWriter.step (config : CatalogWriterConfig) (w : ImportWriter) (l : CatalogLink) :
    ImportWriterMove → Option (ImportWriter × CatalogLink)
  | .receive request =>
      if w.phase = .receiving ∧ l.requests.head? = some request ∧
          w.batch.length < config.maxBatchRecords then
        some ({ w with batch := w.batch ++ [request] }, { l with requests := l.requests.tail })
      else none
  | .disconnect =>
      if w.phase = .receiving ∧ l.requests = [] ∧ l.requestsOpen = false then
        some ({ w with closing := true }, l)
      else none
  | .openBatch =>
      -- the batch is full, or its time is over, or no more requests come
      if w.phase = .receiving ∧ w.batch ≠ [] ∧ l.HasRoom then
        some ({ w with phase := .opened },
          l.emit (.batchOpened w.batch.length (w.committed.length + 1)))
      else none
  | .commit outcomes =>
      if w.phase = .opened ∧ w.batch.length = outcomes.length ∧
          (w.batch.zip outcomes).all (fun answered => answered.1.Fits answered.2) then
        some ({ w with
          phase := .answering (w.batch.zip outcomes) w.batch.length
          batch := []
          committed := w.committed ++ [w.batch.length] }, l)
      else none
  | .rollBack context =>
      if w.phase = .opened ∧ l.HasRoom then
        some ({ w with phase := .failing context, batch := [] },
          { l.emit (.batchRolledBack w.batch.length ((w.batch.head?.map (·.sequence)).getD 0)) with
            responses := l.responses ++ w.batch.map fun r => (r.sequence, .error context) })
      else none
  | .answer =>
      match w.phase with
      | .answering ((request, outcome) :: left) size =>
          if l.HasRoom then
            some ({ w with phase := .answering left size },
              { l.emit (.recordCommitted request.sequence outcome) with
                responses := l.responses ++ [(request.sequence, .ok outcome)] })
          else none
      | _ => none
  | .announce =>
      match w.phase with
      | .answering [] size =>
          if l.HasRoom then
            some ({ w with phase :=
                if w.committed.length % config.checkpointEveryBatches = 0 then
                  .checkpointDue (some size)
                else .flushed size },
              l.emit (.batchCommitted size w.committed.length))
          else none
      | _ => none
  | .requestCheckpoint =>
      match w.phase with
      | .checkpointDue size =>
          if l.HasRoom then
            some ({ w with phase := .checkpointing size },
              l.emit (.checkpointRequested w.committed.length size.isNone))
          else none
      | _ => none
  | .checkpoint busy log checkpointed =>
      match w.phase with
      | .checkpointing size =>
          if l.HasRoom ∧ 0 ≤ busy ∧ 0 ≤ log ∧ 0 ≤ checkpointed then
            some ({ w with
                phase := size.elim .stopped .flushed, checkpoints := w.checkpoints + 1 },
              l.emit (.checkpointCompleted busy log checkpointed))
          else none
      | _ => none
  | .checkpointFailed context =>
      match w.phase with
      | .checkpointing _ => some ({ w with phase := .failing context }, l)
      | _ => none
  | .next =>
      match w.phase with
      | .flushed size =>
          if w.closing then
            if l.HasRoom then
              some ({ w with phase := .checkpointDue none }, l.emit (.shutdownFlush size))
            else none
          else some ({ w with phase := .receiving }, l)
      | _ => none
  | .shutDown =>
      if w.phase = .receiving ∧ w.closing ∧ w.batch = [] then
        some ({ w with phase := .checkpointDue none }, l)
      else none
  | .reject =>
      match w.phase with
      | .failing context =>
          some ({ w with phase := .failed },
            { l with
              requests := []
              responses := l.responses ++ l.requests.map fun r => (r.sequence, .error context)
              terminal := l.terminal ++ [context] })
      | _ => none

/-! ## The system -/

structure System where
  workers : List SourceWorker
  pool : Pool
  coordinator : Coordinator
  writer : ImportWriter
  link : CatalogLink
  observed : List IngestEvent

def System.start : System :=
  ⟨List.replicate maxLiveSourceWorkers .start, .start, .start, .start, .start, []⟩

/-- No worker is left to take a file or to send one. -/
def System.WorkersGone (s : System) : Prop := ∀ w ∈ s.workers, w.Gone

instance (s : System) : Decidable s.WorkersGone :=
  inferInstanceAs (Decidable (∀ w ∈ s.workers, w.Gone))

inductive CoordinatorMove
  | drain (event : CatalogWriterEvent)
  | drained
  | rendererFailed
  | pollFailure (failure : SourceWorkerFailure)
  | pollClear
  | pollWriterFailure (context : String)
  | pollWriterClear
  | noneEligible
  | submit (work : Work)
  | giveBack
  | queueClosed
  | countWork (work : Work)
  | decide
  | endOfScan
  | scanError (error : String)
  | discover (candidate : SourceFileCandidate) (disposition : Except String ImportDisposition)
  | submitSkip (candidate : SourceFileCandidate) (size : ℕ)
  | receive (completed : CompletedWork)
  | receiveFailure (failure : SourceWorkerFailure)
  | receiveWriterFailure (context : String)
  | receiveClosed
  | uncount (completed : CompletedWork)
  | complete (completed : CompletedWork)
  | submitHashed (completed : CompletedWork)
  | submitFailed (error : String)
  | report (after : Submitted)
  | resolve (ticket : PendingTicket) (outcome : ImportWriteOutcome)
  | resolveFailed (ticket : PendingTicket) (error : String)
  | settled (after : Submitted)
  | nextTicket
  | panic (error : String)
  | cancel
  | close
  | joined
  | finish
  | joinedWriter

def CoordinatorPhase.isResolving : CoordinatorPhase → Bool
  | .resolving _ => true
  | _ => false

/-- A ticket is resolved while there are too many, and at the end of the import. -/
def Coordinator.Resolves (c : Coordinator) (maxOutstanding : ℕ) : Prop :=
  c.phase.isResolving = true ∧ maxOutstanding ≤ c.tickets.length ∨ c.phase = .finalResolving

instance (c : Coordinator) (maxOutstanding : ℕ) : Decidable (c.Resolves maxOutstanding) :=
  inferInstanceAs (Decidable (_ ∧ _ ∨ _))

namespace System

variable (s : System)

/-- Go on with the coordinator changed, and tell the observer of events. -/
def go (coordinator : Coordinator) (events : List IngestEvent) : System :=
  { s with coordinator, observed := s.observed ++ events }

/-- The coordinator stops with an error, having cancelled the workers. -/
def cancelAndFail (error : String) : System :=
  { s with pool := s.pool.cancel, coordinator := s.coordinator.fail error }

/-- The next file of the scan. -/
def discovered (config : ExecutorConfig) (candidate : SourceFileCandidate)
    (disposition : Except String ImportDisposition) : System :=
  let c := { s.coordinator with report := s.coordinator.report.observedFile candidate }
  let event := IngestEvent.candidateDiscovered c.sequence candidate.relativePath candidate.mountId
  match disposition with
  | .error error => s.go (c.fail error) [event]
  | .ok (.skip _ size _) => s.go (c.go (.skipping candidate size)) [event]
  | .ok (.hash _) =>
      let c := c.enqueue candidate
      let occupancy := observeWorkOccupancy c.pending c.active config.effectiveWorkersPerMount
      if c.sequence + 1 < 2 ^ 64 then
        s.go { c with sequence := c.sequence + 1, phase := .draining } (event :: occupancy)
      else s.go (c.fail "catalog import sequence overflow") (event :: occupancy)

/-- A file that the catalog knows is submitted. -/
def submittedSkip (candidate : SourceFileCandidate) (size : ℕ) : System :=
  let c := s.coordinator
  let s := { s with link := s.link.submit ⟨c.sequence, .known⟩ }
  let events : List IngestEvent :=
    [.metadataSkipped c.sequence candidate.relativePath size,
      .catalogSubmitted c.sequence candidate.relativePath]
  if c.sequence + 1 < 2 ^ 64 then
    s.go { c with
      sequence := c.sequence + 1
      tickets := insertTicket ⟨c.sequence, candidate.relativePath⟩ c.tickets
      phase := .reporting (.skipped size) } events
  else s.go (c.fail "catalog import sequence overflow") events

/-- The first half of `complete_work`. -/
def completed (config : ExecutorConfig) (done : CompletedWork) : System :=
  let c := s.coordinator
  match completeActive c.active done.work.mountId with
  | .error error => s.go (c.fail error) []
  | .ok n =>
      let occupancy := observeWorkOccupancy c.pending (c.active.insert done.work.mountId n)
        config.effectiveWorkersPerMount
      s.go { c with
        active := c.active.settle done.work.mountId n
        report := c.report.hashed done.blob done.blob.outcome
        phase := .submitting done }
        (occupancy ++ [.casStored done.work.sequence done.work.candidate.relativePath
          done.blob.outcome done.blob.hash])

/-- A file that is stored is submitted. -/
def submittedHashed (done : CompletedWork) : System :=
  let c := s.coordinator
  { s with
    link := s.link.submit ⟨done.work.sequence, .imported⟩
    coordinator := { c with
      tickets := insertTicket ⟨done.work.sequence, done.work.candidate.relativePath⟩ c.tickets
      phase := .reporting (.hashed done.work) } }

end System

/-- One move of the coordinator. -/
def System.coordinate (config : ExecutorConfig) (s : System) : CoordinatorMove → Option System
  | .drain event =>
      if s.coordinator.phase.afterDrain ≠ none ∧ s.link.bridge.head? = some event then
        some ({ s with link := { s.link with bridge := s.link.bridge.tail } }.go s.coordinator
          event.passedOn.toList)
      else none
  | .drained =>
      match s.coordinator.phase.afterDrain with
      | some phase => if s.link.bridge = [] then some (s.go (s.coordinator.go phase) []) else none
      | none => none
  | .rendererFailed =>
      if s.coordinator.phase = .draining ∧ s.link.bridge = [] then
        some (s.cancelAndFail "telemetry renderer failed")
      else none
  | .pollFailure failure =>
      match s.coordinator.phase with
      | .pollingWorkers _ =>
          if s.pool.failures.head? = some failure then
            some ({ s with pool := { s.pool with failures := s.pool.failures.tail } }.cancelAndFail
              failure.context)
          else none
      | _ => none
  | .pollClear =>
      match s.coordinator.phase with
      | .pollingWorkers next =>
          if s.pool.failures = [] then some (s.go (s.coordinator.go (.pollingWriter next)) [])
          else none
      | _ => none
  | .pollWriterFailure context =>
      match s.coordinator.phase with
      | .pollingWriter _ =>
          if s.link.terminal.head? = some context then
            some ({ s with link := { s.link with terminal := s.link.terminal.tail } }.cancelAndFail
              ("catalog writer failed: " ++ context))
          else none
      | _ => none
  | .pollWriterClear =>
      match s.coordinator.phase with
      | .pollingWriter next =>
          if s.link.terminal = [] then some (s.go (s.coordinator.go (.ofPoll next)) []) else none
      | _ => none
  | .noneEligible =>
      if s.coordinator.phase = .dispatching ∧
          s.coordinator.nextIndex config.effectiveWorkersPerMount = none then
        some (s.go (s.coordinator.go (.pollingWorkers .decide)) [])
      else none
  | .submit work =>
      match s.coordinator.nextIndex config.effectiveWorkersPerMount with
      | some i =>
          if s.coordinator.phase = .dispatching ∧ s.coordinator.pending[i]? = some work ∧
              ¬s.WorkersGone ∧ s.pool.jobs.length < workerQueueCapacity then
            some ({ s with pool := { s.pool with jobs := s.pool.jobs ++ [work] } }.go
              { s.coordinator with
                pending := s.coordinator.pending.eraseIdx i, phase := .submitted work } [])
          else none
      | none => none
  | .giveBack =>
      if s.coordinator.phase = .dispatching ∧
          s.coordinator.nextIndex config.effectiveWorkersPerMount ≠ none ∧
          ¬s.WorkersGone ∧ workerQueueCapacity ≤ s.pool.jobs.length then
        some (s.go (s.coordinator.go (.pollingWorkers .decide)) [.queueBackpressure])
      else none
  | .queueClosed =>
      if s.coordinator.phase = .dispatching ∧
          s.coordinator.nextIndex config.effectiveWorkersPerMount ≠ none ∧ s.WorkersGone then
        some (s.go (s.coordinator.fail "source worker queue closed while scheduling work") [])
      else none
  | .countWork work =>
      if s.coordinator.phase = .submitted work then
        match s.coordinator.active.raise work.mountId with
        | some active =>
            some (s.go { s.coordinator with
              active, lastDispatchedMount := some work.mountId, phase := .dispatching }
              (.workQueued work.sequence work.candidate.relativePath work.mountId ::
                observeWorkOccupancy s.coordinator.pending active config.effectiveWorkersPerMount))
        | none => some (s.go (s.coordinator.fail "active mount worker counter overflow") [])
      else none
  | .decide =>
      if s.coordinator.phase = .deciding then
        if s.coordinator.scannerDone = false ∧
            s.coordinator.pending.length < schedulerQueueCapacity then
          some (s.go (s.coordinator.go (.pollingWorkers .scan)) [])
        else if s.coordinator.active.keys = [] ∧ s.coordinator.pending = [] ∧
            s.coordinator.scannerDone = true then
          some (s.go (s.coordinator.go .ticketing) [])
        else
          some (s.go (s.coordinator.go .receiving)
            (if s.coordinator.scannerDone then [] else [.queueBackpressure]))
      else none
  | .endOfScan =>
      if s.coordinator.phase = .scanning then
        some (s.go { s.coordinator with scannerDone := true, phase := .draining } [])
      else none
  | .scanError error =>
      if s.coordinator.phase = .scanning then some (s.go (s.coordinator.fail error) []) else none
  | .discover candidate disposition =>
      if s.coordinator.phase = .scanning then
        some (s.discovered config candidate disposition)
      else none
  | .submitSkip candidate size =>
      if s.coordinator.phase = .skipping candidate size ∧ ¬s.writer.Gone ∧
          s.link.requests.length < catalogQueueCapacity then
        some (s.submittedSkip candidate size)
      else none
  | .receive done =>
      if s.coordinator.phase = .receiving ∧ s.pool.completed.head? = some done then
        some ({ s with pool := { s.pool with completed := s.pool.completed.tail } }.go
          (s.coordinator.go (.received done)) [])
      else none
  | .receiveFailure failure =>
      if s.coordinator.phase = .receiving ∧ s.pool.failures.head? = some failure then
        some ({ s with pool := { s.pool with failures := s.pool.failures.tail } }.go
          (s.coordinator.fail failure.context) [])
      else none
  | .receiveWriterFailure context =>
      if s.coordinator.phase = .receiving ∧ s.link.terminal.head? = some context then
        some ({ s with link := { s.link with terminal := s.link.terminal.tail } }.cancelAndFail
          ("catalog writer failed: " ++ context))
      else none
  | .receiveClosed =>
      if s.coordinator.phase = .receiving ∧ s.pool.completed = [] ∧ s.WorkersGone then
        some (s.go (s.coordinator.fail "wait for source worker completion") [])
      else none
  | .uncount done =>
      if s.coordinator.phase = .received done then
        let retained := fetchSub s.pool.completedRetained
        some ({ s with pool := { s.pool with completedRetained := retained } }.go
          (s.coordinator.go (.completing done)) [.completedBlobs retained])
      else none
  | .complete done =>
      if s.coordinator.phase = .completing done then some (s.completed config done) else none
  | .submitHashed done =>
      if s.coordinator.phase = .submitting done ∧ ¬s.writer.Gone ∧
          s.link.requests.length < catalogQueueCapacity then
        some (s.submittedHashed done)
      else none
  | .submitFailed error =>
      match s.coordinator.phase with
      | .skipping _ _ | .submitting _ =>
          if s.writer.Gone then some (s.go (s.coordinator.fail error) []) else none
      | _ => none
  | .report after =>
      if s.coordinator.phase = .reporting after then
        some (s.go (s.coordinator.go (.resolving after))
          (observeCatalogOccupancy s.link.requests.length s.coordinator.tickets.length
              config.maxOutstanding ++
            match after with
            | .hashed work => [.catalogSubmitted work.sequence work.candidate.relativePath]
            | .skipped _ => []))
      else none
  | .resolve ticket outcome =>
      if s.coordinator.Resolves config.maxOutstanding ∧
          s.coordinator.tickets.head? = some ticket ∧
          s.link.response ticket.sequence = some (.ok outcome) then
        some (s.go { s.coordinator with
          tickets := s.coordinator.tickets.tail
          report := s.coordinator.report.applyOutcome outcome
          phase := if s.coordinator.phase = .finalResolving then .ticketing
            else s.coordinator.phase }
          [.catalogCommitted ticket.sequence ticket.sourcePath])
      else none
  | .resolveFailed ticket error =>
      if s.coordinator.Resolves config.maxOutstanding ∧
          s.coordinator.tickets.head? = some ticket ∧
          (s.link.response ticket.sequence = some (.error error) ∨
            s.link.response ticket.sequence = none ∧ s.writer.Gone) then
        some (s.go { s.coordinator.fail error with tickets := s.coordinator.tickets.tail } [])
      else none
  | .settled after =>
      if s.coordinator.phase = .resolving after ∧
          s.coordinator.tickets.length < config.maxOutstanding then
        some (s.go { s.coordinator with
          report := match after with
            | .skipped size => s.coordinator.report.skipped size
            | .hashed _ => s.coordinator.report
          phase := .draining } [])
      else none
  | .nextTicket =>
      if s.coordinator.phase = .ticketing then
        some (s.go (s.coordinator.go
          (if s.coordinator.tickets = [] then .lastDraining else .finalDraining)) [])
      else none
  | .panic error =>
      if s.coordinator.phase.CanFail then some (s.go (s.coordinator.fail error) []) else none
  | .cancel =>
      if s.coordinator.phase = .failing then
        some ({ s with pool := s.pool.cancel }.go (s.coordinator.go .closing) [.cancellation])
      else none
  | .close =>
      if s.coordinator.phase = .closing then
        some ({ s with pool := { s.pool.cancel with jobsOpen := false } }.go
          (s.coordinator.go .joining) [])
      else none
  | .joined =>
      if s.coordinator.phase = .joining ∧ s.WorkersGone then
        some (s.go (s.coordinator.go .finishing) [.shutdown])
      else none
  | .finish =>
      if s.coordinator.phase = .finishing then
        some ({ s with link := { s.link with requestsOpen := false } }.go
          (s.coordinator.go .joiningWriter) [])
      else none
  | .joinedWriter =>
      if s.coordinator.phase = .joiningWriter ∧ s.writer.Gone then
        some (s.go (s.coordinator.go .done)
          (if s.writer.phase = .stopped then [.catalogWriterFinished s.writer.checkpoints] else []))
      else none

inductive Move
  | worker (i : ℕ) (move : WorkerMove)
  | coordinator (move : CoordinatorMove)
  | writer (move : ImportWriterMove)

/-- One move of one of the threads. -/
def System.step (config : ExecutorConfig) (s : System) : Move → Option System
  | .worker i move =>
      match s.workers[i]? with
      | some w => (w.step s.pool move).map fun (w, pool, events) =>
          { s with workers := s.workers.set i w, pool, observed := s.observed ++ events }
      | none => none
  | .coordinator move => s.coordinate config move
  | .writer move => (s.writer.step config.writer s.link move).map fun (writer, link) =>
      { s with writer, link }

/-- What an import can come to. -/
def System.Reached (config : ExecutorConfig) (s : System) : Prop :=
  ∃ moves, run (System.step config) .start moves = some s

end MediaImporter
