import MediaImporter.Catalog.Connection

/-!
# The catalog writer

One thread owns the connection and serves requests in the order they arrive. Imports wait
in `pending` until there are enough of them, until the oldest has waited long enough, or
until something else comes; they are then written in one transaction. A garbage collection
session holds a transaction open over several requests. Each request brings a channel of
its own, here a number, that it is answered on at most once.

The writer is a program over statements of the connection, over its channels and over the
clock. An error ends it, and the requests that are queued at that moment are rejected.

## Main definitions

* `CatalogWriteRequest`, `Response`, `CatalogWriterEvent` — what the writer exchanges.
* `flushImports`, `handleGc`, `turn`, `writerLoop` — the writer.
* `WriterWorld`, `writerHandler` — a timing of arrivals, and what has been sent.
* `resolveDetailed` — what the sender of an import learns.
-/

namespace MediaImporter

open Program (requestT)

/-- At most `maxBatchRecords` records wait, for at most `maxBatchLatency` milliseconds. -/
structure CatalogWriterConfig where
  maxBatchRecords : ℕ
  maxBatchLatency : ℕ
  checkpointEveryBatches : ℕ
  maxBatchRecords_pos : 0 < maxBatchRecords
  checkpointEveryBatches_pos : 0 < checkpointEveryBatches

def CatalogWriterConfig.default : CatalogWriterConfig where
  maxBatchRecords := 32
  maxBatchLatency := 25
  checkpointEveryBatches := 8
  maxBatchRecords_pos := by decide
  checkpointEveryBatches_pos := by decide

structure CatalogWriterReport where
  committedBatches : ℕ
  committedRecords : ℕ
  committedGcSessions : ℕ
  checkpoints : ℕ
  deriving DecidableEq

def CatalogWriterReport.default : CatalogWriterReport := ⟨0, 0, 0, 0⟩

/-- Every response to a batch that failed names the record that failed. -/
structure ImportWriteFailure where
  sequence : ℕ
  context : String
  deriving DecidableEq

/-- An import that waits to be written. -/
structure PendingImport where
  sequence : ℕ
  request : PendingImportRequest
  response : ℕ
  deriving DecidableEq

inductive CatalogWriteRequest
  | imported (sequence : ℕ) (blob : BlobRecord) (observation : SourceObservation) (response : ℕ)
  | known (sequence : ℕ) (observation : SourceObservation) (expectedBlobSizeBytes : ℕ)
      (response : ℕ)
  | gcBegin (response : ℕ)
  | gcMark (blob : CatalogBlob) (markedAtMs : ℤ) (response : ℕ)
  | gcResurrect (blob : CatalogBlob) (response : ℕ)
  | gcSweep (blob : CatalogBlob) (response : ℕ)
  | gcFinish (commit partially : Bool) (response : ℕ)

/-- The import a request asks for, if it asks for one. -/
def pendingFrom : CatalogWriteRequest → Option PendingImport
  | .imported sequence blob observation response =>
      some ⟨sequence, .imported blob observation, response⟩
  | .known sequence observation size response => some ⟨sequence, .known observation size, response⟩
  | _ => none

inductive Response
  | import (outcome : Except ImportWriteFailure ImportWriteOutcome)
  | begun (outcome : Except String CatalogAuditSnapshot)
  | done (outcome : Except String Unit)

/-- Why a writer stopped. -/
inductive WriterError
  | report (text : String)
  /-- `catalog import batch failed at sequence ... for source path ...`. -/
  | batchFailed (sequence : ℕ) (sourcePath : SourceRelativePath) (cause : String)
  deriving DecidableEq

def WriterError.wrap (context cause : String) : WriterError := .report (context ++ ": " ++ cause)

inductive CatalogWriterEvent
  | batchOpened (size commitSequence : ℕ)
  | batchCommitted (size commitSequence : ℕ)
  | batchRolledBack (size sequence : ℕ)
  | recordCommitted (sequence : ℕ) (outcome : ImportWriteOutcome)
  | checkpointRequested (commitSequence : ℕ) (shutdown : Bool)
  | checkpointCompleted (busy log checkpointed : ℤ)
  | gcBegun
  | gcCommitted
  | gcPartiallyCommitted
  | gcRolledBack
  | shutdownFlush (size : ℕ)
  deriving DecidableEq

/-- What a receive ends with. -/
inductive Received
  | request (r : CatalogWriteRequest)
  | timeout
  | disconnected

inductive WriterCall
  | sql (call : SqlCall)
  | now
  /-- Wait for the next request, at most as long as is said. -/
  | receive (timeout : Option ℕ)
  /-- Take all requests that are queued. -/
  | drain
  | respond (response : ℕ) (r : Response)
  | emit (event : CatalogWriterEvent)

abbrev WriterAnswer : WriterCall → Type
  | .sql call => SqlAnswer call
  | .now => ℕ
  | .receive _ => Received
  | .drain => List CatalogWriteRequest
  | .respond _ _ | .emit _ => Unit

abbrev WriterProgram := ExceptT WriterError (Program WriterCall WriterAnswer)

/-- The variables of the loop. -/
structure Writer where
  pending : List PendingImport
  firstPendingAt : Option ℕ
  report : CatalogWriterReport
  gcActive : Bool

def Writer.start : Writer := ⟨[], none, .default, false⟩

/-- A statement of the connection. -/
def sql (call : SqlCall) : WriterProgram (SqlAnswer call) :=
  requestT (WriterCall.sql call)

def emit (event : CatalogWriterEvent) : WriterProgram Unit := requestT (WriterCall.emit event)

def respond (response : ℕ) (r : Response) : WriterProgram Unit :=
  requestT (WriterCall.respond response r)

/-- Add one to a counter of 64 bits. -/
def checkedSucc (counter : ℕ) (name : String) : Except WriterError ℕ :=
  if counter + 1 < 2 ^ 64 then .ok (counter + 1) else .error (.report (name ++ " counter overflow"))

/-- Go on with a result, or end the writer. -/
def orFail {α : Type} (r : Except WriterError α) : WriterProgram α := ExceptT.mk (pure r)

def checkpoint (report : CatalogWriterReport) : WriterProgram CatalogWriterReport := do
  let result ← sql .checkpoint
  let (busy, log, checkpointed) ← orFail (result.mapError (.wrap "run passive WAL checkpoint"))
  if busy < 0 ∨ log < 0 ∨ checkpointed < 0 then
    throw (.report "invalid passive checkpoint result")
  else
    let checkpoints ← orFail (checkedSucc report.checkpoints "catalog checkpoint")
    emit (.checkpointCompleted busy log checkpointed)
    return { report with checkpoints }

/-! ## Imports -/

/-- Answer every import of a batch that is rolled back. -/
def rejectBatch (pending : List PendingImport) (sequence : ℕ) (context : String) :
    WriterProgram Unit := do
  emit (.batchRolledBack pending.length sequence)
  forM pending fun item => respond item.response (.import (.error ⟨sequence, context⟩))

/-- Begin the transaction of a batch. If that fails the imports are dropped unanswered. -/
def openBatch (size firstSequence : ℕ) : WriterProgram Unit := do
  let begun ← sql .begin
  match begun with
  | .ok () => return ()
  | .error e => do
      emit (.batchRolledBack size firstSequence)
      throw (.wrap "begin catalog import batch transaction" e)

/-- Stage the imports of a batch in order. If one fails the transaction is dropped. -/
def stageBatch (pending : List PendingImport) :
    List PendingImport → WriterProgram (List ImportWriteOutcome)
  | [] => return []
  | item :: rest => do
      let recorded ← sql (.record item.request)
      match recorded with
      | .ok outcome => do
          let outcomes ← stageBatch pending rest
          return outcome :: outcomes
      | .error e => do
          rejectBatch pending item.sequence "catalog import batch rolled back"
          let _ ← sql .rollback
          throw (.batchFailed item.sequence item.request.sourcePath e)

def commitBatch (pending : List PendingImport) (firstSequence : ℕ) : WriterProgram Unit := do
  let committed ← sql .commit
  match committed with
  | .ok () => return ()
  | .error e => do
      let _ ← sql .rollback
      rejectBatch pending firstSequence "catalog import batch commit failed and was rolled back"
      throw (.wrap "commit catalog import batch" e)

/-- Count a batch that is committed. -/
def countBatch (report : CatalogWriterReport) (records : ℕ) :
    Except WriterError CatalogWriterReport := do
  let committedBatches ← checkedSucc report.committedBatches "catalog batch"
  Except.ensure (report.committedRecords + records < 2 ^ 64)
    (.report "catalog record counter overflow")
  return { report with committedBatches, committedRecords := report.committedRecords + records }

/-- Announce a record that is committed, and answer its request. -/
def answerRecord (record : PendingImport × ImportWriteOutcome) : WriterProgram Unit := do
  emit (.recordCommitted record.1.sequence record.2)
  respond record.1.response (.import (.ok record.2))

/-- Checkpoint after every so many batches. -/
def checkpointIfDue (config : CatalogWriterConfig) (count commitSequence : ℕ)
    (report : CatalogWriterReport) : WriterProgram CatalogWriterReport :=
  if count % config.checkpointEveryBatches = 0 then do
    emit (.checkpointRequested commitSequence false)
    checkpoint report
  else return report

def flushImports (config : CatalogWriterConfig) (pending : List PendingImport)
    (report : CatalogWriterReport) : WriterProgram CatalogWriterReport :=
  match pending with
  | [] => return report
  | first :: rest => do
      let size := (first :: rest).length
      let commitSequence := report.committedBatches + 1
      emit (.batchOpened size commitSequence)
      openBatch size first.sequence
      let outcomes ← stageBatch (first :: rest) (first :: rest)
      commitBatch (first :: rest) first.sequence
      let report ← orFail (countBatch report outcomes.length)
      forM ((first :: rest).zip outcomes) answerRecord
      emit (.batchCommitted size commitSequence)
      checkpointIfDue config report.committedBatches commitSequence report

/-- Flush, and wait for the first import of the next batch. -/
def flush (config : CatalogWriterConfig) (w : Writer) : WriterProgram Writer := do
  let report ← flushImports config w.pending w.report
  return { w with pending := [], firstPendingAt := none, report }

/-- Whether the oldest pending import has waited long enough. -/
def deadlinePassed (config : CatalogWriterConfig) (w : Writer) : WriterProgram Bool :=
  match w.firstPendingAt with
  | none => return false
  | some first => do
      let now ← requestT WriterCall.now
      return config.maxBatchLatency ≤ now - first

/-- Flush if the oldest pending import has waited long enough. -/
def flushExpired (config : CatalogWriterConfig) (w : Writer) : WriterProgram Writer := do
  let expired ← deadlinePassed config w
  if expired then flush config w else return w

/-- Add an import to the open batch. -/
def push (w : Writer) (item : PendingImport) : WriterProgram Writer :=
  match w.firstPendingAt with
  | some _ => return { w with pending := w.pending ++ [item] }
  | none => do
      let now ← requestT WriterCall.now
      return { w with pending := w.pending ++ [item], firstPendingAt := some now }

def flushFull (config : CatalogWriterConfig) (w : Writer) : WriterProgram Writer :=
  if config.maxBatchRecords ≤ w.pending.length then flush config w else return w

def rejectImport (item : PendingImport) (reason : String) : WriterProgram Unit :=
  respond item.response (.import (.error ⟨item.sequence, reason⟩))

/-- An import request that was just received. The deadline is checked once more, because
the request may have been received just as it passed. -/
def acceptImport (config : CatalogWriterConfig) (w : Writer) (item : PendingImport) :
    WriterProgram Writer := do
  let w ← flushExpired config w
  if w.gcActive then do
    rejectImport item "catalog writer rejects import records during an active GC session"
    return w
  else do
    let w ← push w item
    flushFull config w

/-! ## Garbage collection -/

/-- Begin a transaction and inspect the catalog in it. -/
def openGcSession : WriterProgram (Except String CatalogAuditSnapshot) := do
  let begun ← sql .begin
  match begun with
  | .error e => return .error ("begin immediate garbage collection transaction: " ++ e)
  | .ok () => do
      let current ← sql .requireCurrentSchema
      match current with
      | .error e =>
          return .error ("validate catalog schema version inside GC transaction: " ++ e)
      | .ok () => sql .inspect

/-- Begin a session, and say whether one is active now. -/
def beginGc (active : Bool) : WriterProgram (Except String CatalogAuditSnapshot × Bool) :=
  if active then return (.error "GC session already active", active)
  else do
    let result ← openGcSession
    match result with
    | .ok snapshot => do
        emit .gcBegun
        return (.ok snapshot, true)
    | .error e => do
        let rolledBack ← sql .rollback
        match rolledBack with
        | .ok () => return (.error e, false)
        | .error _ =>
            return (.error ("GC inspection failed and rollback cleanup also failed: " ++ e), false)

def stageGcStatement (active : Bool) (statement : GcStatement) :
    WriterProgram (Except String Unit) :=
  if active then sql (.stage statement) else return .error "no active GC session"

/-- Count a session that is committed, and checkpoint after every so many of them. -/
def countGcSession (config : CatalogWriterConfig) (report : CatalogWriterReport)
    (partially : Bool) : WriterProgram CatalogWriterReport := do
  let committedGcSessions ← orFail (checkedSucc report.committedGcSessions "catalog GC session")
  emit (if partially then .gcPartiallyCommitted else .gcCommitted)
  checkpointIfDue config committedGcSessions report.committedBatches
    { report with committedGcSessions }

/-- End a session. When a checkpoint fails after the commit the writer ends without
answering the request. -/
def finishGc (config : CatalogWriterConfig) (w : Writer) (commit partially : Bool) :
    WriterProgram (Except String Unit × Writer) :=
  if ¬ w.gcActive then return (.error "no active GC session", w)
  else do
    let result ← sql (if commit then .commit else .rollback)
    match finished commit result with
    | .error e => return (.error e, w)
    | .ok () =>
        if commit then do
          let report ← countGcSession config w.report partially
          return (.ok (), { w with gcActive := false, report })
        else do
          emit .gcRolledBack
          return (.ok (), { w with gcActive := false })
where
  /-- The result of the statement that ends a session. -/
  finished : (commit : Bool) → SqlAnswer (if commit then .commit else .rollback) →
      Except String Unit
    | true, r => r.mapError ("commit garbage collection transaction: " ++ ·)
    | false, r => r.mapError ("rollback garbage collection transaction: " ++ ·)

/-- Serve a request of a garbage collection. -/
def handleGc (config : CatalogWriterConfig) (w : Writer) :
    CatalogWriteRequest → WriterProgram Writer
  | .gcBegin response => do
      let (outcome, gcActive) ← beginGc w.gcActive
      respond response (.begun outcome)
      return { w with gcActive }
  | .gcMark blob markedAtMs response => stage response (.mark blob markedAtMs)
  | .gcResurrect blob response => stage response (.resurrect blob)
  | .gcSweep blob response => stage response (.sweep blob)
  | .gcFinish commit partially response => do
      let (result, w) ← finishGc config w commit partially
      respond response (.done result)
      return w
  | .imported _ _ _ _ | .known _ _ _ _ => return w
where
  /-- Stage a statement and answer the request. -/
  stage (response : ℕ) (statement : GcStatement) : WriterProgram Writer := do
    let result ← stageGcStatement w.gcActive statement
    respond response (.done result)
    return w

/-! ## The loop -/

/-- Wait for a request, but not beyond the deadline of the open batch. -/
def receive (config : CatalogWriterConfig) (w : Writer) : WriterProgram Received :=
  match w.firstPendingAt with
  | none => requestT (WriterCall.receive none)
  | some first => do
      let now ← requestT WriterCall.now
      requestT (WriterCall.receive (some (config.maxBatchLatency - (now - first))))

/-- All senders are gone: write what is pending, and stop. -/
def shutDown (config : CatalogWriterConfig) (w : Writer) : WriterProgram CatalogWriterReport :=
  if w.gcActive then do
    let _ ← sql .rollback
    throw (.report "catalog writer shut down with an active GC session")
  else do
    let report ← flushAtShutdown
    emit (.checkpointRequested report.committedBatches true)
    checkpoint report
where
  /-- Flush, and announce it if there was something to flush. -/
  flushAtShutdown : WriterProgram CatalogWriterReport := do
    let report ← flushImports config w.pending w.report
    match w.pending with
    | [] => return report
    | first :: rest => do
        emit (.shutdownFlush (first :: rest).length)
        return report

/-- Serve what a receive ended with. -/
def serve (config : CatalogWriterConfig) (w : Writer) :
    Received → WriterProgram (Writer ⊕ CatalogWriterReport)
  | .request r => do
      match pendingFrom r with
      | some item => Sum.inl <$> acceptImport config w item
      | none => do
          let w ← flush config w
          Sum.inl <$> handleGc config w r
  | .timeout => Sum.inl <$> flush config w
  | .disconnected => Sum.inr <$> shutDown config w

/-- One pass through the loop. -/
def turn (config : CatalogWriterConfig) (w : Writer) :
    WriterProgram (Writer ⊕ CatalogWriterReport) := do
  let expired ← deadlinePassed config w
  if expired then Sum.inl <$> flush config w
  else do
    let received ← receive config w
    serve config w received

/-- The answer to a request that the writer will not serve. -/
def terminalResponse : CatalogWriteRequest → ℕ × Response
  | .imported sequence _ _ response | .known sequence _ _ response =>
      (response, .import (.error ⟨sequence, "catalog writer terminated before completing request"⟩))
  | .gcBegin response => (response, .begun (.error "catalog writer terminated before beginning GC"))
  | .gcMark _ _ response | .gcResurrect _ response | .gcSweep _ response
  | .gcFinish _ _ response =>
      (response, .done (.error "catalog writer terminated before completing GC request"))

/-- Reject everything that is queued, and report why the writer stopped. -/
def rejectQueued {α : Type} (e : WriterError) : WriterProgram α := do
  let requests ← requestT WriterCall.drain
  forM requests fun r => respond (terminalResponse r).1 (terminalResponse r).2
  throw e

/-- At most `n` passes through the loop. The report is returned when all senders are gone. -/
def writerLoop (config : CatalogWriterConfig) (n : ℕ) :
    WriterProgram (Writer ⊕ CatalogWriterReport) :=
  tryCatch (Program.iterate (turn config) n .start) rejectQueued

/-! ## The writer's world -/

inductive Message
  | event (e : CatalogWriterEvent)
  | response (channel : ℕ) (r : Response)

/-- The responses that were sent, in order. -/
def responses (outbox : List Message) : List (ℕ × Response) := outbox.filterMap fun
  | .event _ => none
  | .response channel r => some (channel, r)

/-- Wait for the response to an import. When the writer drops the request unanswered the
channel is closed. -/
def resolveDetailed (outbox : List Message) (item : PendingImport) :
    Except ImportWriteFailure ImportWriteOutcome :=
  match (responses outbox).find? (·.1 = item.response) with
  | some (_, .import outcome) => outcome
  | _ => .error ⟨item.sequence, "wait for catalog writer record outcome"⟩

/-- `arrivals` are the results of the receives to come, `ticks` counts the clock readings
so far. When no arrivals are left, all senders are gone. -/
structure WriterWorld where
  connection : SqlConnection
  arrivals : List Received
  ticks : ℕ
  outbox : List Message

/-- What the writer meets. `queued` is how many of the arrivals to come are in the channel
when the writer stops. -/
structure WriterEnvironment where
  clock : ℕ → ℕ
  queued : ℕ
  counts : ℕ → ℤ × ℤ × ℤ
  faults : ℕ → Option SqlConnection.SqlFault

/-- The request that was received, if one was. -/
def Received.toRequest : Received → Option CatalogWriteRequest
  | .request r => some r
  | _ => none

section Handler

variable [SqlArithmetic]

def writerHandler (env : WriterEnvironment) : Program.Handler WriterCall WriterAnswer WriterWorld
  | .sql call, world =>
      let r := world.connection.answer env.counts env.faults call
      (r.1, { world with connection := r.2 })
  | .now, world => (env.clock world.ticks, { world with ticks := world.ticks + 1 })
  | .receive _, world => match world.arrivals with
    | [] => (.disconnected, world)
    | received :: arrivals => (received, { world with arrivals })
  | .drain, world =>
      ((world.arrivals.filterMap Received.toRequest).take env.queued, { world with arrivals := [] })
  | .respond channel r, world =>
      ((), { world with outbox := world.outbox ++ [.response channel r] })
  | .emit e, world => ((), { world with outbox := world.outbox ++ [.event e] })

end Handler

/-! ## Statements that do not fail -/

/-- Nothing fails that does not have to: no statement does because of the engine, and
checkpoints answer with valid counts. -/
structure WriterEnvironment.Faultless (env : WriterEnvironment) : Prop where
  faults : ∀ n, env.faults n = none
  counts : ∀ n, 0 ≤ (env.counts n).1 ∧ 0 ≤ (env.counts n).2.1 ∧ 0 ≤ (env.counts n).2.2

/-- A part of the writer has run. It leaves what is committed and the open transaction as
given, has sent some responses, and has not read the clock or received anything. -/
structure Sends (world : WriterWorld) (committed : Catalog) (transaction : Option Catalog)
    (sent : List (ℕ × Response)) (world' : WriterWorld) : Prop where
  committed : world'.connection.committed = committed
  transaction : world'.connection.transaction = transaction
  arrivals : world'.arrivals = world.arrivals
  ticks : world'.ticks = world.ticks
  responses : responses world'.outbox = responses world.outbox ++ sent

section Sends

variable {world world' world'' : WriterWorld} {c c' : Catalog} {t t' : Option Catalog}
  {sent sent' : List (ℕ × Response)}

theorem Sends.refl (world : WriterWorld) :
    Sends world world.connection.committed world.connection.transaction [] world :=
  ⟨rfl, rfl, rfl, rfl, (List.append_nil _).symm⟩

theorem Sends.trans (h : Sends world c t sent world') (h' : Sends world' c' t' sent' world'') :
    Sends world c' t' (sent ++ sent') world'' where
  committed := h'.committed
  transaction := h'.transaction
  arrivals := h'.arrivals.trans h.arrivals
  ticks := h'.ticks.trans h.ticks
  responses := by rw [h'.responses, h.responses, List.append_assoc]

/-- A silent part after another one. -/
theorem Sends.after (h : Sends world c t sent world') (h' : Sends world' c' t' [] world'') :
    Sends world c' t' sent world'' := by
  simpa using h.trans h'

end Sends

theorem responses_append (a b : List Message) : responses (a ++ b) = responses a ++ responses b :=
  List.filterMap_append

section Exec

variable [SqlArithmetic] {env : WriterEnvironment} {world : WriterWorld} {c t t' : Catalog}

theorem SqlConnection.answer_of_faultless (henv : env.Faultless) (connection : SqlConnection)
    (call : SqlCall) : connection.answer env.counts env.faults call =
      ((connection.perform env.counts call).1,
        { (connection.perform env.counts call).2 with
          statements := connection.statements + 1 }) := by
  unfold answer
  rw [henv.faults]

/-- A statement whose effect on the connection is known. -/
theorem exec_sql (henv : env.Faultless) {call : SqlCall} {answer : SqlAnswer call}
    (connection : SqlConnection)
    (hperform : world.connection.perform env.counts call = (answer, connection)) :
    ∃ world', Program.exec (writerHandler env) (sql call) world = (.ok answer, world') ∧
      Sends world connection.committed connection.transaction [] world' := by
  have hanswer : world.connection.answer env.counts env.faults call =
      (answer, { connection with statements := world.connection.statements + 1 }) := by
    rw [SqlConnection.answer_of_faultless henv, hperform]
  have hexec : Program.exec (writerHandler env) (sql call) world =
      (.ok (world.connection.answer env.counts env.faults call).1,
        { world with connection := (world.connection.answer env.counts env.faults call).2 }) := rfl
  rw [hanswer] at hexec
  exact ⟨_, hexec, rfl, rfl, rfl, rfl, (List.append_nil _).symm⟩

theorem exec_begin (henv : env.Faultless) (ht : world.connection.transaction = none) :
    ∃ world', Program.exec (writerHandler env) (sql .begin) world = (.ok (.ok ()), world') ∧
      Sends world world.connection.committed (some world.connection.committed) [] world' :=
  exec_sql henv { world.connection with transaction := some world.connection.committed }
    (by simp [SqlConnection.perform, ht])

theorem exec_commit (henv : env.Faultless) (ht : world.connection.transaction = some t) :
    ∃ world', Program.exec (writerHandler env) (sql .commit) world = (.ok (.ok ()), world') ∧
      Sends world t none [] world' :=
  exec_sql henv { world.connection with committed := t, transaction := none }
    (by simp [SqlConnection.perform, ht])

theorem exec_rollback (henv : env.Faultless) (ht : world.connection.transaction = some t) :
    ∃ world', Program.exec (writerHandler env) (sql .rollback) world = (.ok (.ok ()), world') ∧
      Sends world world.connection.committed none [] world' :=
  exec_sql henv { world.connection with transaction := none }
    (by simp [SqlConnection.perform, ht])

theorem exec_record_ok (henv : env.Faultless) (ht : world.connection.transaction = some t)
    {request : PendingImportRequest} {outcome : ImportWriteOutcome}
    (hrecord : request.record t = .ok (outcome, t')) :
    ∃ world', Program.exec (writerHandler env) (sql (.record request)) world =
        (.ok (.ok outcome), world') ∧
      Sends world world.connection.committed (some t') [] world' :=
  exec_sql henv { world.connection with transaction := some t' }
    (by simp [SqlConnection.perform, SqlConnection.current, SqlConnection.write, ht, hrecord])

theorem exec_record_error (henv : env.Faultless) (ht : world.connection.transaction = some t)
    {request : PendingImportRequest} {e : String} (hrecord : request.record t = .error e) :
    ∃ world', Program.exec (writerHandler env) (sql (.record request)) world =
        (.ok (.error e), world') ∧
      Sends world world.connection.committed (some t) [] world' := by
  rw [← ht]
  exact exec_sql henv world.connection
    (by simp [SqlConnection.perform, SqlConnection.current, ht, hrecord])

theorem exec_emit (env : WriterEnvironment) (event : CatalogWriterEvent) (world : WriterWorld) :
    ∃ world', Program.exec (writerHandler env) (emit event) world = (.ok (), world') ∧
      Sends world world.connection.committed world.connection.transaction [] world' :=
  ⟨{ world with outbox := world.outbox ++ [.event event] }, rfl, rfl, rfl, rfl, rfl,
    responses_append _ _⟩

theorem exec_respond (env : WriterEnvironment) (channel : ℕ) (r : Response) (world : WriterWorld) :
    ∃ world', Program.exec (writerHandler env) (respond channel r) world = (.ok (), world') ∧
      Sends world world.connection.committed world.connection.transaction [(channel, r)] world' :=
  ⟨{ world with outbox := world.outbox ++ [.response channel r] }, rfl, rfl, rfl, rfl, rfl,
    responses_append _ _⟩

theorem exec_orFail {α : Type} (r : Except WriterError α) (world : WriterWorld) :
    Program.exec (writerHandler env) (orFail r) world = (r, world) := rfl

/-- A loop that sends a response for each element. -/
theorem exec_forM_sends {α : Type} (env : WriterEnvironment) (response : α → ℕ × Response)
    {l : List α}
    {f : α → WriterProgram PUnit}
    (hf : ∀ x world, ∃ world', Program.exec (writerHandler env) (f x) world = (.ok ⟨⟩, world') ∧
      Sends world world.connection.committed world.connection.transaction [response x] world')
    (world : WriterWorld) : ∃ world',
      Program.exec (writerHandler env) (forM l f) world = (.ok ⟨⟩, world') ∧
      Sends world world.connection.committed world.connection.transaction (l.map response)
        world' := by
  induction l generalizing world with
  | nil => exact ⟨world, rfl, .refl world⟩
  | cons x l ih =>
      obtain ⟨world', hx, hsends⟩ := hf x world
      obtain ⟨world'', hl, hsends'⟩ := ih world'
      rw [hsends.committed, hsends.transaction] at hsends'
      refine ⟨world'', ?_, hsends.trans hsends'⟩
      rw [List.forM_cons, Program.exec_bind_ok _ hx, hl]

theorem exec_rejectBatch (env : WriterEnvironment) (pending : List PendingImport) (sequence : ℕ)
    (context : String)
    (world : WriterWorld) : ∃ world',
      Program.exec (writerHandler env) (rejectBatch pending sequence context) world =
        (.ok (), world') ∧
      Sends world world.connection.committed world.connection.transaction
        (pending.map fun item => (item.response, .import (.error ⟨sequence, context⟩))) world' := by
  obtain ⟨world₁, hemit, hsends₁⟩ := exec_emit env
    (.batchRolledBack pending.length sequence) world
  obtain ⟨world₂, hloop, hsends₂⟩ := exec_forM_sends env (l := pending)
    (fun item : PendingImport => (item.response, .import (.error ⟨sequence, context⟩)))
    (fun item world => exec_respond env item.response _ world) world₁
  rw [hsends₁.committed, hsends₁.transaction] at hsends₂
  refine ⟨world₂, ?_, by simpa using hsends₁.trans hsends₂⟩
  rw [rejectBatch, Program.exec_bind_ok _ hemit, hloop]

end Exec

end MediaImporter
