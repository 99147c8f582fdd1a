import MediaImporter.Catalog.Writer
import MediaImporter.Gc.Plan

/-!
# Running a garbage collection

A collection holds one session of the catalog writer open. It first compares the CAS with
the catalog. Then it stages the marks and the removals of marks, and for each blob that is
to be swept it unlinks the file, makes that durable, and stages the deletion of the row.
Last it commits the session.

An error before the first unlink rolls the session back. After that the rows of the files
that are gone must go too, so what has been staged is committed all the same.

A dry run reads a copy of the catalog and the same files, and changes nothing.

## Main definitions

* `GcCall`, `GcWorld`, `gcHandler` — the store, the catalog writer and the environment.
* `runPreflight`, `applyPlan` — the two halves of a collection.
* `collectDryRun`, `collectReal` — the commands.
-/

namespace MediaImporter

open Utf8 UnixPath
open Program (requestT)

/-! ## The world of a collection -/

inductive GcCall
  /-- A call to the directory of the store. -/
  | store (call : DirectoryCall)
  /-- Read the store as it is now. -/
  | view
  /-- A step of the catalog writer. -/
  | writer (call : WriterCall)
  /-- Open the catalog for writing. -/
  | openCatalog
  /-- Open a copy of the catalog for reading. -/
  | openCopy
  | now
  /-- Whether the telemetry renderer has failed. -/
  | telemetryFailed

abbrev GcAnswer : GcCall → Type
  | .store call => FsAnswer call
  | .view => StoreReader
  | .writer call => WriterAnswer call
  | .openCatalog => Except String Unit
  | .openCopy => Except String Catalog
  | .now => ℤ
  | .telemetryFailed => Bool

structure GcWorld where
  store : Store
  writer : WriterWorld
  /-- How many calls were made. -/
  calls : ℕ

/-- The catalog that survives the program. -/
def GcWorld.catalog (w : GcWorld) : Catalog := w.writer.connection.committed

/-- What a collection meets: failures of the file system and of the engine, reads that
fail, the clocks, and when the telemetry renderer fails. A statement that is staged can also
fail without any effect. -/
structure GcEnvironment where
  storeFaults : FaultPlan Name Bytes UInt8
  readFails : ReadCall → Bool
  writer : WriterEnvironment
  stageFails : ℕ → Option String
  openFails : Option String
  clock : ℕ → ℤ
  telemetryFails : ℕ → Bool

/-- A catalog that exists and has the current schema and write-ahead logging. -/
def openExistingGcCatalog (c : Catalog) : Except String Unit := do
  Except.ensure (c.schema.userVersion = currentSchemaVersion)
    "catalog schema version is unsupported"
  Except.ensure (c.schema.journalMode.map Char.toLower = "wal".toList)
    "garbage collection requires an existing WAL-mode catalog"

/-- The answer of an open that can fail for reasons outside of the catalog. -/
def orElseFails {α : Type} (fails : Option String) (r : Except String α) : Except String α :=
  match fails with
  | some e => .error e
  | none => r

/-- Answer a step of the writer. -/
def writerAnswer [SqlArithmetic] (env : GcEnvironment) (calls : ℕ) :
    Program.Handler WriterCall WriterAnswer WriterWorld
  | .sql (.stage statement), w => match env.stageFails calls with
    | some e => (.error e, { w with
        connection := { w.connection with statements := w.connection.statements + 1 } })
    | none => writerHandler env.writer (.sql (.stage statement)) w
  | call, w => writerHandler env.writer call w

def gcHandler [SqlArithmetic] (env : GcEnvironment) : Program.Handler GcCall GcAnswer GcWorld
  | .store call, w =>
      let r := w.store.answer env.storeFaults w.calls call
      (r.1, { w with store := r.2, calls := w.calls + 1 })
  | .view, w => (⟨w.store, env.readFails⟩, { w with calls := w.calls + 1 })
  | .writer call, w =>
      let r := writerAnswer env w.calls call w.writer
      (r.1, { w with writer := r.2, calls := w.calls + 1 })
  | .openCatalog, w =>
      (orElseFails env.openFails (openExistingGcCatalog w.catalog), { w with calls := w.calls + 1 })
  | .openCopy, w => (orElseFails env.openFails (.ok w.catalog), { w with calls := w.calls + 1 })
  | .now, w => (env.clock w.calls, { w with calls := w.calls + 1 })
  | .telemetryFailed, w => (env.telemetryFails w.calls, { w with calls := w.calls + 1 })

/-- A part of a collection, which can fail in the way `ε`. -/
abbrev GcProgram (ε α : Type) := ExceptT ε (Program GcCall GcAnswer) α

def gcCall {ε : Type} (call : GcCall) : GcProgram ε (GcAnswer call) := requestT call

/-- A result that is there already. -/
def ofExcept {ε α : Type} (r : Except ε α) : GcProgram ε α := ExceptT.mk (pure r)

/-- Run a part without failing: its failure is a result. -/
def attempt {ε ε' α : Type} (p : GcProgram ε' α) : GcProgram ε (Except ε' α) :=
  ExceptT.mk (Except.ok <$> ExceptT.run p)

/-- A function of the store. -/
def onGcStore {α : Type} (p : FsProgram α) : GcProgram String α :=
  Program.embedT GcCall.store (fun _ => id) p

/-- A step of the writer. -/
def onWriter {α : Type} (p : WriterProgram α) : GcProgram WriterError α :=
  Program.embedT GcCall.writer (fun _ => id) p

def checkGcTelemetry : GcProgram String Unit := do
  let failed ← gcCall .telemetryFailed
  if failed then throw "telemetry renderer failed" else return ()

/-! ## Removing blobs -/

def revalidateBlobForRemoval (hash : BlobHash) (expected : BlobFileIdentity) :
    FsProgram Unit := do
  let metadata ← fsCall (.symlinkMetadata (blobPath hash))
  match metadata with
  | .error _ => throw "revalidate GC candidate"
  | .ok metadata => match BlobFileIdentity.fromMetadata metadata with
    | none => throw "GC candidate is no longer a regular file"
    | some actual =>
        if actual = expected then return () else throw "GC candidate changed after preflight"

def removeBlobFile (hash : BlobHash) : FsProgram Unit := do
  let removed ← fsCall (.removeFile (blobPath hash))
  expectOk removed "remove GC candidate"

def syncBlobParent (hash : BlobHash) : FsProgram Unit := do
  let synced ← fsCall (.syncDirectory (blobPath hash).dropLast)
  expectOk synced "sync containing directory after removing GC candidate"

/-- Make the deepest directory that exists durable, of the given ones, deepest first. -/
def syncFirstExisting : List (List Name) → FsProgram Unit
  | [] => throw "absent GC candidate escaped the validated store root"
  | directory :: above => do
      let metadata ← fsCall (.symlinkMetadata directory)
      match metadata with
      | .ok ⟨.directory, _⟩ =>
          let synced ← fsCall (.syncDirectory directory)
          expectOk synced "sync nearest existing directory for absent GC candidate"
      | .ok _ => throw "canonical parent for absent GC candidate is not a directory"
      | .error .notFound => syncFirstExisting above
      | .error _ => throw "stat canonical parent for absent GC candidate"

/-- The directories above a blob, up to the root of the store. -/
def syncNearestExistingBlobParent (hash : BlobHash) : FsProgram Unit :=
  syncFirstExisting (blobPath hash).dropLast.inits.reverse

/-! ## Preflight -/

section Preflight

variable (digest : Bytes → BlobHash)

def runPreflight (dryRun : Bool) (snapshot : CatalogAuditSnapshot) :
    GcProgram String Preflight := do
  let (plan, reachable) ← ofExcept (buildPlan snapshot)
  checkGcTelemetry
  let reader ← gcCall .view
  let cas := inspectCas reader
  let report := initialReport dryRun snapshot plan reachable
  let start : Candidates := ⟨0, 0, report.findings ++ compareCas reader cas snapshot, []⟩
  let candidates ← plan.sweeps.foldlM (fun candidates blob => do
    checkGcTelemetry
    ofExcept (addCandidate digest reader cas candidates blob)) start
  return candidates.preflight plan report

end Preflight

/-! ## The session -/

/-- The writer thread: its variables, or the error it stopped with. -/
abbrev WriterThread := Except WriterError Writer

/-- Send the writer a request and wait for the answer. A writer that stops meanwhile drops
the request. -/
def gcRequest {ε : Type} (thread : WriterThread)
    (serve : Writer → WriterProgram (Except String Unit × Writer)) :
    GcProgram ε (Except String Unit × WriterThread) :=
  match thread with
  | .error e => return (.error "send GC request to catalog writer", .error e)
  | .ok w => do
      let served ← attempt (onWriter (serve w))
      match served with
      | .ok (answer, w) => return (answer, .ok w)
      | .error e => return (.error "wait for GC response from catalog writer", .error e)

def stageInSession {ε : Type} (statement : GcStatement) (thread : WriterThread) :
    GcProgram ε (Except String Unit × WriterThread) :=
  gcRequest thread fun w => do
    let result ← stageGcStatement w.gcActive statement
    return (result, w)

def finishSession {ε : Type} (commit partially : Bool) (thread : WriterThread) :
    GcProgram ε (Except String Unit × WriterThread) :=
  gcRequest thread fun w => finishGc .default w commit partially

def rollbackSession {ε : Type} (thread : WriterThread) :
    GcProgram ε (Except String Unit × WriterThread) :=
  finishSession false false thread

/-- Commit. If that fails the session is rolled back. -/
def commitSession {ε : Type} (partially : Bool) (thread : WriterThread) :
    GcProgram ε (Except String Unit × WriterThread) := do
  let (committed, thread) ← finishSession true partially thread
  match committed with
  | .ok () => return (.ok (), thread)
  | .error e => do
      let (rolledBack, thread) ← rollbackSession thread
      match rolledBack with
      | .ok () => return (.error ("GC commit failed; rolled back active session: " ++ e), thread)
      | .error r =>
          return (.error ("GC commit failed and rollback also failed: " ++ r ++ ": " ++ e), thread)

/-- Close the request channel and join the writer. -/
def finishWriter {ε : Type} (thread : WriterThread) : GcProgram ε (Except WriterError Unit) :=
  match thread with
  | .error e => return .error e
  | .ok w => attempt (do
      let _ ← onWriter (shutDown .default w)
      return ())

/-! ## Applying a plan -/

structure StagedProgress where
  marks : ℕ
  resurrections : ℕ
  sweeps : ℕ
  reclaimed : ℕ
  deriving DecidableEq

namespace StagedProgress

def default : StagedProgress := ⟨0, 0, 0, 0⟩

def checkedMark (p : StagedProgress) : Except String StagedProgress := do
  let marks ← checkedAdd p.marks 1 "completed mark counter overflow"
  return { p with marks }

def checkedResurrection (p : StagedProgress) : Except String StagedProgress := do
  let resurrections ← checkedAdd p.resurrections 1 "completed resurrection counter overflow"
  return { p with resurrections }

def checkedSweep (p : StagedProgress) (sizeBytes : ℕ) (sourceState : SweepSourceState) :
    Except String StagedProgress := do
  let reclaimed ← match sourceState with
    | .present => checkedAdd p.reclaimed sizeBytes "reclaimed byte count overflow"
    | .alreadyAbsent => .ok p.reclaimed
  let sweeps ← checkedAdd p.sweeps 1 "completed sweep counter overflow"
  return { p with sweeps, reclaimed }

end StagedProgress

structure PhysicalProgress where
  casFilesRemoved : ℕ
  bytesUnlinked : ℕ
  deriving DecidableEq

namespace PhysicalProgress

def checkedAfterPresentUnlink (report : GcReport) (sizeBytes : ℕ) :
    Except String PhysicalProgress := do
  let casFilesRemoved ← checkedAdd report.casFilesRemoved 1 "removed CAS file counter overflow"
  let bytesUnlinked ← checkedAdd report.bytesUnlinked sizeBytes "unlinked byte count overflow"
  return { casFilesRemoved, bytesUnlinked }

def assignTo (p : PhysicalProgress) (report : GcReport) : GcReport :=
  { report with casFilesRemoved := p.casFilesRemoved, bytesUnlinked := p.bytesUnlinked }

end PhysicalProgress

/-- The variables of the loops. -/
structure ApplyState where
  thread : WriterThread
  progress : StagedProgress
  stagedActions : List GcAction
  report : GcReport
  sweepMutationsStarted : Bool

def ApplyState.start (thread : WriterThread) (report : GcReport) : ApplyState :=
  ⟨thread, .default, [], report, false⟩

/-- How the loops end early, with the error. -/
inductive ApplyStop
  | abort (state : ApplyState) (error : String)
  | commitPartial (state : ApplyState) (error : String)

abbrev ApplyProgram (α : Type) := GcProgram ApplyStop α

/-- Go on with a result, or abort. -/
def orAbort {α : Type} (s : ApplyState) (r : Except String α) : ApplyProgram α :=
  match r with
  | .ok a => return a
  | .error e => throw (.abort s e)

/-- A part whose failure aborts. -/
def attemptOrAbort {α : Type} (s : ApplyState) (p : GcProgram String α) : ApplyProgram α := do
  let r ← attempt p
  orAbort s r

/-- Stage a statement, and count it. The error of a failed statement gets a context. -/
def stageAction (s : ApplyState) (statement : GcStatement) (context : String)
    (action : GcAction) (progress : StagedProgress) : ApplyProgram ApplyState := do
  let (staged, thread) ← stageInSession statement s.thread
  let s := { s with thread }
  orAbort s (staged.mapError (context ++ ·))
  return { s with progress, stagedActions := s.stagedActions ++ [action] }

def applyMark (markedAtMs : ℤ) (s : ApplyState) (blob : CatalogBlob) :
    ApplyProgram ApplyState := do
  attemptOrAbort s checkGcTelemetry
  let next ← orAbort s s.progress.checkedMark
  stageAction s (.mark blob markedAtMs) "" (actionFor .mark blob none) next

def applyResurrection (s : ApplyState) (blob : CatalogBlob) : ApplyProgram ApplyState := do
  attemptOrAbort s checkGcTelemetry
  let next ← orAbort s s.progress.checkedResurrection
  stageAction s (.resurrect blob) "" (actionFor .resurrect blob none) next

/-- Unlink the file of a candidate. After the unlink there is no way back. -/
def unlinkPresent (s : ApplyState) (candidate : SweepCandidate) (next : PhysicalProgress) :
    ApplyProgram ApplyState := do
  let hash := candidate.blob.hash
  let identity ← match candidate.identity with
    | some identity => pure identity
    | none => throw (.abort s "missing preflight identity")
  attemptOrAbort s (onGcStore (revalidateBlobForRemoval hash identity))
  attemptOrAbort s (onGcStore (removeBlobFile hash))
  let s := { s with report := next.assignTo s.report, sweepMutationsStarted := true }
  let synced ← attempt (onGcStore (syncBlobParent hash))
  match synced with
  | .ok () => return s
  | .error e => throw (.commitPartial s e)

/-- Make the file of a candidate go, if it is there. -/
def applyFile (s : ApplyState) (candidate : SweepCandidate) : ApplyProgram ApplyState :=
  match candidate.sourceState with
  | .present => do
      let next ← orAbort s
        (PhysicalProgress.checkedAfterPresentUnlink s.report candidate.blob.sizeBytes)
      unlinkPresent s candidate next
  | .alreadyAbsent => do
      attemptOrAbort s (onGcStore (syncNearestExistingBlobParent candidate.blob.hash))
      return s

def applySweep (s : ApplyState) (candidate : SweepCandidate) : ApplyProgram ApplyState := do
  attemptOrAbort s checkGcTelemetry
  let next ← orAbort s
    (s.progress.checkedSweep candidate.blob.sizeBytes candidate.sourceState)
  let s ← applyFile s candidate
  let s ← stageAction s (.sweep candidate.blob)
    "CAS file may already be absent; a later GC can resume the interrupted sweep: "
    (actionFor .sweep candidate.blob (some candidate.sourceState)) next
  return { s with sweepMutationsStarted := true }

/-- Stage everything that is planned. -/
def stagePlan (preflight : Preflight) (markedAtMs : ℤ) (s : ApplyState) :
    ApplyProgram ApplyState := do
  let s ← preflight.plan.marks.foldlM (applyMark markedAtMs) s
  let s ← preflight.plan.resurrections.foldlM applyResurrection s
  preflight.sweepCandidates.foldlM applySweep s

/-- The report once the session is committed. -/
def finishCommitted (s : ApplyState) : GcReport :=
  { s.report with
    completedMarks := s.progress.marks
    completedResurrections := s.progress.resurrections
    completedSweeps := s.progress.sweeps
    bytesReclaimed := s.progress.reclaimed
    actions := s.stagedActions }

/-- The result of applying a plan, with the writer as it is then. -/
abbrev Applied := Except String GcOutcome × WriterThread

def commitPartial {ε : Type} (s : ApplyState) (mutationError : String) : GcProgram ε Applied := do
  let (committed, thread) ← commitSession true s.thread
  match committed with
  | .ok () => return (.ok (.incomplete (finishCommitted s) mutationError), thread)
  | .error e =>
      return (.ok (.incomplete s.report
        (mutationError ++ "; additionally failed to commit earlier GC progress: " ++ e)), thread)

def abortApply {ε : Type} (s : ApplyState) (operationError : String) : GcProgram ε Applied :=
  if s.sweepMutationsStarted then commitPartial s operationError
  else do
    let (rolledBack, thread) ← rollbackSession s.thread
    match rolledBack with
    | .ok () => return (.ok (.incomplete s.report operationError), thread)
    | .error e =>
        return (.error (operationError ++ "; additionally, GC rollback cleanup failed: " ++ e),
          thread)

/-- Commit the session in which everything planned is staged. -/
def commitApplied {ε : Type} (s : ApplyState) : GcProgram ε Applied := do
  let (committed, thread) ← commitSession false s.thread
  match committed with
  | .ok () => do
      let checked ← attempt checkGcTelemetry
      match checked with
      | .ok () => return (.ok (.complete (finishCommitted s)), thread)
      | .error e => return (.error e, thread)
  | .error e => return (.ok (.incomplete s.report e), thread)

def applyPlan {ε : Type} (thread : WriterThread) (preflight : Preflight) :
    GcProgram ε Applied := do
  let markedAtMs ← gcCall .now
  let staged ← attempt (stagePlan preflight markedAtMs (.start thread preflight.report))
  match staged with
  | .ok s => commitApplied s
  | .error (.abort s e) => abortApply s e
  | .error (.commitPartial s e) => commitPartial s e

/-! ## The commands -/

section Collect

variable (digest : Bytes → BlobHash)

/-- The actions a plan would take. -/
def plannedActions (preflight : Preflight) : List GcAction :=
  preflight.plan.marks.map (actionFor .mark · none) ++
  preflight.plan.resurrections.map (actionFor .resurrect · none) ++
  preflight.sweepCandidates.map fun c => actionFor .sweep c.blob (some c.sourceState)

def collectDryRun : GcProgram String GcOutcome := do
  let opened ← gcCall .openCopy
  let catalog ← ofExcept opened
  ofExcept (requireCurrentSchema catalog)
  let preflight ← runPreflight digest true (inspectCatalogConnection catalog)
  if preflight.report.findings = [] then
    forM (plannedActions preflight) fun _ => checkGcTelemetry
    return .complete { preflight.report with actions := plannedActions preflight }
  else return .blocked preflight.report

/-- The text of the error a writer stopped with. -/
def WriterError.text : WriterError → String
  | .report text => text
  | .batchFailed _ _ cause => "catalog import batch failed: " ++ cause

/-- The writer's own error wins over the operation's. -/
def joinResults (context : String) (result : Except String GcOutcome)
    (finish : Except WriterError Unit) : Except String GcOutcome :=
  match result, finish with
  | .ok outcome, .ok () => .ok outcome
  | .ok _, .error writerError => .error writerError.text
  | .error e, .ok () => .error e
  | .error e, .error writerError =>
      .error ("garbage collection operation also failed " ++ context ++ ": " ++ e ++ ": " ++
        writerError.text)

/-- Join the writer after the session is over. -/
def finishWith (context : String) (thread : WriterThread) (result : Except String GcOutcome) :
    GcProgram String GcOutcome := do
  let finish ← finishWriter thread
  ofExcept (joinResults context result finish)

/-- Join the writer of a collection that has nothing to apply. -/
def finishEarly (thread : WriterThread) (result : Except String GcOutcome) :
    GcProgram String GcOutcome :=
  finishWith "before catalog writer shutdown" thread result

/-- Begin the session of a writer that has just started. -/
def beginSession {ε : Type} :
    GcProgram ε (Except String CatalogAuditSnapshot × WriterThread) := do
  let begun ← attempt (onWriter (beginGc false))
  match begun with
  | .ok (snapshot, active) => return (snapshot, .ok { Writer.start with gcActive := active })
  | .error e => return (.error "wait for GC begin response from catalog writer", .error e)

/-- Roll the session back after an error before anything was staged. -/
def finishAfterTerminalError (thread : WriterThread) (e : String) :
    GcProgram String GcOutcome := do
  let (rolledBack, thread) ← rollbackSession thread
  match rolledBack with
  | .ok () => finishEarly thread (.error e)
  | .error r => finishEarly thread (.error
      ("garbage collection also failed to terminate its writer session: " ++ r ++ ": " ++ e))

/-- Roll the session back because of findings. -/
def finishBlocked (thread : WriterThread) (report : GcReport) : GcProgram String GcOutcome := do
  let (rolledBack, thread) ← rollbackSession thread
  match rolledBack with
  | .ok () => finishEarly thread (.ok (.blocked report))
  | .error e => finishEarly thread (.error e)

/-- The collection after its session has begun. -/
def collectInSession (thread : WriterThread) (snapshot : CatalogAuditSnapshot) :
    GcProgram String GcOutcome := do
  let checked ← attempt (runPreflight digest false snapshot)
  match checked with
  | .error e => finishAfterTerminalError thread e
  | .ok preflight =>
      if preflight.report.findings = [] then do
        let (result, thread) ← applyPlan thread preflight
        finishWith "while catalog writer terminated" thread result
      else finishBlocked thread preflight.report

def collectReal : GcProgram String GcOutcome := do
  let opened ← gcCall .openCatalog
  ofExcept opened
  let (begun, thread) ← beginSession
  match begun with
  | .ok snapshot => collectInSession digest thread snapshot
  | .error e => finishEarly thread (.error e)

/-- The command: a real run first empties the staging area. -/
def collectGarbage (dryRun : Bool) : GcProgram String GcOutcome := do
  checkGcTelemetry
  let outcome ← if dryRun then collectDryRun digest
    else do
      onGcStore purgeExistingStaging
      collectReal digest
  checkGcTelemetry
  return outcome

end Collect

end MediaImporter
