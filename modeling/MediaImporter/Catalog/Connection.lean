import MediaImporter.Catalog.Transaction
import MediaImporter.Lib.Program

/-!
# The writer's connection

One connection writes to the catalog. What it has committed survives the program; what an
open transaction has staged does not. Outside of a transaction a statement is committed by
itself.

The engine can fail at any statement. A failed statement has no effect, except that some
failures also end the open transaction, which is then lost.

## Main definitions

* `PendingImportRequest.record`, `GcStatement.stage` — the writes a transaction is made of.
* `SqlCall`, `SqlConnection.perform` — the statements and what they do.
* `SqlConnection.answer` — the same with failures of the engine.
-/

namespace MediaImporter

/-- A write of an import. -/
inductive PendingImportRequest
  | imported (blob : BlobRecord) (observation : SourceObservation)
  | known (observation : SourceObservation) (expectedBlobSizeBytes : ℕ)
  deriving DecidableEq

inductive ImportWriteOutcome
  | imported (blob : BlobRecordOutcome) (source : SourceObservationOutcome)
  | observedKnown
  deriving DecidableEq

/-- Do one write inside a transaction. -/
def PendingImportRequest.record [SqlArithmetic] :
    PendingImportRequest → Catalog → Except String (ImportWriteOutcome × Catalog)
  | .imported blob observation, c => do
      let (outcome, c) ← recordImportedFile c blob observation
      return (.imported outcome.1 outcome.2, c)
  | .known observation size, c => do
      let c ← observeKnownSourceFile c observation size
      return (.observedKnown, c)

/-- The path of the source file that a write is about. -/
def PendingImportRequest.sourcePath : PendingImportRequest → SourceRelativePath
  | .imported _ observation | .known observation _ => observation.relativePath

/-- A write of garbage collection. -/
inductive GcStatement
  | mark (blob : CatalogBlob) (markedAtMs : ℤ)
  | resurrect (blob : CatalogBlob)
  | sweep (blob : CatalogBlob)
  deriving DecidableEq

def GcStatement.stage : GcStatement → Catalog → Except String Unit × Catalog
  | .mark blob markedAtMs, c => stageGcMark c blob markedAtMs
  | .resurrect blob, c => stageGcResurrect c blob
  | .sweep blob, c => stageGcSweep c blob

def requireCurrentSchema (c : Catalog) : Except String Unit :=
  Except.ensure (c.schema.userVersion = currentSchemaVersion)
    "catalog schema version is unsupported"

inductive SqlCall
  | begin
  | record (request : PendingImportRequest)
  | stage (statement : GcStatement)
  | requireCurrentSchema
  | inspect
  | commit
  | rollback
  | checkpoint

/-- The answer to a statement. A checkpoint answers with three counts. -/
abbrev SqlAnswer : SqlCall → Type
  | .record _ => Except String ImportWriteOutcome
  | .inspect => Except String CatalogAuditSnapshot
  | .checkpoint => Except String (ℤ × ℤ × ℤ)
  | _ => Except String Unit

structure SqlConnection where
  committed : Catalog
  transaction : Option Catalog
  statements : ℕ

namespace SqlConnection

/-- What the next statement sees. -/
def current (c : SqlConnection) : Catalog := c.transaction.getD c.committed

/-- Write in the open transaction, or at once if there is none. -/
def write (c : SqlConnection) (catalog : Catalog) : SqlConnection :=
  match c.transaction with
  | some _ => { c with transaction := some catalog }
  | none => { c with committed := catalog }

section Perform

variable [SqlArithmetic] (counts : ℕ → ℤ × ℤ × ℤ)

/-- The answer to a statement and the connection after it, when the engine does not fail.
`counts` are the answers to checkpoints. -/
def perform (c : SqlConnection) : (call : SqlCall) → SqlAnswer call × SqlConnection
  | .begin => match c.transaction with
    | none => (.ok (), { c with transaction := some c.committed })
    | some _ => (.error "cannot start a transaction within a transaction", c)
  | .record request => match request.record c.current with
    | .ok (outcome, catalog) => (.ok outcome, c.write catalog)
    | .error e => (.error e, c)
  | .stage statement =>
      ((statement.stage c.current).1, c.write (statement.stage c.current).2)
  | .requireCurrentSchema => (MediaImporter.requireCurrentSchema c.current, c)
  | .inspect => (.ok (inspectCatalogConnection c.current), c)
  | .commit => match c.transaction with
    | some catalog => (.ok (), { c with committed := catalog, transaction := none })
    | none => (.error "cannot commit - no transaction is active", c)
  | .rollback => match c.transaction with
    | some _ => (.ok (), { c with transaction := none })
    | none => (.error "cannot rollback - no transaction is active", c)
  | .checkpoint => (.ok (counts c.statements), c)

end Perform

/-- A failure of the engine at one statement. -/
structure SqlFault where
  message : String
  /-- The open transaction is lost as well. -/
  rolledBack : Bool

/-- The answer that reports a failure. -/
def failedAnswer (e : String) : (call : SqlCall) → SqlAnswer call
  | .record _ => .error e
  | .inspect => .error e
  | .checkpoint => .error e
  | .begin | .stage _ | .requireCurrentSchema | .commit | .rollback => .error e

/-- Execute the next statement. -/
def answer [SqlArithmetic] (counts : ℕ → ℤ × ℤ × ℤ) (faults : ℕ → Option SqlFault)
    (c : SqlConnection) (call : SqlCall) : SqlAnswer call × SqlConnection :=
  match faults c.statements with
  | none => ((c.perform counts call).1,
      { (c.perform counts call).2 with statements := c.statements + 1 })
  | some fault => (failedAnswer fault.message call,
      { c with
        transaction := if fault.rolledBack then none else c.transaction
        statements := c.statements + 1 })

end SqlConnection

end MediaImporter
