import MediaImporter.Gc.Safety

/-!
# What the result of a commit says

The owner of a session learns how a commit ended from one answer. The writer sends it after
the statement `COMMIT` and, when it is time for one, after a checkpoint. A checkpoint that
fails ends the writer before the answer is sent. The owner then takes the commit for failed,
asks for a rollback, and reports an error, although everything is committed.

## Main definitions

* `commitSessionWith` — commit a session, for any configuration of the writer.
* `CheckpointFails`, `FailsAfterCommit` — when the writer ends between the two.
* `commitSession_truthful_iff` — an error means that nothing is committed in all other cases.
-/

namespace MediaImporter

open Program (exec_bind_ok exec_bind_error)

/-! ## Sessions of any writer -/

section Session

variable (config : CatalogWriterConfig) {ε : Type}

def finishSessionWith (commit partially : Bool) (thread : WriterThread) :
    GcProgram ε (Except String Unit × WriterThread) :=
  gcRequest thread fun w => finishGc config w commit partially

/-- Commit. If that fails the session is rolled back. -/
def commitSessionWith (partially : Bool) (thread : WriterThread) :
    GcProgram ε (Except String Unit × WriterThread) := do
  let (committed, thread) ← finishSessionWith config true partially thread
  match committed with
  | .ok () => return (.ok (), thread)
  | .error e => do
      let (rolledBack, thread) ← finishSessionWith config false false thread
      match rolledBack with
      | .ok () => return (.error ("GC commit failed; rolled back active session: " ++ e), thread)
      | .error r =>
          return (.error ("GC commit failed and rollback also failed: " ++ r ++ ": " ++ e), thread)

/-- A collection commits with the default configuration. -/
theorem commitSessionWith_default (partially : Bool) (thread : WriterThread) :
    (commitSessionWith .default partially thread : GcProgram ε _) =
      commitSession partially thread := rfl

end Session

/-! ## The end of the writer -/

/-- The next checkpoint, as the statement `n`, ends the writer. -/
def CheckpointFails (env : WriterEnvironment) (report : CatalogWriterReport) (n : ℕ) : Prop :=
  (∃ fault, env.faults n = some fault) ∨
    ((env.counts n).1 < 0 ∨ (env.counts n).2.1 < 0 ∨ (env.counts n).2.2 < 0) ∨
    ¬ report.checkpoints + 1 < 2 ^ 64

/-- The statement `n` commits a session, and what the writer does next ends it. -/
def FailsAfterCommit (config : CatalogWriterConfig) (env : WriterEnvironment)
    (report : CatalogWriterReport) (n : ℕ) : Prop :=
  env.faults n = none ∧ (¬ report.committedGcSessions + 1 < 2 ^ 64 ∨
    (report.committedGcSessions + 1) % config.checkpointEveryBatches = 0 ∧
      CheckpointFails env report (n + 1))

section Answers

variable [SqlArithmetic]

/-- How a collection answers the writer. -/
abbrev withinGc (env : GcEnvironment) : Program.Handler WriterCall WriterAnswer GcWorld :=
  Program.restrict GcCall.writer (fun _ => id) (gcHandler env)

/-- The world after a statement of the writer. -/
def GcWorld.answered (env : GcEnvironment) (w : GcWorld) (call : SqlCall) : GcWorld :=
  { w with
    writer := { w.writer with
      connection := (w.writer.connection.answer env.writer.counts env.writer.faults call).2 }
    calls := w.calls + 1 }

/-- A statement that is not staged. -/
theorem exec_sql_withinGc (env : GcEnvironment) (w : GcWorld) {call : SqlCall}
    (hcall : ∀ statement, call ≠ .stage statement) :
    Program.exec (withinGc env) (sql call) w =
      (.ok (w.writer.connection.answer env.writer.counts env.writer.faults call).1,
        w.answered env call) := by
  cases call with
  | stage statement => exact absurd rfl (hcall statement)
  | begin | record _ | requireCurrentSchema | inspect | commit | rollback | checkpoint => rfl

theorem exec_emit_withinGc (env : GcEnvironment) (w : GcWorld) (event : CatalogWriterEvent) :
    ∃ w', Program.exec (withinGc env) (emit event) w = (.ok (), w') ∧
      w'.writer.connection = w.writer.connection := ⟨_, rfl, rfl⟩

/-- A checkpoint commits nothing. -/
theorem exec_checkpoint_withinGc (env : GcEnvironment) (w : GcWorld)
    (report : CatalogWriterReport) :
    ∃ r w', Program.exec (withinGc env) (checkpoint report) w = (r, w') ∧
      w'.catalog = w.catalog ∧
      ((∃ e, r = .error e) ↔ CheckpointFails env.writer report w.writer.connection.statements) := by
  have hsql : Program.exec (withinGc env) (sql .checkpoint) w = _ :=
    exec_sql_withinGc env w (by simp)
  unfold checkpoint CheckpointFails
  rw [exec_bind_ok _ hsql]
  cases hfault : env.writer.faults w.writer.connection.statements with
  | some fault =>
      have hanswer : (w.writer.connection.answer env.writer.counts env.writer.faults
          .checkpoint).1 = .error fault.message := by
        simp [SqlConnection.answer, hfault, SqlConnection.failedAnswer]
      have hcatalog : (w.answered env .checkpoint).catalog = w.catalog := by
        simp [GcWorld.answered, GcWorld.catalog, SqlConnection.answer, hfault]
      rw [hanswer]
      exact ⟨_, _, rfl, hcatalog, by simp⟩
  | none =>
      have hanswer : (w.writer.connection.answer env.writer.counts env.writer.faults
          .checkpoint).1 = .ok (env.writer.counts w.writer.connection.statements) := by
        simp [SqlConnection.answer, hfault, SqlConnection.perform]
      have hcatalog : (w.answered env .checkpoint).catalog = w.catalog := by
        simp [GcWorld.answered, GcWorld.catalog, SqlConnection.answer, hfault,
          SqlConnection.perform]
      rw [hanswer]
      generalize env.writer.counts w.writer.connection.statements = counts
      obtain ⟨busy, log, checkpointed⟩ := counts
      have hcounts : Program.exec (withinGc env) (orFail ((Except.ok (busy, log, checkpointed) :
          Except String (ℤ × ℤ × ℤ)).mapError (.wrap "run passive WAL checkpoint")))
          (w.answered env .checkpoint) =
            (.ok (busy, log, checkpointed), w.answered env .checkpoint) := rfl
      rw [exec_bind_ok _ hcounts]
      dsimp only
      by_cases hneg : busy < 0 ∨ log < 0 ∨ checkpointed < 0
      · rw [if_pos hneg]
        exact ⟨_, _, rfl, hcatalog, by simp [hneg]⟩
      · rw [if_neg hneg]
        by_cases hcount : report.checkpoints + 1 < 2 ^ 64
        · have hsucc : Program.exec (withinGc env) (orFail (checkedSucc report.checkpoints
              "catalog checkpoint")) (w.answered env .checkpoint) =
              (.ok (report.checkpoints + 1), w.answered env .checkpoint) := by
            rw [checkedSucc, if_pos hcount]
            rfl
          obtain ⟨w', hemit, hconnection⟩ := exec_emit_withinGc env (w.answered env .checkpoint)
            (.checkpointCompleted busy log checkpointed)
          rw [exec_bind_ok _ hsucc, exec_bind_ok _ hemit]
          refine ⟨_, _, rfl, (congrArg (·.committed) hconnection).trans hcatalog, ?_⟩
          simp only [reduceCtorEq, exists_false, false_iff, not_or, not_not]
          exact ⟨fun h => h, by simpa only [not_or] using hneg, hcount⟩
        · have hsucc : Program.exec (withinGc env) (orFail (checkedSucc report.checkpoints
              "catalog checkpoint")) (w.answered env .checkpoint) =
              (.error (.report "catalog checkpoint counter overflow"),
                w.answered env .checkpoint) := by
            rw [checkedSucc, if_neg hcount]
            rfl
          rw [exec_bind_error _ hsucc]
          exact ⟨_, _, rfl, hcatalog, ⟨fun _ => .inr (.inr hcount), fun _ => ⟨_, rfl⟩⟩⟩

/-- What the writer does between the commit and the answer. -/
theorem exec_countGcSession_withinGc (env : GcEnvironment) (w : GcWorld)
    (config : CatalogWriterConfig) (report : CatalogWriterReport) (partially : Bool) :
    ∃ r w', Program.exec (withinGc env) (countGcSession config report partially) w = (r, w') ∧
      w'.catalog = w.catalog ∧
      ((∃ e, r = .error e) ↔ ¬ report.committedGcSessions + 1 < 2 ^ 64 ∨
        (report.committedGcSessions + 1) % config.checkpointEveryBatches = 0 ∧
          CheckpointFails env.writer report w.writer.connection.statements) := by
  unfold countGcSession
  by_cases hcount : report.committedGcSessions + 1 < 2 ^ 64
  · have hsucc : Program.exec (withinGc env) (orFail (checkedSucc report.committedGcSessions
        "catalog GC session")) w = (.ok (report.committedGcSessions + 1), w) := by
      rw [checkedSucc, if_pos hcount]
      rfl
    obtain ⟨w₁, hemit, hconnection⟩ := exec_emit_withinGc env w
      (if partially then .gcPartiallyCommitted else .gcCommitted)
    have hcatalog : w₁.catalog = w.catalog := congrArg (·.committed) hconnection
    rw [exec_bind_ok _ hsucc, exec_bind_ok _ hemit]
    unfold checkpointIfDue
    by_cases hdue : (report.committedGcSessions + 1) % config.checkpointEveryBatches = 0
    · rw [if_pos hdue]
      obtain ⟨w₂, hemit₂, hconnection₂⟩ := exec_emit_withinGc env w₁
        (.checkpointRequested report.committedBatches false)
      rw [exec_bind_ok _ hemit₂]
      obtain ⟨r, w₃, hcheckpoint, hcatalog₃, hfails⟩ := exec_checkpoint_withinGc env w₂
        { report with committedGcSessions := report.committedGcSessions + 1 }
      refine ⟨r, w₃, hcheckpoint, hcatalog₃.trans ((congrArg (·.committed) hconnection₂).trans
        hcatalog), ?_⟩
      rw [hconnection₂, hconnection] at hfails
      rw [hfails]
      simp only [hcount, hdue, not_true_eq_false, false_or, true_and]
      rfl
    · rw [if_neg hdue]
      refine ⟨_, _, rfl, hcatalog, ?_⟩
      simp only [reduceCtorEq, exists_false, hcount, hdue, not_true_eq_false, false_and, or_self]
  · have hsucc : Program.exec (withinGc env) (orFail (checkedSucc report.committedGcSessions
        "catalog GC session")) w = (.error (.report "catalog GC session counter overflow"), w) := by
      rw [checkedSucc, if_neg hcount]
      rfl
    rw [exec_bind_error _ hsucc]
    exact ⟨_, _, rfl, rfl, ⟨fun _ => .inl hcount, fun _ => ⟨_, rfl⟩⟩⟩

/-! ## Requests that end a session -/

theorem exec_gcRequest_ok {env : GcEnvironment} {w w' : GcWorld} {wr wr' : Writer} {ε : Type}
    {serve : Writer → WriterProgram (Except String Unit × Writer)} {answer : Except String Unit}
    (hserve : Program.exec (withinGc env) (serve wr) w = (.ok (answer, wr'), w')) :
    Program.exec (gcHandler env) (gcRequest (.ok wr) serve : GcProgram ε _) w =
      (.ok (answer, .ok wr'), w') := by
  have hattempt : Program.exec (gcHandler env)
      (attempt (onWriter (serve wr)) : GcProgram ε _) w = (.ok (.ok (answer, wr')), w') := by
    rw [exec_attempt, onWriter, Program.exec_embedT, hserve]
  unfold gcRequest
  rw [exec_bind_ok _ hattempt]
  rfl

/-- The writer ends before it answers. -/
theorem exec_gcRequest_error {env : GcEnvironment} {w w' : GcWorld} {wr : Writer} {ε : Type}
    {serve : Writer → WriterProgram (Except String Unit × Writer)} {e : WriterError}
    (hserve : Program.exec (withinGc env) (serve wr) w = (.error e, w')) :
    Program.exec (gcHandler env) (gcRequest (.ok wr) serve : GcProgram ε _) w =
      (.ok (.error "wait for GC response from catalog writer", .error e), w') := by
  have hattempt : Program.exec (gcHandler env)
      (attempt (onWriter (serve wr)) : GcProgram ε _) w = (.ok (.error e), w') := by
    rw [exec_attempt, onWriter, Program.exec_embedT, hserve]
  unfold gcRequest
  rw [exec_bind_ok _ hattempt]
  rfl

/-- A rollback commits nothing, however it ends. -/
theorem exec_rollback_catalog (env : GcEnvironment) (w : GcWorld) (config : CatalogWriterConfig)
    {ε : Type} (thread : WriterThread) :
    ∃ answer thread' w', Program.exec (gcHandler env)
        (finishSessionWith config false false thread : GcProgram ε _) w =
          (.ok (answer, thread'), w') ∧ w'.catalog = w.catalog := by
  cases thread with
  | error e => exact ⟨_, _, _, rfl, rfl⟩
  | ok wr =>
      have hserve : ∃ r w', Program.exec (withinGc env) (finishGc config wr false false) w =
          (.ok r, w') ∧ w'.catalog = w.catalog := by
        unfold finishGc
        by_cases hactive : ¬ wr.gcActive
        · rw [if_pos hactive]
          exact ⟨_, _, rfl, rfl⟩
        · rw [if_neg hactive]
          have hsql : Program.exec (withinGc env) (sql .rollback) w = _ :=
            exec_sql_withinGc env w (by simp)
          have hcatalog : (w.answered env .rollback).catalog = w.catalog := by
            cases hfault : env.writer.faults w.writer.connection.statements with
            | some fault => simp [GcWorld.answered, GcWorld.catalog, SqlConnection.answer, hfault]
            | none =>
                cases ht : w.writer.connection.transaction <;>
                  simp [GcWorld.answered, GcWorld.catalog, SqlConnection.answer, hfault,
                    SqlConnection.perform, ht]
          change ∃ r w', Program.exec (withinGc env) (sql .rollback >>= _) w = (.ok r, w') ∧ _
          rw [exec_bind_ok _ hsql]
          cases finishGc.finished false (w.writer.connection.answer env.writer.counts
              env.writer.faults .rollback).1 with
          | error e => exact ⟨_, _, rfl, hcatalog⟩
          | ok u =>
              obtain ⟨w', hemit, hconnection⟩ := exec_emit_withinGc env (w.answered env .rollback)
                .gcRolledBack
              refine ⟨(.ok (), { wr with gcActive := false }), w', ?_,
                (congrArg (·.committed) hconnection).trans hcatalog⟩
              change Program.exec (withinGc env) (emit .gcRolledBack >>= _) _ = _
              rw [exec_bind_ok _ hemit]
              rfl
      obtain ⟨⟨answer, wr'⟩, w', hserve, hcatalog⟩ := hserve
      exact ⟨answer, .ok wr', w', exec_gcRequest_ok hserve, hcatalog⟩

/-- A commit is answered, or it fails, or it is done and the writer ends. -/
theorem exec_commit_cases (env : GcEnvironment) (w : GcWorld) (config : CatalogWriterConfig)
    {ε : Type} (partially : Bool) {wr : Writer} {t : Catalog} (hactive : wr.gcActive = true)
    (ht : w.writer.connection.transaction = some t) :
    ∃ answer thread w', Program.exec (gcHandler env)
        (finishSessionWith config true partially (.ok wr) : GcProgram ε _) w =
          (.ok (answer, thread), w') ∧
      ((∃ e, answer = .error e) ∧ w'.catalog = w.catalog ∧
          ¬ FailsAfterCommit config env.writer wr.report w.writer.connection.statements ∨
        w'.catalog = t ∧ ((∃ e, answer = .error e) ↔
          FailsAfterCommit config env.writer wr.report w.writer.connection.statements)) := by
  have hsql : Program.exec (withinGc env) (sql .commit) w = _ :=
    exec_sql_withinGc env w (by simp)
  have hopen : ¬ ¬ wr.gcActive := by simp [hactive]
  cases hfault : env.writer.faults w.writer.connection.statements with
  | some fault =>
      have hanswer : (w.writer.connection.answer env.writer.counts env.writer.faults
          .commit).1 = .error fault.message := by
        simp [SqlConnection.answer, hfault, SqlConnection.failedAnswer]
      have hserve : Program.exec (withinGc env) (finishGc config wr true partially) w =
          (.ok (.error ("commit garbage collection transaction: " ++ fault.message), wr),
            w.answered env .commit) := by
        unfold finishGc
        rw [if_neg hopen]
        change Program.exec (withinGc env) (sql .commit >>= _) w = _
        rw [exec_bind_ok _ hsql, hanswer]
        rfl
      refine ⟨_, _, _, exec_gcRequest_ok hserve, .inl ⟨⟨_, rfl⟩, ?_, ?_⟩⟩
      · simp [GcWorld.answered, GcWorld.catalog, SqlConnection.answer, hfault]
      · rintro ⟨hnone, -⟩
        simp [hfault] at hnone
  | none =>
      have hanswer : (w.writer.connection.answer env.writer.counts env.writer.faults
          .commit).1 = .ok () := by
        simp [SqlConnection.answer, hfault, SqlConnection.perform, ht]
      have hcatalog : (w.answered env .commit).catalog = t := by
        simp [GcWorld.answered, GcWorld.catalog, SqlConnection.answer, hfault,
          SqlConnection.perform, ht]
      have hstatements : (w.answered env .commit).writer.connection.statements =
          w.writer.connection.statements + 1 := by
        simp [GcWorld.answered, SqlConnection.answer, hfault]
      obtain ⟨r, w', hcount, hcatalog', hfails⟩ := exec_countGcSession_withinGc env
        (w.answered env .commit) config wr.report partially
      have hserve : Program.exec (withinGc env) (finishGc config wr true partially) w =
          (r.map fun report => (.ok (), { wr with gcActive := false, report }), w') := by
        unfold finishGc
        rw [if_neg hopen]
        change Program.exec (withinGc env) (sql .commit >>= _) w = _
        rw [exec_bind_ok _ hsql, hanswer]
        change Program.exec (withinGc env) (countGcSession config wr.report partially >>= _) _ = _
        cases r with
        | error e => rw [exec_bind_error _ hcount]; rfl
        | ok report => rw [exec_bind_ok _ hcount]; rfl
      rw [hstatements] at hfails
      have hiff : (∃ e, r = .error e) ↔
          FailsAfterCommit config env.writer wr.report w.writer.connection.statements := by
        rw [hfails, FailsAfterCommit]
        exact ⟨fun h => ⟨hfault, h⟩, fun h => h.2⟩
      cases r with
      | error e =>
          exact ⟨_, _, _, exec_gcRequest_error hserve, .inr ⟨hcatalog'.trans hcatalog,
            ⟨fun _ => hiff.mp ⟨e, rfl⟩, fun _ => ⟨_, rfl⟩⟩⟩⟩
      | ok report =>
          refine ⟨_, _, _, exec_gcRequest_ok hserve, .inr ⟨hcatalog'.trans hcatalog, ?_⟩⟩
          rw [← hiff]
          simp

end Answers

/-! ## The result of a commit -/

/-- An error of `commit` or `commit_partial` means that nothing which was staged is committed,
unless the commit was done and the writer ended before it answered. -/
theorem commitSession_truthful_iff [SqlArithmetic] (config : CatalogWriterConfig)
    (env : GcEnvironment) (w : GcWorld) (partially : Bool) (wr : Writer) (t : Catalog)
    (hactive : wr.gcActive = true) (ht : w.writer.connection.transaction = some t) :
    ∃ answer thread w', Program.exec (gcHandler env)
        (commitSessionWith config partially (.ok wr) : GcProgram Empty _) w =
          (.ok (answer, thread), w') ∧
      (((∃ e, answer = .error e) → w'.catalog = w.catalog) ↔
        t = w.catalog ∨
          ¬ FailsAfterCommit config env.writer wr.report w.writer.connection.statements) := by
  obtain ⟨answer, thread, w₁, hcommit, hcases⟩ :=
    exec_commit_cases env w config (ε := Empty) partially hactive ht
  unfold commitSessionWith
  rw [exec_bind_ok _ hcommit]
  cases answer with
  | ok u =>
      rcases hcases with ⟨⟨e, he⟩, -⟩ | ⟨-, hiff⟩
      · simp at he
      · exact ⟨_, _, _, rfl, by simp [← hiff]⟩
  | error e =>
      obtain ⟨answer', thread', w₂, hrollback, hcatalog⟩ :=
        exec_rollback_catalog env w₁ config (ε := Empty) thread
      have hresult : (w₂.catalog = w.catalog ↔ t = w.catalog ∨
          ¬ FailsAfterCommit config env.writer wr.report w.writer.connection.statements) := by
        rw [hcatalog]
        rcases hcases with ⟨-, hsame, hno⟩ | ⟨hsame, hiff⟩
        · exact ⟨fun _ => .inr hno, fun _ => hsame⟩
        · rw [hsame]
          exact ⟨.inl, fun h => h.resolve_right fun hno => hno (hiff.mp ⟨e, rfl⟩)⟩
      dsimp only
      rw [exec_bind_ok _ hrollback]
      cases answer' with
      | ok u => exact ⟨_, _, _, rfl, by simpa using hresult⟩
      | error e' => exact ⟨_, _, _, rfl, by simpa using hresult⟩

/-! ## A checkpoint after every session -/

/-- A writer that makes a checkpoint after each commit. -/
def eagerConfig : CatalogWriterConfig where
  maxBatchRecords := 32
  maxBatchLatency := 25
  checkpointEveryBatches := 1
  maxBatchRecords_pos := Nat.succ_pos 31
  checkpointEveryBatches_pos := Nat.succ_pos 0

/-- A session of which one mark is staged. -/
def markingWorld : GcWorld :=
  ⟨emptyBlobStore, ⟨⟨Catalog.fresh, some markedCatalog, 0⟩, [], 0, []⟩, 0⟩

/-- The second statement fails. -/
def checkpointFault : GcEnvironment :=
  { calmEnvironment with
    writer := ⟨id, 0, fun _ => (0, 0, 0), fun n =>
      if n = 1 then some ⟨"disk I/O error", false⟩ else none⟩ }

theorem commitSession_truthful_iff_calm : ∃ _ : SqlArithmetic, ∃ answer thread w',
    Program.exec (gcHandler calmEnvironment)
        (commitSessionWith eagerConfig false (.ok Writer.inSession) : GcProgram Empty _)
        markingWorld = (.ok (answer, thread), w') ∧
      (((∃ e, answer = .error e) → w'.catalog = markingWorld.catalog) ↔
        markedCatalog = markingWorld.catalog ∨
          ¬ FailsAfterCommit eagerConfig calmEnvironment.writer Writer.inSession.report 0) := by
  let _ := integerSums
  exact ⟨integerSums, commitSession_truthful_iff eagerConfig calmEnvironment markingWorld false
    Writer.inSession markedCatalog rfl rfl⟩

/-- The commit is done, the checkpoint fails, and the owner is told that the commit failed. -/
theorem not_commitSession_truthful_checkpoint : ¬ ∀ (_ : SqlArithmetic)
    (config : CatalogWriterConfig) (env : GcEnvironment) (w : GcWorld) (partially : Bool)
    (wr : Writer) (t : Catalog), wr.gcActive = true →
    w.writer.connection.transaction = some t → ∀ answer thread w',
      Program.exec (gcHandler env)
          (commitSessionWith config partially (.ok wr) : GcProgram Empty _) w =
        (.ok (answer, thread), w') → (∃ e, answer = .error e) → w'.catalog = w.catalog := by
  intro hall
  let _ := integerSums
  have hsame := hall integerSums eagerConfig checkpointFault markingWorld false Writer.inSession
    markedCatalog rfl rfl _ _ _ rfl ⟨_, rfl⟩
  have hblobs := congrArg (fun c => c.blobs.length) hsame
  exact absurd hblobs (by decide +kernel)

end MediaImporter
