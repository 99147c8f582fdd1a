import MediaImporter.Gc.Commit
import MediaImporter.Gc.Decides

/-!
# What a collection reports

Where the engine fails at staged statements only, and a call that fails has no effect, the
session ends the way it was asked to. Then the catalog afterwards is the old one, or it is
what had been staged when the loops ended, and the report says which changes were committed
and which files were unlinked.

## Main definitions

* `meets_commitSession`, `meets_rollbackSession`, `meets_finishWriter` — a session ends.
* `Accounts` — what a report says about the catalog and the store.
* `applyPlan_accounts` — every way to apply a plan is accounted for.
-/

namespace MediaImporter

open Utf8 UnixPath
open Program (Meets)

/-! ## Sessions end -/

section Ends

variable [SqlArithmetic] {env : GcEnvironment} {w : GcWorld} {t : Catalog} {ε : Type}
  {E : ε → GcWorld → Prop}

/-- The session is over, with this catalog, and the store is the same. -/
structure SessionEnded (w : GcWorld) (c : Catalog) (w' : GcWorld) : Prop where
  store : w'.store = w.store
  catalog : w'.catalog = c
  transaction : w'.writer.connection.transaction = none

/-- The writer has no session, nothing pending, and has made no checkpoint. -/
structure Writer.Over (wr : Writer) : Prop where
  inactive : wr.gcActive = false
  pending : wr.pending = []
  checkpoints : wr.report.checkpoints = 0

/-- A statement where the engine does not fail. -/
theorem meets_sql_bind_ok (henv : env.writer.Faultless) {call : SqlCall} {α : Type}
    {f : SqlAnswer call → WriterProgram α} {Q : α → GcWorld → Prop}
    {F : WriterError → GcWorld → Prop} {answer : SqlAnswer call} {connection : SqlConnection}
    (hcall : ∀ statement, call ≠ .stage statement)
    (hperform : w.writer.connection.perform env.writer.counts call = (answer, connection))
    (hf : ∀ w', w'.store = w.store → w'.catalog = connection.committed →
      w'.writer.connection.transaction = connection.transaction →
      Meets (withinGc env) (fun _ => True) (f answer) w' Q F) :
    Meets (withinGc env) (fun _ => True) (sql call >>= f) w Q F := by
  apply meets_sql_bind trivial hcall
  intro answer' connection' hanswer
  rcases SqlConnection.answer_cases hanswer with ⟨rfl, hcommitted, htransaction⟩ |
    ⟨⟨fault, hfault, -⟩, -⟩
  · rw [hperform] at hcommitted htransaction ⊢
    exact hf _ rfl hcommitted htransaction
  · simp [henv.faults] at hfault

/-- A request that is served. -/
theorem meets_gcRequest (serve : Writer → WriterProgram (Except String Unit × Writer))
    {wr : Writer} {answer : Except String Unit} {c : Catalog}
    (hserve : Meets (withinGc env) (fun _ => True) (serve wr) w
      (fun r w' => r.1 = answer ∧ r.2.Over ∧ SessionEnded w c w') (fun _ _ => False)) :
    Meets (gcHandler env) (fun _ => True) (gcRequest (.ok wr) serve : GcProgram ε _) w
      (fun r w' => r.1 = answer ∧ (∃ wr', r.2 = .ok wr' ∧ wr'.Over) ∧ SessionEnded w c w') E := by
  refine (meets_attempt (E := E) (Q := fun r w' => ∃ wr', r = .ok (answer, wr') ∧ wr'.Over ∧
    SessionEnded w c w') (Program.meets_embedT hserve) ?_ fun _ _ => False.elim).bind ?_
    fun _ _ he => he
  · rintro ⟨a, wr'⟩ w' ⟨rfl, hover, hended⟩
    exact ⟨wr', rfl, hover, hended⟩
  · rintro _ w' - ⟨wr', rfl, hover, hended⟩
    exact Program.meets_pure trivial ⟨rfl, ⟨wr', rfl, hover⟩, hended⟩

theorem meets_commitSession (henv : env.writer.Faultless) (partially : Bool)
    (ht : w.writer.connection.transaction = some t) :
    Meets (gcHandler env) (fun _ => True)
      (commitSession partially (.ok Writer.inSession) : GcProgram ε _) w
      (fun r w' => r.1 = .ok () ∧ (∃ wr, r.2 = .ok wr ∧ wr.Over) ∧ SessionEnded w t w') E := by
  have hperform : w.writer.connection.perform env.writer.counts .commit =
      (.ok (), { w.writer.connection with committed := t, transaction := none }) := by
    simp [SqlConnection.perform, ht]
  have hserve : Meets (withinGc env) (fun _ => True)
      (finishGc .default Writer.inSession true partially) w
      (fun r w' => r.1 = .ok () ∧ r.2.Over ∧ SessionEnded w t w') (fun _ _ => False) := by
    refine meets_sql_bind_ok henv (by simp) hperform ?_
    intro w' hstore hcatalog htransaction
    refine meets_emit_bind trivial ?_
    intro outbox
    exact Program.meets_pure trivial ⟨rfl, ⟨rfl, rfl, rfl⟩, hstore, hcatalog, htransaction⟩
  refine (meets_gcRequest (fun wr => finishGc .default wr true partially) hserve).bind ?_
    fun _ _ he => he
  rintro ⟨a, thread⟩ w' - ⟨rfl, hthread, hended⟩
  exact Program.meets_pure trivial ⟨rfl, hthread, hended⟩

theorem meets_rollbackSession (henv : env.writer.Faultless)
    (ht : w.writer.connection.transaction = some t) :
    Meets (gcHandler env) (fun _ => True)
      (rollbackSession (.ok Writer.inSession) : GcProgram ε _) w
      (fun r w' => r.1 = .ok () ∧ (∃ wr, r.2 = .ok wr ∧ wr.Over) ∧
        SessionEnded w w.catalog w') E := by
  have hperform : w.writer.connection.perform env.writer.counts .rollback =
      (.ok (), { w.writer.connection with transaction := none }) := by
    simp [SqlConnection.perform, ht]
  have hserve : Meets (withinGc env) (fun _ => True)
      (finishGc .default Writer.inSession false false) w
      (fun r w' => r.1 = .ok () ∧ r.2.Over ∧ SessionEnded w w.catalog w') (fun _ _ => False) := by
    refine meets_sql_bind_ok henv (by simp) hperform ?_
    intro w' hstore hcatalog htransaction
    refine meets_emit_bind trivial ?_
    intro outbox
    exact Program.meets_pure trivial ⟨rfl, ⟨rfl, rfl, rfl⟩, hstore, hcatalog, htransaction⟩
  exact meets_gcRequest (fun wr => finishGc .default wr false false) hserve

/-- A checkpoint writes nothing, and a writer that made none yet can count it. -/
theorem meets_checkpoint_withinGc (henv : env.writer.Faultless) {report : CatalogWriterReport}
    (hreport : report.checkpoints = 0) :
    Meets (withinGc env) (fun _ => True) (checkpoint report) w
      (fun _ w' => w'.store = w.store ∧ w'.catalog = w.catalog ∧
        w'.writer.connection.transaction = w.writer.connection.transaction)
      (fun _ _ => False) := by
  have hcounts := henv.counts w.writer.connection.statements
  have hperform : w.writer.connection.perform env.writer.counts .checkpoint =
      (.ok (env.writer.counts w.writer.connection.statements), w.writer.connection) := rfl
  unfold checkpoint
  refine meets_sql_bind_ok henv (by simp) hperform ?_
  intro w' hstore hcatalog htransaction
  generalize env.writer.counts w.writer.connection.statements = counts at hcounts
  obtain ⟨busy, log, checkpointed⟩ := counts
  have hneg : ¬ (busy < 0 ∨ log < 0 ∨ checkpointed < 0) := by
    obtain ⟨hbusy, hlog, hcheckpointed⟩ := hcounts
    dsimp only at hbusy hlog hcheckpointed
    omega
  have hcount : checkedSucc report.checkpoints "catalog checkpoint" = .ok 1 := by
    rw [hreport]
    rfl
  change Meets (withinGc env) (fun _ => True) (if busy < 0 ∨ log < 0 ∨ checkpointed < 0 then _
    else orFail (checkedSucc report.checkpoints "catalog checkpoint") >>= _) w' _ _
  rw [if_neg hneg, hcount]
  refine meets_emit_bind trivial ?_
  intro outbox
  exact Program.meets_pure trivial ⟨hstore, hcatalog, htransaction⟩

/-- A writer without a session shuts down. -/
theorem meets_finishWriter (henv : env.writer.Faultless) {wr : Writer} (hwr : wr.Over) :
    Meets (gcHandler env) (fun _ => True) (finishWriter (.ok wr) : GcProgram ε _) w
      (fun r w' => r = .ok () ∧ w'.store = w.store ∧ w'.catalog = w.catalog ∧
        w'.writer.connection.transaction = w.writer.connection.transaction) E := by
  obtain ⟨pending, firstPendingAt, report, gcActive⟩ := wr
  obtain rfl : gcActive = false := hwr.inactive
  obtain rfl : pending = [] := hwr.pending
  have hserve : Meets (withinGc env) (fun _ => True)
      (shutDown .default ⟨[], firstPendingAt, report, false⟩) w
      (fun _ w' => w'.store = w.store ∧ w'.catalog = w.catalog ∧
        w'.writer.connection.transaction = w.writer.connection.transaction)
      (fun _ _ => False) := by
    refine meets_emit_bind trivial ?_
    intro outbox
    exact meets_checkpoint_withinGc henv hwr.checkpoints
  have hjoin : Meets (gcHandler env) (fun _ => True) (do
        let _ ← onWriter (shutDown .default ⟨[], firstPendingAt, report, false⟩)
        return ()) w
      (fun _ w' => w'.store = w.store ∧ w'.catalog = w.catalog ∧
        w'.writer.connection.transaction = w.writer.connection.transaction)
      (fun _ _ => False) :=
    (Program.meets_embedT hserve).bind (fun _ _ _ h => Program.meets_pure trivial h)
      fun _ _ => False.elim
  exact meets_attempt hjoin (fun _ _ h => ⟨rfl, h⟩) fun _ _ => False.elim

/-- A check of the telemetry fails with the telemetry only. -/
theorem meets_checkGcTelemetry_fails :
    Meets (gcHandler env) (fun _ => True) checkGcTelemetry w (fun _ w' => w.SameState w')
      (fun _ w' => w.SameState w' ∧ ∃ n, env.telemetryFails n = true) := by
  refine ⟨Program.throughout_of_preserved _ (fun _ _ _ => trivial) _ trivial, ?_⟩
  rw [exec_checkGcTelemetry]
  by_cases hfails : env.telemetryFails w.calls = true
  · rw [if_pos hfails]
    exact ⟨.next w, w.calls, hfails⟩
  · rw [if_neg hfails]
    exact .next w

/-- A session that was committed, or rolled back, with the writer that is to be joined. -/
structure SessionClosed (w : GcWorld) (c : Catalog) (thread : WriterThread) (w' : GcWorld) : Prop
    extends SessionEnded w c w' where
  thread : ∃ wr, thread = .ok wr ∧ wr.Over

theorem meets_commitApplied (henv : env.writer.Faultless) {s : ApplyState}
    (hthread : s.thread = .ok Writer.inSession)
    (ht : w.writer.connection.transaction = some t) :
    Meets (gcHandler env) (fun _ => True) (commitApplied s : GcProgram ε _) w
      (fun r w' => SessionClosed w t r.2 w' ∧ (r.1 = .ok (.complete (finishCommitted s)) ∨
        (∃ e, r.1 = .error e) ∧ ∃ n, env.telemetryFails n = true)) E := by
  unfold commitApplied
  rw [hthread]
  refine (meets_commitSession henv false ht).bind ?_ fun _ _ he => he
  rintro ⟨_, thread⟩ w' - ⟨rfl, hover, hended⟩
  refine (meets_attempt (E := E) (Q := fun r w'' => w'.SameState w'' ∧
    ∀ e, r = .error e → ∃ n, env.telemetryFails n = true) meets_checkGcTelemetry_fails
    (fun _ w'' h => ⟨h, by simp⟩) fun e w'' h => ⟨h.1, fun _ _ => h.2⟩).bind ?_ fun _ _ he => he
  rintro checked w'' - ⟨⟨hstore, hwriter⟩, hblame⟩
  have hclosed : SessionClosed w t thread w'' :=
    { store := hstore.trans hended.store
      catalog := (congrArg (·.connection.committed) hwriter).trans hended.catalog
      transaction := (congrArg (·.connection.transaction) hwriter).trans hended.transaction
      thread := hover }
  cases checked with
  | ok u => exact Program.meets_pure trivial ⟨hclosed, .inl rfl⟩
  | error e => exact Program.meets_pure trivial ⟨hclosed, .inr ⟨⟨e, rfl⟩, hblame e rfl⟩⟩

theorem meets_commitPartial (henv : env.writer.Faultless) {s : ApplyState}
    (hthread : s.thread = .ok Writer.inSession) (e : String)
    (ht : w.writer.connection.transaction = some t) :
    Meets (gcHandler env) (fun _ => True) (commitPartial s e : GcProgram ε _) w
      (fun r w' => SessionClosed w t r.2 w' ∧ r.1 = .ok (.incomplete (finishCommitted s) e)) E := by
  unfold commitPartial
  rw [hthread]
  refine (meets_commitSession henv true ht).bind ?_ fun _ _ he => he
  rintro ⟨_, thread⟩ w' - ⟨rfl, hover, hended⟩
  exact Program.meets_pure trivial ⟨{ hended with thread := hover }, rfl⟩

theorem meets_abortApply (henv : env.writer.Faultless) {s : ApplyState}
    (hthread : s.thread = .ok Writer.inSession) (hstarted : s.sweepMutationsStarted = false)
    (e : String) (ht : w.writer.connection.transaction = some t) :
    Meets (gcHandler env) (fun _ => True) (abortApply s e : GcProgram ε _) w
      (fun r w' => SessionClosed w w.catalog r.2 w' ∧ r.1 = .ok (.incomplete s.report e)) E := by
  unfold abortApply
  rw [hthread, hstarted, if_neg Bool.false_ne_true]
  refine (meets_rollbackSession henv ht).bind ?_ fun _ _ he => he
  rintro ⟨_, thread⟩ w' - ⟨rfl, hover, hended⟩
  exact Program.meets_pure trivial ⟨{ hended with thread := hover }, rfl⟩

end Ends

/-! ## Reports -/

/-- The report says that these actions were completed. -/
structure GcReport.Tells (report : GcReport) (y : GcDone) : Prop where
  marks : report.completedMarks = y.marks.length
  resurrections : report.completedResurrections = y.resurrections.length
  sweeps : report.completedSweeps = y.sweeps.length
  reclaimed : report.bytesReclaimed = presentBytes y.sweeps
  actions : report.actions = y.actions

/-- What a report says about the catalog and the store. The files of the candidates in `gone`
are gone, and the actions in `y` are committed. A blob whose file is gone but whose row is not
is still marked, and nothing refers to it. -/
structure Accounts (x : GcSession) (y : GcDone) (report : GcReport)
    (gone : List SweepCandidate) (w' : GcWorld) : Prop where
  candidates : gone <+: x.preflight.sweepCandidates
  rows : y.sweeps <+: gone
  store : Unlinked (presentHashes gone) x.store w'.store
  removed : report.casFilesRemoved = (presentHashes gone).length
  unlinked : report.bytesUnlinked = presentBytes gone
  catalog : w'.catalog = x.staged y
  reported : report.Tells y
  owed : ∀ candidate ∈ gone, candidate ∉ y.sweeps → w'.catalog.Sweepable candidate.blob.hash

section Accounts

variable {digest : Bytes → BlobHash} {readFails : ReadCall → Bool} {x : GcSession}
  {y : GcDone} {gone : List SweepCandidate} {s : ApplyState} {w : GcWorld}

theorem Holds.tells_committed {counted : List SweepCandidate} (h : Holds x y gone counted s w) :
    (finishCommitted s).Tells y := by
  have hprogress := h.progress
  refine ⟨?_, ?_, ?_, ?_, h.actions⟩
  · exact congrArg StagedProgress.marks hprogress
  · exact congrArg StagedProgress.resurrections hprogress
  · exact congrArg StagedProgress.sweeps hprogress
  · exact congrArg StagedProgress.reclaimed hprogress

/-- Before anything is committed the report says that nothing was. -/
theorem GcSession.Valid.tells_start (hx : x.Valid digest readFails)
    (l : List SweepCandidate) : (x.report l).Tells .start := by
  obtain ⟨dryRun, hpreflight⟩ := hx.preflight
  unfold preflightOf at hpreflight
  simp only [Except.bind_eq_ok, Except.pure_eq_ok, Except.ok.injEq] at hpreflight
  obtain ⟨⟨plan, reachable⟩, -, s, -, hreport⟩ := hpreflight
  rw [GcSession.report, ← hreport]
  exact ⟨rfl, rfl, rfl, rfl, rfl⟩

/-- A blob whose row was not swept yet is still marked after its session is committed. -/
theorem sweepable_of_staged (hx : x.Valid digest readFails) {swept : List SweepCandidate}
    (hswept : swept <+: x.preflight.sweepCandidates) {candidate : SweepCandidate}
    (hmem : candidate ∈ x.preflight.sweepCandidates) (hnot : candidate ∉ swept) :
    (x.staged (x.swept swept)).Sweepable candidate.blob.hash := by
  have hblob := hx.blob_mem hmem
  have hvalid := hx.sweeps.valid _ hblob
  have hnodup := hx.sweeps.nodup
  rw [← hx.map_blob] at hnodup
  have huntouched := hx.untouched (y := x.swept swept) hvalid (by
    intro b' hb'
    have hkinds : b'.planned ≠ .sweep → b' ≠ candidate.blob := by
      rintro hkind rfl
      exact hkind (hx.sweeps.planned _ hblob)
    simp only [GcSession.swept, List.mem_append, List.mem_map] at hb'
    rcases hb' with (hb' | hb') | ⟨c, hc, rfl⟩
    · exact ⟨hx.marks.valid b' hb', hkinds (by simp [hx.marks.planned b' hb'])⟩
    · exact ⟨hx.resurrections.valid b' hb', hkinds (by simp [hx.resurrections.planned b' hb'])⟩
    · have hin := hswept.subset hc
      refine ⟨hx.sweeps.valid _ (hx.blob_mem hin), fun heq => hnot ?_⟩
      rwa [← List.inj_on_of_nodup_map hnodup hin hmem heq])
  obtain ⟨row, hrow, hdecode, -⟩ := huntouched.row x.now
  obtain ⟨href, hmark⟩ := planned_eq_sweep.mp (hx.sweeps.planned _ hblob)
  obtain ⟨-, hnull, href'⟩ := matches_of_decodeBlobRow hdecode
  have hhash := hash_of_decodeBlobRow hdecode
  refine ⟨row, hrow, hhash, fun h => hmark (hnull.mp h), ?_⟩
  rw [← hhash]
  intro h
  rw [href'.mp h] at href
  cases href

/-- Everything staged is committed. -/
theorem Holds.accounts_committed (hx : x.Valid digest readFails) {w' : GcWorld}
    (h : Holds x y gone gone s w) (hy : y = x.swept y.sweeps) (hstore : w'.store = w.store)
    (hcatalog : w'.catalog = x.staged y) :
    Accounts x y (finishCommitted s) gone w' where
  candidates := h.reaches.candidates
  rows := h.reaches.sweeps
  store := hstore ▸ h.store
  removed := by
    change s.report.casFilesRemoved = _
    rw [h.report]
    rfl
  unlinked := by
    change s.report.bytesUnlinked = _
    rw [h.report]
    rfl
  catalog := hcatalog
  reported := h.tells_committed
  owed candidate hmem hnot := by
    rw [hcatalog, hy]
    exact sweepable_of_staged hx (h.reaches.sweeps.trans h.reaches.candidates)
      (h.reaches.candidates.subset hmem) hnot

/-- Nothing is committed. -/
theorem Holds.accounts_rolledBack (hx : x.Valid digest readFails) {w' : GcWorld}
    (h : Holds x y [] [] s w) (hstore : w'.store = w.store) (hcatalog : w'.catalog = w.catalog) :
    Accounts x .start s.report [] w' where
  candidates := List.nil_prefix
  rows := List.nil_prefix
  store := hstore ▸ h.store
  removed := by rw [h.report]; rfl
  unlinked := by rw [h.report]; rfl
  catalog := by
    rw [hcatalog, h.catalog]
    simp [GcSession.staged, GcDone.start]
  reported := h.report ▸ hx.tells_start []
  owed := by simp

end Accounts

/-! ## Every way to apply a plan -/

section Apply

variable [SqlArithmetic] {env : GcEnvironment} {w : GcWorld}

/-- The session of a plan that is applied now. -/
def GcWorld.session (env : GcEnvironment) (w : GcWorld) (preflight : Preflight) : GcSession :=
  ⟨w.catalog, w.store, preflight, env.clock w.calls⟩

/-- How the loops end that apply a plan now. -/
def GcWorld.loops (env : GcEnvironment) (w : GcWorld) (preflight : Preflight) :
    Except ApplyStop ApplyState × GcWorld :=
  Program.exec (gcHandler env) (stagePlan preflight (env.clock w.calls)
    (.start (.ok Writer.inSession) preflight.report)) w.next

/-- The actions that have been staged when the loops end. -/
def GcWorld.stagedActions (env : GcEnvironment) (w : GcWorld) (preflight : Preflight) :
    List GcAction :=
  match (w.loops env preflight).1 with
  | .ok s => s.stagedActions
  | .error stop => stop.state.stagedActions

theorem exec_applyPlan {ε : Type} (env : GcEnvironment) (w : GcWorld) (preflight : Preflight) :
    Program.exec (gcHandler env)
        (applyPlan (.ok Writer.inSession) preflight : GcProgram ε Applied) w =
      match w.loops env preflight with
      | (.ok s, t) => Program.exec (gcHandler env) (commitApplied s) t
      | (.error (.abort s e), t) => Program.exec (gcHandler env) (abortApply s e) t
      | (.error (.commitPartial s e), t) =>
          Program.exec (gcHandler env) (commitPartial s e) t := by
  unfold applyPlan
  rw [Program.exec_bind_ok _ (exec_gcCall .now w), Program.exec_bind_ok _ (exec_attempt _ _)]
  rcases hloops : w.loops env preflight with ⟨⟨s, e⟩ | ⟨s, e⟩ | s, t⟩
  all_goals
    unfold GcWorld.loops at hloops
    have hclock : (gcHandler env GcCall.now w).1 = env.clock w.calls := rfl
    have hnext : (gcHandler env GcCall.now w).2 = w.next := rfl
    simp only [hclock, hnext, hloops]

/-- The plan is applied completely. -/
structure AllApplied (env : GcEnvironment) (w : GcWorld) (preflight : Preflight)
    (report : GcReport) (w' : GcWorld) : Prop where
  accounts : Accounts (w.session env preflight) (w.session env preflight).planned report
    preflight.sweepCandidates w'
  staged : w.stagedActions env preflight = (w.session env preflight).planned.actions

/-- The plan is applied in part: nothing of it is committed, or all marks, all removals of
marks, and the sweeps that had been staged when the loops ended. -/
inductive PartApplied (env : GcEnvironment) (w : GcWorld) (preflight : Preflight)
    (report : GcReport) (w' : GcWorld) : Prop
  | rolledBack (catalog : w'.catalog = w.catalog)
      (accounts : Accounts (w.session env preflight) .start report [] w')
  | committed (gone swept : List SweepCandidate)
      (accounts : Accounts (w.session env preflight) ((w.session env preflight).swept swept)
        report gone w')
      (staged : w.stagedActions env preflight =
        ((w.session env preflight).swept swept).actions)

/-- What applying a plan returns, and what it leaves. Without failures the report is
complete. -/
structure AppliedPlan (env : GcEnvironment) (w : GcWorld) (preflight : Preflight)
    (r : Applied) (w' : GcWorld) : Prop where
  thread : ∃ wr, r.2 = .ok wr ∧ wr.Over
  transaction : w'.writer.connection.transaction = none
  complete : ∀ report, r.1 = .ok (.complete report) → AllApplied env w preflight report w'
  incomplete : ∀ report e, r.1 = .ok (.incomplete report e) →
    PartApplied env w preflight report w'
  blocked : ∀ report, r.1 ≠ .ok (.blocked report)
  error : ∀ e, r.1 = .error e →
    (∃ n, env.telemetryFails n = true) ∧ ∃ report, AllApplied env w preflight report w'
  calm : env.Faultless → w.catalog.Fits → ∃ report, r.1 = .ok (.complete report)

/-- An incomplete report that accounts for everything. -/
theorem AppliedPlan.of_incomplete {preflight : Preflight} {c : Catalog} {report : GcReport}
    {e : String} {r : Applied} {t w' : GcWorld}
    (hr : SessionClosed t c r.2 w' ∧ r.1 = .ok (.incomplete report e))
    (h : PartApplied env w preflight report w')
    (hblame : env.Faultless → ¬ w.catalog.Fits) : AppliedPlan env w preflight r w' := by
  obtain ⟨result, thread⟩ := r
  obtain ⟨hclosed, rfl⟩ := hr
  exact
    { thread := hclosed.thread
      transaction := hclosed.transaction
      complete := fun _ h' => nomatch h'
      incomplete := by
        rintro _ _ ⟨⟩
        exact h
      blocked := fun _ h' => nomatch h'
      error := fun _ h' => nomatch h'
      calm := fun henv hfits => absurd hfits (hblame henv) }

/-- A plan of which everything is staged is committed. -/
theorem AppliedPlan.of_committed {preflight : Preflight} {report : GcReport} {c : Catalog}
    {r : Applied} {t w' : GcWorld} (h : AllApplied env w preflight report w')
    (hclosed : SessionClosed t c r.2 w')
    (hr : r.1 = .ok (.complete report) ∨
      (∃ e, r.1 = .error e) ∧ ∃ n, env.telemetryFails n = true) :
    AppliedPlan env w preflight r w' := by
  obtain ⟨result, thread⟩ := r
  refine ⟨hclosed.thread, hclosed.transaction, ?_, ?_, ?_, ?_, ?_⟩
  all_goals dsimp only at hr ⊢
  · rintro report' rfl
    rcases hr with heq | ⟨⟨e, heq⟩, -⟩
    · cases heq
      exact h
    · cases heq
  · rintro report' e rfl
    rcases hr with heq | ⟨⟨e, heq⟩, -⟩ <;> cases heq
  · rintro report' rfl
    rcases hr with heq | ⟨⟨e, heq⟩, -⟩ <;> cases heq
  · rintro e rfl
    rcases hr with heq | ⟨-, hfails⟩
    · cases heq
    · exact ⟨hfails, _, h⟩
  · intro henv _
    rcases hr with heq | ⟨-, n, hn⟩
    · exact ⟨_, heq⟩
    · rw [henv.telemetry] at hn
      cases hn

theorem exec_applyPlan_accounts (ε : Type) {digest : Bytes → BlobHash} (henv : env.Mild)
    (ht : w.writer.connection.transaction = some w.catalog) {readFails : ReadCall → Bool}
    {preflight : Preflight} (hx : (w.session env preflight).Valid digest readFails) :
    ∃ r w', Program.exec (gcHandler env)
        (applyPlan (.ok Writer.inSession) preflight : GcProgram ε Applied) w = (.ok r, w') ∧
      AppliedPlan env w preflight r w' := by
  have hrun : Meets (gcHandler env) (w.session env preflight).Stopped _ w.next
      (Tracks _ (w.session env preflight).planned) (Halts env _) := meets_stagePlan hx rfl ht rfl
  have hloops : Program.exec (gcHandler env) (stagePlan (w.session env preflight).preflight
      (w.session env preflight).now (.start (.ok Writer.inSession)
        (w.session env preflight).preflight.report)) w.next = w.loops env preflight := rfl
  rw [exec_applyPlan]
  rcases hend : w.loops env preflight with ⟨stop | s, t⟩
  · -- the loops ended early
    rw [hend] at hloops
    have hhalts := hrun.error hloops
    obtain ⟨y, gone, counted, hholds, htransaction, hcounted⟩ := hhalts.holds
    have hcounted : counted = gone := hcounted.resolve_right fun h => h.2 henv
    have ht' : t.writer.connection.transaction = some ((w.session env preflight).staged y) :=
      htransaction.resolve_right fun h => h.2 henv
    subst hcounted
    have hstaged : w.stagedActions env preflight = y.actions := by
      rw [GcWorld.stagedActions, hend]
      exact hholds.actions
    have hcommitted : ∀ {w'}, stop.state.sweepMutationsStarted = true → w'.store = t.store →
        w'.catalog = (w.session env preflight).staged y →
        PartApplied env w preflight (finishCommitted stop.state) w' := by
      intro w' hstarted hstore hcatalog
      have hy := hholds.reaches.staged_eq (hholds.started.mp hstarted)
      exact .committed counted y.sweeps (hy ▸ hholds.accounts_committed hx hy hstore hcatalog)
        (hstaged.trans (congrArg GcDone.actions hy))
    cases stop with
    | abort s e =>
        by_cases hstarted : s.sweepMutationsStarted = true
        · have habort : (abortApply s e : GcProgram ε Applied) = commitPartial s e := by
            rw [abortApply, if_pos hstarted]
          obtain ⟨r, w', hexec, hr⟩ := (meets_commitPartial (ε := ε)
            (E := fun _ _ => False) henv.writer hholds.thread e ht').exists_ok
          refine ⟨r, w', (congrArg (Program.exec _ · t) habort).trans hexec, ?_⟩
          exact .of_incomplete hr (hcommitted hstarted hr.1.store hr.1.catalog) hhalts.blame
        · have hnil : counted = [] := by
            by_contra hne
            exact hstarted (hholds.started.mpr hne)
          subst hnil
          obtain ⟨r, w', hexec, hr⟩ := (meets_abortApply (ε := ε) (E := fun _ _ => False)
            henv.writer hholds.thread (Bool.eq_false_iff.mpr hstarted) e ht').exists_ok
          refine ⟨r, w', hexec, ?_⟩
          exact .of_incomplete hr (.rolledBack (hr.1.catalog.trans hholds.catalog)
            (hholds.accounts_rolledBack hx hr.1.store hr.1.catalog)) hhalts.blame
    | commitPartial s e =>
        have hstarted := hhalts.partial_started s e rfl
        obtain ⟨r, w', hexec, hr⟩ := (meets_commitPartial (ε := ε) (E := fun _ _ => False)
          henv.writer hholds.thread e ht').exists_ok
        refine ⟨r, w', hexec, ?_⟩
        exact .of_incomplete hr (hcommitted hstarted hr.1.store hr.1.catalog) hhalts.blame
  · -- everything is staged
    rw [hend] at hloops
    have htracks := hrun.ok hloops
    obtain ⟨r, w', hexec, hr⟩ := (meets_commitApplied (ε := ε) (E := fun _ _ => False)
      henv.writer htracks.thread htracks.transaction).exists_ok
    have hall : AllApplied env w preflight (finishCommitted s) w' :=
      { accounts := htracks.toHolds.accounts_committed hx rfl hr.1.store hr.1.catalog
        staged := by
          rw [GcWorld.stagedActions, hend]
          exact htracks.actions }
    exact ⟨r, w', hexec, .of_committed hall hr.1 hr.2⟩

/-- However a valid plan is applied, and whatever fails on the way, the report accounts for
the catalog and the files. -/
theorem applyPlan_accounts (digest : Bytes → BlobHash) (env : GcEnvironment) (henv : env.Mild)
    (w : GcWorld) (ht : w.writer.connection.transaction = some w.catalog) (preflight : Preflight)
    (hp : preflightOf digest ⟨w.store, env.readFails⟩ false (inspectCatalogConnection w.catalog) =
      .ok preflight) (hnil : preflight.report.findings = []) :
    ∃ r w', Program.exec (gcHandler env)
        (applyPlan (.ok Writer.inSession) preflight : GcProgram Empty Applied) w = (.ok r, w') ∧
      AppliedPlan env w preflight r w' :=
  exec_applyPlan_accounts Empty henv ht ⟨⟨false, hp⟩, hnil⟩

end Apply

/-! ## A blob whose file is gone -/

/-- The entries of a store without blobs. -/
def bareEntries : List (List Name × FileNode ℕ Bytes) :=
  [([], .directory), ([blobsName], .directory)]

theorem nodup_bareEntries : (bareEntries.map Prod.fst).Nodup := by decide +kernel

theorem parents_bareEntries : ∀ e ∈ bareEntries,
    e.1 = [] ∨ (e.1.dropLast, FileNode.directory) ∈ bareEntries := by decide +kernel

theorem inodes_bareEntries : ∀ e ∈ bareEntries, e.2.InodeLt 0 := by
  simp [bareEntries, FileNode.InodeLt]

/-- A CAS without blobs. -/
def bareCas : Store := .ofEntries bareEntries [] nodup_bareEntries parents_bareEntries
  inodes_bareEntries

/-- The session of a marked blob whose file is gone. -/
def halfSweptWorld : GcWorld := ⟨bareCas, ⟨⟨markedCatalog, some markedCatalog, 0⟩, [], 0, []⟩, 0⟩

theorem lookup_bareCas (p : List Name) (hp : p ≠ []) :
    bareCas.tree.lookup (blobsName :: p) = none := by
  by_contra hne
  obtain ⟨node, hnode⟩ := Option.ne_none_iff_exists'.mp hne
  have hmem := @FileTree.mem_of_lookup_ofEntries _ _ _ _ bareEntries nodup_bareEntries
    parents_bareEntries _ node hnode
  simp [bareEntries, hp] at hmem

theorem safe_bareCas : Safe (fun _ => emptyHash) bareCas markedCatalog where
  catalog := List.length_eq_zero_iff.mp (by decide +kernel)
  entries p node hp hlookup := by
    rw [lookup_bareCas p hp] at hlookup
    cases hlookup
  known hash inode hlookup := by
    rw [blobPath, lookup_bareCas _ (by simp [blobNames])] at hlookup
    cases hlookup
  present b hb := by
    have hmarked : ∀ b ∈ validBlobs markedCatalog, b.markedAtMs.isSome ∧ b.referenced = false := by
      decide +kernel
    exact .inr ⟨lookup_bareCas _ (by simp [blobNames]), hmarked b hb⟩
  size b _ inode hlookup := by
    rw [blobPath, lookup_bareCas _ (by simp [blobNames])] at hlookup
    cases hlookup
  content b _ _ inode hlookup := by
    rw [blobPath, lookup_bareCas _ (by simp [blobNames])] at hlookup
    cases hlookup

theorem calmEnvironment_faultless : calmEnvironment.Faultless where
  store _ _ := rfl
  writer := ⟨fun _ => rfl, fun _ => ⟨le_rfl, le_rfl, le_rfl⟩⟩
  stages _ := rfl
  opens := rfl
  telemetry _ := rfl

theorem applyPlan_accounts_halfSwept : ∃ (_ : SqlArithmetic) (preflight : Preflight),
    ∃ r w', Program.exec (gcHandler calmEnvironment)
        (applyPlan (.ok Writer.inSession) preflight : GcProgram Empty Applied) halfSweptWorld =
          (.ok r, w') ∧
      AppliedPlan calmEnvironment halfSweptWorld preflight r w' := by
  obtain ⟨preflight, hp, hnil⟩ := safe_bareCas.exists_preflight
    (r := ⟨bareCas, fun _ => false⟩) (fun _ => rfl) (by decide +kernel)
    ⟨by decide +kernel, by decide +kernel⟩ false
  let _ := integerSums
  exact ⟨integerSums, preflight, applyPlan_accounts (fun _ => emptyHash) calmEnvironment
    calmEnvironment_faultless.mild halfSweptWorld rfl preflight hp hnil⟩

end MediaImporter
