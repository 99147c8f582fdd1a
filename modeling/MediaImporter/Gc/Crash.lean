import MediaImporter.Gc.Finish

/-!
# Wherever a collection is stopped

A collection can be stopped at every call, by an error or by a crash. Until it has found
nothing wrong, it changes nothing. After that the files of some planned sweeps are gone, and
the catalog is the old one or, in one commit, has all marks, all removals of marks, and the
deletions of rows whose files are gone.

## Main definitions

* `GcSafe` — the states a collection can be stopped in.
* `Concludes` — what it returns.
* `meets_beginSession`, `meets_runPreflight`, `meets_applyPlan` — the parts.
* `meets_collectReal` — the command, with all its failures.
-/

namespace MediaImporter

open Utf8 UnixPath
open Program (Meets)

/-! ## The session begins -/

section Begin

variable [SqlArithmetic] {env : GcEnvironment} {P : GcWorld → Prop} {w : GcWorld}

/-- A statement of the writer that is not staged, inside a collection. -/
theorem meets_sql_bind {call : SqlCall} {α : Type} {f : SqlAnswer call → WriterProgram α}
    {Q : α → GcWorld → Prop} {E : WriterError → GcWorld → Prop} (hw : P w)
    (hcall : ∀ statement, call ≠ .stage statement)
    (hf : ∀ answer connection, w.writer.connection.answer env.writer.counts env.writer.faults
        call = (answer, connection) →
      Meets (Program.restrict GcCall.writer (fun _ => id) (gcHandler env)) P (f answer)
        { w with writer := { w.writer with connection }, calls := w.calls + 1 } Q E) :
    Meets (Program.restrict GcCall.writer (fun _ => id) (gcHandler env)) P (sql call >>= f) w
      Q E := by
  refine Program.meets_requestT_bind hw ?_
  have hanswer := hf _ _ rfl
  cases call with
  | stage statement => exact absurd rfl (hcall statement)
  | begin | record _ | requireCurrentSchema | inspect | commit | rollback | checkpoint =>
      exact hanswer

/-- An event of the writer inside a collection. -/
theorem meets_emit_bind {event : CatalogWriterEvent} {α : Type} {f : Unit → WriterProgram α}
    {Q : α → GcWorld → Prop} {E : WriterError → GcWorld → Prop} (hw : P w)
    (hf : ∀ outbox, Meets (Program.restrict GcCall.writer (fun _ => id) (gcHandler env)) P (f ())
        { w with writer := { w.writer with outbox }, calls := w.calls + 1 } Q E) :
    Meets (Program.restrict GcCall.writer (fun _ => id) (gcHandler env)) P (emit event >>= f) w
      Q E :=
  Program.meets_requestT_bind hw (hf _)

/-- The engine answers a statement, or it fails. -/
theorem SqlConnection.answer_cases {counts : ℕ → ℤ × ℤ × ℤ} {faults : ℕ → Option SqlFault}
    {c c' : SqlConnection} {call : SqlCall} {answer : SqlAnswer call}
    (h : c.answer counts faults call = (answer, c')) :
    answer = (c.perform counts call).1 ∧
        c'.committed = (c.perform counts call).2.committed ∧
        c'.transaction = (c.perform counts call).2.transaction ∨
      (∃ fault, faults c.statements = some fault ∧ answer = failedAnswer fault.message call) ∧
        c'.committed = c.committed := by
  unfold SqlConnection.answer at h
  cases hfault : faults c.statements with
  | none =>
      rw [hfault] at h
      obtain ⟨rfl, rfl⟩ := Prod.mk.inj h
      exact .inl ⟨rfl, rfl, rfl⟩
  | some fault =>
      rw [hfault] at h
      obtain ⟨rfl, rfl⟩ := Prod.mk.inj h
      exact .inr ⟨⟨fault, rfl, rfl⟩, rfl⟩

/-- The session has begun, or it has not and nothing is different. -/
structure AfterBegin (env : GcEnvironment) (w : GcWorld)
    (result : Except String CatalogAuditSnapshot) (active : Bool) (w' : GcWorld) : Prop where
  store : w'.store = w.store
  catalog : w'.catalog = w.catalog
  begun : ∀ snapshot, result = .ok snapshot → active = true ∧
    snapshot = inspectCatalogConnection w.catalog ∧
    w'.writer.connection.transaction = some w.catalog
  failed : ∀ e, result = .error e → ¬ (env.Faultless ∧
    w.catalog.schema.userVersion = currentSchemaVersion)

/-- An attempt to begin that failed is rolled back. -/
theorem meets_rollbackBegin {w₀ : GcWorld} {e : String} (hstore : w.store = w₀.store)
    (hcatalog : w.catalog = w₀.catalog)
    (hP : ∀ w', w'.store = w₀.store → w'.catalog = w₀.catalog → P w')
    (hfailed : ¬ (env.Faultless ∧ w₀.catalog.schema.userVersion = currentSchemaVersion)) :
    Meets (Program.restrict GcCall.writer (fun _ => id) (gcHandler env)) P (do
        let rolledBack ← sql .rollback
        match rolledBack with
        | .ok () => return (.error e, false)
        | .error _ =>
            return (.error ("GC inspection failed and rollback cleanup also failed: " ++ e), false))
      w (fun r w' => AfterBegin env w₀ r.1 r.2 w') (fun _ _ => False) := by
  refine meets_sql_bind (hP w hstore hcatalog) (by simp) fun answer connection hanswer => ?_
  have hcommitted : connection.committed = w.writer.connection.committed := by
    rcases SqlConnection.answer_cases hanswer with ⟨-, h, -⟩ | ⟨-, h⟩
    · rw [h]
      cases ht : w.writer.connection.transaction <;> simp [SqlConnection.perform, ht]
    · exact h
  have hafter : ∀ e', AfterBegin env w₀ (.error e') false
      { w with writer := { w.writer with connection }, calls := w.calls + 1 } := fun e' =>
    { store := hstore
      catalog := hcommitted.trans hcatalog
      begun := by simp
      failed := fun _ _ => hfailed }
  cases answer with
  | ok u => exact Program.meets_pure (hP _ (hafter e).store (hafter e).catalog) (hafter _)
  | error e' => exact Program.meets_pure (hP _ (hafter e).store (hafter e).catalog) (hafter _)

/-- The inspection inside a new transaction. -/
theorem meets_openGcSession (ht : w.writer.connection.transaction = none)
    (hP : ∀ w', w'.store = w.store → w'.catalog = w.catalog → P w') :
    Meets (Program.restrict GcCall.writer (fun _ => id) (gcHandler env)) P openGcSession w
      (fun result w' => AfterBegin env w result true w') (fun _ _ => False) := by
  -- a failure anywhere leaves the catalog alone, and has a reason
  have hfail : ∀ w' e, w'.store = w.store → w'.catalog = w.catalog →
      ¬ (env.Faultless ∧ w.catalog.schema.userVersion = currentSchemaVersion) →
      Meets (Program.restrict GcCall.writer (fun _ => id) (gcHandler env)) P
        (pure (.error e) : WriterProgram (Except String CatalogAuditSnapshot)) w'
        (fun result w'' => AfterBegin env w result true w'') (fun _ _ => False) :=
    fun w' e hstore hcatalog hfailed => Program.meets_pure (hP w' hstore hcatalog)
      ⟨hstore, hcatalog, by simp, fun _ _ => hfailed⟩
  have hfaults : ∀ n fault, env.writer.faults n = some fault →
      ¬ (env.Faultless ∧ w.catalog.schema.userVersion = currentSchemaVersion) := by
    rintro n fault hfault ⟨henv, -⟩
    simp [henv.writer.faults] at hfault
  refine meets_sql_bind (hP w rfl rfl) (by simp) fun answer connection hanswer => ?_
  rcases SqlConnection.answer_cases hanswer with ⟨rfl, hcommitted, htransaction⟩ |
    ⟨⟨fault, hfault, rfl⟩, hcommitted⟩
  swap
  · exact hfail _ _ rfl hcommitted (hfaults _ fault hfault)
  simp only [SqlConnection.perform, ht] at hcommitted htransaction ⊢
  refine meets_sql_bind (hP _ rfl hcommitted) (by simp) fun answer connection' hanswer => ?_
  rcases SqlConnection.answer_cases hanswer with ⟨rfl, hcommitted', htransaction'⟩ |
    ⟨⟨fault, hfault, rfl⟩, hcommitted'⟩
  swap
  · exact hfail _ _ rfl (hcommitted'.trans hcommitted) (hfaults _ fault hfault)
  have hcurrent : connection.current = w.catalog := by
    simp [SqlConnection.current, htransaction, GcWorld.catalog]
  simp only [SqlConnection.perform, hcurrent] at hcommitted' htransaction' ⊢
  cases hschema : requireCurrentSchema w.catalog with
  | error e =>
      refine hfail _ _ rfl (hcommitted'.trans hcommitted) ?_
      rintro ⟨-, hversion⟩
      simp [requireCurrentSchema, Except.ensure, hversion] at hschema
  | ok u =>
      dsimp only
      rw [← bind_pure (sql .inspect)]
      refine meets_sql_bind (hP _ rfl (hcommitted'.trans hcommitted)) (by simp)
        fun answer connection'' hanswer => ?_
      rcases SqlConnection.answer_cases hanswer with ⟨rfl, hcommitted'', htransaction''⟩ |
        ⟨⟨fault, hfault, rfl⟩, hcommitted''⟩
      swap
      · exact hfail _ _ rfl (hcommitted''.trans (hcommitted'.trans hcommitted))
          (hfaults _ fault hfault)
      have hcurrent' : connection'.current = w.catalog := by
        simp [SqlConnection.current, htransaction', htransaction, GcWorld.catalog]
      simp only [SqlConnection.perform, hcurrent'] at hcommitted'' htransaction'' ⊢
      have hcatalog := hcommitted''.trans (hcommitted'.trans hcommitted)
      refine Program.meets_pure (hP _ rfl hcatalog) ⟨rfl, hcatalog, ?_, by simp⟩
      rintro _ ⟨⟩
      refine ⟨rfl, rfl, ?_⟩
      exact htransaction''.trans (htransaction'.trans htransaction)

theorem meets_beginGc (ht : w.writer.connection.transaction = none)
    (hP : ∀ w', w'.store = w.store → w'.catalog = w.catalog → P w') :
    Meets (Program.restrict GcCall.writer (fun _ => id) (gcHandler env)) P (beginGc false) w
      (fun r w' => AfterBegin env w r.1 r.2 w') (fun _ _ => False) := by
  unfold beginGc
  rw [if_neg Bool.false_ne_true]
  refine (meets_openGcSession ht hP).bind ?_ fun _ _ => False.elim
  intro result w' hPw h
  cases result with
  | error e => exact meets_rollbackBegin h.store h.catalog hP (h.failed e rfl)
  | ok snapshot =>
      refine meets_emit_bind hPw fun outbox => ?_
      refine Program.meets_pure (hP _ h.store h.catalog) ?_
      exact ⟨h.store, h.catalog, h.begun, h.failed⟩

/-- What a collection starts its preflight from. -/
structure Begun (env : GcEnvironment) (w : GcWorld)
    (r : Except String CatalogAuditSnapshot × WriterThread) (w' : GcWorld) : Prop where
  idle : r.2.Idle
  store : w'.store = w.store
  catalog : w'.catalog = w.catalog
  begun : ∀ snapshot, r.1 = .ok snapshot → r.2 = .ok Writer.inSession ∧
    snapshot = inspectCatalogConnection w.catalog ∧
    w'.writer.connection.transaction = some w.catalog
  failed : ∀ e, r.1 = .error e → ¬ (env.Faultless ∧
    w.catalog.schema.userVersion = currentSchemaVersion)

theorem meets_beginSession {ε : Type} {E : ε → GcWorld → Prop}
    (ht : w.writer.connection.transaction = none)
    (hP : ∀ w', w'.store = w.store → w'.catalog = w.catalog → P w') :
    Meets (gcHandler env) P (beginSession : GcProgram ε _) w (Begun env w) E := by
  refine (meets_attempt (E := E) (Q := fun result w' => ∃ r, result = .ok r ∧
    AfterBegin env w r.1 r.2 w') (Program.meets_embedT (meets_beginGc ht hP))
    (fun r _ h => ⟨r, rfl, h⟩) fun _ _ => False.elim).bind ?_ fun _ _ he => he
  rintro _ w' hPw ⟨⟨snapshot, active⟩, rfl, h⟩
  refine Program.meets_pure hPw ⟨?_, h.store, h.catalog, ?_, h.failed⟩
  · rintro _ ⟨⟩
    rfl
  · intro s hs
    obtain ⟨hactive, hsnapshot, ht'⟩ := h.begun s hs
    have hactive : active = true := hactive
    subst hactive
    exact ⟨rfl, hsnapshot, ht'⟩

end Begin

/-! ## The plan is made and applied -/

section Run

variable [SqlArithmetic] {env : GcEnvironment} {P : GcWorld → Prop} {w : GcWorld}
  {digest : Bytes → BlobHash}

/-- The preflight changes nothing, and unless the telemetry fails it is the function of the
store and the catalog. -/
theorem meets_runPreflight (dryRun : Bool) (snapshot : CatalogAuditSnapshot)
    (hP : ∀ w', w'.store = w.store → w'.catalog = w.catalog → P w') :
    Meets (gcHandler env) P (runPreflight digest dryRun snapshot) w
      (fun p w' => w.SameState w' ∧
        preflightOf digest ⟨w.store, env.readFails⟩ dryRun snapshot = .ok p)
      (fun e w' => w.SameState w' ∧ (env.Faultless →
        preflightOf digest ⟨w.store, env.readFails⟩ dryRun snapshot = .error e)) := by
  have htail : TailProgram false (fun _ => True) (runPreflight digest dryRun snapshot) :=
    tail_runPreflight digest dryRun snapshot
  have hthrough : (ExceptT.run (runPreflight digest dryRun snapshot)).Throughout
      (gcHandler env) P w :=
    (meets_tail (w := w) (t := w.catalog) htail (by simp)
      (fun w' h => hP w' h.store (by simpa using h.catalog))).throughout
  refine ⟨hthrough, ?_⟩
  obtain ⟨w', hsame, ⟨n, hn, hexec⟩ | hexec⟩ :=
    exec_runPreflight digest env dryRun snapshot w
  · rw [hexec]
    refine ⟨hsame, fun henv => ?_⟩
    simp [henv.telemetry] at hn
  · rw [hexec]
    cases hresult : preflightOf digest ⟨w.store, env.readFails⟩ dryRun snapshot with
    | ok p => exact ⟨hsame, rfl⟩
    | error e => exact ⟨hsame, fun _ => rfl⟩

variable {x : GcSession}

omit [SqlArithmetic] in
theorem GcSession.Stopped.congr {w' : GcWorld} (h : x.Stopped w) (hstore : w'.store = w.store)
    (hcatalog : w'.catalog = w.catalog) : x.Stopped w' := by
  unfold GcSession.Stopped at h ⊢
  rw [hstore, hcatalog]
  exact h

omit [SqlArithmetic] in
/-- What is staged when a file is gone has all marks and all removals of marks. -/
theorem GcSession.Reaches.staged_eq {y : GcDone} {gone : List SweepCandidate}
    (h : x.Reaches y gone) (hgone : gone ≠ []) : y = x.swept y.sweeps := by
  obtain ⟨hmarks, hresurrections⟩ := h.sweepsLast hgone
  cases y
  simp_all [GcSession.swept]

omit [SqlArithmetic] in
/-- Committing what a session has staged. -/
theorem Holds.stopped_of_tail {y : GcDone} {gone counted : List SweepCandidate} {s : ApplyState}
    {w' : GcWorld} {commits : Bool} (h : Holds x y gone counted s w)
    (hy : commits = true → y = x.swept y.sweeps)
    (hw' : TailOf commits w (x.staged y) w') : x.Stopped w' := by
  refine ⟨gone, h.reaches.candidates, hw'.store ▸ h.store, ?_⟩
  rcases hw'.catalog with hcatalog | ⟨hcommits, hcatalog⟩
  · exact .inl (hcatalog.trans h.catalog)
  · refine .inr ⟨y.sweeps, h.reaches.sweeps, ?_⟩
    rw [hcatalog, hy hcommits]
    rfl

/-- The report of a plan that is applied completely. -/
def GcSession.completed (x : GcSession) : GcReport :=
  { x.report x.preflight.sweepCandidates with
    completedMarks := x.preflight.plan.marks.length
    completedResurrections := x.preflight.plan.resurrections.length
    completedSweeps := x.preflight.sweepCandidates.length
    bytesReclaimed := presentBytes x.preflight.sweepCandidates
    actions := x.planned.actions }

omit [SqlArithmetic] in
theorem Tracks.finishCommitted_eq {s : ApplyState} (h : Tracks x x.planned s w) :
    finishCommitted s = x.completed := by
  unfold finishCommitted
  rw [h.report, h.progress, h.actions]
  rfl

/-- What applying a plan returns: a complete report, or an incomplete one. -/
def GcSession.Returns (x : GcSession) (outcome : GcOutcome) : Prop :=
  outcome = .complete x.completed ∨ outcome.Partly x.preflight.report

omit [SqlArithmetic] in
theorem Holds.returns {y : GcDone} {gone counted : List SweepCandidate} {s : ApplyState}
    {outcome : GcOutcome} (h : Holds x y gone counted s w) (ho : outcome.Partly s.report) :
    x.Returns outcome := by
  obtain ⟨r, e, rfl, hr⟩ := ho
  refine .inr ⟨r, e, rfl, hr.trans ?_⟩
  rw [h.report]
  rfl

/-- Applying a plan, wherever it is stopped. -/
theorem meets_applyPlan {ε : Type} {readFails : ReadCall → Bool}
    (hx : x.Valid digest readFails) (hnow : x.now = env.clock w.calls)
    (hcatalog : w.catalog = x.catalog) (ht : w.writer.connection.transaction = some x.catalog)
    (hstore : w.store = x.store) :
    Meets (gcHandler env) x.Stopped
      (applyPlan (.ok Writer.inSession) x.preflight : GcProgram ε Applied) w
      (fun r w' => r.2.Idle ∧ x.Stopped w' ∧ ∀ outcome, r.1 = .ok outcome → x.Returns outcome)
      (fun _ w' => x.Stopped w') := by
  have hstart : x.Stopped w := ((tracks_start hx hcatalog ht hstore)).stopped (.refl w)
  refine Program.meets_requestT_bind hstart ?_
  rw [show (gcHandler env .now w).1 = x.now from hnow.symm]
  set w' := (gcHandler env .now w).2 with hw'
  refine (meets_attempt (E := fun _ w' => x.Stopped w') (Q := fun r w' => match r with
    | .ok s => Tracks x x.planned s w'
    | .error stop => Halts env x stop w')
    (meets_stagePlan (w := w') hx hcatalog ht hstore) (fun _ _ h => h) fun _ _ h => h).bind ?_
    fun _ _ he => he
  rintro r w'' hPw h
  cases r with
  | ok s =>
      refine (meets_tail (tail_commitApplied (h.thread ▸ WriterThread.idle_inSession))
        (fun _ => .inr h.transaction)
        fun w₃ hw₃ => h.toHolds.stopped_of_tail (fun _ => rfl) hw₃).mono ?_ ?_
      · rintro r w₃ ⟨⟨hthread, hresult⟩, hw₃⟩
        refine ⟨hthread, h.toHolds.stopped_of_tail (fun _ => rfl) hw₃, fun outcome ho => ?_⟩
        rcases hresult outcome ho with heq | hpartly
        · exact .inl (heq.trans (congrArg _ h.finishCommitted_eq))
        · exact h.toHolds.returns hpartly
      · exact fun e w₃ hw₃ => h.toHolds.stopped_of_tail (fun _ => rfl) hw₃
  | error stop =>
      obtain ⟨y, gone, counted, hholds, htransaction, hcounted⟩ := h.holds
      have htx : stop.state.sweepMutationsStarted = true →
          w''.writer.connection.transaction = none ∨
            w''.writer.connection.transaction = some (x.staged y) := by
        rintro -
        rcases htransaction with h | h
        · exact .inr h
        · exact .inl h.1
      have hy : stop.state.sweepMutationsStarted = true → y = x.swept y.sweeps := by
        intro hstarted
        refine hholds.reaches.staged_eq fun hnil => hholds.started.mp hstarted ?_
        rcases hcounted with rfl | ⟨rfl, -⟩
        · exact hnil
        · exact List.prefix_nil.mp (hnil ▸ hholds.reaches.sweeps)
      have hidle : stop.state.thread.Idle := hholds.thread ▸ WriterThread.idle_inSession
      cases stop with
      | abort s e =>
          refine (meets_tail (tail_abortApply hidle e) htx
            fun w₃ hw₃ => hholds.stopped_of_tail hy hw₃).mono ?_ ?_
          · exact fun r w₃ hw₃ => ⟨hw₃.1.1, hholds.stopped_of_tail hy hw₃.2,
              fun outcome ho => hholds.returns (hw₃.1.2 outcome ho)⟩
          · exact fun e w₃ hw₃ => hholds.stopped_of_tail hy hw₃
      | commitPartial s e =>
          have hstarted := h.partial_started s e rfl
          refine (meets_tail (tail_commitPartial hidle e) (fun _ => htx hstarted)
            fun w₃ hw₃ => hholds.stopped_of_tail (fun _ => hy hstarted) hw₃).mono ?_ ?_
          · exact fun r w₃ hw₃ => ⟨hw₃.1.1, hholds.stopped_of_tail (fun _ => hy hstarted) hw₃.2,
              fun outcome ho => hholds.returns (hw₃.1.2 outcome ho)⟩
          · exact fun e w₃ hw₃ => hholds.stopped_of_tail (fun _ => hy hstarted) hw₃

end Run

/-! ## The command -/

/-- A state in which a collection can be stopped that starts from the catalog `c` and the
store `d`. -/
def GcSafe (digest : Bytes → BlobHash) (readFails : ReadCall → Bool) (c : Catalog) (d : Store)
    (w : GcWorld) : Prop :=
  w.catalog = c ∧ w.store = d ∨
    ∃ x : GcSession, x.Valid digest readFails ∧ x.catalog = c ∧ x.store = d ∧ x.Stopped w

section Command

variable [SqlArithmetic] {env : GcEnvironment} {w : GcWorld} {digest : Bytes → BlobHash}

omit [SqlArithmetic] in
theorem GcSafe.congr {readFails : ReadCall → Bool} {c : Catalog} {d : Store} {w' : GcWorld}
    (h : GcSafe digest readFails c d w) (hstore : w'.store = w.store)
    (hcatalog : w'.catalog = w.catalog) : GcSafe digest readFails c d w' := by
  rcases h with ⟨hc, hd⟩ | ⟨x, hx, hc, hd, hstopped⟩
  · exact .inl ⟨hcatalog.trans hc, hstore.trans hd⟩
  · exact .inr ⟨x, hx, hc, hd, hstopped.congr hstore hcatalog⟩

/-- A part that only ends the session, in a safe state. -/
theorem meets_safe_tail {ε α : Type} {c : Catalog} {d : Store} {post : α → Prop}
    {p : GcProgram ε α} (h : GcSafe digest env.readFails c d w) (hp : TailProgram false post p) :
    Meets (gcHandler env) (GcSafe digest env.readFails c d) p w
      (fun a w' => post a ∧ GcSafe digest env.readFails c d w')
      (fun _ w' => GcSafe digest env.readFails c d w') := by
  have hsafe : ∀ w', TailOf false w w.catalog w' → GcSafe digest env.readFails c d w' :=
    fun w' hw' => h.congr hw'.store (by simpa using hw'.catalog)
  exact (meets_tail hp (by simp) hsafe).mono (fun a w' hw' => ⟨hw'.1, hsafe w' hw'.2⟩)
    fun e w' hw' => hsafe w' hw'

/-- What a collection ends with that finds the catalog `c` and the store `d`: it is blocked by
the findings of the preflight, or the plan was applied. -/
inductive Concludes (digest : Bytes → BlobHash) (readFails : ReadCall → Bool) (c : Catalog)
    (d : Store) (outcome : GcOutcome) : Prop
  | blocked (p : Preflight) (hp : preflightOf digest ⟨d, readFails⟩ false
      (inspectCatalogConnection c) = .ok p) (findings : p.report.findings ≠ [])
      (heq : outcome = .blocked p.report)
  | applied (p : Preflight) (now : ℤ) (hp : preflightOf digest ⟨d, readFails⟩ false
      (inspectCatalogConnection c) = .ok p) (findings : p.report.findings = [])
      (returns : GcSession.Returns ⟨c, d, p, now⟩ outcome)

theorem meets_collectInSession (env : GcEnvironment) (digest : Bytes → BlobHash)
    (ht : w.writer.connection.transaction = some w.catalog) :
    Meets (gcHandler env) (GcSafe digest env.readFails w.catalog w.store)
      (collectInSession digest (.ok Writer.inSession) (inspectCatalogConnection w.catalog)) w
      (fun outcome w' => GcSafe digest env.readFails w.catalog w.store w' ∧
        Concludes digest env.readFails w.catalog w.store outcome)
      (fun _ w' => GcSafe digest env.readFails w.catalog w.store w') := by
  have hstart : ∀ w', w'.store = w.store → w'.catalog = w.catalog →
      GcSafe digest env.readFails w.catalog w.store w' := fun w' hd hc => .inl ⟨hc, hd⟩
  have hidle := WriterThread.idle_inSession
  refine (meets_attempt (E := fun _ w' => GcSafe digest env.readFails w.catalog w.store w')
    (Q := fun r w' => w.SameState w' ∧ ∀ p, r = .ok p → preflightOf digest
      ⟨w.store, env.readFails⟩ false (inspectCatalogConnection w.catalog) = .ok p)
    (meets_runPreflight false _ hstart) ?_ ?_).bind ?_ fun _ _ he => he
  · rintro p w' ⟨hw', hp⟩
    refine ⟨hw', ?_⟩
    rintro _ ⟨⟩
    exact hp
  · rintro e w' ⟨hw', -⟩
    exact ⟨hw', by simp⟩
  · rintro checked w' hsafe ⟨hw', hpreflight⟩
    have hcatalog : w'.catalog = w.catalog := congrArg (·.connection.committed) hw'.2
    cases checked with
    | error e =>
        exact (meets_safe_tail hsafe (tail_finishAfterTerminalError hidle e)).mono
          (fun _ _ h => h.1.elim) fun _ _ h => h
    | ok preflight =>
        dsimp only
        by_cases hnil : preflight.report.findings = []
        · rw [if_pos hnil]
          have hx : GcSession.Valid digest env.readFails
              ⟨w.catalog, w.store, preflight, env.clock w'.calls⟩ :=
            ⟨⟨false, hpreflight preflight rfl⟩, hnil⟩
          have hlift : ∀ w'', GcSession.Stopped
              ⟨w.catalog, w.store, preflight, env.clock w'.calls⟩ w'' →
              GcSafe digest env.readFails w.catalog w.store w'' :=
            fun w'' h => .inr ⟨_, hx, rfl, rfl, h⟩
          have happly := meets_applyPlan (ε := String) (w := w') hx rfl hcatalog
            ((congrArg (·.connection.transaction) hw'.2).trans ht) hw'.1
          have happly : Meets (gcHandler env) (GcSafe digest env.readFails w.catalog w.store)
              (applyPlan (.ok Writer.inSession) preflight : GcProgram String Applied) w'
              (fun r w'' => r.2.Idle ∧ GcSafe digest env.readFails w.catalog w.store w'' ∧
                ∀ outcome, r.1 = .ok outcome → GcSession.Returns
                  ⟨w.catalog, w.store, preflight, env.clock w'.calls⟩ outcome)
              (fun _ w'' => GcSafe digest env.readFails w.catalog w.store w'') :=
            (happly.safe hlift).mono (fun r w'' h => ⟨h.1, hlift w'' h.2.1, h.2.2⟩)
              fun e w'' => hlift w''
          refine happly.bind ?_ fun _ _ he => he
          rintro ⟨result, thread⟩ w'' _ ⟨hthread, hsafe, hreturns⟩
          exact (meets_safe_tail hsafe (tail_finishWith hthread _ result)).mono
            (fun outcome _ h => ⟨h.2, .applied _ _ (hpreflight preflight rfl) hnil
              (hreturns outcome h.1)⟩) fun _ _ h => h
        · rw [if_neg hnil]
          exact (meets_safe_tail hsafe (tail_finishBlocked hidle preflight.report)).mono
            (fun _ _ h => ⟨h.2, .blocked _ (hpreflight preflight rfl) hnil h.1⟩) fun _ _ h => h

/-- A collection, wherever it is stopped and whatever fails. -/
theorem meets_collectReal (env : GcEnvironment) (digest : Bytes → BlobHash)
    (ht : w.writer.connection.transaction = none) :
    Meets (gcHandler env) (GcSafe digest env.readFails w.catalog w.store) (collectReal digest) w
      (fun outcome w' => GcSafe digest env.readFails w.catalog w.store w' ∧
        Concludes digest env.readFails w.catalog w.store outcome)
      (fun _ w' => GcSafe digest env.readFails w.catalog w.store w') := by
  have hstart : ∀ w', w'.store = w.store → w'.catalog = w.catalog →
      GcSafe digest env.readFails w.catalog w.store w' := fun w' hd hc => .inl ⟨hc, hd⟩
  refine Program.meets_requestT_bind (hstart w rfl rfl) ?_
  have hopen : (gcHandler env .openCatalog w).2 = w.next := rfl
  rw [hopen]
  cases (gcHandler env .openCatalog w).1 with
  | error e => exact Program.meets_throw (hstart _ rfl rfl) (hstart _ rfl rfl)
  | ok u =>
      refine (meets_beginSession (w := w.next) ht hstart).bind ?_ fun _ _ he => he
      rintro ⟨begun, thread⟩ w' hsafe h
      cases begun with
      | error e =>
          exact (meets_safe_tail hsafe (tail_finishWith h.idle _ _)).mono
            (fun _ _ h => nomatch h.1) fun _ _ h => h
      | ok snapshot =>
          obtain ⟨hthread, hsnapshot, htransaction⟩ := h.begun snapshot rfl
          have hstore : w'.store = w.store := h.store
          have hcatalog : w'.catalog = w.catalog := h.catalog
          obtain rfl : thread = .ok Writer.inSession := hthread
          subst hsnapshot
          have hrun := meets_collectInSession env digest (w := w')
            (htransaction.trans (congrArg some hcatalog.symm))
          rw [hstore, hcatalog] at hrun
          exact hrun

end Command

end MediaImporter
