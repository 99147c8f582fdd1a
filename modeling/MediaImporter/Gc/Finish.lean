import MediaImporter.Gc.Sweeps

/-!
# How a session ends

After the loops the session is committed or rolled back and the writer is joined. None of
this touches the store, and the catalog changes with the commit alone. So wherever the end of
a collection is stopped, and whatever fails, the catalog is the one before the commit or what
was staged.

## Main definitions

* `TailCall`, `meets_tail` — the calls after the loops, and what they leave alone.
* `tail_commitApplied`, `tail_abortApply`, `tail_commitPartial` — what is returned.
-/

namespace MediaImporter

open Utf8 UnixPath
open Program (Meets ObeysT)

/-! ## Calls after the loops -/

/-- Steps of the writer that neither begin nor write. -/
def SessionCall (commits : Bool) : WriterCall → Prop
  | .sql .commit => commits = true
  | .sql .rollback | .sql .checkpoint | .emit _ => True
  | _ => False

/-- Calls that leave the store alone and write nothing. -/
def TailCall (commits : Bool) : GcCall → Prop
  | .writer call => SessionCall commits call
  | .view | .now | .telemetryFailed => True
  | _ => False

abbrev AnyAnswer {ι : Type} {ρ : ι → Type} (i : ι) (_ : ρ i) : Prop := True

section Obeys

variable {commits : Bool} {config : CatalogWriterConfig}

theorem obeys_sql (call : SqlCall) (h : SessionCall commits (.sql call)) :
    ObeysT AnyAnswer (SessionCall commits) (fun _ => True) (sql call) :=
  Program.obeysT_requestT h

theorem obeys_emit (event : CatalogWriterEvent) :
    ObeysT AnyAnswer (SessionCall commits) (fun _ => True) (emit event) :=
  Program.obeysT_requestT (i := WriterCall.emit event) trivial

theorem obeys_orFail {α : Type} (r : Except WriterError α) :
    ObeysT AnyAnswer (SessionCall commits) (fun _ => True) (orFail r) := by
  cases r with
  | ok a => exact Program.obeysT_pure trivial
  | error e => exact Program.obeysT_throw e

theorem obeys_checkpoint (report : CatalogWriterReport) :
    ObeysT AnyAnswer (SessionCall commits) (fun _ => True) (checkpoint report) := by
  refine (obeys_sql .checkpoint trivial).bind fun result _ => ?_
  refine (obeys_orFail _).bind fun counts _ => ?_
  obtain ⟨busy, log, checkpointed⟩ := counts
  dsimp only
  split
  · exact Program.obeysT_throw _
  · refine (obeys_orFail _).bind fun checkpoints _ => ?_
    exact (obeys_emit _).bind fun _ _ => Program.obeysT_pure trivial

theorem obeys_checkpointIfDue (count commitSequence : ℕ) (report : CatalogWriterReport) :
    ObeysT AnyAnswer (SessionCall commits) (fun _ => True)
      (checkpointIfDue config count commitSequence report) := by
  unfold checkpointIfDue
  split
  · exact (obeys_emit _).bind fun _ _ => obeys_checkpoint report
  · exact Program.obeysT_pure trivial

/-- The end of a session keeps what is pending. -/
theorem obeys_finishGc (w : Writer) (partially : Bool) :
    ObeysT AnyAnswer (SessionCall commits) (fun r => r.2.pending = w.pending)
      (finishGc config w commits partially) := by
  unfold finishGc
  split
  · exact Program.obeysT_pure rfl
  · cases commits with
    | true =>
        refine (obeys_sql .commit rfl).bind fun result _ => ?_
        cases finishGc.finished true result with
        | error e => exact Program.obeysT_pure rfl
        | ok u =>
            refine ObeysT.bind (M := fun _ => True) ?_ fun report _ => Program.obeysT_pure rfl
            refine (obeys_orFail _).bind fun count _ => ?_
            exact (obeys_emit _).bind fun _ _ => obeys_checkpointIfDue _ _ _
    | false =>
        refine (obeys_sql .rollback trivial).bind fun result _ => ?_
        cases finishGc.finished false result with
        | error e => exact Program.obeysT_pure rfl
        | ok u => exact (obeys_emit _).bind fun _ _ => Program.obeysT_pure rfl

/-- A writer with nothing pending shuts down. -/
theorem obeys_shutDown {w : Writer} (hw : w.pending = []) :
    ObeysT AnyAnswer (SessionCall commits) (fun _ => True) (shutDown config w) := by
  unfold shutDown
  split
  · exact (obeys_sql .rollback trivial).bind fun _ _ => Program.obeysT_throw _
  · refine ObeysT.bind (M := fun _ => True) ?_ fun report _ => ?_
    · unfold shutDown.flushAtShutdown
      rw [hw]
      exact (Program.obeysT_pure (a := w.report) trivial : ObeysT AnyAnswer (SessionCall commits)
        (fun _ => True) (pure w.report)).bind fun _ _ => Program.obeysT_pure trivial
    · exact (obeys_emit _).bind fun _ _ => obeys_checkpoint report

end Obeys

/-! ## Tails -/

section Tails

variable {commits : Bool} {ε : Type}

theorem sessionCall_mono {call : WriterCall} (h : SessionCall false call) :
    SessionCall commits call := by
  unfold SessionCall at h ⊢
  split at h
  · simp at h
  · trivial
  · trivial
  · trivial
  · exact h.elim

theorem tailCall_mono {call : GcCall} (h : TailCall false call) : TailCall commits call := by
  unfold TailCall at h ⊢
  split at h
  · exact sessionCall_mono h
  · trivial
  · trivial
  · trivial
  · exact h.elim

/-- A part of the collection that only ends the session. -/
abbrev TailProgram {α : Type} (commits : Bool) (post : α → Prop) (p : GcProgram ε α) : Prop :=
  ObeysT AnyAnswer (TailCall commits) post p

theorem tail_attempt {ε' α : Type} {post : α → Prop} {p : GcProgram ε' α}
    (hp : TailProgram commits post p) :
    TailProgram commits (fun r => ∀ a, r = .ok a → post a) (attempt p : GcProgram ε _) := by
  change (Except.ok <$> ExceptT.run p).Obeys _ _ _
  rw [← bind_pure_comp, Program.obeys_bind]
  refine Program.Obeys.mono (fun r hr => ?_) hp
  rintro r' hr'
  obtain rfl := Except.ok.inj hr'
  exact hr

theorem tail_ofExcept {α : Type} (r : Except ε α) :
    TailProgram commits (fun a => r = .ok a) (ofExcept r) := by
  cases r with
  | ok a => exact Program.obeysT_pure rfl
  | error e => exact Program.obeysT_throw e

theorem tail_gcCall (call : GcCall) (h : TailCall commits call) :
    TailProgram commits (fun _ => True) (gcCall call : GcProgram ε _) :=
  Program.obeysT_requestT h

theorem tail_checkGcTelemetry : TailProgram commits (fun _ => True) checkGcTelemetry := by
  refine (tail_gcCall .telemetryFailed trivial).bind fun failed _ => ?_
  cases failed with
  | true => exact Program.obeysT_throw _
  | false => exact Program.obeysT_pure trivial

theorem tail_onWriter {α : Type} {post : α → Prop} {p : WriterProgram α}
    (hp : ObeysT AnyAnswer (SessionCall commits) post p) :
    TailProgram commits post (onWriter p) := by
  have hcalls : ObeysT (fun _ _ => True) (fun call => TailCall commits (.writer call)) post p := hp
  exact ObeysT.embedT hcalls

/-- The writer has stopped, or nothing is pending. -/
def WriterThread.Idle (thread : WriterThread) : Prop := ∀ w, thread = .ok w → w.pending = []

theorem WriterThread.idle_inSession : WriterThread.Idle (.ok Writer.inSession) := by
  rintro w ⟨⟩
  rfl

theorem tail_finishSession {thread : WriterThread} (hthread : thread.Idle) (partially : Bool) :
    TailProgram commits (fun r => r.2.Idle)
      (finishSession commits partially thread : GcProgram ε _) := by
  cases thread with
  | error e => exact Program.obeysT_pure (by rintro _ ⟨⟩)
  | ok w =>
      refine (tail_attempt (tail_onWriter (obeys_finishGc w partially))).bind
        fun served hserved => ?_
      cases served with
      | error e => exact Program.obeysT_pure (by rintro _ ⟨⟩)
      | ok r =>
          refine Program.obeysT_pure ?_
          rintro w' ⟨⟩
          exact (hserved r rfl).trans (hthread w rfl)

theorem tail_rollbackSession {thread : WriterThread} (hthread : thread.Idle) :
    TailProgram commits (fun r => r.2.Idle) (rollbackSession thread : GcProgram ε _) :=
  (tail_finishSession hthread false).weaken fun _ => tailCall_mono

theorem tail_commitSession {thread : WriterThread} (hthread : thread.Idle) (partially : Bool) :
    TailProgram true (fun r => r.2.Idle) (commitSession partially thread : GcProgram ε _) := by
  refine (tail_finishSession hthread partially).bind fun r hr => ?_
  obtain ⟨committed, thread⟩ := r
  cases committed with
  | ok u => exact Program.obeysT_pure hr
  | error e =>
      refine (tail_rollbackSession hr).bind fun r' hr' => ?_
      obtain ⟨rolledBack, thread⟩ := r'
      cases rolledBack with
      | ok u => exact Program.obeysT_pure hr'
      | error e => exact Program.obeysT_pure hr'

theorem tail_finishWriter {thread : WriterThread} (hthread : thread.Idle) :
    TailProgram commits (fun _ => True) (finishWriter thread : GcProgram ε _) := by
  cases thread with
  | error e => exact Program.obeysT_pure trivial
  | ok w =>
      have hshut : TailProgram commits (fun _ => True) (do
          let _ ← onWriter (shutDown .default w)
          return ()) :=
        (tail_onWriter (obeys_shutDown (hthread w rfl))).bind fun _ _ =>
          Program.obeysT_pure trivial
      exact (tail_attempt hshut).mono fun _ _ => trivial

/-- The writer's end adds errors only. -/
theorem of_joinResults_eq_ok {context : String} {result : Except String GcOutcome}
    {finish : Except WriterError Unit} {outcome : GcOutcome}
    (h : joinResults context result finish = .ok outcome) : result = .ok outcome := by
  cases result with
  | ok o =>
      cases finish with
      | ok u => exact h
      | error e => cases h
  | error e =>
      cases finish with
      | ok u => cases h
      | error e' => cases h

theorem tail_finishWith {thread : WriterThread} (hthread : thread.Idle) (context : String)
    (result : Except String GcOutcome) :
    TailProgram commits (fun outcome => result = .ok outcome)
      (finishWith context thread result) :=
  (tail_finishWriter hthread).bind fun _ _ => (tail_ofExcept _).mono fun _ => of_joinResults_eq_ok

/-- The plan was not applied completely. The findings are those of the report so far. -/
def GcOutcome.Partly (report : GcReport) (outcome : GcOutcome) : Prop :=
  ∃ r e, outcome = .incomplete r e ∧ r.findings = report.findings

theorem tail_commitPartial {s : ApplyState} (hthread : s.thread.Idle) (e : String) :
    TailProgram true (fun r => r.2.Idle ∧ ∀ outcome, r.1 = .ok outcome → outcome.Partly s.report)
      (commitPartial s e : GcProgram ε _) := by
  refine (tail_commitSession hthread true).bind fun r hr => ?_
  obtain ⟨committed, thread⟩ := r
  cases committed with
  | ok u => exact Program.obeysT_pure ⟨hr, fun _ h => Except.ok.inj h ▸ ⟨_, _, rfl, rfl⟩⟩
  | error e => exact Program.obeysT_pure ⟨hr, fun _ h => Except.ok.inj h ▸ ⟨_, _, rfl, rfl⟩⟩

theorem tail_abortApply {s : ApplyState} (hthread : s.thread.Idle) (e : String) :
    TailProgram s.sweepMutationsStarted
      (fun r => r.2.Idle ∧ ∀ outcome, r.1 = .ok outcome → outcome.Partly s.report)
      (abortApply s e : GcProgram ε _) := by
  unfold abortApply
  cases hstarted : s.sweepMutationsStarted with
  | true => exact tail_commitPartial hthread e
  | false =>
      refine (tail_rollbackSession hthread).bind fun r hr => ?_
      obtain ⟨rolledBack, thread⟩ := r
      cases rolledBack with
      | ok u => exact Program.obeysT_pure ⟨hr, fun _ h => Except.ok.inj h ▸ ⟨_, _, rfl, rfl⟩⟩
      | error e => exact Program.obeysT_pure ⟨hr, fun _ h => nomatch h⟩

theorem tail_commitApplied {s : ApplyState} (hthread : s.thread.Idle) :
    TailProgram true (fun r => r.2.Idle ∧ ∀ outcome, r.1 = .ok outcome →
        outcome = .complete (finishCommitted s) ∨ outcome.Partly s.report)
      (commitApplied s : GcProgram ε _) := by
  refine (tail_commitSession hthread false).bind fun r hr => ?_
  obtain ⟨committed, thread⟩ := r
  cases committed with
  | ok u =>
      refine (tail_attempt tail_checkGcTelemetry).bind fun checked _ => ?_
      cases checked with
      | ok u => exact Program.obeysT_pure ⟨hr, fun _ h => .inl (Except.ok.inj h).symm⟩
      | error e => exact Program.obeysT_pure ⟨hr, fun _ h => nomatch h⟩
  | error e =>
      exact Program.obeysT_pure ⟨hr, fun _ h => .inr (Except.ok.inj h ▸ ⟨_, _, rfl, rfl⟩)⟩

theorem tail_finishAfterTerminalError {thread : WriterThread} (hthread : thread.Idle)
    (e : String) : TailProgram commits (fun _ => False) (finishAfterTerminalError thread e) := by
  refine (tail_rollbackSession hthread).bind fun r hr => ?_
  obtain ⟨rolledBack, thread⟩ := r
  cases rolledBack with
  | ok u => exact (tail_finishWith hr _ _).mono fun _ h => nomatch h
  | error e => exact (tail_finishWith hr _ _).mono fun _ h => nomatch h

theorem tail_finishBlocked {thread : WriterThread} (hthread : thread.Idle) (report : GcReport) :
    TailProgram commits (fun outcome => outcome = .blocked report)
      (finishBlocked thread report) := by
  refine (tail_rollbackSession hthread).bind fun r hr => ?_
  obtain ⟨rolledBack, thread⟩ := r
  cases rolledBack with
  | ok u => exact (tail_finishWith hr _ _).mono fun _ h => (Except.ok.inj h).symm
  | error e => exact (tail_finishWith hr _ _).mono fun _ h => nomatch h

theorem tail_runPreflight (digest : Bytes → BlobHash) (dryRun : Bool)
    (snapshot : CatalogAuditSnapshot) :
    TailProgram commits (fun _ => True) (runPreflight digest dryRun snapshot) := by
  refine (tail_ofExcept _).bind fun planned _ => ?_
  refine tail_checkGcTelemetry.bind fun _ _ => ?_
  refine (tail_gcCall .view trivial).bind fun reader _ => ?_
  refine ObeysT.bind (M := fun _ => True) ?_ fun _ _ => Program.obeysT_pure trivial
  refine Program.obeysT_foldlM _ fun a b _ => ?_
  exact tail_checkGcTelemetry.bind fun _ _ => (tail_ofExcept _).mono fun _ _ => trivial

end Tails

/-! ## What a tail leaves alone -/

/-- The end of a session has run from `w₀`. The store is the same, and the catalog is, unless
what the transaction held was committed. -/
structure TailOf (commits : Bool) (w₀ : GcWorld) (t : Catalog) (w : GcWorld) : Prop where
  store : w.store = w₀.store
  catalog : w.catalog = w₀.catalog ∨ commits = true ∧ w.catalog = t
  transaction : commits = true → w.writer.connection.transaction = none ∨
    w.writer.connection.transaction = some t

section TailOf

variable [SqlArithmetic] {env : GcEnvironment} {commits : Bool} {w w₀ : GcWorld} {t : Catalog}

/-- A statement that ends a transaction commits what it holds or nothing. -/
theorem tailOf_sql {call : SqlCall} (hcall : SessionCall commits (.sql call))
    (hw : TailOf commits w₀ t w) :
    TailOf commits w₀ t { w with
      writer := { w.writer with
        connection := (w.writer.connection.answer env.writer.counts env.writer.faults call).2 }
      calls := w.calls + 1 } := by
  have hkeep : ∀ c : SqlConnection, c.committed = w.writer.connection.committed →
      (c.transaction = w.writer.connection.transaction ∨ c.transaction = none) →
      TailOf commits w₀ t { w with
        writer := { w.writer with connection := c }
        calls := w.calls + 1 } := by
    intro c hcommitted htransaction
    refine ⟨hw.store, ?_, fun hcommits => ?_⟩
    · have hsame : c.committed = w.catalog := hcommitted
      rcases hw.catalog with h | h
      · exact .inl (hsame.trans h)
      · exact .inr ⟨h.1, hsame.trans h.2⟩
    · rcases htransaction with h | h
      · rw [h]
        exact hw.transaction hcommits
      · exact .inl h
  unfold SqlConnection.answer
  cases hfault : env.writer.faults w.writer.connection.statements with
  | some fault =>
      refine hkeep _ rfl ?_
      by_cases hlost : fault.rolledBack = true
      · exact .inr (by simp [hlost])
      · exact .inl (by simp [hlost])
  | none =>
      cases call with
      | rollback =>
          refine hkeep _ ?_ ?_
          · cases ht : w.writer.connection.transaction <;> simp [SqlConnection.perform, ht]
          · cases ht : w.writer.connection.transaction <;> simp [SqlConnection.perform, ht]
      | checkpoint => exact hkeep _ rfl (.inl rfl)
      | commit =>
          have hcommits : commits = true := hcall
          cases ht : w.writer.connection.transaction with
          | none =>
              refine hkeep _ ?_ ?_
              · simp [SqlConnection.perform, ht]
              · simp [SqlConnection.perform, ht]
          | some catalog =>
              have hcatalog : catalog = t := by
                rcases hw.transaction hcommits with h | h
                · simp [ht] at h
                · exact Option.some.inj (ht.symm.trans h)
              refine ⟨hw.store, .inr ⟨hcommits, ?_⟩, fun _ => .inl ?_⟩
              · simp [GcWorld.catalog, SqlConnection.perform, ht, hcatalog]
              · simp [SqlConnection.perform, ht]
      | begin | record _ | stage _ | requireCurrentSchema | inspect => exact hcall.elim

theorem tailOf_gcHandler {call : GcCall} (hcall : TailCall commits call)
    (hw : TailOf commits w₀ t w) : TailOf commits w₀ t (gcHandler env call w).2 := by
  cases call with
  | view | now | telemetryFailed => exact { hw with }
  | store _ | openCatalog | openCopy => exact hcall.elim
  | writer call =>
      cases call with
      | now | receive _ | drain | respond _ _ => exact hcall.elim
      | emit event => exact { hw with }
      | sql call =>
          cases call with
          | stage statement => exact hcall.elim
          | begin | record _ | requireCurrentSchema | inspect => exact hcall.elim
          | rollback | checkpoint | commit => exact tailOf_sql hcall hw

/-- The end of a session, wherever it is stopped. -/
theorem meets_tail {ε α : Type} {P : GcWorld → Prop} {post : α → Prop} {p : GcProgram ε α}
    (hp : TailProgram commits post p)
    (ht : commits = true → w.writer.connection.transaction = none ∨
      w.writer.connection.transaction = some t) (hP : ∀ w', TailOf commits w t w' → P w') :
    Meets (gcHandler env) P p w (fun a w' => post a ∧ TailOf commits w t w')
      (fun _ w' => TailOf commits w t w') := by
  have hmeets := ObeysT.meets (h := gcHandler env) (P := TailOf commits w t)
    (fun _ _ _ => trivial) (fun _ _ hcall hw => tailOf_gcHandler hcall hw) hp
    ⟨rfl, .inl rfl, ht⟩
  exact ⟨hmeets.1.mono _ hP, hmeets.2⟩

end TailOf

end MediaImporter
