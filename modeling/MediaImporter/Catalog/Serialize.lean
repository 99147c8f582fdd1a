import MediaImporter.Catalog.Batching

/-!
# Batches and sessions never interleave

The writer multiplexes imports and garbage collection sessions over one connection. The
ledger is what this comes to: imports are pending and are committed all at once, or a session
is active and what it has staged is committed all at once, and never both. Requests are taken
in the order in which they arrive.

The engine can end the transaction of a session on its own. Nothing of the session is
committed then, unless another statement is staged: it is committed by itself.

## Main definitions

* `Ledger`, `Ledger.Step` — whole batches and whole sessions.
* `Ledger.Represents` — the state of the writer between two turns, as a ledger.
* `writer_serializes` — the writer takes steps of the ledger.
-/

namespace MediaImporter

open Program (Meets Within requestT)

/-! ## The ledger -/

/-- The statement that a request stages. -/
def stageOf : CatalogWriteRequest → Option GcStatement
  | .gcMark blob markedAtMs _ => some (.mark blob markedAtMs)
  | .gcResurrect blob _ => some (.resurrect blob)
  | .gcSweep blob _ => some (.sweep blob)
  | _ => none

/-- What the statements of a session come to. -/
def stageAll (statements : List GcStatement) (c : Catalog) : Catalog :=
  statements.foldl (fun c statement => (statement.stage c).2) c

theorem stageAll_append (statements : List GcStatement) (statement : GcStatement) (c : Catalog) :
    stageAll (statements ++ [statement]) c = (statement.stage (stageAll statements c)).2 := by
  simp [stageAll]

inductive LedgerSession
  | closed
  | active (staged : List GcStatement)
  /-- The engine has ended the transaction of the session. -/
  | lost

/-- What is committed, what waits to be committed, and what is still to arrive. -/
structure Ledger where
  committed : Catalog
  pending : List PendingImport
  session : LedgerSession
  arrivals : List Received

/-- What the writer can do. -/
inductive Ledger.Step [SqlArithmetic] : Ledger → Ledger → Prop
  /-- An import is added to the open batch. -/
  | accept {c pending arrivals r item} (hr : pendingFrom r = some item) :
      Ledger.Step ⟨c, pending, .closed, .request r :: arrivals⟩
        ⟨c, pending ++ [item], .closed, arrivals⟩
  /-- All pending imports are committed. -/
  | flush {c pending arrivals outcomes d}
      (hall : Batch.all recordItem pending c = .ok (outcomes, d)) :
      Ledger.Step ⟨c, pending, .closed, arrivals⟩ ⟨d, [], .closed, arrivals⟩
  /-- A request has no effect: an import during a session, or a request of a garbage
  collection that fails. -/
  | reject {c session arrivals r}
      (hr : ∀ item, pendingFrom r = some item → session ≠ .closed) :
      Ledger.Step ⟨c, [], session, .request r :: arrivals⟩ ⟨c, [], session, arrivals⟩
  | timeout {c pending session arrivals} :
      Ledger.Step ⟨c, pending, session, .timeout :: arrivals⟩ ⟨c, pending, session, arrivals⟩
  | begin {c arrivals response} :
      Ledger.Step ⟨c, [], .closed, .request (.gcBegin response) :: arrivals⟩
        ⟨c, [], .active [], arrivals⟩
  | stage {c staged arrivals r statement} (hr : stageOf r = some statement) :
      Ledger.Step ⟨c, [], .active staged, .request r :: arrivals⟩
        ⟨c, [], .active (staged ++ [statement]), arrivals⟩
  /-- All that the session has staged is committed. -/
  | commit {c staged arrivals partially response} :
      Ledger.Step ⟨c, [], .active staged, .request (.gcFinish true partially response) :: arrivals⟩
        ⟨stageAll staged c, [], .closed, arrivals⟩
  | rollback {c staged arrivals partially response} :
      Ledger.Step ⟨c, [], .active staged, .request (.gcFinish false partially response) :: arrivals⟩
        ⟨c, [], .closed, arrivals⟩
  /-- The engine ends the transaction of the session. -/
  | lose {c staged arrivals} :
      Ledger.Step ⟨c, [], .active staged, arrivals⟩ ⟨c, [], .lost, arrivals⟩

/-- The writer and its connection, as a ledger. `taken` has been received and not been served. -/
structure Ledger.Represents (L : Ledger) (w : Writer) (world : WriterWorld)
    (taken : List Received) : Prop where
  committed : world.connection.committed = L.committed
  pending : w.pending = L.pending
  arrivals : taken ++ world.arrivals = L.arrivals
  /-- The clock runs while something is pending. -/
  deadline : w.firstPendingAt = none ↔ w.pending = []
  closed : L.session = .closed → w.gcActive = false ∧
    (world.connection.transaction = none ∨ world.connection.transaction = some L.committed)
  active : ∀ staged, L.session = .active staged → w.gcActive = true ∧ w.pending = [] ∧
    world.connection.transaction = some (stageAll staged L.committed)
  lost : L.session = .lost → w.gcActive = true ∧ w.pending = [] ∧
    world.connection.transaction = none

/-! ## Statements of the connection -/

section Sql

variable [SqlArithmetic] {env : WriterEnvironment} {world : WriterWorld} {P : WriterWorld → Prop}
  {α : Type} {Q : α → WriterWorld → Prop} {E : WriterError → WriterWorld → Prop}

/-- A statement, and what follows on its answer. -/
theorem meets_statement_bind {call : SqlCall} {f : SqlAnswer call → WriterProgram α} (hw : P world)
    (hf : Meets (writerHandler env) P
      (f (world.connection.answer env.counts env.faults call).1)
      { world with connection := (world.connection.answer env.counts env.faults call).2 } Q E) :
    Meets (writerHandler env) P (sql call >>= f) world Q E :=
  Program.meets_requestT_bind hw hf

variable (env)

/-- The engine fails at a statement or does it. -/
theorem answer_cases (c : SqlConnection) (call : SqlCall) :
    (∃ e conn, c.answer env.counts env.faults call = (SqlConnection.failedAnswer e call, conn) ∧
      conn.committed = c.committed ∧
      (conn.transaction = c.transaction ∨ conn.transaction = none)) ∨
    ∃ conn, c.answer env.counts env.faults call = ((c.perform env.counts call).1, conn) ∧
      conn.committed = (c.perform env.counts call).2.committed ∧
      conn.transaction = (c.perform env.counts call).2.transaction := by
  unfold SqlConnection.answer
  cases env.faults c.statements with
  | none => exact .inr ⟨_, rfl, rfl, rfl⟩
  | some fault =>
      refine .inl ⟨_, _, rfl, rfl, ?_⟩
      dsimp only
      split_ifs
      · exact .inr rfl
      · exact .inl rfl

/-- What beginning a transaction comes to. -/
theorem answer_begin (c : SqlConnection) :
    ((c.answer env.counts env.faults .begin).1 = .ok () ∧
      (c.answer env.counts env.faults .begin).2.committed = c.committed ∧
      (c.answer env.counts env.faults .begin).2.transaction = some c.committed) ∨
    ∃ e, (c.answer env.counts env.faults .begin).1 = .error e ∧
      (c.answer env.counts env.faults .begin).2.committed = c.committed ∧
      ((c.answer env.counts env.faults .begin).2.transaction = c.transaction ∨
        (c.answer env.counts env.faults .begin).2.transaction = none) := by
  rcases answer_cases env c .begin with ⟨e, conn, hans, hc, ht⟩ | ⟨conn, hans, hc, ht⟩
  · rw [hans]
    exact .inr ⟨e, rfl, hc, ht⟩
  · rw [hans]
    cases htx : c.transaction with
    | none =>
        simp only [SqlConnection.perform, htx] at hc ht ⊢
        exact .inl ⟨trivial, hc, ht⟩
    | some t =>
        simp only [SqlConnection.perform, htx] at hc ht ⊢
        exact .inr ⟨_, rfl, hc, .inl ht⟩

/-- What committing comes to. -/
theorem answer_commit (c : SqlConnection) :
    (∃ t, c.transaction = some t ∧ (c.answer env.counts env.faults .commit).1 = .ok () ∧
      (c.answer env.counts env.faults .commit).2.committed = t ∧
      (c.answer env.counts env.faults .commit).2.transaction = none) ∨
    ∃ e, (c.answer env.counts env.faults .commit).1 = .error e ∧
      (c.answer env.counts env.faults .commit).2.committed = c.committed ∧
      ((c.answer env.counts env.faults .commit).2.transaction = c.transaction ∨
        (c.answer env.counts env.faults .commit).2.transaction = none) := by
  rcases answer_cases env c .commit with ⟨e, conn, hans, hc, ht⟩ | ⟨conn, hans, hc, ht⟩
  · rw [hans]
    exact .inr ⟨e, rfl, hc, ht⟩
  · rw [hans]
    cases htx : c.transaction with
    | none =>
        simp only [SqlConnection.perform, htx] at hc ht ⊢
        exact .inr ⟨_, rfl, hc, .inr ht⟩
    | some t =>
        simp only [SqlConnection.perform, htx] at hc ht ⊢
        exact .inl ⟨t, rfl, trivial, hc, ht⟩

/-- What rolling back comes to. -/
theorem answer_rollback (c : SqlConnection) :
    (c.answer env.counts env.faults .rollback).2.committed = c.committed ∧
    ((c.answer env.counts env.faults .rollback).2.transaction = c.transaction ∨
      (c.answer env.counts env.faults .rollback).2.transaction = none) ∧
    ((c.answer env.counts env.faults .rollback).1 = .ok () →
      c.transaction ≠ none ∧ (c.answer env.counts env.faults .rollback).2.transaction = none) := by
  rcases answer_cases env c .rollback with ⟨e, conn, hans, hc, ht⟩ | ⟨conn, hans, hc, ht⟩
  · rw [hans]
    exact ⟨hc, ht, fun hok => by simp [SqlConnection.failedAnswer] at hok⟩
  · rw [hans]
    cases htx : c.transaction with
    | none =>
        simp only [SqlConnection.perform, htx] at hc ht ⊢
        exact ⟨hc, .inl ht, fun hok => by simp at hok⟩
    | some t =>
        simp only [SqlConnection.perform, htx] at hc ht ⊢
        exact ⟨hc, .inr ht, fun _ => ⟨by simp, ht⟩⟩

/-- A record is staged in the open transaction, or nothing is. -/
theorem answer_record (c : SqlConnection) (request : PendingImportRequest) {t : Catalog}
    (htx : c.transaction = some t) :
    (∃ outcome d, (c.answer env.counts env.faults (.record request)).1 = .ok outcome ∧
      request.record t = .ok (outcome, d) ∧
      (c.answer env.counts env.faults (.record request)).2.committed = c.committed ∧
      (c.answer env.counts env.faults (.record request)).2.transaction = some d) ∨
    ∃ e, (c.answer env.counts env.faults (.record request)).1 = .error e ∧
      (c.answer env.counts env.faults (.record request)).2.committed = c.committed := by
  rcases answer_cases env c (.record request) with
    ⟨e, conn, hans, hc, -⟩ | ⟨conn, hans, hc, ht⟩
  · rw [hans]
    exact .inr ⟨e, rfl, hc⟩
  · rw [hans]
    have hcurrent : c.current = t := by simp [SqlConnection.current, htx]
    rcases hrecord : request.record t with e | ⟨outcome, d⟩
    · simp only [SqlConnection.perform, hcurrent, hrecord] at hc ⊢
      exact .inr ⟨e, rfl, hc⟩
    · simp only [SqlConnection.perform, hcurrent, hrecord, SqlConnection.write, htx] at hc ht ⊢
      exact .inl ⟨outcome, d, rfl, rfl, hc, ht⟩

/-- A statement is staged in the open transaction, or the engine fails. -/
theorem answer_stage (c : SqlConnection) (statement : GcStatement) {t : Catalog}
    (htx : c.transaction = some t) :
    ((c.answer env.counts env.faults (.stage statement)).2.committed = c.committed) ∧
    ((c.answer env.counts env.faults (.stage statement)).2.transaction =
        some (statement.stage t).2 ∨
      (∃ e, (c.answer env.counts env.faults (.stage statement)).1 = .error e) ∧
      ((c.answer env.counts env.faults (.stage statement)).2.transaction = some t ∨
        (c.answer env.counts env.faults (.stage statement)).2.transaction = none)) := by
  rcases answer_cases env c (.stage statement) with
    ⟨e, conn, hans, hc, ht⟩ | ⟨conn, hans, hc, ht⟩
  · rw [hans]
    exact ⟨hc, .inr ⟨⟨e, rfl⟩, htx ▸ ht⟩⟩
  · rw [hans]
    have hcurrent : c.current = t := by simp [SqlConnection.current, htx]
    simp only [SqlConnection.perform, hcurrent, SqlConnection.write, htx] at hc ht ⊢
    exact ⟨hc, .inl ht⟩

/-- A statement that only looks at the catalog. If the engine ends the transaction the
statement fails. -/
theorem answer_inspects (c : SqlConnection) (call : SqlCall)
    (hcall : (c.perform env.counts call).2 = c) :
    (c.answer env.counts env.faults call).2.committed = c.committed ∧
    ((c.answer env.counts env.faults call).2.transaction = c.transaction ∨
      (c.answer env.counts env.faults call).2.transaction = none ∧
      ∃ e, (c.answer env.counts env.faults call).1 = SqlConnection.failedAnswer e call) := by
  rcases answer_cases env c call with ⟨e, conn, hans, hc, ht⟩ | ⟨conn, hans, hc, ht⟩
  · rw [hans]
    exact ⟨hc, ht.imp_right fun hnone => ⟨hnone, e, rfl⟩⟩
  · rw [hans]
    rw [hcall] at hc ht
    exact ⟨hc, .inl ht⟩

/-- A statement that only looks. -/
theorem answer_looks (c : SqlConnection) (call : SqlCall)
    (hcall : (c.perform env.counts call).2 = c) :
    (c.answer env.counts env.faults call).2.committed = c.committed ∧
    ((c.answer env.counts env.faults call).2.transaction = c.transaction ∨
      (c.answer env.counts env.faults call).2.transaction = none) := by
  obtain ⟨hc, ht⟩ := answer_inspects env c call hcall
  exact ⟨hc, ht.imp_right And.left⟩

end Sql

/-! ## Parts that only send -/

/-- A call that the connection does not notice. -/
def WriterCall.Silent : WriterCall → Prop
  | .now | .respond _ _ | .emit _ => True
  | .sql _ | .receive _ | .drain => False

/-- A program of silent calls. -/
abbrev SilentProgram {α : Type} (p : WriterProgram α) : Prop :=
  Program.ObeysT (fun _ _ => True) WriterCall.Silent (fun _ => True) p

theorem silent_requestT (call : WriterCall) (hcall : call.Silent) :
    SilentProgram (requestT call) :=
  (Program.obeysT_requestT hcall).mono fun _ _ => trivial

theorem silent_emit (event : CatalogWriterEvent) : SilentProgram (emit event) :=
  silent_requestT (.emit event) trivial

theorem silent_respond (response : ℕ) (r : Response) : SilentProgram (respond response r) :=
  silent_requestT (.respond response r) trivial

theorem silent_answerRecord (record : PendingImport × ImportWriteOutcome) :
    SilentProgram (answerRecord record) :=
  (silent_emit _).bind fun _ _ => silent_respond _ _

theorem silent_rejectBatch (pending : List PendingImport) (sequence : ℕ) (context : String) :
    SilentProgram (rejectBatch pending sequence context) :=
  (silent_emit _).bind fun _ _ => Program.obeysT_forM fun _ _ => silent_respond _ _

theorem silent_deadlinePassed (config : CatalogWriterConfig) (w : Writer) :
    SilentProgram (deadlinePassed config w) := by
  unfold deadlinePassed
  cases w.firstPendingAt with
  | none => exact Program.obeysT_pure trivial
  | some first =>
      exact (silent_requestT .now trivial).bind fun _ _ => Program.obeysT_pure trivial

section Silent

variable [SqlArithmetic] {env : WriterEnvironment} {world : WriterWorld} {PC : Catalog → Prop}
  {α : Type}

/-- A silent program leaves the connection and the arrivals alone. -/
theorem SilentProgram.meets {p : WriterProgram α} (hp : SilentProgram p)
    (hc : PC world.connection.committed) {E : WriterError → WriterWorld → Prop}
    (hE : ∀ e v, E e v) :
    Meets (writerHandler env) (fun v => PC v.connection.committed) p world
      (fun _ v => v.connection = world.connection ∧ v.arrivals = world.arrivals) E := by
  have hkeeps : Meets (writerHandler env)
      (fun v => v.connection = world.connection ∧ v.arrivals = world.arrivals) p world
      (fun _ v => True ∧ v.connection = world.connection ∧ v.arrivals = world.arrivals)
      (fun _ v => v.connection = world.connection ∧ v.arrivals = world.arrivals) := by
    refine Program.ObeysT.meets (fun _ _ _ => trivial) ?_ hp ⟨rfl, rfl⟩
    intro call v hcall hv
    cases call with
    | now | respond _ _ | emit _ => exact hv
    | sql _ | receive _ | drain => exact hcall.elim
  refine (hkeeps.safe fun v hv => ?_).mono (fun _ v hv => hv.2) fun e v _ => hE e v
  rwa [hv.1]

theorem meets_orFail {r : Except WriterError α} (hc : PC world.connection.committed)
    {E : WriterError → WriterWorld → Prop} (hE : ∀ e v, E e v) :
    Meets (writerHandler env) (fun v => PC v.connection.committed) (orFail r) world
      (fun a v => r = .ok a ∧ v = world) E := by
  cases r with
  | error e => exact Program.meets_throw hc (hE e world)
  | ok a => exact Program.meets_pure hc ⟨rfl, rfl⟩

end Silent

/-! ## A batch is committed as a whole -/

section Flush

variable [SqlArithmetic] {env : WriterEnvironment} {world : WriterWorld} {PC : Catalog → Prop}
  {pending : List PendingImport}

/-- A checkpoint commits nothing and begins nothing. -/
theorem meets_checkpoint (hc : PC world.connection.committed) (report : CatalogWriterReport) :
    Meets (writerHandler env) (fun v => PC v.connection.committed) (checkpoint report) world
      (fun _ v => v.connection.committed = world.connection.committed ∧
        (v.connection.transaction = world.connection.transaction ∨
          v.connection.transaction = none) ∧ v.arrivals = world.arrivals)
      (fun _ _ => True) := by
  obtain ⟨hlook, htx⟩ := answer_looks env world.connection .checkpoint rfl
  apply meets_statement_bind hc
  have hc' : PC (world.connection.answer env.counts env.faults .checkpoint).2.committed := by
    rwa [hlook]
  refine (meets_orFail hc' fun _ _ => trivial).bind (fun counts v _ hv => ?_) fun _ _ _ => trivial
  obtain ⟨-, rfl⟩ := hv
  dsimp only
  split_ifs with hneg
  · exact Program.meets_throw hc' trivial
  · refine (meets_orFail hc' fun _ _ => trivial).bind (fun n v _ hv => ?_) fun _ _ _ => trivial
    obtain ⟨-, rfl⟩ := hv
    refine ((silent_emit _).meets hc' fun _ _ => trivial).bind (fun _ v hv hsame => ?_)
      fun _ _ _ => trivial
    refine Program.meets_pure hv ⟨?_, ?_, hsame.2⟩
    · rw [hsame.1, hlook]
    · rw [hsame.1]
      exact htx

theorem meets_checkpointIfDue (config : CatalogWriterConfig) (count commitSequence : ℕ)
    (report : CatalogWriterReport) (hc : PC world.connection.committed) :
    Meets (writerHandler env) (fun v => PC v.connection.committed)
      (checkpointIfDue config count commitSequence report) world
      (fun _ v => v.connection.committed = world.connection.committed ∧
        (v.connection.transaction = world.connection.transaction ∨
          v.connection.transaction = none) ∧ v.arrivals = world.arrivals)
      (fun _ _ => True) := by
  unfold checkpointIfDue
  split_ifs
  · refine ((silent_emit _).meets hc fun _ _ => trivial).bind (fun _ v hv hsame => ?_)
      fun _ _ _ => trivial
    refine (meets_checkpoint hv report).mono (fun _ u hu => ?_) fun _ _ h => h
    rw [hsame.1, hsame.2] at hu
    exact hu
  · exact Program.meets_pure hc ⟨rfl, .inl rfl, rfl⟩

theorem meets_openBatch (size firstSequence : ℕ) (hc : PC world.connection.committed) :
    Meets (writerHandler env) (fun v => PC v.connection.committed)
      (openBatch size firstSequence) world
      (fun _ v => v.connection.committed = world.connection.committed ∧
        v.connection.transaction = some world.connection.committed ∧
        v.arrivals = world.arrivals) (fun _ _ => True) := by
  apply meets_statement_bind hc
  rcases answer_begin env world.connection with ⟨hok, hsame, htx⟩ | ⟨e, herr, hsame, -⟩
  · rw [hok]
    exact Program.meets_pure (by rwa [hsame]) ⟨hsame, htx, rfl⟩
  · rw [herr]
    refine ((silent_emit _).meets (by rwa [hsame]) fun _ _ => trivial).bind (fun _ v hv _ => ?_)
      fun _ _ _ => trivial
    exact Program.meets_throw hv trivial

/-- Records are staged one after the other, or the batch fails. -/
theorem meets_stageBatch (items : List PendingImport) {t : Catalog}
    (htx : world.connection.transaction = some t) (hc : PC world.connection.committed) :
    Meets (writerHandler env) (fun v => PC v.connection.committed)
      (stageBatch pending items) world
      (fun outcomes v => ∃ d, Batch.all recordItem items t = .ok (outcomes, d) ∧
        v.connection.committed = world.connection.committed ∧
        v.connection.transaction = some d ∧ v.arrivals = world.arrivals) (fun _ _ => True) := by
  induction items generalizing world t with
  | nil => exact Program.meets_pure hc ⟨t, rfl, rfl, htx, rfl⟩
  | cons item items ih =>
      apply meets_statement_bind hc
      rcases answer_record env world.connection item.request htx with
        ⟨outcome, d, hok, hrecord, hsame, htx'⟩ | ⟨e, herr, hsame⟩
      · rw [hok]
        refine (ih htx' (by rwa [hsame])).bind (fun outcomes v hv hrest => ?_) fun _ _ _ => trivial
        obtain ⟨u, hall, hcommitted, hopen, harrivals⟩ := hrest
        refine Program.meets_pure hv ⟨u, ?_, hcommitted.trans hsame, hopen, harrivals⟩
        rw [Batch.all_cons_eq_ok_iff]
        exact ⟨outcome, d, outcomes, hrecord, hall, rfl⟩
      · rw [herr]
        refine ((silent_rejectBatch _ _ _).meets (by rwa [hsame]) fun _ _ => trivial).bind
          (fun _ v hv _ => ?_) fun _ _ _ => trivial
        apply meets_statement_bind hv
        exact Program.meets_throw (by rwa [(answer_rollback env v.connection).1]) trivial

theorem meets_commitBatch (firstSequence : ℕ) {t : Catalog}
    (htx : world.connection.transaction = some t) (hc : PC world.connection.committed)
    (hnew : PC t) :
    Meets (writerHandler env) (fun v => PC v.connection.committed)
      (commitBatch pending firstSequence) world
      (fun _ v => v.connection.committed = t ∧ v.connection.transaction = none ∧
        v.arrivals = world.arrivals) (fun _ _ => True) := by
  apply meets_statement_bind hc
  rcases answer_commit env world.connection with
    ⟨u, hu, hok, hcommitted, hnone⟩ | ⟨e, herr, hsame, -⟩
  · obtain rfl : t = u := Option.some.inj (htx.symm.trans hu)
    rw [hok]
    exact Program.meets_pure (by rwa [hcommitted]) ⟨hcommitted, hnone, rfl⟩
  · rw [herr]
    apply meets_statement_bind (by rwa [hsame])
    have hrolled := (answer_rollback env
      (world.connection.answer env.counts env.faults .commit).2).1
    refine ((silent_rejectBatch _ _ _).meets (by rwa [hrolled, hsame]) fun _ _ => trivial).bind
      (fun _ v hv _ => ?_) fun _ _ _ => trivial
    exact Program.meets_throw hv trivial

/-- All pending imports are committed at once, or none are. -/
theorem meets_flushImports (config : CatalogWriterConfig) (report : CatalogWriterReport)
    (hne : pending ≠ []) (hc : PC world.connection.committed)
    (hflush : ∀ outcomes d,
      Batch.all recordItem pending world.connection.committed = .ok (outcomes, d) → PC d) :
    Meets (writerHandler env) (fun v => PC v.connection.committed)
      (flushImports config pending report) world
      (fun _ v => (∃ outcomes, Batch.all recordItem pending world.connection.committed =
          .ok (outcomes, v.connection.committed)) ∧
        v.connection.transaction = none ∧ v.arrivals = world.arrivals) (fun _ _ => True) := by
  cases hpending : pending with
  | nil => exact absurd hpending hne
  | cons first rest =>
      rw [← hpending]
      unfold flushImports
      rw [hpending]
      dsimp only
      rw [← hpending]
      refine ((silent_emit _).meets hc fun _ _ => trivial).bind (fun _ v hv hsame => ?_)
        fun _ _ _ => trivial
      refine (meets_openBatch _ _ hv).bind (fun _ u hu hopened => ?_) fun _ _ _ => trivial
      rw [hsame.1, hsame.2] at hopened
      obtain ⟨hcommitted, htx, harrivals⟩ := hopened
      refine (meets_stageBatch pending htx hu).bind (fun outcomes s hs hstaged => ?_)
        fun _ _ _ => trivial
      obtain ⟨d, hall, hcommitted', htx', harrivals'⟩ := hstaged
      refine (meets_commitBatch _ htx' hs (hflush outcomes d hall)).bind
        (fun _ x hx hdone => ?_) fun _ _ _ => trivial
      obtain ⟨hcommitted'', hnone, harrivals''⟩ := hdone
      refine (meets_orFail hx fun _ _ => trivial).bind (fun counted y hy hsame' => ?_)
        fun _ _ _ => trivial
      obtain ⟨-, rfl⟩ := hsame'
      have hanswers : SilentProgram (forM (pending.zip outcomes) answerRecord) :=
        Program.obeysT_forM fun record _ => silent_answerRecord record
      refine (hanswers.meets hy fun _ _ => trivial).bind (fun _ z hz hsame₁ => ?_)
        fun _ _ _ => trivial
      refine ((silent_emit _).meets hz fun _ _ => trivial).bind (fun _ a ha hsame₂ => ?_)
        fun _ _ _ => trivial
      refine (meets_checkpointIfDue config _ _ _ ha).mono (fun _ b hb => ?_) fun _ _ h => h
      rw [hsame₂.1, hsame₁.1, hsame₂.2, hsame₁.2, hnone, hcommitted''] at hb
      obtain ⟨hb₁, hb₂, hb₃⟩ := hb
      refine ⟨⟨outcomes, by rw [hb₁, hall]⟩, ?_, ?_⟩
      · exact hb₂.elim id id
      · rw [hb₃, harrivals'', harrivals', harrivals]

end Flush

/-! ## The writer takes steps of the ledger -/

/-- A stage request is served in the transaction of its session. -/
def StagesInTransaction : WriterCall → WriterWorld → Prop
  | .sql (.stage _), world => world.connection.transaction ≠ none
  | _, _ => True

section Steps

variable [SqlArithmetic]

/-- What is committed is what a ledger says that can come about. -/
def CommittedBy (start : Ledger) (c : Catalog) : Prop :=
  ∃ L, Relation.ReflTransGen Ledger.Step start L ∧ L.committed = c

/-- The writer is in a state that a ledger represents that can come about. -/
def Follows (start : Ledger) (w : Writer) (world : WriterWorld) (taken : List Received) : Prop :=
  ∃ L, Relation.ReflTransGen Ledger.Step start L ∧ L.Represents w world taken

variable {start : Ledger} {env : WriterEnvironment} {config : CatalogWriterConfig} {w : Writer}
  {world : WriterWorld} {taken : List Received}

theorem Follows.committedBy (h : Follows start w world taken) :
    CommittedBy start world.connection.committed := by
  obtain ⟨L, hreach, hL⟩ := h
  exact ⟨L, hreach, hL.committed.symm⟩

/-- Only the connection and the arrivals are represented. -/
theorem Follows.congr {v : WriterWorld} (h : Follows start w world taken)
    (hsame : v.connection = world.connection ∧ v.arrivals = world.arrivals) :
    Follows start w v taken := by
  obtain ⟨L, hreach, hL⟩ := h
  refine ⟨L, hreach, ?_, hL.pending, ?_, hL.deadline, ?_, ?_, ?_⟩
  · rw [hsame.1]; exact hL.committed
  · rw [hsame.2]; exact hL.arrivals
  · rw [hsame.1]; exact hL.closed
  · rw [hsame.1]; exact hL.active
  · rw [hsame.1]; exact hL.lost

theorem Follows.idle (h : Follows start w world taken) (hactive : w.gcActive = true) :
    w.pending = [] := by
  obtain ⟨L, -, hL⟩ := h
  cases hsession : L.session with
  | closed => simp [(hL.closed hsession).1] at hactive
  | active staged => exact (hL.active staged hsession).2.1
  | lost => exact (hL.lost hsession).2.1

theorem Follows.closed (h : Follows start w world taken) (hactive : w.gcActive = false) :
    ∃ c arrivals, Relation.ReflTransGen Ledger.Step start ⟨c, w.pending, .closed, arrivals⟩ ∧
      world.connection.committed = c ∧ taken ++ world.arrivals = arrivals ∧
      (world.connection.transaction = none ∨ world.connection.transaction = some c) := by
  obtain ⟨⟨c, pending, session, arrivals⟩, hreach, hL⟩ := h
  have hsession : session = .closed := by
    cases session with
    | closed => rfl
    | active staged => simp [(hL.active staged rfl).1] at hactive
    | lost => simp [(hL.lost rfl).1] at hactive
  subst hsession
  obtain rfl : w.pending = pending := hL.pending
  exact ⟨c, arrivals, hreach, hL.committed, hL.arrivals, (hL.closed rfl).2⟩

/-- With no session active, what the ledger says of the writer. -/
theorem Follows.of_closed {c : Catalog} {arrivals : List Received}
    (hreach : Relation.ReflTransGen Ledger.Step start ⟨c, w.pending, .closed, arrivals⟩)
    (hc : world.connection.committed = c) (harrivals : taken ++ world.arrivals = arrivals)
    (hdeadline : w.firstPendingAt = none ↔ w.pending = []) (hactive : w.gcActive = false)
    (htx : world.connection.transaction = none ∨ world.connection.transaction = some c) :
    Follows start w world taken :=
  ⟨_, hreach, hc, rfl, harrivals, hdeadline, fun _ => ⟨hactive, htx⟩, fun _ h => by simp at h,
    fun h => by simp at h⟩

/-- A request without effect. The engine may have ended the transaction. -/
theorem Follows.rejected {v : WriterWorld} {r : CatalogWriteRequest}
    (h : Follows start w world [.request r]) (hpending : w.pending = [])
    (hr : ∀ item, pendingFrom r = some item → w.gcActive = true)
    (hc : v.connection.committed = world.connection.committed)
    (htx : v.connection.transaction = world.connection.transaction ∨
      v.connection.transaction = none ∨
      w.gcActive = false ∧ v.connection.transaction = some world.connection.committed)
    (harrivals : v.arrivals = world.arrivals) : Follows start w v [] := by
  obtain ⟨⟨c, pending, session, arrivals⟩, hreach, hL⟩ := h
  obtain rfl : [] = pending := hpending.symm.trans hL.pending
  obtain rfl : .request r :: world.arrivals = arrivals := hL.arrivals
  have hcommitted : v.connection.committed = c := hc.trans hL.committed
  have hdone : ∀ {session : LedgerSession}, (session = .closed → w.gcActive = false) →
      Ledger.Step ⟨c, [], session, .request r :: world.arrivals⟩
        ⟨c, [], session, world.arrivals⟩ := by
    intro session hclosed
    refine .reject fun item hitem heq => ?_
    have := hclosed heq
    simp [hr item hitem] at this
  cases session with
  | closed =>
      obtain ⟨hactive, hold⟩ := hL.closed rfl
      refine ⟨_, hreach.tail (hdone fun _ => hactive), hcommitted, hpending, harrivals, hL.deadline,
        fun _ => ⟨hactive, ?_⟩, fun _ h => by simp at h, fun h => by simp at h⟩
      rcases htx with htx | htx | ⟨-, htx⟩
      · rw [htx]
        exact hold
      · exact .inl htx
      · exact .inr (htx.trans (congrArg some hL.committed))
  | active staged =>
      obtain ⟨hactive, -, hold⟩ := hL.active staged rfl
      rcases htx with htx | htx | ⟨hidle, -⟩
      · refine ⟨_, hreach.tail (hdone fun h => by simp at h), hcommitted, hpending, harrivals,
          hL.deadline, fun h => by simp at h, fun staged' h => ?_, fun h => by simp at h⟩
        obtain rfl : staged = staged' := LedgerSession.active.inj h
        exact ⟨hactive, hpending, htx.trans hold⟩
      · exact ⟨_, (hreach.tail .lose).tail (hdone fun h => by simp at h), hcommitted, hpending,
          harrivals, hL.deadline, fun h => by simp at h, fun _ h => by simp at h,
          fun _ => ⟨hactive, hpending, htx⟩⟩
      · simp [hidle] at hactive
  | lost =>
      obtain ⟨hactive, -, hold⟩ := hL.lost rfl
      refine ⟨_, hreach.tail (hdone fun h => by simp at h), hcommitted, hpending, harrivals,
        hL.deadline, fun h => by simp at h, fun _ h => by simp at h,
        fun _ => ⟨hactive, hpending, ?_⟩⟩
      rcases htx with htx | htx | ⟨hidle, -⟩
      · exact htx.trans hold
      · exact htx
      · simp [hidle] at hactive

/-! ### Imports -/

theorem meets_flush (h : Follows start w world taken) :
    Meets (writerHandler env) (fun v => CommittedBy start v.connection.committed)
      (flush config w) world
      (fun w' v => w'.gcActive = w.gcActive ∧ w'.pending = [] ∧ w'.firstPendingAt = none ∧
        Follows start w' v taken) (fun _ _ => True) := by
  by_cases hpending : w.pending = []
  · have hnothing : flushImports config w.pending w.report = pure w.report := by
      rw [hpending]
      rfl
    rw [flush, hnothing, pure_bind]
    obtain ⟨L, hreach, hL⟩ := h
    refine Program.meets_pure ⟨L, hreach, hL.committed.symm⟩ ⟨rfl, rfl, rfl, L, hreach,
      hL.committed, hpending ▸ hL.pending, hL.arrivals, by simp, hL.closed, fun staged hs => ?_,
      fun hs => ?_⟩
    · obtain ⟨hactive, -, htx⟩ := hL.active staged hs
      exact ⟨hactive, rfl, htx⟩
    · obtain ⟨hactive, -, htx⟩ := hL.lost hs
      exact ⟨hactive, rfl, htx⟩
  · have hactive : w.gcActive = false := by
      by_contra hactive
      exact hpending (h.idle (by simpa using hactive))
    obtain ⟨c, arrivals, hreach, hc, harrivals, -⟩ := h.closed hactive
    have hflush : ∀ outcomes d, Batch.all recordItem w.pending world.connection.committed =
        .ok (outcomes, d) → CommittedBy start d := by
      intro outcomes d hall
      rw [hc] at hall
      exact ⟨_, hreach.tail (.flush hall), rfl⟩
    refine (meets_flushImports config w.report hpending h.committedBy hflush).bind
      (fun report v hv hdone => ?_) fun _ _ h => h
    obtain ⟨⟨outcomes, hall⟩, htx, hsame⟩ := hdone
    rw [hc] at hall
    refine Program.meets_pure hv ⟨rfl, rfl, rfl, ?_⟩
    refine Follows.of_closed (hreach.tail (.flush hall)) rfl ?_ (by simp) hactive (.inl htx)
    rw [hsame, harrivals]

theorem meets_flushExpired (h : Follows start w world taken) :
    Meets (writerHandler env) (fun v => CommittedBy start v.connection.committed)
      (flushExpired config w) world
      (fun w' v => w'.gcActive = w.gcActive ∧ Follows start w' v taken) (fun _ _ => True) := by
  refine ((silent_deadlinePassed config w).meets h.committedBy fun _ _ => trivial).bind
    (fun expired v hv hsame => ?_) fun _ _ _ => trivial
  split_ifs
  · exact (meets_flush (h.congr hsame)).mono (fun _ u hu => ⟨hu.1, hu.2.2.2⟩) fun _ _ h => h
  · exact Program.meets_pure hv ⟨rfl, h.congr hsame⟩

theorem meets_push {r : CatalogWriteRequest} {item : PendingImport}
    (h : Follows start w world [.request r]) (hr : pendingFrom r = some item)
    (hactive : w.gcActive = false) :
    Meets (writerHandler env) (fun v => CommittedBy start v.connection.committed)
      (push w item) world (fun w' v => Follows start w' v []) (fun _ _ => True) := by
  obtain ⟨c, arrivals, hreach, hc, rfl, htx⟩ := h.closed hactive
  have haccept := hreach.tail (.accept hr)
  unfold push
  cases hfirst : w.firstPendingAt with
  | some first =>
      exact Program.meets_pure h.committedBy
        (Follows.of_closed haccept hc rfl (by simp) hactive htx)
  | none =>
      refine ((silent_requestT .now trivial).meets h.committedBy fun _ _ => trivial).bind
        (fun now v hv hsame => ?_) fun _ _ _ => trivial
      refine Program.meets_pure hv (Follows.of_closed haccept ?_ ?_ (by simp) hactive ?_)
      · rw [hsame.1, hc]
      · rw [hsame.2]
        rfl
      · rwa [hsame.1]

theorem meets_flushFull (h : Follows start w world []) :
    Meets (writerHandler env) (fun v => CommittedBy start v.connection.committed)
      (flushFull config w) world (fun w' v => Follows start w' v []) (fun _ _ => True) := by
  unfold flushFull
  split_ifs
  · exact (meets_flush h).mono (fun _ u hu => hu.2.2.2) fun _ _ h => h
  · exact Program.meets_pure h.committedBy h

theorem meets_acceptImport {r : CatalogWriteRequest} {item : PendingImport}
    (h : Follows start w world [.request r]) (hr : pendingFrom r = some item) :
    Meets (writerHandler env) (fun v => CommittedBy start v.connection.committed)
      (acceptImport config w item) world (fun w' v => Follows start w' v [])
      (fun _ _ => True) := by
  refine (meets_flushExpired h).bind (fun w' v hv hflushed => ?_) fun _ _ h => h
  obtain ⟨hsame, h'⟩ := hflushed
  by_cases hactive : w'.gcActive = true
  · rw [if_pos hactive]
    refine ((silent_respond _ _).meets hv fun _ _ => trivial).bind (fun _ u hu hkept => ?_)
      fun _ _ _ => trivial
    refine Program.meets_pure hu (h'.rejected (h'.idle hactive) (fun _ _ => hactive) ?_ ?_ hkept.2)
    · rw [hkept.1]
    · rw [hkept.1]
      exact .inl rfl
  · rw [if_neg hactive]
    refine (meets_push h' hr (by simpa using hactive)).bind (fun w'' u hu hpushed => ?_)
      fun _ _ h => h
    exact meets_flushFull hpushed

/-! ### Garbage collection -/

/-- A part of the writer that commits nothing and receives nothing. -/
def Kept (world v : WriterWorld) : Prop :=
  v.connection.committed = world.connection.committed ∧ v.arrivals = world.arrivals

theorem meets_openLedgerSession (hc : CommittedBy start world.connection.committed) :
    Meets (writerHandler env) (fun v => CommittedBy start v.connection.committed)
      openGcSession world
      (fun result v => Kept world v ∧
        (v.connection.transaction = world.connection.transaction ∨
          v.connection.transaction = none ∨
          v.connection.transaction = some world.connection.committed) ∧
        ∀ snapshot, result = .ok snapshot →
          v.connection.transaction = some world.connection.committed)
      (fun _ _ => True) := by
  apply meets_statement_bind hc
  rcases answer_begin env world.connection with ⟨hok, hsame, htx⟩ | ⟨e, herr, hsame, htx⟩
  · rw [hok]
    have hc₁ : CommittedBy start
        (world.connection.answer env.counts env.faults .begin).2.committed := by
      rwa [hsame]
    apply meets_statement_bind hc₁
    set conn := (world.connection.answer env.counts env.faults .begin).2
    obtain ⟨hsame₂, htx₂⟩ := answer_inspects env conn .requireCurrentSchema rfl
    have hc₂ : CommittedBy start
        (conn.answer env.counts env.faults .requireCurrentSchema).2.committed := by
      rwa [hsame₂]
    rw [htx] at htx₂
    dsimp only
    cases hcurrent : (conn.answer env.counts env.faults .requireCurrentSchema).1 with
    | error e =>
        refine Program.meets_pure hc₂ ⟨⟨hsame₂.trans hsame, rfl⟩, ?_, fun _ h => by simp at h⟩
        rcases htx₂ with htx₂ | ⟨htx₂, -⟩
        · exact .inr (.inr htx₂)
        · exact .inr (.inl htx₂)
    | ok u =>
        have hopen : (conn.answer env.counts env.faults .requireCurrentSchema).2.transaction =
            some world.connection.committed := by
          rcases htx₂ with htx₂ | ⟨-, e, he⟩
          · exact htx₂
          · simp [he, SqlConnection.failedAnswer] at hcurrent
        set conn' := (conn.answer env.counts env.faults .requireCurrentSchema).2
        obtain ⟨hsame₃, htx₃⟩ := answer_inspects env conn' .inspect rfl
        rw [hopen] at htx₃
        refine Program.meets_requestT hc₂ ?_ ⟨⟨?_, rfl⟩, ?_, fun snapshot hsnapshot => ?_⟩
        · change CommittedBy start (conn'.answer env.counts env.faults .inspect).2.committed
          rwa [hsame₃]
        · exact hsame₃.trans (hsame₂.trans hsame)
        · rcases htx₃ with htx₃ | ⟨htx₃, -⟩
          · exact .inr (.inr htx₃)
          · exact .inr (.inl htx₃)
        · rcases htx₃ with htx₃ | ⟨-, e, he⟩
          · exact htx₃
          · change (conn'.answer env.counts env.faults .inspect).1 = .ok snapshot at hsnapshot
            simp [he, SqlConnection.failedAnswer] at hsnapshot
  · rw [herr]
    refine Program.meets_pure (by rwa [hsame]) ⟨⟨hsame, rfl⟩, ?_, fun _ h => by simp at h⟩
    rcases htx with htx | htx
    · exact .inl htx
    · exact .inr (.inl htx)

theorem meets_beginLedgerSession (hc : CommittedBy start world.connection.committed) :
    Meets (writerHandler env) (fun v => CommittedBy start v.connection.committed)
      (beginGc false) world
      (fun result v => Kept world v ∧
        (v.connection.transaction = world.connection.transaction ∨
          v.connection.transaction = none ∨
          v.connection.transaction = some world.connection.committed) ∧
        (result.2 = true → v.connection.transaction = some world.connection.committed))
      (fun _ _ => True) := by
  rw [beginGc, if_neg Bool.false_ne_true]
  refine (meets_openLedgerSession hc).bind (fun result v hv hopened => ?_) fun _ _ h => h
  obtain ⟨hkept, htx, hok⟩ := hopened
  cases result with
  | ok snapshot =>
      refine ((silent_emit _).meets hv fun _ _ => trivial).bind (fun _ u hu hsame => ?_)
        fun _ _ _ => trivial
      rw [← hsame.1] at htx
      refine Program.meets_pure hu ⟨⟨?_, hsame.2.trans hkept.2⟩, htx, fun _ => ?_⟩
      · rw [hsame.1, hkept.1]
      · rw [hsame.1]
        exact hok snapshot rfl
  | error e =>
      obtain ⟨hsame, htx', -⟩ := answer_rollback env v.connection
      have hc' : CommittedBy start
          (v.connection.answer env.counts env.faults .rollback).2.committed := by
        rwa [hsame]
      have htx'' : (v.connection.answer env.counts env.faults .rollback).2.transaction =
          world.connection.transaction ∨
          (v.connection.answer env.counts env.faults .rollback).2.transaction = none ∨
          (v.connection.answer env.counts env.faults .rollback).2.transaction =
            some world.connection.committed := by
        rcases htx' with htx' | htx'
        · rwa [htx']
        · exact .inr (.inl htx')
      apply meets_statement_bind hv
      cases (v.connection.answer env.counts env.faults .rollback).1 with
      | ok u => exact Program.meets_pure hc' ⟨⟨hsame.trans hkept.1, hkept.2⟩, htx'', by simp⟩
      | error e => exact Program.meets_pure hc' ⟨⟨hsame.trans hkept.1, hkept.2⟩, htx'', by simp⟩

/-- A session is begun, or the request has no effect. -/
theorem meets_gcBegin {response : ℕ} (h : Follows start w world [.request (.gcBegin response)])
    (hpending : w.pending = []) :
    Meets (writerHandler env) (fun v => CommittedBy start v.connection.committed)
      (handleGc config w (.gcBegin response)) world (fun w' v => Follows start w' v [])
      (fun _ _ => True) := by
  by_cases hactive : w.gcActive = true
  · have hbegin : beginGc w.gcActive = pure (.error "GC session already active", true) := by
      rw [hactive]
      rfl
    rw [handleGc, hbegin, pure_bind]
    refine ((silent_respond _ _).meets h.committedBy fun _ _ => trivial).bind
      (fun _ v hv hsame => ?_) fun _ _ _ => trivial
    have hw : { w with gcActive := true } = w := by rw [← hactive]
    refine Program.meets_pure hv ?_
    rw [hw]
    refine h.rejected hpending (fun _ hr => by simp [pendingFrom] at hr) ?_ ?_ hsame.2
    · rw [hsame.1]
    · rw [hsame.1]
      exact .inl rfl
  · have hidle : w.gcActive = false := by simpa using hactive
    rw [handleGc, hidle]
    refine (meets_beginLedgerSession h.committedBy).bind (fun result v hv hbegun => ?_)
      fun _ _ h => h
    obtain ⟨outcome, gcActive⟩ := result
    obtain ⟨hkept, htx, hok⟩ := hbegun
    refine ((silent_respond _ _).meets hv fun _ _ => trivial).bind (fun _ u hu hsame => ?_)
      fun _ _ _ => trivial
    refine Program.meets_pure hu ?_
    rw [← hsame.1] at htx hok
    cases gcActive with
    | true =>
        obtain ⟨c, arrivals, hreach, hc, rfl, -⟩ := h.closed hidle
        rw [hpending] at hreach
        refine ⟨_, hreach.tail .begin, ?_, hpending, ?_, ?_, fun h => by simp at h,
          fun staged hs => ?_, fun h => by simp at h⟩
        · rw [hsame.1, hkept.1, hc]
        · rw [hsame.2, hkept.2]
          rfl
        · obtain ⟨L, -, hL⟩ := h
          exact hL.deadline
        · obtain rfl : [] = staged := LedgerSession.active.inj hs
          exact ⟨rfl, hpending, (hok rfl).trans (congrArg some hc)⟩
    | false =>
        have hw : { w with gcActive := false } = w := by rw [← hidle]
        rw [hw]
        refine h.rejected hpending (fun _ hr => by simp [pendingFrom] at hr) ?_ ?_
          (hsame.2.trans hkept.2)
        · rw [hsame.1, hkept.1]
        · rcases htx with htx | htx | htx
          · exact .inl htx
          · exact .inr (.inl htx)
          · exact .inr (.inr ⟨hidle, htx⟩)

/-- A statement is staged in the session, or the request has no effect. -/
theorem within_stage {r : CatalogWriteRequest} {statement : GcStatement} {response : ℕ}
    (h : Follows start w world [.request r]) (hr : stageOf r = some statement)
    (hnot : pendingFrom r = none) (hpending : w.pending = []) :
    Within (writerHandler env) StagesInTransaction
      (fun v => CommittedBy start v.connection.committed)
      (handleGc.stage w response statement) world (fun w' v => Follows start w' v [])
      (fun _ _ => True) := by
  have hreject : ∀ item, pendingFrom r = some item → w.gcActive = true :=
    fun _ hitem => by simp [hnot] at hitem
  have hanswer : ∀ (v : WriterWorld) (answer : Except String Unit),
      CommittedBy start v.connection.committed → Follows start w v [] →
      Within (writerHandler env) StagesInTransaction
        (fun v => CommittedBy start v.connection.committed)
        (do respond response (.done answer); return w) v (fun w' u => Follows start w' u [])
        (fun _ _ => True) := by
    intro v answer hv hfollows
    apply Meets.within
    refine ((silent_respond _ _).meets hv fun _ _ => trivial).bind (fun _ u hu hsame => ?_)
      fun _ _ _ => trivial
    exact Program.meets_pure hu (hfollows.congr hsame)
  unfold handleGc.stage stageGcStatement
  by_cases hactive : w.gcActive = true
  · rw [if_pos hactive]
    refine Program.within_requestT_bind h.committedBy fun hopen => ?_
    change world.connection.transaction ≠ none at hopen
    obtain ⟨L, hreach, hL⟩ := h
    obtain ⟨staged, hsession⟩ : ∃ staged, L.session = .active staged := by
      cases hsession : L.session with
      | closed => simp [(hL.closed hsession).1] at hactive
      | active staged => exact ⟨staged, rfl⟩
      | lost => exact absurd (hL.lost hsession).2.2 hopen
    have htx := (hL.active staged hsession).2.2
    obtain ⟨hc, hstaged⟩ := answer_stage env world.connection statement htx
    have hcommitted : CommittedBy start
        (world.connection.answer env.counts env.faults (.stage statement)).2.committed :=
      ⟨L, hreach, hL.committed.symm.trans hc.symm⟩
    refine hanswer ⟨(world.connection.answer env.counts env.faults (.stage statement)).2,
      world.arrivals, world.ticks, world.outbox⟩ _ hcommitted ?_
    rcases hstaged with hstaged | ⟨-, hstaged⟩
    · obtain ⟨c, pending, session, arrivals⟩ := L
      obtain rfl : [] = pending := hpending.symm.trans hL.pending
      obtain rfl : session = .active staged := hsession
      obtain rfl : .request r :: world.arrivals = arrivals := hL.arrivals
      refine ⟨_, hreach.tail (.stage hr), hc.trans hL.committed, hpending, rfl, hL.deadline,
        fun h => by simp at h, fun staged' hs => ?_, fun h => by simp at h⟩
      obtain rfl : staged ++ [statement] = staged' := LedgerSession.active.inj hs
      refine ⟨hactive, hpending, ?_⟩
      rw [stageAll_append]
      exact hstaged
    · refine Follows.rejected ⟨L, hreach, hL⟩ hpending hreject hc ?_ rfl
      rcases hstaged with hstaged | hstaged
      · exact .inl (hstaged.trans htx.symm)
      · exact .inr (.inl hstaged)
  · rw [if_neg hactive, pure_bind]
    exact hanswer world _ h.committedBy
      (h.rejected hpending hreject rfl (.inl rfl) rfl)

theorem meets_countGcSession (hc : CommittedBy start world.connection.committed)
    (report : CatalogWriterReport) (partially : Bool) :
    Meets (writerHandler env) (fun v => CommittedBy start v.connection.committed)
      (countGcSession config report partially) world
      (fun _ v => Kept world v ∧ (v.connection.transaction = world.connection.transaction ∨
        v.connection.transaction = none)) (fun _ _ => True) := by
  refine (meets_orFail hc fun _ _ => trivial).bind (fun n v hv hsame => ?_) fun _ _ _ => trivial
  obtain ⟨-, rfl⟩ := hsame
  refine ((silent_emit _).meets hv fun _ _ => trivial).bind (fun _ u hu hsame => ?_)
    fun _ _ _ => trivial
  refine (meets_checkpointIfDue config _ _ _ hu).mono (fun _ x hx => ?_) fun _ _ h => h
  rw [hsame.1, hsame.2] at hx
  exact ⟨⟨hx.1, hx.2.2⟩, hx.2.1⟩

/-- A session is ended, or the request has no effect. -/
theorem meets_finishGc {commit partially : Bool} {response : ℕ}
    (h : Follows start w world [.request (.gcFinish commit partially response)])
    (hpending : w.pending = []) :
    Meets (writerHandler env) (fun v => CommittedBy start v.connection.committed)
      (finishGc config w commit partially) world (fun r v => Follows start r.2 v [])
      (fun _ _ => True) := by
  have hreject : ∀ item, pendingFrom (.gcFinish commit partially response) = some item →
      w.gcActive = true := fun _ hitem => by simp [pendingFrom] at hitem
  by_cases hactive : w.gcActive = true
  · have hdeadline : w.firstPendingAt = none ↔ w.pending = [] := by
      obtain ⟨L, -, hL⟩ := h
      exact hL.deadline
    rw [finishGc, if_neg (by simp [hactive])]
    cases commit with
    | true =>
        change Meets _ _ (sql .commit >>= _) _ _ _
        apply meets_statement_bind h.committedBy
        rcases answer_commit env world.connection with ⟨t, htx, hok, hc, hnone⟩ | ⟨e, herr, hc, htx⟩
        · rw [hok]
          obtain ⟨⟨c, pending, session, arrivals⟩, hreach, hL⟩ := h
          obtain rfl : [] = pending := hpending.symm.trans hL.pending
          obtain rfl : _ :: world.arrivals = arrivals := hL.arrivals
          obtain ⟨staged, rfl⟩ : ∃ staged, session = .active staged := by
            cases session with
            | closed => simp [(hL.closed rfl).1] at hactive
            | active staged => exact ⟨staged, rfl⟩
            | lost => simp [(hL.lost rfl).2.2] at htx
          obtain rfl : stageAll staged c = t :=
            Option.some.inj ((hL.active staged rfl).2.2.symm.trans htx)
          have hcommit := hreach.tail .commit
          refine (meets_countGcSession ⟨_, hcommit, hc.symm⟩ w.report partially).bind
            (fun report v hv hcounted => ?_) fun _ _ h => h
          obtain ⟨hkept, htx'⟩ := hcounted
          have hclosed : v.connection.transaction = none := by
            rcases htx' with htx' | htx'
            · exact htx'.trans hnone
            · exact htx'
          exact Program.meets_pure hv ⟨_, hcommit, hkept.1.trans hc, hpending, hkept.2, hdeadline,
            fun _ => ⟨rfl, .inl hclosed⟩, fun _ h => by simp at h, fun h => by simp at h⟩
        · rw [herr]
          obtain ⟨L, hreach, hL⟩ := h
          refine Program.meets_pure ⟨L, hreach, hL.committed.symm.trans hc.symm⟩
            (Follows.rejected ⟨L, hreach, hL⟩ hpending hreject hc ?_ rfl)
          rcases htx with htx | htx
          · exact .inl htx
          · exact .inr (.inl htx)
    | false =>
        change Meets _ _ (sql .rollback >>= _) _ _ _
        obtain ⟨hc, htx, hok⟩ := answer_rollback env world.connection
        have hcommitted : CommittedBy start
            (world.connection.answer env.counts env.faults .rollback).2.committed := by
          rw [hc]
          exact h.committedBy
        apply meets_statement_bind h.committedBy
        cases hanswer : (world.connection.answer env.counts env.faults .rollback).1 with
        | ok u =>
            obtain ⟨hopen, hnone⟩ := hok hanswer
            obtain ⟨⟨c, pending, session, arrivals⟩, hreach, hL⟩ := h
            obtain rfl : [] = pending := hpending.symm.trans hL.pending
            obtain rfl : _ :: world.arrivals = arrivals := hL.arrivals
            obtain ⟨staged, rfl⟩ : ∃ staged, session = .active staged := by
              cases session with
              | closed => simp [(hL.closed rfl).1] at hactive
              | active staged => exact ⟨staged, rfl⟩
              | lost => exact absurd (hL.lost rfl).2.2 hopen
            refine ((silent_emit _).meets hcommitted fun _ _ => trivial).bind
              (fun _ v hv hsame => ?_) fun _ _ _ => trivial
            refine Program.meets_pure hv ⟨_, hreach.tail .rollback, ?_, hpending, hsame.2,
              hdeadline, fun _ => ⟨rfl, .inl ?_⟩, fun _ h => by simp at h, fun h => by simp at h⟩
            · rw [hsame.1]
              exact hc.trans hL.committed
            · rw [hsame.1]
              exact hnone
        | error e =>
            refine Program.meets_pure hcommitted (h.rejected hpending hreject hc ?_ rfl)
            rcases htx with htx | htx
            · exact .inl htx
            · exact .inr (.inl htx)
  · rw [finishGc, if_pos hactive]
    exact Program.meets_pure h.committedBy (h.rejected hpending hreject rfl (.inl rfl) rfl)

theorem within_handleGc {r : CatalogWriteRequest} (h : Follows start w world [.request r])
    (hr : pendingFrom r = none) (hpending : w.pending = []) :
    Within (writerHandler env) StagesInTransaction
      (fun v => CommittedBy start v.connection.committed) (handleGc config w r) world
      (fun w' v => Follows start w' v []) (fun _ _ => True) := by
  cases r with
  | imported _ _ _ _ | known _ _ _ _ => simp [pendingFrom] at hr
  | gcBegin response => exact (meets_gcBegin h hpending).within
  | gcMark _ _ _ | gcResurrect _ _ | gcSweep _ _ => exact within_stage h rfl hr hpending
  | gcFinish commit partially response =>
      apply Meets.within
      refine (meets_finishGc h hpending).bind (fun result v hv hfinished => ?_) fun _ _ h => h
      refine ((silent_respond _ _).meets hv fun _ _ => trivial).bind (fun _ u hu hsame => ?_)
        fun _ _ _ => trivial
      exact Program.meets_pure hu (hfinished.congr hsame)

/-! ### The loop -/

/-- If the writer ends well, all that was pending is committed. -/
theorem meets_shutDown (h : Follows start w world taken) :
    Meets (writerHandler env) (fun v => CommittedBy start v.connection.committed)
      (shutDown config w) world
      (fun _ v => ∃ outcomes, Batch.all recordItem w.pending world.connection.committed =
        .ok (outcomes, v.connection.committed)) (fun _ _ => True) := by
  unfold shutDown
  split_ifs with hactive
  · apply meets_statement_bind h.committedBy
    refine Program.meets_throw ?_ trivial
    change CommittedBy start (world.connection.answer env.counts env.faults .rollback).2.committed
    rw [(answer_rollback env world.connection).1]
    exact h.committedBy
  · have hwrite : Meets (writerHandler env) (fun v => CommittedBy start v.connection.committed)
        (flushImports config w.pending w.report) world
        (fun _ v => ∃ outcomes, Batch.all recordItem w.pending world.connection.committed =
          .ok (outcomes, v.connection.committed)) (fun _ _ => True) := by
      by_cases hpending : w.pending = []
      · rw [hpending]
        exact Program.meets_pure h.committedBy ⟨[], rfl⟩
      · obtain ⟨c, arrivals, hreach, hc, -, -⟩ := h.closed (by simpa using hactive)
        refine (meets_flushImports config w.report hpending h.committedBy
          fun outcomes d hall => ?_).mono (fun _ _ hdone => hdone.1) fun _ _ h => h
        rw [hc] at hall
        exact ⟨_, hreach.tail (.flush hall), rfl⟩
    have hflush : Meets (writerHandler env) (fun v => CommittedBy start v.connection.committed)
        (shutDown.flushAtShutdown config w) world
        (fun _ v => ∃ outcomes, Batch.all recordItem w.pending world.connection.committed =
          .ok (outcomes, v.connection.committed)) (fun _ _ => True) := by
      refine hwrite.bind (fun report v hv hall => ?_) fun _ _ h => h
      cases hpending : w.pending with
      | nil =>
          rw [hpending] at hall
          exact Program.meets_pure hv hall
      | cons first rest =>
          rw [hpending] at hall
          refine ((silent_emit _).meets hv fun _ _ => trivial).bind (fun _ u hu hsame => ?_)
            fun _ _ _ => trivial
          rw [← hsame.1] at hall
          exact Program.meets_pure hu hall
    refine hflush.bind (fun report v hv hall => ?_) fun _ _ h => h
    refine ((silent_emit _).meets hv fun _ _ => trivial).bind (fun _ u hu hsame => ?_)
      fun _ _ _ => trivial
    refine (meets_checkpoint hu report).mono (fun _ x hx => ?_) fun _ _ h => h
    obtain ⟨outcomes, hall⟩ := hall
    exact ⟨outcomes, by rw [hall, hx.1, hsame.1]⟩

/-- What holds after a turn. -/
def AfterTurn (start : Ledger) (r : Writer ⊕ CatalogWriterReport) (v : WriterWorld) : Prop :=
  ∀ w, r = .inl w → Follows start w v []

theorem within_serve {received : Received} (h : Follows start w world [received]) :
    Within (writerHandler env) StagesInTransaction
      (fun v => CommittedBy start v.connection.committed) (serve config w received) world
      (AfterTurn start) (fun _ _ => True) := by
  have hinl : ∀ {w' : Writer} {v : WriterWorld}, Follows start w' v [] →
      AfterTurn start (.inl w') v := by
    intro w' v hw' w'' heq
    rwa [← Sum.inl.inj heq]
  unfold serve
  cases received with
  | request r =>
      cases hr : pendingFrom r with
      | some item =>
          simp only [hr]
          exact ((meets_acceptImport h hr).within.mono fun _ _ hw' => hinl hw').map
      | none =>
          simp only [hr]
          refine (meets_flush h).within.bind (fun w' v _ hflushed => ?_) fun _ _ h => h
          obtain ⟨-, hpending, -, hfollows⟩ := hflushed
          exact ((within_handleGc hfollows hr hpending).mono fun _ _ hw' => hinl hw').map
  | timeout =>
      refine Within.map (f := Sum.inl) ((meets_flush h).within.mono fun w' v hflushed => hinl ?_)
      obtain ⟨-, -, -, L, hreach, hL⟩ := hflushed
      obtain ⟨c, pending, session, arrivals⟩ := L
      obtain rfl : .timeout :: v.arrivals = arrivals := hL.arrivals
      exact ⟨_, hreach.tail .timeout, hL.committed, hL.pending, rfl, hL.deadline, hL.closed,
        hL.active, hL.lost⟩
  | disconnected =>
      refine ((meets_shutDown h).within.mono fun _ _ _ => ?_).map
      exact fun w' heq => by simp at heq

theorem within_turn (h : Follows start w world []) :
    Within (writerHandler env) StagesInTransaction
      (fun v => CommittedBy start v.connection.committed) (turn config w) world
      (AfterTurn start) (fun _ _ => True) := by
  have hserve : ∀ (timeout : Option ℕ) (v : WriterWorld), Follows start w v [] →
      Within (writerHandler env) StagesInTransaction
        (fun v => CommittedBy start v.connection.committed)
        (do let received ← requestT (WriterCall.receive timeout); serve config w received) v
        (AfterTurn start) (fun _ _ => True) := by
    intro timeout v hv
    refine Program.within_requestT_bind hv.committedBy fun _ => ?_
    obtain ⟨L, hreach, hL⟩ := hv
    obtain ⟨connection, arrivals, ticks, outbox⟩ := v
    cases arrivals with
    | nil =>
        -- all senders are gone
        have hclosed : Follows start w ⟨connection, [], ticks, outbox⟩ [] := ⟨L, hreach, hL⟩
        refine ((meets_shutDown hclosed).within.mono fun _ _ _ => ?_).map
        exact fun w' heq => by simp at heq
    | cons received arrivals =>
        exact within_serve ⟨L, hreach, hL.committed, hL.pending, hL.arrivals, hL.deadline,
          hL.closed, hL.active, hL.lost⟩
  unfold turn
  refine ((silent_deadlinePassed config w).meets h.committedBy fun _ _ => trivial).within.bind
    (fun expired v hv hsame => ?_) fun _ _ h => h
  have hfollows := h.congr hsame
  split_ifs
  · refine ((meets_flush hfollows).within.mono fun w' u hflushed => ?_).map
    intro w'' heq
    rw [← Sum.inl.inj heq]
    exact hflushed.2.2.2
  · unfold receive
    cases w.firstPendingAt with
    | none => exact hserve none v hfollows
    | some first =>
        simp only [bind_assoc]
        refine (silent_requestT .now trivial).meets hv (fun _ _ => trivial) |>.within.bind
          (fun now u hu hsame' => ?_) fun _ _ h => h
        exact hserve _ u (hfollows.congr hsame')

/-- Any number of turns. -/
theorem within_turns (n : ℕ) (h : Follows start w world []) :
    Within (writerHandler env) StagesInTransaction
      (fun v => CommittedBy start v.connection.committed)
      (Program.iterate (turn config) n w) world (AfterTurn start) (fun _ _ => True) := by
  induction n generalizing w world with
  | zero =>
      apply Meets.within
      refine Program.meets_pure (P := fun v : WriterWorld =>
        CommittedBy start v.connection.committed) h.committedBy fun w' heq => ?_
      rwa [← Sum.inl.inj heq]
  | succ n ih =>
      refine (within_turn h).bind (fun r v hv hr => ?_) fun _ _ h => h
      cases r with
      | inl w' => exact ih (hr w' rfl)
      | inr report =>
          apply Meets.within
          exact Program.meets_pure (P := fun v : WriterWorld =>
            CommittedBy start v.connection.committed) hv fun w' heq => by simp at heq

/-- A writer that stops rejects what is queued, and commits nothing more. -/
theorem meets_rejectQueued {α : Type} (e : WriterError)
    (hc : CommittedBy start world.connection.committed) :
    Meets (writerHandler env) (fun v => CommittedBy start v.connection.committed)
      (rejectQueued e : WriterProgram α) world (fun _ _ => True) (fun _ _ => True) := by
  refine Program.meets_requestT_bind hc ?_
  have hanswers : SilentProgram (forM ((world.arrivals.filterMap Received.toRequest).take
      env.queued) fun r => respond (terminalResponse r).1 (terminalResponse r).2) :=
    Program.obeysT_forM fun _ _ => silent_respond _ _
  have hrest : CommittedBy start
      ({ world with arrivals := [] } : WriterWorld).connection.committed :=
    hc
  refine (hanswers.meets hrest fun _ _ => trivial).bind (fun _ v hv _ => ?_) fun _ _ _ => trivial
  exact Program.meets_throw hv trivial

theorem within_writerLoop (n : ℕ) (h : Follows start .start world []) :
    Within (writerHandler env) StagesInTransaction
      (fun v => CommittedBy start v.connection.committed) (writerLoop config n) world
      (fun _ _ => True) (fun _ _ => True) := by
  refine Program.within_tryCatch ((within_turns n h).mono fun _ _ _ => trivial)
    fun e v hv _ => (meets_rejectQueued e hv).within

/-! ## Whole batches and whole sessions -/

/-- What holds of the writer between two turns. -/
structure Serialized (config : CatalogWriterConfig) (env : WriterEnvironment) (start : Ledger)
    (w : Writer) (world : WriterWorld) : Prop where
  follows : Follows start w world []
  /-- While a session is active no import is pending. -/
  idle : w.gcActive = true → w.pending = []
  /-- An import that arrives during a session is rejected, and nothing else happens. -/
  importRejected : w.gcActive = true → ∀ r item, pendingFrom r = some item → ∃ reason,
    Program.exec (writerHandler env) (serve config w (.request r)) world =
      (.ok (.inl w), { world with
        outbox := world.outbox ++
          [.response item.response (.import (.error ⟨item.sequence, reason⟩))] })
  /-- Nothing is staged or finished without a session. -/
  requestRejected : w.gcActive = false → ∀ r, ((stageOf r).isSome ∨
      ∃ commit partially response, r = .gcFinish commit partially response) → ∃ e,
    Program.exec (writerHandler env) (handleGc config w r) world =
      (.ok w, { world with
        outbox := world.outbox ++ [.response (terminalResponse r).1 (.done (.error e))] })
  /-- A session that is active when all senders are gone is abandoned. -/
  abandoned : w.gcActive = true → ∃ e v,
    Program.exec (writerHandler env) (shutDown config w) world = (.error e, v) ∧
      v.connection.committed = world.connection.committed
  /-- When all senders are gone the pending imports are committed, in order. -/
  flushedAtShutdown : ∀ report v,
    Program.exec (writerHandler env) (shutDown config w) world = (.ok report, v) →
      ∃ outcomes, Batch.all recordItem w.pending world.connection.committed =
        .ok (outcomes, v.connection.committed)

theorem Follows.serialized (h : Follows start w world []) :
    Serialized config env start w world where
  follows := h
  idle := h.idle
  importRejected hactive r item hr := by
    have hnone : w.firstPendingAt = none := by
      obtain ⟨L, -, hL⟩ := id h
      exact hL.deadline.mpr (h.idle hactive)
    have hexpired : flushExpired config w = pure w := by
      simp [flushExpired, deadlinePassed, hnone]
    refine ⟨"catalog writer rejects import records during an active GC session", ?_⟩
    simp only [serve, hr, acceptImport, hexpired, pure_bind]
    rw [if_pos hactive]
    rfl
  requestRejected hidle r hr := by
    have hstage : ∀ statement, stageGcStatement w.gcActive statement =
        pure (.error "no active GC session") := by
      intro statement
      rw [hidle]
      rfl
    cases r with
    | imported _ _ _ _ | known _ _ _ _ | gcBegin _ => simp [stageOf] at hr
    | gcMark _ _ _ | gcResurrect _ _ | gcSweep _ _ =>
        refine ⟨"no active GC session", ?_⟩
        simp only [handleGc, handleGc.stage, hstage, pure_bind]
        rfl
    | gcFinish commit partially response =>
        refine ⟨"no active GC session", ?_⟩
        have hfinish : finishGc config w commit partially =
            pure (.error "no active GC session", w) := by
          rw [finishGc, if_pos (by simp [hidle])]
        simp only [handleGc, hfinish, pure_bind]
        rfl
  abandoned hactive := by
    refine ⟨.report "catalog writer shut down with an active GC session",
      { world with connection := (world.connection.answer env.counts env.faults .rollback).2 },
      ?_, (answer_rollback env world.connection).1⟩
    rw [shutDown, if_pos hactive]
    rfl
  flushedAtShutdown _ _ hrun := (meets_shutDown h).ok hrun

/-- In every run in which each stage request of a session is served in the transaction of the
session, what is committed at any moment consists of whole batches and whole sessions, in the
order in which the requests arrived. -/
theorem writer_serializes (config : CatalogWriterConfig) (env : WriterEnvironment) (n : ℕ)
    (world : WriterWorld) (htx : world.connection.transaction = none)
    (hstages : Program.Along (writerHandler env) StagesInTransaction
      (ExceptT.run (writerLoop config n)) world) :
    (∀ k, CommittedBy ⟨world.connection.committed, [], .closed, world.arrivals⟩
      (Program.after (writerHandler env) k
        (ExceptT.run (writerLoop config n)) world).connection.committed) ∧
    ∀ m ≤ n, ∀ w v, Program.exec (writerHandler env)
        (Program.iterate (turn config) m .start) world = (.ok (.inl w), v) →
      Serialized config env ⟨world.connection.committed, [], .closed, world.arrivals⟩ w v := by
  have hstart : Follows ⟨world.connection.committed, [], .closed, world.arrivals⟩ .start world
      [] :=
    Follows.of_closed .refl rfl rfl (by simp [Writer.start]) rfl (.inl htx)
  constructor
  · intro k
    exact Program.after_of_throughout _ k (within_writerLoop n hstart hstages).throughout
  · intro m hm w v hrun
    have hturns := Program.along_iterate hm (Program.along_of_tryCatch hstages)
    exact ((within_turns m hstart hturns).ok hrun w rfl).serialized

/-- Without imports and without a request to commit, a ledger commits nothing. -/
theorem Ledger.committed_eq {start L : Ledger} (h : Relation.ReflTransGen Ledger.Step start L)
    (hpending : start.pending = [])
    (hnone : ∀ r, .request r ∈ start.arrivals → pendingFrom r = none ∧
      ∀ partially response, r ≠ .gcFinish true partially response) :
    L.committed = start.committed := by
  suffices hkeep : L.committed = start.committed ∧ L.pending = [] ∧
      L.arrivals ⊆ start.arrivals from hkeep.1
  induction h with
  | refl => exact ⟨rfl, hpending, List.Subset.refl _⟩
  | tail _ hstep ih =>
      obtain ⟨hc, hp, harrivals⟩ := ih
      cases hstep with
      | accept hr =>
          have hfirst := (hnone _ (harrivals List.mem_cons_self)).1
          rw [hr] at hfirst
          simp at hfirst
      | flush hall =>
          obtain rfl : _ = [] := hp
          obtain ⟨-, rfl⟩ := Prod.mk.inj (Except.ok.inj hall)
          exact ⟨hc, rfl, harrivals⟩
      | timeout => exact ⟨hc, hp, fun _ hr => harrivals (List.mem_cons_of_mem _ hr)⟩
      | commit => exact absurd rfl ((hnone _ (harrivals List.mem_cons_self)).2 _ _)
      | lose => exact ⟨hc, rfl, harrivals⟩
      | reject _ | begin | stage _ | rollback =>
          exact ⟨hc, rfl, fun _ hr => harrivals (List.mem_cons_of_mem _ hr)⟩

end Steps

/-! ## A statement that is committed by itself -/

/-- A catalog with one blob, which is not marked. -/
def photoCatalog : Catalog :=
  { Catalog.fresh with blobs := [⟨1, photoHash.value, .integer 0, .integer 1, .null⟩] }

/-- The request to mark that blob. -/
def photoMark (response : ℕ) : Received :=
  .request (.gcMark ⟨photoHash, 0, none, false⟩ 2 response)

/-- The engine fails at the statement with this number, if any, and ends the transaction. -/
def losingEnvironment (failing : Option ℕ) : WriterEnvironment :=
  ⟨id, 0, fun _ => (0, 0, 0), fun n =>
    if failing = some n then some ⟨"database or disk is full", true⟩ else none⟩

def markingArrivals : List Received :=
  [.request (.gcBegin 0), photoMark 1, photoMark 2]

instance : ∀ call world, Decidable (StagesInTransaction call world)
  | .sql (.stage _), world => inferInstanceAs (Decidable (world.connection.transaction ≠ none))
  | .sql .begin, _ | .sql (.record _), _ | .sql .requireCurrentSchema, _ | .sql .inspect, _
  | .sql .commit, _ | .sql .rollback, _ | .sql .checkpoint, _ | .now, _ | .receive _, _
  | .drain, _ | .respond _ _, _ | .emit _, _ => .isTrue trivial

/-- When the engine does not fail, nothing of a session that is never finished is committed. -/
theorem writer_serializes_marking : ∃ _ : SqlArithmetic,
    CommittedBy ⟨photoCatalog, [], .closed, markingArrivals⟩
      (Program.after (writerHandler (losingEnvironment none)) 100
        (ExceptT.run (writerLoop .default 4))
        ⟨⟨photoCatalog, none, 0⟩, markingArrivals, 0, []⟩).connection.committed := by
  let _ := integerSums
  exact ⟨integerSums, (writer_serializes _ (losingEnvironment none) 4
    ⟨⟨photoCatalog, none, 0⟩, markingArrivals, 0, []⟩ rfl (by decide +kernel)).1 100⟩

/-- The engine fails at the first mark and ends the transaction of the session. The second mark
is committed, although no session is ever finished. -/
theorem not_writer_serializes_losing : ∃ _ : SqlArithmetic,
    ¬ CommittedBy ⟨photoCatalog, [], .closed, markingArrivals⟩
      (Program.after (writerHandler (losingEnvironment (some 3))) 100
        (ExceptT.run (writerLoop .default 4))
        ⟨⟨photoCatalog, none, 0⟩, markingArrivals, 0, []⟩).connection.committed := by
  let _ := integerSums
  refine ⟨integerSums, ?_⟩
  rintro ⟨L, hreach, hcommitted⟩
  have hsame := Ledger.committed_eq hreach rfl (by
    intro r hr
    simp only [markingArrivals, photoMark, List.mem_cons, Received.request.injEq,
      List.not_mem_nil, or_false] at hr
    rcases hr with rfl | rfl | rfl
    · exact ⟨rfl, fun _ _ h => by simp at h⟩
    · exact ⟨rfl, fun _ _ h => by simp at h⟩
    · exact ⟨rfl, fun _ _ h => by simp at h⟩)
  have hblobs := congrArg Catalog.blobs (hcommitted.symm.trans hsame)
  exact absurd hblobs (by decide +kernel)

end MediaImporter
