import MediaImporter.Catalog.Writer
import MediaImporter.Catalog.History
import MediaImporter.Lib.Batch

/-!
# Batches against records one by one

The writer commits imports in batches whose limits depend on when requests arrive. What it
commits and what it answers does not depend on them, up to the batch of the first record
that fails: every batch before that one does what its records do one by one, and nothing of
that batch or after it is committed.

## Main definitions

* `batchesOf` — the batches that a timing makes of the requests.
* `Outcome` — what a run of the writer leaves, in terms of batches.
* `outcome_writerLoop` — every run leaves that.
* `writer_refines_oneByOne` — the batches and the records one by one agree.
-/

namespace MediaImporter

open Program

/-- The record of an import, as a step on the catalog. -/
def recordItem [SqlArithmetic] (item : PendingImport) (c : Catalog) :
    Except String (ImportWriteOutcome × Catalog) := item.request.record c

/-! ## The batches of a timing -/

/-- The open batch, and how often the clock has been read. -/
structure OpenBatch where
  pending : List PendingImport
  firstPendingAt : Option ℕ
  ticks : ℕ

/-- The batch that is written when the pending imports are flushed. -/
def batchOf : List PendingImport → List (List PendingImport)
  | [] => []
  | first :: rest => [first :: rest]

@[simp] theorem flatten_batchOf (pending : List PendingImport) :
    (batchOf pending).flatten = pending := by
  cases pending with
  | nil => rfl
  | cons first rest => simp [batchOf]

namespace OpenBatch

variable (config : CatalogWriterConfig) (clock : ℕ → ℕ) (b : OpenBatch)

def close : OpenBatch := { b with pending := [], firstPendingAt := none }

/-- Read the clock if something is pending. -/
def read : OpenBatch := match b.firstPendingAt with
  | none => b
  | some _ => { b with ticks := b.ticks + 1 }

/-- The deadline has passed at the next reading of the clock. -/
def expired : Bool := match b.firstPendingAt with
  | none => false
  | some first => decide (config.maxBatchLatency ≤ clock b.ticks - first)

/-- Check the deadline. -/
def expire : List (List PendingImport) × OpenBatch :=
  if b.expired config clock then (batchOf b.pending, b.read.close) else ([], b.read)

def push (item : PendingImport) : OpenBatch := match b.firstPendingAt with
  | some _ => { b with pending := b.pending ++ [item] }
  | none => ⟨b.pending ++ [item], some (clock b.ticks), b.ticks + 1⟩

/-- Check the number of pending imports. -/
def full : List (List PendingImport) × OpenBatch :=
  if config.maxBatchRecords ≤ b.pending.length then (batchOf b.pending, b.close) else ([], b)

/-- An import arrives. -/
def arrive (item : PendingImport) : List (List PendingImport) × OpenBatch :=
  let expired := b.expire config clock
  let full := (expired.2.push clock item).full config
  (expired.1 ++ full.1, full.2)

@[simp] theorem close_pending : b.close.pending = [] := rfl

@[simp] theorem read_pending : b.read.pending = b.pending := by
  unfold read; split <;> rfl

@[simp] theorem push_pending (item : PendingImport) :
    (b.push clock item).pending = b.pending ++ [item] := by
  unfold push; split <;> rfl

theorem flatten_expire :
    (b.expire config clock).1.flatten ++ (b.expire config clock).2.pending = b.pending := by
  unfold expire; split <;> simp

theorem flatten_full : (b.full config).1.flatten ++ (b.full config).2.pending = b.pending := by
  unfold full; split <;> simp

theorem flatten_arrive (item : PendingImport) :
    (b.arrive config clock item).1.flatten ++ (b.arrive config clock item).2.pending =
      b.pending ++ [item] := by
  rw [arrive, List.flatten_append, List.append_assoc, flatten_full, push_pending,
    ← List.append_assoc, flatten_expire]

end OpenBatch

/-- The import that was received, if one was. -/
def Received.toImport : Received → Option PendingImport
  | .request r => pendingFrom r
  | _ => none

/-- The imports among what is received. -/
def imports (arrivals : List Received) : List PendingImport :=
  arrivals.filterMap Received.toImport

/-- The batches that are made of the open batch and of what is received after it. -/
def batchesOf (config : CatalogWriterConfig) (clock : ℕ → ℕ) :
    OpenBatch → List Received → List (List PendingImport)
  | b, [] => batchOf b.pending
  | b, received :: arrivals =>
      let expired := b.expire config clock
      match received.toImport with
      | some item =>
          let arrived := expired.2.read.arrive config clock item
          expired.1 ++ arrived.1 ++ batchesOf config clock arrived.2 arrivals
      | none =>
          expired.1 ++ batchOf expired.2.pending ++
            batchesOf config clock expired.2.read.close arrivals

/-- Every import is in one batch, in the order of arrival. -/
theorem flatten_batchesOf (config : CatalogWriterConfig) (clock : ℕ → ℕ) (b : OpenBatch)
    (arrivals : List Received) : (batchesOf config clock b arrivals).flatten =
      b.pending ++ imports arrivals := by
  induction arrivals generalizing b with
  | nil => simp [batchesOf, imports]
  | cons received arrivals ih =>
      rw [batchesOf]
      match hreceived : received.toImport with
      | some item =>
          simp only [List.flatten_append, ih, imports, List.filterMap_cons, hreceived]
          rw [List.append_assoc, ← List.append_assoc (List.flatten _) (OpenBatch.pending _),
            OpenBatch.flatten_arrive, OpenBatch.read_pending, ← List.append_assoc,
            ← List.append_assoc, OpenBatch.flatten_expire, List.append_assoc]
          rfl
      | none =>
          simp only [List.flatten_append, ih, imports, List.filterMap_cons, hreceived,
            flatten_batchOf,
            OpenBatch.close_pending, List.nil_append, OpenBatch.flatten_expire]

theorem batchesOf_of_expired {config : CatalogWriterConfig} {clock : ℕ → ℕ} {b : OpenBatch}
    (h : b.expired config clock = true) (arrivals : List Received) :
    batchesOf config clock b arrivals =
      batchOf b.pending ++ batchesOf config clock b.read.close arrivals := by
  have hclose : b.read.close.expire config clock = ([], b.read.close) := by
    simp [OpenBatch.expire, OpenBatch.expired, OpenBatch.close, OpenBatch.read]
  cases arrivals with
  | nil => simp [batchesOf, batchOf]
  | cons received arrivals =>
      rw [batchesOf, batchesOf, hclose, OpenBatch.expire, if_pos h]
      cases received.toImport <;> simp

theorem batchesOf_cons {config : CatalogWriterConfig} {clock : ℕ → ℕ} {b : OpenBatch}
    (h : ¬ b.expired config clock = true) (received : Received) (arrivals : List Received) :
    batchesOf config clock b (received :: arrivals) = match received.toImport with
      | some item => (b.read.read.arrive config clock item).1 ++
          batchesOf config clock (b.read.read.arrive config clock item).2 arrivals
      | none => batchOf b.read.read.pending ++
          batchesOf config clock b.read.read.close arrivals := by
  rw [batchesOf, OpenBatch.expire, if_neg h]
  cases received.toImport <;> simp

/-- The passes through the loop that are left. -/
def rest (config : CatalogWriterConfig) (n : ℕ) :
    Writer ⊕ CatalogWriterReport → WriterProgram (Writer ⊕ CatalogWriterReport)
  | .inl w => iterate (turn config) n w
  | .inr report => pure (.inr report)

theorem iterate_turn_succ (config : CatalogWriterConfig) (n : ℕ) (w : Writer) :
    iterate (turn config) (n + 1) w =
    deadlinePassed config w >>= fun expired =>
      if expired then flush config w >>= iterate (turn config) n
      else receive config w >>= fun received => serve config w received >>= rest config n := by
  have hnext : iterate (turn config) (n + 1) w = turn config w >>= rest config n := by
    rw [iterate]
    congr 1
    funext next
    cases next <;> rfl
  rw [hnext, turn, bind_assoc]
  congr 1
  funext expired
  split
  · rw [bind_map_left]
    rfl
  · rw [bind_assoc]

/-! ## What a run leaves -/

/-- The response to a record that is committed. -/
def okResponse (record : PendingImport × ImportWriteOutcome) : ℕ × Response :=
  (record.1.response, .import (.ok record.2))

/-- The response does not say that a record is committed. -/
def Response.IsFailure (r : Response) : Prop := ∀ outcome, r ≠ .import (.ok outcome)

/-- The responses to a batch that is rolled back because of one of its records. -/
def rollbackResponses (pending : List PendingImport) (failing : PendingImport) :
    List (ℕ × Response) :=
  pending.map fun item =>
    (item.response, .import (.error ⟨failing.sequence, "catalog import batch rolled back"⟩))

theorem isFailure_of_mem_rollbackResponses {pending : List PendingImport}
    {failing : PendingImport} {r : ℕ × Response}
    (hr : r ∈ rollbackResponses pending failing) : r.2.IsFailure := by
  obtain ⟨item, -, rfl⟩ := List.mem_map.mp hr
  intro outcome
  simp

theorem isFailure_terminalResponse (r : CatalogWriteRequest) :
    (terminalResponse r).2.IsFailure := by
  intro outcome
  cases r <;> simp [terminalResponse]

/-- The response to an import whose outcome is among the first answers. -/
theorem resolveDetailed_of_answered {outbox : List Message} {requests : List PendingImport}
    (hdistinct : (requests.map (·.response)).Nodup) {outcomes : List ImportWriteOutcome}
    {failures : List (ℕ × Response)}
    (houtbox : responses outbox = (requests.zip outcomes).map okResponse ++ failures)
    (hfailures : ∀ failure ∈ failures, failure.2.IsFailure) {i : ℕ} {item : PendingImport}
    (hitem : requests[i]? = some item) :
    (∀ outcome, outcomes[i]? = some outcome → resolveDetailed outbox item = .ok outcome) ∧
    (outcomes[i]? = none → ∃ e, resolveDetailed outbox item = .error e) := by
  have hsame : ∀ j item', requests[j]? = some item' → item'.response = item.response → j = i := by
    intro j item' hj hresponse
    have hlt := (List.getElem?_eq_some_iff.mp hj).1
    refine (List.getElem?_inj (by simpa using hlt) hdistinct).mp ?_
    rw [List.getElem?_map, List.getElem?_map, hj, hitem]
    simpa using hresponse
  have hzip : ∀ record ∈ requests.zip outcomes, record.1.response = item.response →
      outcomes[i]? = some record.2 := by
    intro record hrecord hresponse
    obtain ⟨j, hj⟩ := List.mem_iff_getElem?.mp hrecord
    rw [List.getElem?_zip_eq_some] at hj
    rw [← hsame j record.1 hj.1 hresponse]
    exact hj.2
  constructor
  · intro outcome houtcome
    have hmem : (item, outcome) ∈ requests.zip outcomes :=
      List.mem_iff_getElem?.mpr ⟨i, List.getElem?_zip_eq_some.mpr ⟨hitem, houtcome⟩⟩
    have hfound : (((requests.zip outcomes).map okResponse).find?
        (·.1 = item.response)).isSome := by
      rw [List.find?_isSome]
      exact ⟨okResponse (item, outcome), List.mem_map_of_mem hmem, by simp [okResponse]⟩
    obtain ⟨r, hr⟩ := Option.isSome_iff_exists.mp hfound
    obtain ⟨record, hrecord, rfl⟩ := List.mem_map.mp (List.mem_of_find?_eq_some hr)
    have hresponse : record.1.response = item.response := by
      have hkey := List.find?_some hr
      exact of_decide_eq_true hkey
    have hout : outcome = record.2 := by
      have := hzip record hrecord hresponse
      rw [houtcome] at this
      exact Option.some.inj this
    rw [resolveDetailed, houtbox, List.find?_append, hr]
    simp [okResponse, hout]
  · intro hnone
    match hresolve : resolveDetailed outbox item with
    | .error e => exact ⟨e, rfl⟩
    | .ok outcome =>
        exfalso
        unfold resolveDetailed at hresolve
        split at hresolve
        · rename_i channel outcome' hfind
          subst hresolve
          have hmem := List.mem_of_find?_eq_some hfind
          have hchannel : channel = item.response := by simpa using List.find?_some hfind
          rw [houtbox] at hmem
          rcases List.mem_append.mp hmem with hmem | hmem
          · obtain ⟨record, hrecord, heq⟩ := List.mem_map.mp hmem
            have hresponse : record.1.response = item.response := by
              rw [← hchannel]
              exact congrArg Prod.fst heq
            simp [hzip record hrecord hresponse] at hnone
          · exact hfailures _ hmem outcome rfl
        · simp at hresolve

section Runs

variable [SqlArithmetic]

/-- What a run of the writer over some batches leaves: the batches before the first one that
fails are committed and answered, everything else is at most rejected. -/
structure Outcome (batches : List (List PendingImport)) (c : Catalog)
    (sent : List (ℕ × Response))
    (run : Except WriterError (Writer ⊕ CatalogWriterReport) × WriterWorld) : Prop where
  committed : run.2.connection.committed = (Batch.oneByOne (Batch.all recordItem) batches c).2
  answered : ∃ failures, responses run.2.outbox =
    sent ++ (batches.flatten.zip
      (Batch.oneByOne (Batch.all recordItem) batches c).1.flatten).map okResponse ++ failures ∧
    ∀ failure ∈ failures, failure.2.IsFailure
  completed : (Batch.oneByOne (Batch.all recordItem) batches c).1.length = batches.length →
    ∃ report, run.1 = .ok (.inr report)
  failed : (Batch.oneByOne (Batch.all recordItem) batches c).1.length < batches.length →
    ∃ item cause,
      batches.flatten[(Batch.oneByOne recordItem batches.flatten c).1.length]? = some item ∧
      run.1 = .error (.batchFailed item.sequence item.request.sourcePath cause)

variable {batches : List (List PendingImport)} {batch : List PendingImport} {c c' : Catalog}
  {sent : List (ℕ × Response)}
  {run : Except WriterError (Writer ⊕ CatalogWriterReport) × WriterWorld}

/-- There is nothing left to write. -/
theorem Outcome.nil {report : CatalogWriterReport} {world : WriterWorld}
    (hcommitted : world.connection.committed = c) (hsent : responses world.outbox = sent) :
    Outcome [] c sent (.ok (.inr report), world) where
  committed := hcommitted
  answered := ⟨[], by simpa [Batch.oneByOne] using hsent, by simp⟩
  completed _ := ⟨report, rfl⟩
  failed h := by simp at h

/-- The first batch is committed. -/
theorem Outcome.cons {outcomes : List ImportWriteOutcome}
    (hbatch : Batch.all recordItem batch c = .ok (outcomes, c'))
    (h : Outcome batches c' (sent ++ (batch.zip outcomes).map okResponse) run) :
    Outcome (batch :: batches) c sent run := by
  have hlength := (Batch.all_eq_ok_iff.mp hbatch).2
  have hone := Batch.oneByOne_cons_ok (l := batches) hbatch
  refine ⟨?_, ?_, ?_, ?_⟩
  · rw [hone]
    exact h.committed
  · obtain ⟨failures, hresponses, hfailures⟩ := h.answered
    refine ⟨failures, ?_, hfailures⟩
    rw [hresponses, hone, List.flatten_cons, List.flatten_cons, List.zip_append hlength.symm]
    simp
  · intro hall
    rw [hone] at hall
    exact h.completed (by simpa using hall)
  · intro hfail
    rw [hone] at hfail
    obtain ⟨item, cause, hitem, hrun⟩ := h.failed (by simpa using hfail)
    refine ⟨item, cause, ?_, hrun⟩
    rw [List.flatten_cons, Batch.oneByOne_append_ok hbatch, List.getElem?_append_right]
    · simpa [hlength] using hitem
    · simp [hlength]

/-- The first batch fails. -/
theorem Outcome.of_error {e : String} {item : PendingImport} {cause : String}
    {world : WriterWorld} {failures : List (ℕ × Response)}
    (hbatch : Batch.all recordItem batch c = .error e)
    (hitem : batch[(Batch.oneByOne recordItem batch c).1.length]? = some item)
    (hcommitted : world.connection.committed = c)
    (hsent : responses world.outbox = sent ++ failures)
    (hfailures : ∀ failure ∈ failures, failure.2.IsFailure) :
    Outcome (batch :: batches) c sent
      (.error (.batchFailed item.sequence item.request.sourcePath cause), world) := by
  have hone := Batch.oneByOne_cons_error (l := batches) hbatch
  refine ⟨?_, ?_, ?_, ?_⟩
  · rw [hone]
    exact hcommitted
  · exact ⟨failures, by simpa [hone] using hsent, hfailures⟩
  · intro hall
    rw [hone] at hall
    simp at hall
  · intro _
    refine ⟨item, cause, ?_, rfl⟩
    rw [List.flatten_cons, Batch.oneByOne_append_error hbatch, List.getElem?_append_left]
    · exact hitem
    · exact Batch.length_oneByOne_lt hbatch

/-! ## Writing one batch -/

section Flush

variable {config : CatalogWriterConfig} {env : WriterEnvironment} {world : WriterWorld}
  {pending items : List PendingImport} {t t' : Catalog} {outcomes : List ImportWriteOutcome}

theorem exec_stageBatch_ok (pending : List PendingImport) (henv : env.Faultless)
    (ht : world.connection.transaction = some t)
    (hitems : Batch.all recordItem items t = .ok (outcomes, t')) :
    ∃ world', exec (writerHandler env) (stageBatch pending items) world =
      (.ok outcomes, world') ∧ Sends world world.connection.committed (some t') [] world' := by
  induction items generalizing world t outcomes with
  | nil =>
      obtain ⟨rfl, rfl⟩ := Prod.mk.inj (Except.ok.inj hitems)
      exact ⟨world, rfl, ht ▸ .refl world⟩
  | cons item items ih =>
      obtain ⟨outcome, u, rest, hitem, hrest, rfl⟩ := Batch.all_cons_eq_ok_iff.mp hitems
      obtain ⟨world₁, hrecord, hsends₁⟩ := exec_record_ok henv ht hitem
      obtain ⟨world₂, hstage, hsends₂⟩ := ih hsends₁.transaction hrest
      rw [hsends₁.committed] at hsends₂
      refine ⟨world₂, ?_, hsends₁.after hsends₂⟩
      rw [stageBatch, exec_bind_ok _ hrecord]
      simp only
      rw [exec_bind_ok _ hstage]
      rfl

theorem exec_stageBatch_error (pending : List PendingImport) (henv : env.Faultless)
    (ht : world.connection.transaction = some t) {e : String}
    (hitems : Batch.all recordItem items t = .error e) :
    ∃ item cause world', items[(Batch.oneByOne recordItem items t).1.length]? = some item ∧
      exec (writerHandler env) (stageBatch pending items) world =
        (.error (.batchFailed item.sequence item.request.sourcePath cause), world') ∧
      Sends world world.connection.committed none (rollbackResponses pending item) world' := by
  induction items generalizing world t with
  | nil => simp [Batch.all] at hitems
  | cons item items ih =>
      cases hitem : recordItem item t with
      | ok r =>
          obtain ⟨outcome, u⟩ := r
          obtain ⟨world₁, hrecord, hsends₁⟩ := exec_record_ok henv ht hitem
          obtain ⟨failing, cause, world₂, hfailing, hstage, hsends₂⟩ :=
            ih hsends₁.transaction (Batch.all_eq_error_of_cons hitem hitems)
          rw [hsends₁.committed] at hsends₂
          refine ⟨failing, cause, world₂, ?_, ?_, by simpa using hsends₁.trans hsends₂⟩
          · rw [Batch.oneByOne_cons_ok hitem]
            simpa using hfailing
          · rw [stageBatch, exec_bind_ok _ hrecord]
            simp only
            rw [exec_bind_error _ hstage]
      | error cause =>
          obtain ⟨world₁, hrecord, hsends₁⟩ := exec_record_error henv ht hitem
          obtain ⟨world₂, hreject, hsends₂⟩ := exec_rejectBatch env pending item.sequence
            "catalog import batch rolled back" world₁
          rw [hsends₁.transaction, hsends₁.committed] at hsends₂
          obtain ⟨world₃, hrollback, hsends₃⟩ := exec_rollback henv hsends₂.transaction
          rw [hsends₂.committed] at hsends₃
          refine ⟨item, cause, world₃, ?_, ?_,
            by simpa [rollbackResponses] using hsends₁.trans (hsends₂.after hsends₃)⟩
          · rw [Batch.oneByOne_cons_error hitem]
            rfl
          · rw [stageBatch, exec_bind_ok _ hrecord]
            simp only
            rw [exec_bind_ok _ hreject, exec_bind_ok _ hrollback]
            rfl

/-- The counters have room for so many more batches and records, and for one checkpoint. -/
structure Room (report : CatalogWriterReport) (left : ℕ) : Prop where
  batches : report.committedBatches + left < 2 ^ 64
  records : report.committedRecords + left < 2 ^ 64
  checkpoints : report.checkpoints + left + 1 < 2 ^ 64

theorem exec_checkpoint (henv : env.Faultless) (world : WriterWorld)
    {report : CatalogWriterReport}
    (hroom : report.checkpoints + 1 < 2 ^ 64) :
    ∃ world', exec (writerHandler env) (checkpoint report) world =
        (.ok { report with checkpoints := report.checkpoints + 1 }, world') ∧
      Sends world world.connection.committed world.connection.transaction [] world' := by
  have hcounts := henv.counts world.connection.statements
  set counts := env.counts world.connection.statements with hdef
  have hvalid : ¬ (counts.1 < 0 ∨ counts.2.1 < 0 ∨ counts.2.2 < 0) := by omega
  obtain ⟨world₁, hsql, hsends₁⟩ := @exec_sql _ env world henv .checkpoint (.ok counts)
    world.connection rfl
  obtain ⟨world₂, hemit, hsends₂⟩ := exec_emit env
    (.checkpointCompleted counts.1 counts.2.1 counts.2.2) world₁
  rw [hsends₁.committed, hsends₁.transaction] at hsends₂
  have hresult : (Except.ok counts : Except String (ℤ × ℤ × ℤ)).mapError
      (WriterError.wrap "run passive WAL checkpoint") = .ok counts := rfl
  have hsucc : checkedSucc report.checkpoints "catalog checkpoint" = .ok (report.checkpoints + 1) :=
    if_pos hroom
  refine ⟨world₂, ?_, hsends₁.after hsends₂⟩
  rw [checkpoint, exec_bind_ok _ hsql, hresult, exec_bind_ok _ (exec_orFail _ _)]
  simp only
  rw [if_neg hvalid, hsucc, exec_bind_ok _ (exec_orFail _ _), exec_bind_ok _ hemit]
  rfl

theorem exec_checkpointIfDue (config : CatalogWriterConfig) (henv : env.Faultless)
    (world : WriterWorld) {report : CatalogWriterReport} (hroom : report.checkpoints + 1 < 2 ^ 64)
    (count commitSequence : ℕ) :
    ∃ report' world', exec (writerHandler env)
        (checkpointIfDue config count commitSequence report) world = (.ok report', world') ∧
      Sends world world.connection.committed world.connection.transaction [] world' ∧
      report'.committedBatches = report.committedBatches ∧
      report'.committedRecords = report.committedRecords ∧
      report'.checkpoints ≤ report.checkpoints + 1 := by
  unfold checkpointIfDue
  split
  · obtain ⟨world₁, hemit, hsends₁⟩ := exec_emit env
      (.checkpointRequested commitSequence false) world
    obtain ⟨world₂, hcheckpoint, hsends₂⟩ := exec_checkpoint henv world₁ hroom
    rw [hsends₁.committed, hsends₁.transaction] at hsends₂
    refine ⟨{ report with checkpoints := report.checkpoints + 1 }, world₂, ?_,
      hsends₁.after hsends₂, rfl, rfl, Nat.le_refl _⟩
    rw [exec_bind_ok _ hemit, hcheckpoint]
  · exact ⟨report, world, rfl, .refl world, rfl, rfl, Nat.le_succ _⟩

/-- A batch whose records all succeed is committed, and each of them is answered. -/
theorem exec_flushImports_ok (config : CatalogWriterConfig) (henv : env.Faultless)
    {report : CatalogWriterReport}
    (ht : world.connection.transaction = none) (hpending : pending ≠ []) {left : ℕ}
    (hroom : Room report (pending.length + left))
    (hall : Batch.all recordItem pending world.connection.committed = .ok (outcomes, c')) :
    ∃ report' world', exec (writerHandler env) (flushImports config pending report) world =
        (.ok report', world') ∧
      Sends world c' none ((pending.zip outcomes).map okResponse) world' ∧ Room report' left := by
  obtain ⟨first, rest, rfl⟩ := List.exists_cons_of_ne_nil hpending
  obtain ⟨hbatches, hrecords, hcheckpoints⟩ := hroom
  have hlength := (Batch.all_eq_ok_iff.mp hall).2
  rw [List.length_cons] at hbatches hrecords hcheckpoints hlength
  obtain ⟨world₁, hopened, hsends₁⟩ := exec_emit env
    (.batchOpened (first :: rest).length (report.committedBatches + 1)) world
  rw [ht] at hsends₁
  obtain ⟨world₂, hbegin, hsends₂⟩ := exec_begin henv hsends₁.transaction
  rw [hsends₁.committed] at hsends₂
  obtain ⟨world₃, hstage, hsends₃⟩ := exec_stageBatch_ok (first :: rest) henv
    hsends₂.transaction hall
  obtain ⟨world₄, hcommit, hsends₄⟩ := exec_commit henv hsends₃.transaction
  obtain ⟨world₅, hanswers, hsends₅⟩ := exec_forM_sends env
    (l := (first :: rest).zip outcomes) (f := answerRecord) okResponse (fun record world => by
      obtain ⟨world₁, hemit, hsends₁⟩ := exec_emit env
        (.recordCommitted record.1.sequence record.2) world
      obtain ⟨world₂, hrespond, hsends₂⟩ := exec_respond env record.1.response
        (.import (.ok record.2)) world₁
      rw [hsends₁.committed, hsends₁.transaction] at hsends₂
      refine ⟨world₂, ?_, by simpa [okResponse] using hsends₁.trans hsends₂⟩
      rw [answerRecord, exec_bind_ok _ hemit, hrespond]) world₄
  rw [hsends₄.committed, hsends₄.transaction] at hsends₅
  obtain ⟨world₆, hannounced, hsends₆⟩ := exec_emit env
    (.batchCommitted (first :: rest).length (report.committedBatches + 1)) world₅
  rw [hsends₅.committed, hsends₅.transaction] at hsends₆
  have hcount : countBatch report outcomes.length = .ok
      { report with
        committedBatches := report.committedBatches + 1
        committedRecords := report.committedRecords + (rest.length + 1) } := by
    have hsucc : checkedSucc report.committedBatches "catalog batch" =
        .ok (report.committedBatches + 1) := if_pos (by omega)
    rw [countBatch, hsucc, Except.ok_bind, hlength, Except.ensure, if_pos (by omega)]
    rfl
  obtain ⟨report', world₇, hcheckpoint, hsends₇, hb, hr, hc⟩ := @exec_checkpointIfDue _ env
    config henv world₆ { report with
      committedBatches := report.committedBatches + 1
      committedRecords := report.committedRecords + (rest.length + 1) }
    (by simp only; omega) (report.committedBatches + 1) (report.committedBatches + 1)
  rw [hsends₆.committed, hsends₆.transaction] at hsends₇
  have hsends := ((((hsends₁.trans hsends₂).trans hsends₃).trans hsends₄).trans hsends₅).after
    (hsends₆.after hsends₇)
  refine ⟨report', world₇, ?_, by simpa using hsends, ?_⟩
  · rw [flushImports, exec_bind_ok _ hopened, openBatch, exec_bind, exec_bind_ok _ hbegin]
    simp only [exec_pure]
    rw [exec_bind_ok _ hstage, commitBatch, exec_bind, exec_bind_ok _ hcommit]
    simp only [exec_pure]
    rw [hcount, exec_bind_ok _ (exec_orFail _ _), exec_bind_ok _ hanswers,
      exec_bind_ok _ hannounced, hcheckpoint]
  · constructor <;> simp only at hb hr hc <;> omega

/-- A batch with a record that fails is rolled back, and all its records are rejected. -/
theorem exec_flushImports_error (config : CatalogWriterConfig) (henv : env.Faultless)
    {report : CatalogWriterReport}
    (ht : world.connection.transaction = none) {e : String}
    (hall : Batch.all recordItem pending world.connection.committed = .error e) :
    ∃ item cause world',
      pending[(Batch.oneByOne recordItem pending world.connection.committed).1.length]? =
        some item ∧
      exec (writerHandler env) (flushImports config pending report) world =
        (.error (.batchFailed item.sequence item.request.sourcePath cause), world') ∧
      Sends world world.connection.committed none (rollbackResponses pending item) world' := by
  cases pending with
  | nil => simp [Batch.all] at hall
  | cons first rest =>
      obtain ⟨world₁, hopened, hsends₁⟩ := exec_emit env
        (.batchOpened (first :: rest).length (report.committedBatches + 1)) world
      rw [ht] at hsends₁
      obtain ⟨world₂, hbegin, hsends₂⟩ := exec_begin henv hsends₁.transaction
      rw [hsends₁.committed] at hsends₂
      obtain ⟨item, cause, world₃, hitem, hstage, hsends₃⟩ := exec_stageBatch_error
        (first :: rest) henv hsends₂.transaction hall
      rw [hsends₂.committed] at hsends₃
      refine ⟨item, cause, world₃, hitem, ?_,
        by simpa using (hsends₁.trans hsends₂).trans hsends₃⟩
      rw [flushImports, exec_bind_ok _ hopened, openBatch, exec_bind, exec_bind_ok _ hbegin]
      simp only [exec_pure]
      rw [exec_bind_error _ hstage]

/-! ## The loop -/

/-- The variables of the loop at an open batch, outside of any garbage collection. -/
def OpenBatch.writer (b : OpenBatch) (report : CatalogWriterReport) : Writer :=
  ⟨b.pending, b.firstPendingAt, report, false⟩

/-- The world between two parts of the loop. -/
structure At (world : WriterWorld) (b : OpenBatch) (arrivals : List Received) : Prop where
  transaction : world.connection.transaction = none
  ticks : world.ticks = b.ticks
  arrivals : world.arrivals = arrivals

/-- The rest of a run leaves what the rest of the batches says. -/
def Continues (env : WriterEnvironment) (batches : List (List PendingImport)) (b : OpenBatch)
    (arrivals : List Received) (left : ℕ)
    (k : Writer → WriterProgram (Writer ⊕ CatalogWriterReport)) : Prop :=
  ∀ report world, At world b arrivals → Room report (b.pending.length + left) →
    Outcome batches world.connection.committed (responses world.outbox)
      (exec (writerHandler env) (k (b.writer report)) world)

variable {b : OpenBatch} {arrivals : List Received} {left : ℕ}
  {k : Writer → WriterProgram (Writer ⊕ CatalogWriterReport)}

theorem continues_flush (config : CatalogWriterConfig) (henv : env.Faultless)
    (hk : Continues env batches b.close arrivals left k) :
    Continues env (batchOf b.pending ++ batches) b arrivals left
      fun w => flush config w >>= k := by
  intro report world hat hroom
  match hpending : b.pending with
  | [] =>
      have hflush : exec (writerHandler env) (flush config (b.writer report)) world =
          (.ok (b.close.writer report), world) := by
        rw [flush, OpenBatch.writer, hpending]
        rfl
      rw [exec_bind_ok _ hflush]
      rw [hpending] at hroom
      exact hk report world ⟨hat.transaction, hat.ticks, hat.arrivals⟩ hroom
  | first :: rest =>
      have hne : b.pending ≠ [] := by simp [hpending]
      rw [← hpending]
      match hall : Batch.all recordItem b.pending world.connection.committed with
      | .ok (outcomes, c') =>
          obtain ⟨report', world', himports, hsends, hroom'⟩ :=
            exec_flushImports_ok config henv hat.transaction hne hroom hall
          have hflush : exec (writerHandler env) (flush config (b.writer report)) world =
              (.ok (b.close.writer report'), world') := by
            rw [flush, OpenBatch.writer, exec_bind_ok _ himports]
            rfl
          have hat' : At world' b.close arrivals :=
            ⟨hsends.transaction, hsends.ticks.trans hat.ticks, hsends.arrivals.trans hat.arrivals⟩
          have hrest := hk report' world' hat' (by simpa using hroom')
          rw [hsends.committed, hsends.responses] at hrest
          rw [exec_bind_ok _ hflush, hpending, batchOf, ← hpending]
          exact .cons hall hrest
      | .error e =>
          obtain ⟨item, cause, world', hitem, himports, hsends⟩ :=
            exec_flushImports_error config henv hat.transaction hall
          have hflush : exec (writerHandler env) (flush config (b.writer report)) world =
              (.error (.batchFailed item.sequence item.request.sourcePath cause), world') := by
            rw [flush, OpenBatch.writer, exec_bind_error _ himports]
          rw [exec_bind_error _ hflush, hpending, batchOf, ← hpending]
          exact .of_error hall hitem hsends.committed hsends.responses
            fun _ => isFailure_of_mem_rollbackResponses

theorem exec_deadlinePassed (config : CatalogWriterConfig) (env : WriterEnvironment)
    (hat : At world b arrivals) (report : CatalogWriterReport) :
    ∃ world', exec (writerHandler env) (deadlinePassed config (b.writer report)) world =
        (.ok (b.expired config env.clock), world') ∧ At world' b.read arrivals ∧
      world'.connection = world.connection ∧ world'.outbox = world.outbox := by
  unfold deadlinePassed OpenBatch.writer OpenBatch.expired OpenBatch.read
  match b.firstPendingAt with
  | none => exact ⟨world, rfl, hat, rfl, rfl⟩
  | some first =>
      refine ⟨{ world with ticks := world.ticks + 1 }, ?_, ?_, rfl, rfl⟩
      · rw [← hat.ticks]
        rfl
      · exact ⟨hat.transaction, congrArg (· + 1) hat.ticks, hat.arrivals⟩

theorem continues_of_continues_read {p : Writer → WriterProgram (Writer ⊕ CatalogWriterReport)}
    (hp : Continues env batches b.read arrivals left p) {report : CatalogWriterReport}
    {world' : WriterWorld} (hat : At world' b.read arrivals)
    (hroom : Room report (b.pending.length + left))
    (hconnection : world'.connection = world.connection)
    (houtbox : world'.outbox = world.outbox) :
    Outcome batches world.connection.committed (responses world.outbox)
      (exec (writerHandler env) (p (b.writer report)) world') := by
  have hwriter : b.read.writer report = b.writer report := by
    unfold OpenBatch.read OpenBatch.writer
    split <;> rfl
  have h := hp report world' hat (by simpa using hroom)
  rwa [hwriter, hconnection, houtbox] at h

theorem continues_flushExpired (config : CatalogWriterConfig) (henv : env.Faultless)
    (hk : Continues env batches (b.expire config env.clock).2 arrivals left k) :
    Continues env ((b.expire config env.clock).1 ++ batches) b arrivals left
      fun w => flushExpired config w >>= k := by
  intro report world hat hroom
  obtain ⟨world', hdeadline, hat', hconnection, houtbox⟩ :=
    exec_deadlinePassed config env hat report
  simp only [flushExpired, bind_assoc]
  rw [exec_bind_ok _ hdeadline]
  unfold OpenBatch.expire at hk ⊢
  by_cases hexpired : b.expired config env.clock = true
  · rw [if_pos hexpired] at hk ⊢
    rw [if_pos hexpired]
    have hflush := continues_flush config henv hk
    rw [OpenBatch.read_pending] at hflush
    exact continues_of_continues_read hflush hat' hroom hconnection houtbox
  · rw [if_neg hexpired] at hk ⊢
    rw [if_neg hexpired, List.nil_append]
    exact continues_of_continues_read (p := fun w => pure w >>= k) (by simpa using hk) hat' hroom
      hconnection houtbox

theorem continues_flushFull (config : CatalogWriterConfig) (henv : env.Faultless)
    (hk : Continues env batches (b.full config).2 arrivals left k) :
    Continues env ((b.full config).1 ++ batches) b arrivals left
      fun w => flushFull config w >>= k := by
  intro report world hat hroom
  beta_reduce
  unfold OpenBatch.full at hk ⊢
  by_cases hfull : config.maxBatchRecords ≤ b.pending.length
  · rw [if_pos hfull] at hk ⊢
    have hflush := continues_flush config henv hk report world hat hroom
    rwa [flushFull, if_pos (show config.maxBatchRecords ≤ (b.writer report).pending.length from
      hfull)]
  · rw [if_neg hfull] at hk ⊢
    have hrest := hk report world hat hroom
    rwa [flushFull, if_neg (show ¬ config.maxBatchRecords ≤ (b.writer report).pending.length from
      hfull), pure_bind]

theorem continues_push {item : PendingImport}
    (hk : Continues env batches (b.push env.clock item) arrivals left k) :
    Continues env batches b arrivals (left + 1) fun w => push w item >>= k := by
  intro report world hat hroom
  have hlength : (b.push env.clock item).pending.length + left = b.pending.length + (left + 1) := by
    rw [OpenBatch.push_pending, List.length_append, List.length_singleton]
    omega
  unfold push OpenBatch.writer
  unfold OpenBatch.push at hk hlength
  match hfirst : b.firstPendingAt with
  | none =>
      simp only [hfirst] at hk hlength
      have hrest := hk report { world with ticks := world.ticks + 1 }
        ⟨hat.transaction, congrArg (· + 1) hat.ticks, hat.arrivals⟩ (hlength ▸ hroom)
      simp only [OpenBatch.writer, ← hat.ticks] at hrest
      exact hrest
  | some first =>
      simp only [hfirst] at hk hlength
      have hrest := hk report world ⟨hat.transaction, hat.ticks, hat.arrivals⟩ (hlength ▸ hroom)
      simp only [OpenBatch.writer] at hrest
      exact hrest

theorem continues_acceptImport (config : CatalogWriterConfig) (henv : env.Faultless)
    {item : PendingImport}
    (hk : Continues env batches (b.arrive config env.clock item).2 arrivals left k) :
    Continues env ((b.arrive config env.clock item).1 ++ batches) b arrivals (left + 1)
      fun w => acceptImport config w item >>= k := by
  unfold OpenBatch.arrive at hk ⊢
  rw [List.append_assoc]
  simp only [acceptImport, bind_assoc]
  refine continues_flushExpired config henv ?_
  intro report world hat hroom
  have hpush := continues_push (continues_flushFull config henv hk) report world hat hroom
  simpa [OpenBatch.writer] using hpush

theorem exec_shutDown (config : CatalogWriterConfig) (henv : env.Faultless)
    {report : CatalogWriterReport}
    (hflush : ∃ report' world', exec (writerHandler env)
      (shutDown.flushAtShutdown config (b.writer report)) world = (.ok report', world') ∧
      Sends world c none sent world' ∧ report'.checkpoints + 1 < 2 ^ 64) :
    ∃ report' world', exec (writerHandler env) (shutDown config (b.writer report)) world =
      (.ok report', world') ∧ Sends world c none sent world' := by
  obtain ⟨report₁, world₁, hflush, hsends₁, hroom⟩ := hflush
  obtain ⟨world₂, hemit, hsends₂⟩ := exec_emit env
    (.checkpointRequested report₁.committedBatches true) world₁
  obtain ⟨world₃, hcheckpoint, hsends₃⟩ := exec_checkpoint henv world₂ hroom
  rw [hsends₂.committed, hsends₂.transaction, hsends₁.committed, hsends₁.transaction] at hsends₃
  rw [hsends₁.committed, hsends₁.transaction] at hsends₂
  refine ⟨{ report₁ with checkpoints := report₁.checkpoints + 1 }, world₃, ?_,
    (hsends₁.after hsends₂).after hsends₃⟩
  have hidle : ¬ (b.writer report).gcActive = true := by simp [OpenBatch.writer]
  rw [shutDown, if_neg hidle, exec_bind_ok _ hflush, exec_bind_ok _ hemit, hcheckpoint]

theorem continues_shutDown (config : CatalogWriterConfig) (henv : env.Faultless) :
    Continues env (batchOf b.pending) b arrivals 0
      fun w => Sum.inr <$> shutDown config w := by
  intro report world hat hroom
  beta_reduce
  match hpending : b.pending with
  | [] =>
      have hflush : exec (writerHandler env)
          (shutDown.flushAtShutdown config (b.writer report)) world = (.ok report, world) := by
        rw [shutDown.flushAtShutdown, OpenBatch.writer, hpending]
        rfl
      have hroom' : report.checkpoints + 1 < 2 ^ 64 := by
        have := hroom.checkpoints
        omega
      have hsilent := Sends.refl world
      rw [hat.transaction] at hsilent
      obtain ⟨report', world', hshut, hsends⟩ := exec_shutDown config henv
        ⟨report, world, hflush, hsilent, hroom'⟩
      rw [exec_map_ok _ hshut]
      exact .nil hsends.committed (by simpa using hsends.responses)
  | first :: rest =>
      have hne : b.pending ≠ [] := by simp [hpending]
      rw [← hpending]
      match hall : Batch.all recordItem b.pending world.connection.committed with
      | .ok (outcomes, c') =>
          obtain ⟨report₁, world₁, himports, hsends₁, hroom₁⟩ :=
            exec_flushImports_ok config henv hat.transaction hne hroom hall
          obtain ⟨world₂, hemit, hsends₂⟩ := exec_emit env
            (.shutdownFlush (first :: rest).length) world₁
          rw [hsends₁.committed, hsends₁.transaction] at hsends₂
          have hflush : exec (writerHandler env)
              (shutDown.flushAtShutdown config (b.writer report)) world =
                (.ok report₁, world₂) := by
            rw [shutDown.flushAtShutdown, OpenBatch.writer, exec_bind_ok _ himports]
            simp only [hpending]
            rw [exec_bind_ok _ hemit]
            rfl
          have hcheckpoints := hroom.checkpoints
          have hcheckpoints₁ := hroom₁.checkpoints
          obtain ⟨report', world', hshut, hsends⟩ := exec_shutDown config henv
            ⟨report₁, world₂, hflush, hsends₁.after hsends₂, by omega⟩
          rw [exec_map_ok _ hshut, hpending, batchOf, ← hpending]
          exact .cons hall (.nil hsends.committed hsends.responses)
      | .error e =>
          obtain ⟨item, cause, world', hitem, himports, hsends⟩ :=
            exec_flushImports_error config henv hat.transaction hall
          have hidle : ¬ (b.writer report).gcActive = true := by simp [OpenBatch.writer]
          have hshut : exec (writerHandler env) (shutDown config (b.writer report)) world =
              (.error (.batchFailed item.sequence item.request.sourcePath cause), world') := by
            rw [shutDown, if_neg hidle, shutDown.flushAtShutdown, bind_assoc, OpenBatch.writer,
              exec_bind_error _ himports]
          rw [exec_map_error _ hshut, hpending, batchOf, ← hpending]
          exact .of_error hall hitem hsends.committed hsends.responses
            fun _ => isFailure_of_mem_rollbackResponses

theorem exec_receive (config : CatalogWriterConfig) (env : WriterEnvironment)
    (hat : At world b arrivals) (report : CatalogWriterReport) :
    ∃ world', exec (writerHandler env) (receive config (b.writer report)) world =
        (.ok (arrivals.head?.getD .disconnected), world') ∧ At world' b.read arrivals.tail ∧
      world'.connection = world.connection ∧ world'.outbox = world.outbox := by
  have hticks := hat.ticks
  unfold receive OpenBatch.writer OpenBatch.read
  match b.firstPendingAt, arrivals, hat.arrivals with
  | none, [], harrivals =>
      exact ⟨world, by rw [exec_requestT]; simp [writerHandler, harrivals],
        ⟨hat.transaction, hticks, harrivals⟩, rfl, rfl⟩
  | none, received :: rest, harrivals =>
      exact ⟨{ world with arrivals := rest },
        by rw [exec_requestT]; simp [writerHandler, harrivals],
        ⟨hat.transaction, hticks, rfl⟩, rfl, rfl⟩
  | some first, [], harrivals =>
      refine ⟨{ world with ticks := world.ticks + 1 }, ?_,
        ⟨hat.transaction, congrArg (· + 1) hticks, harrivals⟩, rfl, rfl⟩
      rw [exec_bind_ok _ (exec_requestT _ _ _), exec_requestT]
      simp [writerHandler, harrivals]
  | some first, received :: rest, harrivals =>
      refine ⟨{ world with ticks := world.ticks + 1, arrivals := rest }, ?_,
        ⟨hat.transaction, congrArg (· + 1) hticks, rfl⟩, rfl, rfl⟩
      rw [exec_bind_ok _ (exec_requestT _ _ _), exec_requestT]
      simp [writerHandler, harrivals]

/-- Receive, and go on with what was received. -/
theorem continues_receive {p : Received → Writer → WriterProgram (Writer ⊕ CatalogWriterReport)}
    (hp : Continues env batches b.read arrivals.tail left
      (p (arrivals.head?.getD .disconnected))) :
    Continues env batches b arrivals left
      fun w => receive config w >>= fun received => p received w := by
  intro report world hat hroom
  obtain ⟨world', hreceive, hat', hconnection, houtbox⟩ :=
    exec_receive config env hat report
  beta_reduce
  rw [exec_bind_ok _ hreceive]
  exact continues_of_continues_read hp hat' hroom hconnection houtbox

/-- The requests of an import: nothing is received but imports, and silence. -/
def OnlyImports (arrivals : List Received) : Prop :=
  ∀ received ∈ arrivals, received = .timeout ∨
    ∃ r item, received = .request r ∧ pendingFrom r = some item

/-- One pass through the loop when the deadline has not passed. -/
theorem continues_turn (config : CatalogWriterConfig) (henv : env.Faultless)
    (himports : OnlyImports arrivals)
    (hb : ¬ b.expired config env.clock = true) {n : ℕ}
    (hrest : arrivals ≠ [] → ∀ b, Continues env (batchesOf config env.clock b arrivals.tail) b
      arrivals.tail (imports arrivals.tail).length (iterate (turn config) n)) :
    Continues env (batchesOf config env.clock b arrivals) b.read arrivals
      (imports arrivals).length
      fun w => receive config w >>= fun received => serve config w received >>= rest config n := by
  refine continues_receive ?_
  match arrivals with
  | [] =>
      have hshut := @continues_shutDown _ env b.read.read [] config henv
      simp only [OpenBatch.read_pending] at hshut
      intro report world hat hroom
      have hend := hshut report world hat hroom
      change Outcome _ _ _ (exec _ ((Sum.inr <$> shutDown config _) >>= rest config n) world)
      rw [bind_map_left]
      change Outcome _ _ _ (exec _ (shutDown config _ >>= fun a => pure (Sum.inr a)) world)
      rw [bind_pure_comp]
      exact hend
  | received :: arrivals =>
      rw [batchesOf_cons hb]
      rcases himports received (by simp) with rfl | ⟨r, item, rfl, hitem⟩
      · have hflush := continues_flush config henv (hrest (by simp) b.read.read.close)
        intro report world hat hroom
        change Outcome _ _ _ (exec _ ((Sum.inl <$> flush config _) >>= rest config n) world)
        rw [bind_map_left]
        exact hflush report world hat hroom
      · have haccept := continues_acceptImport config henv
          (hrest (by simp) (b.read.read.arrive config env.clock item).2)
        intro report world hat hroom
        have htoImport : (Received.request r).toImport = some item := hitem
        have hlength : (imports (.request r :: arrivals)).length =
            (imports arrivals).length + 1 := by
          rw [imports, List.filterMap_cons_some htoImport]
          rfl
        rw [hlength] at hroom
        have hserve : serve config (b.read.read.writer report) (.request r) =
            Sum.inl <$> acceptImport config (b.read.read.writer report) item := by
          simp [serve, hitem]
        simp only [htoImport, List.head?_cons, Option.getD_some]
        rw [hserve, bind_map_left]
        exact haccept report world hat hroom

/-- The first pass through the loop, after the check of the deadline. -/
theorem continues_iterate_succ {n : ℕ}
    (hflush : b.expired config env.clock = true → Continues env batches b.read arrivals left
      fun w => flush config w >>= iterate (turn config) n)
    (hreceive : ¬ b.expired config env.clock = true → Continues env batches b.read arrivals left
      fun w => receive config w >>= fun received => serve config w received >>= rest config n) :
    Continues env batches b arrivals left (iterate (turn config) (n + 1)) := by
  intro report world hat hroom
  obtain ⟨world', hdeadline, hat', hconnection, houtbox⟩ :=
    exec_deadlinePassed config env hat report
  rw [iterate_turn_succ, exec_bind_ok _ hdeadline]
  by_cases hexpired : b.expired config env.clock = true
  · rw [if_pos hexpired]
    exact continues_of_continues_read (hflush hexpired) hat' hroom hconnection houtbox
  · rw [if_neg hexpired]
    exact continues_of_continues_read (hreceive hexpired) hat' hroom hconnection houtbox

/-- The loop writes the batches of the timing. For each arrival it may pass twice, once to
write a batch whose deadline has passed and once to receive. -/
theorem continues_loop (config : CatalogWriterConfig) (henv : env.Faultless)
    (himports : OnlyImports arrivals) {n : ℕ}
    (hn : 2 * arrivals.length + 2 ≤ n) (b : OpenBatch) :
    Continues env (batchesOf config env.clock b arrivals) b arrivals (imports arrivals).length
      (iterate (turn config) n) := by
  induction arrivals generalizing b n with
  | nil =>
      obtain ⟨m, rfl⟩ := Nat.exists_eq_add_of_le' hn
      have hlast : ∀ b : OpenBatch, ¬ b.expired config env.clock = true →
          Continues env (batchesOf config env.clock b []) b.read [] 0 fun w =>
            receive config w >>= fun received => serve config w received >>= rest config m :=
        fun b hb => continues_turn config henv himports hb fun h => absurd rfl h
      refine continues_iterate_succ (n := m + 1) (fun hexpired => ?_)
        (fun hexpired => continues_turn config henv himports hexpired fun h => absurd rfl h)
      rw [batchesOf_of_expired hexpired, ← b.read_pending]
      refine continues_flush config henv (continues_iterate_succ (n := m) (fun h => ?_)
        (fun h => hlast _ h))
      simp [OpenBatch.expired, OpenBatch.close] at h
  | cons received arrivals ih =>
      obtain ⟨m, rfl⟩ := Nat.exists_eq_add_of_le' hn
      have htail : OnlyImports arrivals := fun r hr => himports r (by simp [hr])
      have hrest : ∀ k, 2 * arrivals.length + 2 ≤ k → ∀ b, Continues env
          (batchesOf config env.clock b arrivals) b arrivals (imports arrivals).length
          (iterate (turn config) k) := fun k hk b => ih htail hk b
      refine continues_iterate_succ (n := m + 2 * (received :: arrivals).length + 1)
        (fun hexpired => ?_)
        (fun hexpired => continues_turn config henv himports hexpired
          fun _ => hrest _ (by simp; omega))
      rw [batchesOf_of_expired hexpired, ← b.read_pending]
      refine continues_flush config henv (continues_iterate_succ
        (n := m + 2 * (received :: arrivals).length)
        (fun h => ?_)
        (fun h => continues_turn config henv himports h fun _ => hrest _ (by simp; omega)))
      simp [OpenBatch.expired, OpenBatch.close] at h

theorem exec_rejectQueued (env : WriterEnvironment) (e : WriterError) (world : WriterWorld) :
    ∃ world' failures,
    exec (writerHandler env) (rejectQueued e : WriterProgram (Writer ⊕ CatalogWriterReport))
      world = (.error e, world') ∧
    world'.connection.committed = world.connection.committed ∧
    responses world'.outbox = responses world.outbox ++ failures ∧
    ∀ failure ∈ failures, failure.2.IsFailure := by
  obtain ⟨world₂, hloop, hsends⟩ := exec_forM_sends env terminalResponse
    (l := (world.arrivals.filterMap Received.toRequest).take env.queued)
    (fun r world => exec_respond env (terminalResponse r).1 (terminalResponse r).2 world)
    { world with arrivals := [] }
  refine ⟨world₂, _, ?_, hsends.committed, hsends.responses, ?_⟩
  · rw [rejectQueued, exec_bind_ok _ (exec_requestT _ _ _)]
    change exec _ (forM ((world.arrivals.filterMap Received.toRequest).take env.queued) _ >>= _)
      { world with arrivals := [] } = _
    rw [exec_bind_ok _ hloop]
    rfl
  · intro failure hfailure
    obtain ⟨r, -, rfl⟩ := List.mem_map.mp hfailure
    exact isFailure_terminalResponse r

end Flush

/-- The world when the writer starts. -/
def WriterWorld.start (c : Catalog) (arrivals : List Received) : WriterWorld :=
  ⟨⟨c, none, 0⟩, arrivals, 0, []⟩

def OpenBatch.empty : OpenBatch := ⟨[], none, 0⟩

/-- What every run of the writer leaves. -/
theorem outcome_writerLoop {env : WriterEnvironment} (henv : env.Faultless)
    {arrivals : List Received} (himports : OnlyImports arrivals)
    (hcount : (imports arrivals).length + 1 < 2 ^ 64) {n : ℕ} (hn : 2 * arrivals.length + 2 ≤ n)
    (config : CatalogWriterConfig) (c : Catalog) :
    Outcome (batchesOf config env.clock .empty arrivals) c []
      (exec (writerHandler env) (writerLoop config n) (.start c arrivals)) := by
  have hloop := continues_loop config henv himports hn .empty .default
    (.start c arrivals) ⟨rfl, rfl, rfl⟩
    ⟨by simp [CatalogWriterReport.default, OpenBatch.empty]; omega,
      by simp [CatalogWriterReport.default, OpenBatch.empty]; omega,
      by simp [CatalogWriterReport.default, OpenBatch.empty]; omega⟩
  change Outcome _ _ _ (exec _ (iterate (turn config) n .start) _) at hloop
  rw [writerLoop, exec_tryCatch]
  match hrun : exec (writerHandler env) (iterate (turn config) n .start) (.start c arrivals) with
  | (.ok r, world) =>
      rw [hrun] at hloop
      exact hloop
  | (.error e, world) =>
      obtain ⟨world', failures, hreject, hcommitted, hsent, hfailures⟩ :=
        exec_rejectQueued env e world
      rw [hrun] at hloop
      simp only [hreject]
      obtain ⟨failures', hsent', hfailures'⟩ := hloop.answered
      refine ⟨?_, ⟨failures' ++ failures, ?_, ?_⟩, ?_, hloop.failed⟩
      · rw [hcommitted]
        exact hloop.committed
      · rw [hsent, hsent']
        simp [WriterWorld.start, responses]
      · intro failure hfailure
        rcases List.mem_append.mp hfailure with h | h
        · exact hfailures' failure h
        · exact hfailures failure h
      · intro hall
        obtain ⟨report, hreport⟩ := hloop.completed hall
        simp at hreport

/-! ## Agreement -/

/-- A run of the writer agrees with the records one by one: without a failing record in
everything, with one up to the batch that contains it. -/
structure RefinesOneByOne (batches : List (List PendingImport)) (requests : List PendingImport)
    (c : Catalog) (run : Except WriterError (Writer ⊕ CatalogWriterReport) × WriterWorld) :
    Prop where
  /-- Every request is in one batch. -/
  whole : batches.flatten = requests
  success : (Batch.oneByOne recordItem requests c).1.length = requests.length →
    (∃ report, run.1 = .ok (.inr report)) ∧
    run.2.connection.committed = (Batch.oneByOne recordItem requests c).2 ∧
    ∀ (i : ℕ) (item : PendingImport), requests[i]? = some item → ∃ outcome,
      (Batch.oneByOne recordItem requests c).1[i]? = some outcome ∧
      resolveDetailed run.2.outbox item = .ok outcome
  failure : ∀ (k : ℕ) (item : PendingImport), k = (Batch.oneByOne recordItem requests c).1.length →
    requests[k]? = some item →
    (∃ cause, run.1 = .error (.batchFailed item.sequence item.request.sourcePath cause)) ∧
    ∃ before batch after, batches = before ++ batch :: after ∧
      before.flatten.length ≤ k ∧ k < before.flatten.length + batch.length ∧
      run.2.connection.committed = (Batch.oneByOne recordItem before.flatten c).2 ∧
      ∀ (i : ℕ) (item : PendingImport), requests[i]? = some item →
        (i < before.flatten.length → ∃ outcome,
          (Batch.oneByOne recordItem requests c).1[i]? = some outcome ∧
          resolveDetailed run.2.outbox item = .ok outcome) ∧
        (before.flatten.length ≤ i → ∃ e, resolveDetailed run.2.outbox item = .error e)

theorem writer_refines_oneByOne {env : WriterEnvironment} (henv : env.Faultless)
    {arrivals : List Received} (himports : OnlyImports arrivals)
    (hdistinct : ((imports arrivals).map (·.response)).Nodup)
    (hcount : (imports arrivals).length + 1 < 2 ^ 64) {n : ℕ} (hn : 2 * arrivals.length + 2 ≤ n)
    (config : CatalogWriterConfig) (c : Catalog) :
    RefinesOneByOne (batchesOf config env.clock .empty arrivals) (imports arrivals) c
      (exec (writerHandler env) (writerLoop config n) (.start c arrivals)) := by
  have houtcome := outcome_writerLoop henv himports hcount hn config c
  have hrequests : (batchesOf config env.clock .empty arrivals).flatten = imports arrivals := by
    rw [flatten_batchesOf]
    rfl
  set run := exec (writerHandler env) (writerLoop config n) (.start c arrivals)
  set batches := batchesOf config env.clock .empty arrivals
  set done := Batch.oneByOne (Batch.all recordItem) batches c with hdone
  obtain ⟨before, after, hsplit, hlength, hall, hafter⟩ :=
    @Batch.oneByOne_all _ _ _ _ recordItem batches c done.2 done.1 hdone.symm
  obtain ⟨failures, hsent, hfailures⟩ := houtcome.answered
  rw [List.nil_append, hrequests] at hsent
  rw [hrequests] at hafter
  obtain ⟨hone, hcountDone⟩ := Batch.all_eq_ok_iff.mp hall
  have htotal : imports arrivals = before.flatten ++ after.flatten := by
    rw [← hrequests, hsplit, List.flatten_append]
  have halone : Batch.oneByOne recordItem (imports arrivals) c =
      (done.1.flatten ++ (Batch.oneByOne recordItem after.flatten done.2).1,
        (Batch.oneByOne recordItem after.flatten done.2).2) := by
    rw [htotal, Batch.oneByOne_append_ok hall]
  have hresolve := fun (i : ℕ) (item : PendingImport)
    (hitem : (imports arrivals)[i]? = some item) =>
      resolveDetailed_of_answered hdistinct hsent hfailures hitem
  have hanswer : ∀ i item, (imports arrivals)[i]? = some item → i < before.flatten.length →
      ∃ outcome, (Batch.oneByOne recordItem (imports arrivals) c).1[i]? = some outcome ∧
        resolveDetailed run.2.outbox item = .ok outcome := by
    intro i item hitem hi
    rw [← hcountDone] at hi
    refine ⟨done.1.flatten[i], ?_, (hresolve i item hitem).1 _ (List.getElem?_eq_getElem hi)⟩
    rw [halone, List.getElem?_append_left hi, List.getElem?_eq_getElem hi]
  refine ⟨hrequests, ?_, ?_⟩
  · intro hsuccess
    have hnone : after = [] := by
      rcases hafter with h | ⟨batch, rest, rfl, hle, hlt⟩
      · exact h
      · rw [hsuccess, htotal, List.flatten_cons, List.length_append, List.length_append] at hlt
        omega
    subst hnone
    rw [List.append_nil] at hsplit
    refine ⟨houtcome.completed (hlength.symm.trans (congrArg List.length hsplit.symm)), ?_, ?_⟩
    · rw [houtcome.committed, halone]
      rfl
    · intro i item hitem
      refine hanswer i item hitem ?_
      rw [htotal] at hitem
      simpa using (List.getElem?_eq_some_iff.mp hitem).1
  · rintro k item rfl hitem
    have hlt := (List.getElem?_eq_some_iff.mp hitem).1
    rcases hafter with rfl | ⟨batch, rest, rfl, hle, hltBatch⟩
    · rw [htotal, List.flatten_nil, List.append_nil, hone, hcountDone] at hlt
      exact absurd hlt (lt_irrefl _)
    · have hfail : done.1.length < batches.length := by
        rw [← hlength, hsplit, List.length_append, List.length_cons]
        omega
      obtain ⟨item', cause, hitem', hrun⟩ := houtcome.failed hfail
      rw [hrequests, hitem] at hitem'
      obtain rfl := Option.some.inj hitem'
      refine ⟨⟨cause, hrun⟩, before, batch, rest, hsplit, hle, hltBatch, ?_, ?_⟩
      · rw [houtcome.committed, hone]
      · intro i item hitem
        refine ⟨hanswer i item hitem, fun hi => (hresolve i item hitem).2 ?_⟩
        rw [List.getElem?_eq_none_iff, hcountDone]
        exact hi

end Runs

/-! ## One request -/

/-- A clock that goes on with each reading. -/
def steadyEnvironment : WriterEnvironment := ⟨id, 0, fun _ => (0, 0, 0), fun _ => none⟩

/-- Silence, and then the import of an empty file. -/
def oneImport : List Received :=
  [.timeout, .request (.imported 0 ⟨photoHash, 0, 1⟩ (photoObservation 1) 0)]

theorem writer_refines_oneByOne_oneImport : ∃ _ : SqlArithmetic,
    RefinesOneByOne (batchesOf .default id .empty oneImport) (imports oneImport) .fresh
      (exec (writerHandler steadyEnvironment) (writerLoop .default 6)
        (.start .fresh oneImport)) := by
  have henv : steadyEnvironment.Faultless :=
    ⟨fun _ => rfl, fun _ => ⟨le_refl 0, le_refl 0, le_refl 0⟩⟩
  have himports : OnlyImports oneImport := by
    intro received hreceived
    rcases List.mem_cons.mp hreceived with rfl | hreceived
    · exact .inl rfl
    · obtain rfl := List.mem_singleton.mp hreceived
      exact .inr ⟨_, _, rfl, rfl⟩
  exact ⟨integerSums, @writer_refines_oneByOne integerSums _ henv _ himports (by decide)
    (by decide) 6 (by decide) .default .fresh⟩

end MediaImporter
