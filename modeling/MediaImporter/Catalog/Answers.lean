import MediaImporter.Catalog.Serialize

/-!
# What the writer answers when a record fails

The writer of an import commits its requests batch by batch, in the order in which they
arrive. When a record fails, every request of its batch is answered with the sequence of that
record. A request behind the batch is answered with its own sequence, or not at all; its sender
cannot tell which record has failed.

Nothing is assumed of the engine, which can fail at any statement, nor of the clock.

## Main definitions

* `TakenInOrder` — what has been answered to the imports that were taken.
* `answers_writerLoop` — what each sender learns when a record fails.
-/

namespace MediaImporter

open Program (Meets requestT)

/-- The error does not name a record. -/
def WriterError.IsReport (e : WriterError) : Prop :=
  ∀ sequence path cause, e ≠ .batchFailed sequence path cause

theorem WriterError.isReport_report (text : String) : (WriterError.report text).IsReport := by
  intro sequence path cause h
  cases h

theorem isReport_checkedSucc {counter : ℕ} {name : String} {e : WriterError}
    (h : checkedSucc counter name = .error e) : e.IsReport := by
  rw [checkedSucc] at h
  split_ifs at h
  cases h
  exact WriterError.isReport_report _

theorem isReport_countBatch {report : CatalogWriterReport} {records : ℕ} {e : WriterError}
    (h : countBatch report records = .error e) : e.IsReport := by
  rw [countBatch] at h
  cases hcount : checkedSucc report.committedBatches "catalog batch" with
  | error e' =>
      rw [hcount] at h
      cases h
      exact isReport_checkedSucc hcount
  | ok n =>
      rw [hcount, Except.ok_bind, Except.ensure] at h
      split_ifs at h
      · cases h
      · cases h
        exact WriterError.isReport_report _

/-- Nothing has been received or answered in between. -/
def SameMail (world v : WriterWorld) : Prop :=
  responses v.outbox = responses world.outbox ∧ v.arrivals = world.arrivals

theorem SameMail.refl (world : WriterWorld) : SameMail world world := ⟨rfl, rfl⟩

theorem SameMail.trans {world v u : WriterWorld} (h : SameMail world v) (h' : SameMail v u) :
    SameMail world u := ⟨h'.1.trans h.1, h'.2.trans h.2⟩

section Silence

variable [SqlArithmetic] {env : WriterEnvironment} {world v : WriterWorld} {α β : Type}

/-- A part that receives and answers nothing, and whose errors name no record. -/
def Mute (env : WriterEnvironment) (p : WriterProgram α) (world : WriterWorld) : Prop :=
  Meets (writerHandler env) (fun _ => True) p world (fun _ v => SameMail world v)
    fun e _ => e.IsReport

theorem mute_pure (a : α) : Mute env (pure a) world :=
  Program.meets_pure trivial (.refl world)

theorem mute_throw (text : String) : Mute env (throw (.report text) : WriterProgram α) world :=
  Program.meets_throw trivial (WriterError.isReport_report text)

theorem mute_sql (call : SqlCall) : Mute env (sql call) world :=
  Program.meets_requestT trivial trivial ⟨rfl, rfl⟩

theorem mute_emit (event : CatalogWriterEvent) : Mute env (emit event) world := by
  refine Program.meets_requestT trivial trivial ⟨?_, rfl⟩
  exact (responses_append _ _).trans (List.append_nil _)

theorem mute_now : Mute env (requestT WriterCall.now) world :=
  Program.meets_requestT trivial trivial ⟨rfl, rfl⟩

theorem mute_orFail {r : Except WriterError α} (hr : ∀ e, r = .error e → e.IsReport) :
    Mute env (orFail r) world := by
  cases r with
  | error e => exact Program.meets_throw trivial (hr e rfl)
  | ok a => exact Program.meets_pure trivial (.refl world)

/-- A mute part, and what follows. -/
theorem Mute.andThen {p : WriterProgram α} {f : α → WriterProgram β}
    {Q : β → WriterWorld → Prop} {E : WriterError → WriterWorld → Prop} (hp : Mute env p world)
    (hf : ∀ a v, SameMail world v → Meets (writerHandler env) (fun _ => True) (f a) v Q E)
    (hE : ∀ e v, e.IsReport → E e v) :
    Meets (writerHandler env) (fun _ => True) (p >>= f) world Q E :=
  hp.bind (fun a v _ hv => hf a v hv) hE

theorem Mute.bind {p : WriterProgram α} {f : α → WriterProgram β} (hp : Mute env p world)
    (hf : ∀ a v, SameMail world v → Mute env (f a) v) : Mute env (p >>= f) world :=
  hp.andThen (fun a v hv => (hf a v hv).mono (fun _ _ hu => hv.trans hu) fun _ _ h => h)
    fun _ _ h => h

theorem mute_checkpoint (report : CatalogWriterReport) : Mute env (checkpoint report) world := by
  refine (mute_sql .checkpoint).bind fun result v _ => ?_
  refine (mute_orFail fun e he => ?_).bind fun counts v _ => ?_
  · cases result with
    | ok counts => cases he
    | error cause =>
        cases he
        exact WriterError.isReport_report _
  · obtain ⟨busy, log, checkpointed⟩ := counts
    dsimp only
    split_ifs
    · exact mute_throw _
    · refine (mute_orFail fun e he => isReport_checkedSucc he).bind fun checkpoints v _ => ?_
      exact (mute_emit _).bind fun _ v _ => mute_pure _

theorem mute_checkpointIfDue (config : CatalogWriterConfig) (count commitSequence : ℕ)
    (report : CatalogWriterReport) :
    Mute env (checkpointIfDue config count commitSequence report) world := by
  rw [checkpointIfDue]
  split_ifs
  · exact (mute_emit _).bind fun _ _ _ => mute_checkpoint report
  · exact mute_pure _

theorem mute_openBatch (size firstSequence : ℕ) :
    Mute env (openBatch size firstSequence) world := by
  refine (mute_sql .begin).bind fun begun v _ => ?_
  cases begun with
  | ok _ => exact mute_pure _
  | error e => exact (mute_emit _).bind fun _ _ _ => mute_throw _

theorem mute_deadlinePassed (config : CatalogWriterConfig) (w : Writer) :
    Mute env (deadlinePassed config w) world := by
  rw [deadlinePassed]
  cases w.firstPendingAt with
  | none => exact mute_pure _
  | some first => exact mute_now.bind fun _ _ _ => mute_pure _

end Silence

/-! ## A batch -/

/-- Some answers have been sent, and nothing has been received. -/
def SendsMail (sent : List (ℕ × Response)) (world v : WriterWorld) : Prop :=
  responses v.outbox = responses world.outbox ++ sent ∧ v.arrivals = world.arrivals

/-- A record of the batch has failed, and the whole batch has been told. -/
def BatchFailed (pending : List PendingImport) (world : WriterWorld) (e : WriterError)
    (v : WriterWorld) : Prop :=
  ∀ sequence path cause, e = .batchFailed sequence path cause →
    ∃ item ∈ pending, item.sequence = sequence ∧ item.request.sourcePath = path ∧
      SendsMail (rollbackResponses pending item) world v

theorem BatchFailed.of_isReport {pending : List PendingImport} {world : WriterWorld}
    {e : WriterError} (h : e.IsReport) (v : WriterWorld) :
    BatchFailed pending world e v :=
  fun sequence path cause he => absurd he (h sequence path cause)

theorem BatchFailed.of_sameMail {pending : List PendingImport} {world u v : WriterWorld}
    {e : WriterError} (h : BatchFailed pending u e v) (hsame : SameMail world u) :
    BatchFailed pending world e v := by
  intro sequence path cause he
  obtain ⟨item, hitem, hsequence, hpath, hresponses, harrivals⟩ := h sequence path cause he
  refine ⟨item, hitem, hsequence, hpath, ?_, harrivals.trans hsame.2⟩
  rw [hresponses, hsame.1]

section Flush

variable [SqlArithmetic] {env : WriterEnvironment} {config : CatalogWriterConfig}
  {world : WriterWorld} {pending : List PendingImport}

theorem meets_rejectBatch (sequence : ℕ) (context : String) {E : WriterError → WriterWorld → Prop} :
    Meets (writerHandler env) (fun _ => True) (rejectBatch pending sequence context) world
      (fun _ v => SendsMail (pending.map fun item =>
        (item.response, .import (.error ⟨sequence, context⟩))) world v) E := by
  obtain ⟨v, hexec, hsends⟩ := exec_rejectBatch env pending sequence context world
  exact Program.meets_of_exec hexec ⟨hsends.responses, hsends.arrivals⟩

theorem meets_stage (items : List PendingImport) (hitems : items ⊆ pending) :
    Meets (writerHandler env) (fun _ => True) (stageBatch pending items) world
      (fun outcomes v => outcomes.length = items.length ∧ SameMail world v)
      (BatchFailed pending world) := by
  induction items generalizing world with
  | nil => exact Program.meets_pure trivial ⟨rfl, .refl world⟩
  | cons item items ih =>
      refine (mute_sql (.record item.request)).andThen (fun recorded v hv => ?_)
        fun e v he => .of_isReport he v
      cases recorded with
      | ok outcome =>
          have hrest := @ih v fun x hx => hitems (List.mem_cons_of_mem _ hx)
          refine hrest.bind (fun outcomes u _ hu => ?_) fun e u he => he.of_sameMail hv
          exact Program.meets_pure trivial ⟨congrArg (· + 1) hu.1, hv.trans hu.2⟩
      | error cause =>
          refine (meets_rejectBatch item.sequence "catalog import batch rolled back").bind
            (fun _ u _ hu => ?_) fun e u he => he
          refine (mute_sql .rollback).andThen (fun _ x hx => ?_) fun e x he => .of_isReport he x
          refine Program.meets_throw trivial fun sequence path cause' he => ?_
          obtain ⟨rfl, rfl, -⟩ := WriterError.batchFailed.inj he
          refine ⟨item, hitems List.mem_cons_self, rfl, rfl, ?_, ?_⟩
          · rw [hx.1, hu.1, hv.1]
            rfl
          · rw [hx.2, hu.2, hv.2]

theorem meets_commit (firstSequence : ℕ) :
    Meets (writerHandler env) (fun _ => True) (commitBatch pending firstSequence) world
      (fun _ v => SameMail world v) (fun e _ => e.IsReport) := by
  refine (mute_sql .commit).andThen (fun committed v hv => ?_) fun e v he => he
  cases committed with
  | ok _ => exact Program.meets_pure trivial hv
  | error cause =>
      refine (mute_sql .rollback).andThen (fun _ u _ => ?_) fun e u he => he
      refine (meets_rejectBatch firstSequence _).bind (fun _ x _ _ => ?_) fun e x he => he
      exact Program.meets_throw trivial (WriterError.isReport_report _)

theorem meets_answerRecords (records : List (PendingImport × ImportWriteOutcome))
    {E : WriterError → WriterWorld → Prop} :
    Meets (writerHandler env) (fun _ => True) (forM records answerRecord) world
      (fun _ v => SendsMail (records.map okResponse) world v) E := by
  refine Program.meets_forM (fun done v => SendsMail (done.map okResponse) world v)
    ⟨(List.append_nil _).symm, rfl⟩ (fun _ _ => trivial) fun done record rest v _ hv => ?_
  refine Program.meets_requestT_bind trivial ?_
  refine Program.meets_requestT trivial trivial ⟨?_, hv.2⟩
  change responses ((v.outbox ++ [.event _]) ++ [.response _ _]) = _
  rw [responses_append, responses_append, hv.1, List.map_append, List.append_assoc,
    List.append_assoc]
  rfl

/-- A batch is committed and its records are answered, or a record has failed, or something
else has. -/
theorem meets_flushBatch (report : CatalogWriterReport) :
    Meets (writerHandler env) (fun _ => True) (flushImports config pending report) world
      (fun _ v => ∃ outcomes : List ImportWriteOutcome, outcomes.length = pending.length ∧
        SendsMail ((pending.zip outcomes).map okResponse) world v)
      (BatchFailed pending world) := by
  cases hpending : pending with
  | nil => exact Program.meets_pure trivial ⟨[], rfl, (List.append_nil _).symm, rfl⟩
  | cons first rest =>
      rw [← hpending]
      unfold flushImports
      rw [hpending]
      dsimp only
      rw [← hpending]
      refine (mute_emit _).andThen (fun _ v₁ h₁ => ?_) fun e v he => .of_isReport he v
      refine (mute_openBatch _ _).andThen (fun _ v₂ h₂ => ?_) fun e v he => .of_isReport he v
      refine (meets_stage pending (List.Subset.refl _)).bind (fun outcomes v₃ _ h₃ => ?_)
        fun e v he => he.of_sameMail (h₁.trans h₂)
      refine (meets_commit _).bind (fun _ v₄ _ h₄ => ?_) fun e v he => .of_isReport he v
      refine (mute_orFail fun e he => isReport_countBatch he).andThen (fun counted v₅ h₅ => ?_)
        fun e v he => .of_isReport he v
      refine (meets_answerRecords _).bind (fun _ v₆ _ h₆ => ?_) fun e v he => he
      refine (mute_emit _).andThen (fun _ v₇ h₇ => ?_) fun e v he => .of_isReport he v
      refine (mute_checkpointIfDue _ _ _ _).mono (fun _ v₈ h₈ => ?_)
        fun e v he => .of_isReport he v
      have hbefore := (((h₁.trans h₂).trans h₃.2).trans h₄).trans h₅
      have hafter := h₇.trans h₈
      refine ⟨outcomes, h₃.1, ?_, ?_⟩
      · rw [hafter.1, h₆.1, hbefore.1]
      · rw [hafter.2, h₆.2, hbefore.2]

end Flush

/-! ## The loop -/

/-- The imports that were taken before the pending ones are committed and answered. `taken` has
been received, and is not pending yet. -/
structure TakenInOrder (items : List PendingImport) (w : Writer) (taken : List PendingImport)
    (v : WriterWorld) : Prop where
  idle : w.gcActive = false
  only : OnlyImports v.arrivals
  mail : ∃ records : List (PendingImport × ImportWriteOutcome),
    records.map Prod.fst ++ w.pending ++ (taken ++ imports v.arrivals) = items ∧
      responses v.outbox = records.map okResponse

/-- A record has failed: what was committed before it is answered, its batch is told, and the
imports behind the batch have been told nothing. -/
def RecordFailed (items : List PendingImport) (e : WriterError) (v : WriterWorld) : Prop :=
  ∀ sequence path cause, e = .batchFailed sequence path cause →
    ∃ (records : List (PendingImport × ImportWriteOutcome)) (batch lost : List PendingImport),
      ∃ item ∈ batch, item.sequence = sequence ∧ item.request.sourcePath = path ∧
        records.map Prod.fst ++ batch ++ (lost ++ imports v.arrivals) = items ∧
        OnlyImports v.arrivals ∧
        responses v.outbox = records.map okResponse ++ rollbackResponses batch item

theorem RecordFailed.of_isReport {items : List PendingImport} {e : WriterError} (h : e.IsReport)
    (v : WriterWorld) : RecordFailed items e v :=
  fun sequence path cause he => absurd he (h sequence path cause)

section Loop

variable {env : WriterEnvironment} {config : CatalogWriterConfig} {w : Writer}
  {items taken : List PendingImport} {item : PendingImport} {world v : WriterWorld}

theorem TakenInOrder.congr (h : TakenInOrder items w taken world) (hsame : SameMail world v) :
    TakenInOrder items w taken v := by
  obtain ⟨records, hitems, hresponses⟩ := h.mail
  refine ⟨h.idle, ?_, records, ?_, hsame.1.trans hresponses⟩
  · rw [hsame.2]
    exact h.only
  · rw [hsame.2]
    exact hitems

/-- The batch that is flushed has failed. -/
theorem TakenInOrder.recordFailed {e : WriterError} (h : TakenInOrder items w taken world)
    (he : BatchFailed w.pending world e v) : RecordFailed items e v := by
  obtain ⟨records, hitems, hresponses⟩ := h.mail
  intro sequence path cause hfailed
  obtain ⟨item, hitem, hsequence, hpath, hsent, harrivals⟩ := he sequence path cause hfailed
  refine ⟨records, w.pending, taken, item, hitem, hsequence, hpath, ?_, ?_, ?_⟩
  · rw [harrivals]
    exact hitems
  · rw [harrivals]
    exact h.only
  · rw [hsent, hresponses]

variable [SqlArithmetic]

theorem TakenInOrder.afterFlush (h : TakenInOrder items w taken world) :
    Meets (writerHandler env) (fun _ => True) (flush config w) world
      (fun w' v => w'.pending = [] ∧ TakenInOrder items w' taken v) (RecordFailed items) := by
  obtain ⟨records, hitems, hresponses⟩ := h.mail
  refine (meets_flushBatch w.report).bind (fun report v _ hv => ?_) fun e v he =>
    h.recordFailed he
  obtain ⟨outcomes, hlength, hsent, harrivals⟩ := hv
  have hfirsts : (w.pending.zip outcomes).map Prod.fst = w.pending :=
    List.map_fst_zip (le_of_eq hlength.symm)
  refine Program.meets_pure trivial ⟨rfl, h.idle, ?_, records ++ w.pending.zip outcomes, ?_, ?_⟩
  · rw [harrivals]
    exact h.only
  · rw [List.map_append, hfirsts, harrivals, List.append_nil]
    exact hitems
  · rw [hsent, hresponses, List.map_append]

theorem TakenInOrder.afterExpiry (h : TakenInOrder items w taken world) :
    Meets (writerHandler env) (fun _ => True) (flushExpired config w) world
      (fun w' v => TakenInOrder items w' taken v) (RecordFailed items) := by
  refine (mute_deadlinePassed config w).andThen (fun expired v hv => ?_)
    fun e v he => .of_isReport he v
  split_ifs
  · exact (h.congr hv).afterFlush.mono (fun w' u hu => hu.2) fun _ _ he => he
  · exact Program.meets_pure trivial (h.congr hv)

theorem TakenInOrder.afterPush (h : TakenInOrder items w (item :: taken) world) :
    Meets (writerHandler env) (fun _ => True) (push w item) world
      (fun w' v => TakenInOrder items w' taken v) (RecordFailed items) := by
  have hpushed : ∀ (at' : Option ℕ) (v : WriterWorld), SameMail world v →
      TakenInOrder items { w with pending := w.pending ++ [item], firstPendingAt := at' } taken
        v := by
    intro at' v hv
    obtain ⟨hidle, honly, records, hitems, hresponses⟩ := h.congr hv
    refine ⟨hidle, honly, records, ?_, hresponses⟩
    rw [← hitems]
    simp
  rw [push]
  cases w.firstPendingAt with
  | some first => exact Program.meets_pure trivial (hpushed _ world (.refl world))
  | none =>
      refine mute_now.andThen (fun now v hv => ?_) fun e v he => .of_isReport he v
      exact Program.meets_pure trivial (hpushed _ v hv)

theorem TakenInOrder.afterImport (h : TakenInOrder items w [item] world) :
    Meets (writerHandler env) (fun _ => True) (acceptImport config w item) world
      (fun w' v => TakenInOrder items w' [] v) (RecordFailed items) := by
  refine h.afterExpiry.bind (fun w' v _ hv => ?_) fun _ _ he => he
  rw [if_neg (by rw [hv.idle]; exact Bool.false_ne_true)]
  refine hv.afterPush.bind (fun w'' u _ hu => ?_) fun _ _ he => he
  rw [flushFull]
  split_ifs
  · exact hu.afterFlush.mono (fun _ _ hx => hx.2) fun _ _ he => he
  · exact Program.meets_pure trivial hu

/-- After a turn the writer goes on, or has ended well. -/
def GoesOn (items : List PendingImport) (r : Writer ⊕ CatalogWriterReport) (v : WriterWorld) :
    Prop :=
  ∀ w, r = .inl w → TakenInOrder items w [] v

theorem meets_inl {p : WriterProgram Writer}
    (hp : Meets (writerHandler env) (fun _ => True) p world (fun w v => TakenInOrder items w [] v)
      (RecordFailed items)) :
    Meets (writerHandler env) (fun _ => True) (Sum.inl <$> p) world (GoesOn items)
      (RecordFailed items) := by
  rw [← bind_pure_comp]
  refine hp.bind (fun w v _ hv => Program.meets_pure trivial fun w' heq => ?_) fun _ _ he => he
  rw [← Sum.inl.inj heq]
  exact hv

theorem TakenInOrder.afterShutDown (h : TakenInOrder items w [] world) :
    Meets (writerHandler env) (fun _ => True) (shutDown config w) world (fun _ _ => True)
      (RecordFailed items) := by
  rw [shutDown, if_neg (by rw [h.idle]; exact Bool.false_ne_true)]
  refine Program.Meets.bind (R := fun _ _ => True) (F := RecordFailed items) ?_
    (fun report v _ _ => ?_) fun _ _ he => he
  · rw [shutDown.flushAtShutdown]
    refine (meets_flushBatch w.report).bind (fun report v _ _ => ?_) fun e v he =>
      h.recordFailed he
    cases w.pending with
    | nil => exact Program.meets_pure trivial trivial
    | cons first rest =>
        refine (mute_emit _).andThen (fun _ _ _ => ?_) fun e v he => .of_isReport he v
        exact Program.meets_pure trivial trivial
  · refine (mute_emit _).andThen (fun _ _ _ => ?_) fun e v he => .of_isReport he v
    exact (mute_checkpoint report).mono (fun _ _ _ => trivial) fun e v he => .of_isReport he v

theorem TakenInOrder.afterServe {received : Received}
    (h : TakenInOrder items w received.toImport.toList world)
    (hreceived : ∀ r, received = .request r → ∃ item, pendingFrom r = some item) :
    Meets (writerHandler env) (fun _ => True) (serve config w received) world (GoesOn items)
      (RecordFailed items) := by
  cases received with
  | request r =>
      obtain ⟨item, hitem⟩ := hreceived r rfl
      simp only [serve, hitem]
      simp only [Received.toImport, hitem] at h
      exact meets_inl h.afterImport
  | timeout => exact meets_inl (h.afterFlush.mono (fun _ _ hv => hv.2) fun _ _ he => he)
  | disconnected =>
      rw [serve, ← bind_pure_comp]
      refine h.afterShutDown.bind (fun report v _ _ => ?_) fun _ _ he => he
      exact Program.meets_pure trivial fun w' heq => by cases heq

theorem TakenInOrder.afterReceive (h : TakenInOrder items w [] world) (timeout : Option ℕ) :
    Meets (writerHandler env) (fun _ => True)
      (do let received ← requestT (WriterCall.receive timeout); serve config w received) world
      (GoesOn items) (RecordFailed items) := by
  apply Program.meets_requestT_bind trivial
  obtain ⟨connection, arrivals, ticks, outbox⟩ := world
  cases arrivals with
  | nil =>
      have hend : TakenInOrder items w (Received.toImport .disconnected).toList
          ⟨connection, [], ticks, outbox⟩ := h
      exact hend.afterServe fun r hr => by cases hr
  | cons received arrivals =>
      have htaken : TakenInOrder items w received.toImport.toList
          ⟨connection, arrivals, ticks, outbox⟩ := by
        obtain ⟨hidle, honly, records, hitems, hresponses⟩ := h
        refine ⟨hidle, fun r hr => honly r (List.mem_cons_of_mem _ hr), records, ?_, hresponses⟩
        rw [← hitems, imports, imports, List.filterMap_cons]
        cases received.toImport <;> rfl
      refine TakenInOrder.afterServe htaken fun r hr => ?_
      rcases h.only received List.mem_cons_self with htimeout | ⟨r', item, hr', hitem⟩
      · rw [htimeout] at hr
        cases hr
      · rw [hr'] at hr
        cases hr
        exact ⟨item, hitem⟩

theorem TakenInOrder.afterTurn (h : TakenInOrder items w [] world) :
    Meets (writerHandler env) (fun _ => True) (turn config w) world (GoesOn items)
      (RecordFailed items) := by
  refine (mute_deadlinePassed config w).andThen (fun expired v hv => ?_)
    fun e v he => .of_isReport he v
  have hnow := h.congr hv
  split_ifs
  · exact meets_inl (hnow.afterFlush.mono (fun _ _ hu => hu.2) fun _ _ he => he)
  · rw [receive]
    cases w.firstPendingAt with
    | none => exact hnow.afterReceive none
    | some first =>
        simp only [bind_assoc]
        refine mute_now.andThen (fun now u hu => ?_) fun e v he => .of_isReport he v
        exact (hnow.congr hu).afterReceive _

/-- Any number of turns. -/
theorem TakenInOrder.afterTurns (n : ℕ) (h : TakenInOrder items w [] world) :
    Meets (writerHandler env) (fun _ => True) (Program.iterate (turn config) n w) world
      (GoesOn items) (RecordFailed items) := by
  induction n generalizing w world with
  | zero =>
      refine Program.meets_pure trivial fun w' heq => ?_
      rw [← Sum.inl.inj heq]
      exact h
  | succ n ih =>
      refine h.afterTurn.bind (fun r v _ hr => ?_) fun _ _ he => he
      cases r with
      | inl w' => exact ih (hr w' rfl)
      | inr report => exact Program.meets_pure trivial fun w' heq => by cases heq

end Loop

/-! ## What the senders learn -/

section Resolve

variable {outbox : List Message} {item : PendingImport}
  {outcome : Except ImportWriteFailure ImportWriteOutcome}

theorem resolveDetailed_of_mem (hdistinct : ((responses outbox).map Prod.fst).Nodup)
    (h : (item.response, .import outcome) ∈ responses outbox) :
    resolveDetailed outbox item = outcome := by
  have hfind : ∀ l : List (ℕ × Response), (l.map Prod.fst).Nodup →
      (item.response, .import outcome) ∈ l →
        l.find? (·.1 = item.response) = some (item.response, .import outcome) := by
    intro l hl hmem
    induction l with
    | nil => cases hmem
    | cons first l ih =>
        rw [List.map_cons, List.nodup_cons] at hl
        rcases List.mem_cons.1 hmem with rfl | hmem
        · rw [List.find?_cons_of_pos (by simp)]
        · have hother : first.1 ≠ item.response := by
            intro hsame
            apply hl.1
            rw [hsame]
            exact List.mem_map_of_mem hmem
          rw [List.find?_cons_of_neg (by simpa using hother)]
          exact ih hl.2 hmem
  rw [resolveDetailed, hfind _ hdistinct h]

theorem resolveDetailed_of_not_mem (h : item.response ∉ (responses outbox).map Prod.fst) :
    resolveDetailed outbox item =
      .error ⟨item.sequence, "wait for catalog writer record outcome"⟩ := by
  have hnone : (responses outbox).find? (·.1 = item.response) = none := by
    rw [List.find?_eq_none]
    intro r hr hsame
    apply h
    rw [List.mem_map]
    exact ⟨r, hr, by simpa using hsame⟩
  rw [resolveDetailed, hnone]

end Resolve

/-- The answer to a request that is behind the batch of a record that has failed. -/
def rejected (item : PendingImport) : ℕ × Response :=
  (item.response,
    .import (.error ⟨item.sequence, "catalog writer terminated before completing request"⟩))

theorem terminalResponse_of_import {r : CatalogWriteRequest} {item : PendingImport}
    (h : pendingFrom r = some item) : terminalResponse r = rejected item := by
  cases r <;> cases h <;> rfl

theorem map_terminalResponse {arrivals : List Received} (honly : OnlyImports arrivals) :
    (arrivals.filterMap Received.toRequest).map terminalResponse =
      (imports arrivals).map rejected := by
  induction arrivals with
  | nil => rfl
  | cons received arrivals ih =>
      have hrest := ih fun r hr => honly r (List.mem_cons_of_mem _ hr)
      rw [imports] at hrest
      rcases honly received List.mem_cons_self with rfl | ⟨r, item, rfl, hitem⟩
      · exact hrest
      · rw [imports, List.filterMap_cons, List.filterMap_cons]
        simp only [Received.toRequest, Received.toImport, hitem, List.map_cons, hrest,
          terminalResponse_of_import hitem]

section Answers

variable [SqlArithmetic] {env : WriterEnvironment} {config : CatalogWriterConfig} {n : ℕ}
  {world v : WriterWorld}

theorem exec_rejectQueued_imports {α : Type} (env : WriterEnvironment) (e : WriterError)
    (honly : OnlyImports world.arrivals) :
    ∃ v, Program.exec (writerHandler env) (rejectQueued e : WriterProgram α) world =
        (.error e, v) ∧
      responses v.outbox =
        responses world.outbox ++ ((imports world.arrivals).take env.queued).map rejected := by
  obtain ⟨v, hexec, hsends⟩ := exec_forM_sends env terminalResponse
    (fun r world => exec_respond env (terminalResponse r).1 (terminalResponse r).2 world)
    (l := (world.arrivals.filterMap Received.toRequest).take env.queued)
    { world with arrivals := [] }
  refine ⟨v, ?_, ?_⟩
  · have hdrain : Program.exec (writerHandler env) (requestT WriterCall.drain : WriterProgram _)
        world = (.ok ((world.arrivals.filterMap Received.toRequest).take env.queued),
          { world with arrivals := [] }) := rfl
    rw [rejectQueued, Program.exec_bind_ok _ hdrain, Program.exec_bind_ok _ hexec]
    rfl
  · rw [hsends.responses, List.map_take, map_terminalResponse honly, ← List.map_take]

/-- When a record has failed: the requests are those that are committed, those of the batch of
that record, and those behind it. Only those of the batch learn which record it was. -/
theorem answers_writerLoop (honly : OnlyImports world.arrivals) (houtbox : world.outbox = [])
    (hdistinct : ((imports world.arrivals).map PendingImport.response).Nodup) {sequence : ℕ}
    {path : SourceRelativePath} {cause : String}
    (hrun : Program.exec (writerHandler env) (writerLoop config n) world =
      (.error (.batchFailed sequence path cause), v)) :
    ∃ committed batch behind, imports world.arrivals = committed ++ batch ++ behind ∧
      (∃ item ∈ batch, item.sequence = sequence ∧ item.request.sourcePath = path) ∧
      (∀ item ∈ committed, ∃ outcome, resolveDetailed v.outbox item = .ok outcome) ∧
      (∀ item ∈ batch, resolveDetailed v.outbox item =
        .error ⟨sequence, "catalog import batch rolled back"⟩) ∧
      ∀ item ∈ behind, ∃ context,
        resolveDetailed v.outbox item = .error ⟨item.sequence, context⟩ := by
  have hanswered : TakenInOrder (imports world.arrivals) .start [] world := by
    refine ⟨rfl, honly, [], rfl, ?_⟩
    rw [houtbox]
    rfl
  have hmeets : Meets (writerHandler env) (fun _ => True)
      (Program.iterate (turn config) n .start) world (GoesOn (imports world.arrivals))
      (RecordFailed (imports world.arrivals)) := hanswered.afterTurns n
  rw [writerLoop, Program.exec_tryCatch] at hrun
  rcases hturns : Program.exec (writerHandler env)
      (Program.iterate (turn config) n .start) world with ⟨e | r, u⟩
  · rw [hturns] at hrun
    change Program.exec (writerHandler env) (rejectQueued e) u = _ at hrun
    obtain ⟨_, _, hsame, -⟩ := exec_rejectQueued env e u
    rw [hrun] at hsame
    obtain rfl : .batchFailed sequence path cause = e := Except.error.inj (Prod.mk.inj hsame).1
    obtain ⟨records, batch, lost, failing, hfailing, hsequence, hpath, hitems, honly', hsent⟩ :=
      hmeets.error hturns sequence path cause rfl
    obtain ⟨v', hexec, hlast⟩ := exec_rejectQueued_imports (α := Writer ⊕ CatalogWriterReport) env
      (.batchFailed sequence path cause) honly'
    obtain rfl : v = v' := (Prod.mk.inj (hrun.symm.trans hexec)).2
    have hresponses : responses v.outbox = records.map okResponse ++
        rollbackResponses batch failing ++ ((imports u.arrivals).take env.queued).map rejected := by
      rw [hlast, hsent]
    -- who has been answered
    set told := records.map Prod.fst ++ batch ++ (imports u.arrivals).take env.queued with htold
    have hsublist : told.Sublist (imports world.arrivals) := by
      rw [← hitems]
      exact (List.Sublist.refl _).append
        ((List.take_sublist _ _).trans (List.sublist_append_right _ _))
    have hfirsts : (responses v.outbox).map Prod.fst = told.map PendingImport.response := by
      rw [hresponses, htold]
      simp [rollbackResponses, okResponse, rejected, Function.comp_def]
    have hkeys : ((responses v.outbox).map Prod.fst).Nodup := by
      rw [hfirsts]
      exact hdistinct.sublist (hsublist.map _)
    refine ⟨records.map Prod.fst, batch, lost ++ imports u.arrivals, hitems.symm,
      ⟨failing, hfailing, hsequence, hpath⟩, ?_, ?_, ?_⟩
    · intro item hitem
      obtain ⟨record, hrecord, rfl⟩ := List.mem_map.1 hitem
      refine ⟨record.2, resolveDetailed_of_mem hkeys ?_⟩
      rw [hresponses]
      exact List.mem_append_left _ (List.mem_append_left _ (List.mem_map_of_mem hrecord))
    · intro item hitem
      apply resolveDetailed_of_mem hkeys
      rw [hresponses, ← hsequence]
      exact List.mem_append_left _ (List.mem_append_right _ (List.mem_map_of_mem hitem))
    · intro item hitem
      by_cases hqueued : item ∈ (imports u.arrivals).take env.queued
      · refine ⟨"catalog writer terminated before completing request",
          resolveDetailed_of_mem hkeys ?_⟩
        rw [hresponses]
        exact List.mem_append_right _ (List.mem_map_of_mem hqueued)
      · refine ⟨_, resolveDetailed_of_not_mem fun hmem => ?_⟩
        rw [hfirsts] at hmem
        obtain ⟨other, hother, hsame⟩ := List.mem_map.1 hmem
        have hmember : item ∈ imports world.arrivals := by
          rw [← hitems]
          exact List.mem_append_right _ hitem
        obtain rfl : other = item :=
          List.inj_on_of_nodup_map hdistinct (hsublist.subset hother) hmember hsame
        rcases List.mem_append.1 hother with hbefore | hafter
        · have hdisjoint := (List.Nodup.of_map _ hdistinct)
          rw [← hitems, List.nodup_append] at hdisjoint
          exact hdisjoint.2.2 other hbefore other hitem rfl
        · exact hqueued hafter
  · rw [hturns] at hrun
    cases hrun

end Answers

end MediaImporter
