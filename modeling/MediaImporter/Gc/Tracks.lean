import MediaImporter.Gc.Session

/-!
# The loops that apply a plan

While a plan is applied the committed catalog is the old one, the transaction holds what has
been staged, and the files that are gone are those of the first candidates. An early end
leaves the same, except that the file of one more candidate can be gone, and that a failure
of the engine can lose the transaction.

Each loop has one step lemma, and `meets_stagePlan` is the run of all three.

## Main definitions

* `Holds`, `Tracks` — the invariant of the loops.
* `Halts` — what an early end leaves.
* `GcSession.Stopped` — every state in between.
* `meets_stagePlan` — the loops.
-/

namespace MediaImporter

open Utf8 UnixPath
open Program (Meets)

/-! ## The invariant -/

/-- The variables of a writer in an open session. -/
def Writer.inSession : Writer := { Writer.start with gcActive := true }

/-- How far a session can be when the files of some candidates are gone. -/
structure GcSession.Reaches (x : GcSession) (y : GcDone) (gone : List SweepCandidate) : Prop where
  marks : y.marks <+: x.preflight.plan.marks
  resurrections : y.resurrections <+: x.preflight.plan.resurrections
  candidates : gone <+: x.preflight.sweepCandidates
  sweeps : y.sweeps <+: gone
  sweepsLast : gone ≠ [] → y.marks = x.preflight.plan.marks ∧
    y.resurrections = x.preflight.plan.resurrections

/-- What holds in the loops. The files in `gone` are gone, and those in `counted` are in the
report. -/
structure Holds (x : GcSession) (y : GcDone) (gone counted : List SweepCandidate)
    (s : ApplyState) (w : GcWorld) : Prop where
  reaches : x.Reaches y gone
  thread : s.thread = .ok Writer.inSession
  catalog : w.catalog = x.catalog
  store : Unlinked (presentHashes gone) x.store w.store
  progress : s.progress = y.progress
  actions : s.stagedActions = y.actions
  report : s.report = x.report counted
  started : s.sweepMutationsStarted = true ↔ counted ≠ []

/-- The invariant of the loops. -/
structure Tracks (x : GcSession) (y : GcDone) (s : ApplyState) (w : GcWorld) : Prop
    extends Holds x y y.sweeps y.sweeps s w where
  transaction : w.writer.connection.transaction = some (x.staged y)

namespace ApplyStop

def state : ApplyStop → ApplyState
  | .abort s _ | .commitPartial s _ => s

/-- Whether what is staged is to be committed. -/
def Commits (stop : ApplyStop) : Prop := stop.state.sweepMutationsStarted = true

end ApplyStop

/-- What an early end leaves. It has a reason outside of the catalog and the store. -/
structure Halts (env : GcEnvironment) (x : GcSession) (stop : ApplyStop) (w : GcWorld) : Prop where
  blame : env.Faultless → ¬ x.catalog.Fits
  partial_started : ∀ s e, stop = .commitPartial s e → stop.Commits
  holds : ∃ y gone counted, Holds x y gone counted stop.state w ∧
    (w.writer.connection.transaction = some (x.staged y) ∨
      w.writer.connection.transaction = none ∧ ¬ env.Mild) ∧
    (counted = gone ∨ counted = y.sweeps ∧ ¬ env.Mild)

/-- A state in which a session can be stopped. The files of some first candidates are gone,
and the catalog is the old one, or everything but the last sweeps is committed. -/
def GcSession.Stopped (x : GcSession) (w : GcWorld) : Prop :=
  ∃ gone, gone <+: x.preflight.sweepCandidates ∧
    Unlinked (presentHashes gone) x.store w.store ∧
    (w.catalog = x.catalog ∨ ∃ swept, swept <+: gone ∧
      w.catalog = x.staged ⟨x.preflight.plan.marks, x.preflight.plan.resurrections, swept⟩)

section Invariant

variable {x : GcSession} {y : GcDone} {gone counted : List SweepCandidate} {s : ApplyState}
  {w w' : GcWorld}

theorem Holds.stopped (h : Holds x y gone counted s w) : x.Stopped w :=
  ⟨gone, h.reaches.candidates, h.store, .inl h.catalog⟩

theorem Holds.same (h : Holds x y gone counted s w) (hw : w.SameState w') :
    Holds x y gone counted s w' :=
  { h with
    catalog := (congrArg (·.connection.committed) hw.2).trans h.catalog
    store := hw.1 ▸ h.store }

theorem Tracks.same (h : Tracks x y s w) (hw : w.SameState w') : Tracks x y s w' where
  toHolds := h.toHolds.same hw
  transaction := (congrArg (·.connection.transaction) hw.2).trans h.transaction

theorem Tracks.stopped (h : Tracks x y s w) (hw : w.SameState w') : x.Stopped w' :=
  (h.toHolds.same hw).stopped

/-- An early end before anything more was done. -/
theorem Tracks.halts {env : GcEnvironment} {e : String} (h : Tracks x y s w)
    (hblame : env.Faultless → ¬ x.catalog.Fits) : Halts env x (.abort s e) w where
  blame := hblame
  partial_started := by simp
  holds := ⟨y, y.sweeps, y.sweeps, h.toHolds, .inl h.transaction, .inl rfl⟩

end Invariant

/-! ## Parts of a step -/

section Parts

variable [SqlArithmetic] {env : GcEnvironment} {x : GcSession} {y : GcDone} {s : ApplyState}
  {w : GcWorld} {P : GcWorld → Prop}

theorem meets_checkGcTelemetry (hP : ∀ w', w.SameState w' → P w') :
    Meets (gcHandler env) P checkGcTelemetry w (fun _ w' => w.SameState w')
      (fun _ w' => w.SameState w' ∧ ¬ env.Faultless) := by
  refine Program.meets_requestT_bind (hP w (.refl w)) ?_
  have hnext : w.SameState w.next := .next w
  cases hfails : env.telemetryFails w.calls with
  | false =>
      simp only [gcHandler, hfails]
      exact Program.meets_pure (hP _ hnext) hnext
  | true =>
      simp only [gcHandler, hfails]
      refine Program.meets_throw (hP _ hnext) ⟨hnext, fun henv => ?_⟩
      simp [henv.telemetry] at hfails

/-- A part whose failure aborts. -/
theorem meets_attemptOrAbort {α : Type} {p : GcProgram String α} {R Q : α → GcWorld → Prop}
    {F : String → GcWorld → Prop} {E : ApplyStop → GcWorld → Prop}
    (hp : Meets (gcHandler env) P p w R F) (hR : ∀ a t, R a t → Q a t)
    (hF : ∀ e t, F e t → E (.abort s e) t) :
    Meets (gcHandler env) P (attemptOrAbort s p) w Q E := by
  refine (meets_attempt (E := E) (Q := fun r t =>
    (∀ a, r = .ok a → Q a t) ∧ ∀ e, r = .error e → E (.abort s e) t) hp ?_ ?_).bind ?_
    fun _ _ he => he
  · intro a t ha
    exact ⟨fun _ heq => Except.ok.inj heq ▸ hR a t ha, by simp⟩
  · intro e t he
    exact ⟨by simp, fun _ heq => Except.error.inj heq ▸ hF e t he⟩
  · intro r t hP hr
    cases r with
    | ok a => exact Program.meets_pure hP (hr.1 a rfl)
    | error e => exact Program.meets_throw hP (hr.2 e rfl)

/-- A statement was staged in the transaction `t`: it has run, or it has failed for a reason
outside of the catalog, without effect or with the loss of the transaction. -/
structure AfterStage (env : GcEnvironment) (w : GcWorld) (t : Catalog) (statement : GcStatement)
    (answer : Except String Unit) (w' : GcWorld) : Prop where
  store : w'.store = w.store
  catalog : w'.catalog = w.catalog
  outcome : answer = (statement.stage t).1 ∧
      w'.writer.connection.transaction = some (statement.stage t).2 ∨
    (∃ e, answer = .error e) ∧ ¬ env.Faultless ∧
      (w'.writer.connection.transaction = some t ∨
        w'.writer.connection.transaction = none ∧ ¬ env.Mild)

/-- The world after a step of the writer. -/
def GcWorld.afterWriter (env : GcEnvironment) (w : GcWorld) (call : WriterCall) : GcWorld :=
  { w with writer := (writerAnswer env w.calls call w.writer).2, calls := w.calls + 1 }

theorem afterStage_answer (env : GcEnvironment) {t : Catalog} (statement : GcStatement)
    (ht : w.writer.connection.transaction = some t) :
    AfterStage env w t statement (writerAnswer env w.calls (.sql (.stage statement)) w.writer).1
      (w.afterWriter env (.sql (.stage statement))) := by
  unfold GcWorld.afterWriter
  simp only [writerAnswer]
  cases hfails : env.stageFails w.calls with
  | some e =>
      refine ⟨rfl, rfl, .inr ⟨⟨e, rfl⟩, fun henv => ?_, .inl ht⟩⟩
      simp [henv.stages] at hfails
  | none =>
      simp only [writerHandler, SqlConnection.answer]
      cases hfault : env.writer.faults w.writer.connection.statements with
      | none =>
          refine ⟨rfl, ?_, .inl ⟨?_, ?_⟩⟩
          · simp [GcWorld.catalog, SqlConnection.perform, SqlConnection.write, ht]
          · simp [SqlConnection.perform, SqlConnection.current, ht]
          · simp [SqlConnection.perform, SqlConnection.current, SqlConnection.write, ht]
      | some fault =>
          have hmild : ¬ env.Mild := by
            intro henv
            simp [henv.writer.faults] at hfault
          refine ⟨rfl, rfl, .inr ⟨⟨fault.message, rfl⟩, fun henv => hmild henv.mild, ?_⟩⟩
          cases hlost : fault.rolledBack with
          | true => exact .inr ⟨by simp [hlost], hmild⟩
          | false => exact .inl (by simp [hlost, ht])

/-- A request in a session, and the answer. -/
theorem meets_stageInSession {ε : Type} {E : ε → GcWorld → Prop} {t : Catalog}
    (statement : GcStatement) (ht : w.writer.connection.transaction = some t)
    (hP : ∀ w', w'.store = w.store → w'.catalog = w.catalog → P w') :
    Meets (gcHandler env) P (stageInSession statement (.ok Writer.inSession)) w
      (fun r w' => r.2 = .ok Writer.inSession ∧ AfterStage env w t statement r.1 w') E := by
  have hafter := afterStage_answer env statement ht
  have hcall : Meets (gcHandler env) P
      (onWriter (do
        let result ← stageGcStatement Writer.inSession.gcActive statement
        return (result, Writer.inSession))) w
      (fun r w' => r.2 = Writer.inSession ∧ AfterStage env w t statement r.1 w')
      (fun _ _ => False) := by
    refine Program.meets_embedT (Program.meets_requestT_bind (hP w rfl rfl) ?_)
    exact Program.meets_pure (hP _ hafter.store hafter.catalog) ⟨rfl, hafter⟩
  refine (meets_attempt (E := E) (Q := fun r w' => ∃ answer, r = .ok (answer, Writer.inSession) ∧
    AfterStage env w t statement answer w') hcall ?_ fun _ _ => False.elim).bind ?_
    fun _ _ he => he
  · rintro ⟨answer, writer⟩ w' ⟨rfl, h⟩
    exact ⟨answer, rfl, h⟩
  · rintro _ w' hPw ⟨answer, rfl, h⟩
    exact Program.meets_pure hPw ⟨rfl, h⟩

/-- Go on with a result that is there already. -/
theorem meets_orAbort {α : Type} {r : Except String α} {Q : α → GcWorld → Prop}
    {E : ApplyStop → GcWorld → Prop} (hw : P w) (hok : ∀ a, r = .ok a → Q a w)
    (herror : ∀ e, r = .error e → E (.abort s e) w) :
    Meets (gcHandler env) P (orAbort s r) w Q E := by
  cases r with
  | ok a => exact Program.meets_pure hw (hok a rfl)
  | error e => exact Program.meets_throw hw (herror e rfl)

/-- A statement that is staged and counted. Unless integers do not fit it succeeds in the
transaction. -/
theorem meets_stageAction {gone : List SweepCandidate} {statement : GcStatement} {y' : GcDone}
    (context : String) (action : GcAction) (progress : StagedProgress)
    (h : Holds x y gone gone s w)
    (ht : w.writer.connection.transaction = some (x.staged y))
    (hstage : statement.stage (x.staged y) = (.ok (), x.staged y') ∨
      (∃ e, statement.stage (x.staged y) = (.error e, x.staged y)) ∧ ¬ x.catalog.Fits) :
    Meets (gcHandler env) x.Stopped (stageAction s statement context action progress) w
      (fun s' w' => s' = { s with progress, stagedActions := s.stagedActions ++ [action] } ∧
        Holds x y gone gone s w' ∧ w'.writer.connection.transaction = some (x.staged y'))
      (Halts env x) := by
  obtain ⟨thread, progress₀, actions, report, started⟩ := s
  obtain rfl : thread = .ok Writer.inSession := h.thread
  have hafter : ∀ w', w'.store = w.store → w'.catalog = w.catalog →
      Holds x y gone gone ⟨.ok Writer.inSession, progress₀, actions, report, started⟩ w' :=
    fun w' hstore hcatalog =>
      { h with catalog := hcatalog.trans h.catalog, store := hstore ▸ h.store }
  refine (meets_stageInSession statement ht fun w' hstore hcatalog =>
    (hafter w' hstore hcatalog).stopped).bind ?_ fun _ _ he => he
  rintro ⟨answer, thread⟩ w' hw' ⟨hthread, hstaged⟩
  obtain rfl : thread = .ok Writer.inSession := hthread
  replace hstaged : AfterStage env w (x.staged y) statement answer w' := hstaged
  have hholds := hafter w' hstaged.store hstaged.catalog
  dsimp only
  -- whatever fails, the transaction is as it was or lost
  have hhalts : ∀ e, (env.Faultless → ¬ x.catalog.Fits) →
      (w'.writer.connection.transaction = some (x.staged y) ∨
        w'.writer.connection.transaction = none ∧ ¬ env.Mild) →
      Halts env x (.abort ⟨.ok Writer.inSession, progress₀, actions, report, started⟩ e) w' :=
    fun e hblame ht' => ⟨hblame, by simp, y, gone, gone, hholds, ht', .inl rfl⟩
  refine (meets_orAbort (Q := fun _ w'' => w'' = w' ∧
    w'.writer.connection.transaction = some (x.staged y')) hw' ?_ ?_).bind ?_ fun _ _ he => he
  · intro u hok
    refine ⟨rfl, ?_⟩
    rcases hstaged.outcome with ⟨hanswer, ht'⟩ | ⟨⟨e, rfl⟩, -⟩
    · rcases hstage with heq | ⟨⟨e, heq⟩, -⟩
      · rwa [heq] at ht'
      · rw [hanswer, heq] at hok
        simp [Except.mapError] at hok
    · simp [Except.mapError] at hok
  · intro e herror
    rcases hstaged.outcome with ⟨hanswer, ht'⟩ | ⟨-, hfaults, ht'⟩
    · rcases hstage with heq | ⟨⟨e', heq⟩, hfits⟩
      · rw [hanswer, heq] at herror
        simp [Except.mapError] at herror
      · rw [heq] at ht'
        exact hhalts e (fun _ => hfits) (.inl ht')
    · exact hhalts e (fun henv => absurd henv hfaults) ht'
  · rintro u _ - ⟨rfl, ht'⟩
    exact Program.meets_pure hw' ⟨rfl, hholds, ht'⟩

end Parts

/-! ## The steps of the loops -/

section Steps

variable [SqlArithmetic] {env : GcEnvironment} {x : GcSession} {s : ApplyState} {w : GcWorld}
  {digest : Bytes → BlobHash} {readFails : ReadCall → Bool}

omit [SqlArithmetic] in
theorem checkedAdd_eq_error {a b : ℕ} {e e' : String} (h : checkedAdd a b e = .error e') :
    2 ^ 64 ≤ a + b := by
  unfold checkedAdd at h
  by_contra hlt
  rw [if_pos (by omega)] at h
  simp at h

omit [SqlArithmetic] in
/-- A blob that is not among those for which something was staged is untouched. -/
theorem GcSession.Valid.untouched (hx : x.Valid digest readFails) {y : GcDone} {b : CatalogBlob}
    (hb : b ∈ validBlobs x.catalog)
    (hdone : ∀ b' ∈ y.marks ++ y.resurrections ++ y.sweeps.map (·.blob),
      b' ∈ validBlobs x.catalog ∧ b' ≠ b) :
    Untouched x.catalog (y.marks.map (·.hash)) (y.resurrections.map (·.hash))
      (y.sweeps.map (·.blob.hash)) b := by
  have hnone : ∀ l : List CatalogBlob, (∀ b' ∈ l, b' ∈ validBlobs x.catalog ∧ b' ≠ b) →
      b.hash ∉ l.map (·.hash) := by
    intro l hl hmem
    obtain ⟨b', hb', heq⟩ := List.mem_map.mp hmem
    exact (hl b' hb').2 (eq_of_mem_validBlobs (hl b' hb').1 hb heq)
  refine ⟨hx.hashes, hb, hnone _ fun b' hb' => hdone b' (by simp [hb']),
    hnone _ fun b' hb' => hdone b' (by simp [hb']), ?_⟩
  have hsweeps := hnone (y.sweeps.map (·.blob)) fun b' hb' => hdone b' (by simp [hb'])
  rwa [List.map_map] at hsweeps

/-- The step of a loop that stages one statement: check, count, stage. -/
theorem meets_countAndStage {y y' : GcDone} {statement : GcStatement} {action : GcAction}
    {counted : Except String StagedProgress} (h : Tracks x y s w)
    (hcounted : ∀ next, counted = .ok next → next = y'.progress)
    (hoverflow : ∀ e, counted = .error e → ¬ x.catalog.Fits)
    (hstage : statement.stage (x.staged y) = (.ok (), x.staged y') ∨
      (∃ e, statement.stage (x.staged y) = (.error e, x.staged y)) ∧ ¬ x.catalog.Fits)
    (hactions : y'.actions = y.actions ++ [action]) (hsweeps : y'.sweeps = y.sweeps)
    (hreaches : x.Reaches y' y.sweeps) :
    Meets (gcHandler env) x.Stopped (do
      attemptOrAbort s checkGcTelemetry
      let next ← orAbort s counted
      stageAction s statement "" action next) w (Tracks x y') (Halts env x) := by
  refine (meets_attemptOrAbort (Q := fun _ w' => Tracks x y s w')
    (meets_checkGcTelemetry fun w' hw' => h.stopped hw') (fun _ _ hw' => h.same hw')
    fun e w' hw' => (h.same hw'.1).halts fun henv => absurd henv hw'.2).bind ?_ fun _ _ he => he
  intro _ w' hw' h
  refine (meets_orAbort (Q := fun next w'' => w'' = w' ∧ next = y'.progress) hw'
    (fun next hnext => ⟨rfl, hcounted next hnext⟩)
    fun e herror => h.halts fun _ => hoverflow e herror).bind ?_ fun _ _ he => he
  rintro next _ - ⟨rfl, rfl⟩
  refine (meets_stageAction "" action y'.progress h.toHolds h.transaction hstage).mono ?_
    fun _ _ he => he
  rintro _ w'' ⟨rfl, hholds, ht⟩
  refine ⟨?_, ht⟩
  rw [hsweeps]
  exact
    { hholds with
      reaches := hreaches
      progress := rfl
      actions := (congrArg (· ++ [action]) hholds.actions).trans hactions.symm }

/-- One more mark. -/
theorem meets_applyMark (hx : x.Valid digest readFails) {done rest : List CatalogBlob}
    {b : CatalogBlob} (hl : x.preflight.plan.marks = done ++ b :: rest)
    (h : Tracks x ⟨done, [], []⟩ s w) :
    Meets (gcHandler env) x.Stopped (applyMark x.now s b) w
      (Tracks x ⟨done ++ [b], [], []⟩) (Halts env x) := by
  have hmarks := hx.marks
  have hb : b ∈ x.preflight.plan.marks := by simp [hl]
  have hnew : b ∉ done := by
    have hnodup := hmarks.nodup
    rw [hl] at hnodup
    exact fun hmem => List.disjoint_of_nodup_append hnodup hmem (by simp)
  refine meets_countAndStage h ?_ ?_ ?_ ?_ rfl ?_
  · intro next hnext
    rw [h.progress] at hnext
    simp only [StagedProgress.checkedMark, Except.bind_eq_ok, checkedAdd_eq_ok_iff,
      Except.pure_eq_ok, Except.ok.injEq] at hnext
    obtain ⟨marks, ⟨-, rfl⟩, rfl⟩ := hnext
    simp [GcDone.progress]
  · intro e herror hfits
    rw [h.progress] at herror
    cases hadd : checkedAdd (⟨done, [], []⟩ : GcDone).progress.marks 1
        "completed mark counter overflow" with
    | ok n => simp [StagedProgress.checkedMark, hadd] at herror
    | error e' =>
        have hlarge : 2 ^ 64 ≤ done.length + 1 := checkedAdd_eq_error hadd
        have hlength := hmarks.length
        have hrows := hfits.rows
        rw [hl, List.length_append, List.length_cons] at hlength
        omega
  · by_cases hsize : b.sizeBytes < 2 ^ 63
    · left
      have huntouched := hx.untouched (y := ⟨done, [], []⟩) (hmarks.valid b hb) (by
        intro b' hb'
        have hb' : b' ∈ done := by simpa using hb'
        exact ⟨hmarks.valid b' (by simp [hl, hb']), fun heq => hnew (heq ▸ hb')⟩)
      have hstaged := stageGcMark_staged x.now huntouched (hmarks.planned b hb) hsize
      simpa [GcStatement.stage, GcSession.staged] using hstaged
    · right
      refine ⟨stageGc_eq_error hsize _ _ _, fun hfits => ?_⟩
      exact hsize (size_lt_of_fits hfits hx.hashes (hmarks.valid b hb))
  · simp [GcDone.actions]
  · exact ⟨⟨rest, by simp [hl]⟩, List.nil_prefix, List.nil_prefix, List.nil_prefix, by simp⟩

/-- One more mark that is removed. -/
theorem meets_applyResurrection (hx : x.Valid digest readFails) {done rest : List CatalogBlob}
    {b : CatalogBlob} (hl : x.preflight.plan.resurrections = done ++ b :: rest)
    (h : Tracks x ⟨x.preflight.plan.marks, done, []⟩ s w) :
    Meets (gcHandler env) x.Stopped (applyResurrection s b) w
      (Tracks x ⟨x.preflight.plan.marks, done ++ [b], []⟩) (Halts env x) := by
  have hresurrections := hx.resurrections
  have hb : b ∈ x.preflight.plan.resurrections := by simp [hl]
  have hnew : b ∉ done := by
    have hnodup := hresurrections.nodup
    rw [hl] at hnodup
    exact fun hmem => List.disjoint_of_nodup_append hnodup hmem (by simp)
  refine meets_countAndStage h ?_ ?_ ?_ ?_ rfl ?_
  · intro next hnext
    rw [h.progress] at hnext
    simp only [StagedProgress.checkedResurrection, Except.bind_eq_ok, checkedAdd_eq_ok_iff,
      Except.pure_eq_ok, Except.ok.injEq] at hnext
    obtain ⟨resurrections, ⟨-, rfl⟩, rfl⟩ := hnext
    simp [GcDone.progress]
  · intro e herror hfits
    rw [h.progress] at herror
    cases hadd : checkedAdd (⟨x.preflight.plan.marks, done, []⟩ : GcDone).progress.resurrections 1
        "completed resurrection counter overflow" with
    | ok n => simp [StagedProgress.checkedResurrection, hadd] at herror
    | error e' =>
        have hlarge : 2 ^ 64 ≤ done.length + 1 := checkedAdd_eq_error hadd
        have hlength := hresurrections.length
        have hrows := hfits.rows
        rw [hl, List.length_append, List.length_cons] at hlength
        omega
  · by_cases hsize : b.sizeBytes < 2 ^ 63
    · left
      have huntouched := hx.untouched (y := ⟨x.preflight.plan.marks, done, []⟩)
        (hresurrections.valid b hb) (by
          intro b' hb'
          have hb' : b' ∈ x.preflight.plan.marks ∨ b' ∈ done := by simpa using hb'
          rcases hb' with hb' | hb'
          · refine ⟨hx.marks.valid b' hb', ?_⟩
            rintro rfl
            have hkind := (hx.marks.planned b' hb').symm.trans (hresurrections.planned b' hb)
            simp at hkind
          · exact ⟨hresurrections.valid b' (by simp [hl, hb']), fun heq => hnew (heq ▸ hb')⟩)
      have hstaged := stageGcResurrect_staged x.now huntouched
        (hresurrections.planned b hb) hsize
      simpa [GcStatement.stage, GcSession.staged] using hstaged
    · right
      refine ⟨stageGc_eq_error hsize _ _ _, fun hfits => ?_⟩
      exact hsize (size_lt_of_fits hfits hx.hashes (hresurrections.valid b hb))
  · simp [GcDone.actions]
  · exact ⟨List.prefix_rfl, ⟨rest, by simp [hl]⟩, List.nil_prefix, List.nil_prefix, by simp⟩

end Steps

end MediaImporter
