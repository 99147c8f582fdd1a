import MediaImporter.Catalog.Connection

/-!
# What observations make of the source rows

Each write of an import observes one source file, at the time the wall clock shows. It
touches the row of that file and no other row. The row keeps the time of the first
observation and takes the time of the last one from the clock, so the two are in order only
if the clock is.

## Main definitions

* `PassesSeenChecks` — the inspection accepts the times and the count of a row.
* `Observed` — writes of an import, one after the other.
* `passesSeenChecks_of_observed` — rows pass as long as the clock is in order.
-/

namespace MediaImporter

open Utf8

/-- The observation of a write. -/
def PendingImportRequest.observation : PendingImportRequest → SourceObservation
  | .imported _ observation | .known observation _ => observation

/-- The row is about the file that is observed. -/
def SourceFileRow.IsOf (row : SourceFileRow) (observation : SourceObservation) : Prop :=
  row.Matches (.ofText observation.sourceRoot) (.ofText observation.relativePath.text)

/-! ## Times and counts -/

/-- What the inspection can say about the times and the count of a row. -/
def seenReasons : List Text :=
  ["invalid-first-seen".toList, "invalid-last-seen".toList, "reversed-seen-times".toList,
    "invalid-seen-count".toList]

/-- The inspection objects neither to the times nor to the count of the row. -/
def PassesSeenChecks (row : SourceFileRow) : Prop :=
  ∀ valid, ∀ reason ∈ seenReasons, reason ∉ sourceRowReasons valid row

/-- The times are in order and the count is positive. -/
structure SeenInOrder (row : SourceFileRow) (first last count : ℤ) : Prop where
  firstSeen : row.firstSeenAtMs = .integer first
  lastSeen : row.lastSeenAtMs = .integer last
  seenCount : row.seenCount = .integer count
  le : first ≤ last
  pos : 0 < count

/-- Whether one of the reasons is given depends on its own check only. -/
theorem mem_sourceRowReasons_iff {valid : List CatalogBlob} {row : SourceFileRow} :
    (∃ reason ∈ seenReasons, reason ∈ sourceRowReasons valid row) ↔
      decodeInteger row.firstSeenAtMs = none ∨ decodeInteger row.lastSeenAtMs = none ∨
      reversedTimes (decodeInteger row.firstSeenAtMs) (decodeInteger row.lastSeenAtMs) = true ∨
      isPositive row.seenCount = false := by
  constructor
  · rintro ⟨reason, hreason, hmem⟩
    rw [sourceRowReasons, List.mem_append, mem_reasonsOf] at hmem
    rcases hmem with ⟨check, hcheck, htrue, rfl⟩ | hdis
    · simp only [List.mem_cons, List.not_mem_nil, or_false] at hcheck
      rcases hcheck with rfl | rfl | rfl | rfl | rfl | rfl | rfl | rfl | rfl
      iterate 5 · exact absurd hreason (by dsimp only; decide)
      · exact .inl (Option.isNone_iff_eq_none.mp htrue)
      · exact .inr (.inl (Option.isNone_iff_eq_none.mp htrue))
      · exact .inr (.inr (.inl htrue))
      · exact .inr (.inr (.inr (by simpa using htrue)))
    · rcases mem_blobDisagreement hdis with rfl | rfl
      · exact absurd hreason (by decide)
      · exact absurd hreason (by decide)
  · intro h
    have hgive : ∀ check ∈ [((decodeInteger row.firstSeenAtMs).isNone, "invalid-first-seen"),
        ((decodeInteger row.lastSeenAtMs).isNone, "invalid-last-seen"),
        (reversedTimes (decodeInteger row.firstSeenAtMs) (decodeInteger row.lastSeenAtMs),
          "reversed-seen-times"),
        (!isPositive row.seenCount, "invalid-seen-count")], check.1 = true →
        check.2.toList ∈ sourceRowReasons valid row := by
      intro check hcheck htrue
      rw [sourceRowReasons, List.mem_append, mem_reasonsOf]
      exact .inl ⟨check, List.mem_of_mem_drop (i := 5) hcheck, htrue, rfl⟩
    rcases h with h | h | h | h
    · exact ⟨_, by dsimp only; decide, hgive
        ((decodeInteger row.firstSeenAtMs).isNone, "invalid-first-seen")
        (by simp only [List.mem_cons, true_or]) (Option.isNone_iff_eq_none.mpr h)⟩
    · exact ⟨_, by dsimp only; decide, hgive
        ((decodeInteger row.lastSeenAtMs).isNone, "invalid-last-seen")
        (by simp only [List.mem_cons, true_or, or_true]) (Option.isNone_iff_eq_none.mpr h)⟩
    · exact ⟨_, by dsimp only; decide, hgive (reversedTimes (decodeInteger row.firstSeenAtMs)
        (decodeInteger row.lastSeenAtMs), "reversed-seen-times")
        (by simp only [List.mem_cons, true_or, or_true]) h⟩
    · exact ⟨_, by dsimp only; decide, hgive (!isPositive row.seenCount, "invalid-seen-count")
        (by simp only [List.mem_cons, true_or, or_true]) (by simpa using h)⟩

theorem passesSeenChecks_iff {row : SourceFileRow} :
    PassesSeenChecks row ↔ ∃ first last count, SeenInOrder row first last count := by
  have hchecks : PassesSeenChecks row ↔
      ¬ (decodeInteger row.firstSeenAtMs = none ∨ decodeInteger row.lastSeenAtMs = none ∨
      reversedTimes (decodeInteger row.firstSeenAtMs) (decodeInteger row.lastSeenAtMs) = true ∨
      isPositive row.seenCount = false) := by
    constructor
    · intro h hbad
      obtain ⟨reason, hreason, hmem⟩ := (@mem_sourceRowReasons_iff [] row).mpr hbad
      exact h [] reason hreason hmem
    · intro h valid reason hreason hmem
      exact h (mem_sourceRowReasons_iff.mp ⟨reason, hreason, hmem⟩)
  rw [hchecks]
  simp only [not_or]
  constructor
  · rintro ⟨hfirst, hlast, htimes, hcount⟩
    obtain ⟨first, hfirst⟩ := Option.ne_none_iff_exists'.mp hfirst
    obtain ⟨last, hlast⟩ := Option.ne_none_iff_exists'.mp hlast
    obtain ⟨count, hcount, hpos⟩ := isPositive_eq_true.mp (by simpa using hcount)
    rw [decodeInteger_eq_some] at hfirst hlast
    have hle := (reversedTimes_eq_false hfirst hlast).mp (by simpa using htimes)
    exact ⟨first, last, count, hfirst, hlast, hcount, hle, hpos⟩
  · rintro ⟨first, last, count, h⟩
    have htimes := (reversedTimes_eq_false h.firstSeen h.lastSeen).mpr h.le
    have hcount := isPositive_eq_true.mpr ⟨count, h.seenCount, h.pos⟩
    refine ⟨?_, ?_, by simp [htimes], by simp [hcount]⟩
    · rw [h.firstSeen]; simp [decodeInteger]
    · rw [h.lastSeen]; simp [decodeInteger]

/-! ## One write -/

theorem mem_updateSources {c : Catalog} {p : SourceFileRow → Prop} [DecidablePred p]
    {f : SourceFileRow → SourceFileRow} {row : SourceFileRow} :
    row ∈ (c.updateSources p f).sourceFiles ↔
      ∃ t ∈ c.sourceFiles, row = if p t then f t else t := by
  simp only [Catalog.updateSources, List.mem_map, eq_comm]

theorem sourceFiles_insertBlob (c : Catalog) (hash : Value) (size createdAtMs : ℤ) :
    (c.insertBlob hash size createdAtMs).2.sourceFiles = c.sourceFiles := by
  unfold Catalog.insertBlob
  split <;> rfl

section Writes

variable [SqlArithmetic]

/-- What a write makes of the row of the file it observes. -/
structure ObservedAgain (observation : SourceObservation) (before after : SourceFileRow) :
    Prop where
  isOf : before.IsOf observation
  first : after.firstSeenAtMs = before.firstSeenAtMs
  last : after.lastSeenAtMs = .integer observation.observedAtMs
  count : after.seenCount = SqlArithmetic.addOne before.seenCount

/-- A row of a file that was not observed before. -/
structure ObservedFirst (observation : SourceObservation) (row : SourceFileRow) : Prop where
  first : row.firstSeenAtMs = .integer observation.observedAtMs
  last : row.lastSeenAtMs = .integer observation.observedAtMs
  count : row.seenCount = .integer 1

theorem mem_upsertSourceFile {c d : Catalog} {observation : SourceObservation} {hash : Value}
    {size : ℤ} {modifiedAtMs : Value} {n : ℕ} {row : SourceFileRow}
    (h : c.upsertSourceFile (.ofText observation.sourceRoot)
      (.ofText observation.relativePath.text) hash size modifiedAtMs observation.observedAtMs =
        .ok (n, d)) (hrow : row ∈ d.sourceFiles) :
    row ∈ c.sourceFiles ∨ (∃ t ∈ c.sourceFiles, ObservedAgain observation t row) ∨
      ObservedFirst observation row := by
  simp only [Catalog.upsertSourceFile, Except.bind_eq_ok, Except.ensure_eq_ok_iff,
    Except.pure_eq_ok, Except.ok.injEq, Prod.mk.injEq] at h
  obtain ⟨-, -, -, -, -, rfl⟩ := h
  split at hrow
  · obtain ⟨t, ht, rfl⟩ := mem_updateSources.mp hrow
    by_cases hmatches : t.IsOf observation
    · refine .inr (.inl ⟨t, ht, hmatches, ?_, ?_, ?_⟩)
      all_goals rw [if_pos (show t.Matches _ _ from hmatches)]; rfl
    · rw [if_neg (show ¬ t.Matches _ _ from hmatches)]
      exact .inl ht
  · rcases List.mem_append.mp hrow with hrow | hrow
    · exact .inl hrow
    · obtain rfl := List.mem_singleton.mp hrow
      exact .inr (.inr ⟨rfl, rfl, rfl⟩)

theorem mem_observeKnown {c : Catalog} {observation : SourceObservation} {hash : Value}
    {size : ℤ} {modifiedAtMs : Value} {row : SourceFileRow}
    (hrow : row ∈ (c.observeKnown (.ofText observation.sourceRoot)
      (.ofText observation.relativePath.text) hash size modifiedAtMs
      observation.observedAtMs).2.sourceFiles) :
    row ∈ c.sourceFiles ∨ ∃ t ∈ c.sourceFiles, ObservedAgain observation t row := by
  obtain ⟨t, ht, rfl⟩ := mem_updateSources.mp hrow
  split
  · rename_i hmatches
    exact .inr ⟨t, ht, hmatches.1, rfl, rfl, rfl⟩
  · exact .inl ht

/-- A write leaves the rows of other files alone. -/
theorem mem_sourceFiles_of_record {request : PendingImportRequest} {c d : Catalog}
    {outcome : ImportWriteOutcome} (h : request.record c = .ok (outcome, d))
    {row : SourceFileRow} (hrow : row ∈ d.sourceFiles) :
    row ∈ c.sourceFiles ∨ (∃ t ∈ c.sourceFiles, ObservedAgain request.observation t row) ∨
      ObservedFirst request.observation row := by
  cases request with
  | imported blob observation =>
      simp only [PendingImportRequest.record, recordImportedFile, Except.bind_eq_ok,
        Except.ensure_eq_ok_iff, Except.pure_eq_ok, Except.ok.injEq, Prod.exists,
        Prod.mk.injEq] at h
      obtain ⟨_, _, d', ⟨-, -, size, -, expected, -, existing, -, -, -, -, -, source, -, n, e,
        hupsert, -, -, -, rfl⟩, -, rfl⟩ := h
      rw [← sourceFiles_insertBlob c blob.hash.value size blob.createdAtMs]
      have hrows := mem_upsertSourceFile hupsert hrow
      exact hrows
  | known observation size =>
      simp only [PendingImportRequest.record, observeKnownSourceFile, Except.bind_eq_ok,
        Except.ensure_eq_ok_iff, Except.pure_eq_ok, Except.ok.injEq, Prod.mk.injEq] at h
      obtain ⟨d', ⟨-, -, source, -, expected, -, -, -, -, -, rfl⟩, -, rfl⟩ := h
      exact (mem_observeKnown hrow).imp_right .inl

/-! ## A sequence of imports -/

/-- The wall clock has not gone back below the time the file was first seen, and the count
of its observations is not at the end of its range. -/
def ClockInOrder (request : PendingImportRequest) (c : Catalog) : Prop :=
  ∀ row ∈ c.sourceFiles, row.IsOf request.observation →
    (∀ first, row.firstSeenAtMs = .integer first → first ≤ request.observation.observedAtMs) ∧
    (∀ count, row.seenCount = .integer count → count + 1 < 2 ^ 63)

/-- The catalog after any number of writes, each of which meets a condition on the catalog
it is made in. Failed writes are rolled back and leave no trace. -/
inductive Observed (condition : PendingImportRequest → Catalog → Prop) (c : Catalog) :
    Catalog → Prop
  | none : Observed condition c c
  | write {d e : Catalog} {request : PendingImportRequest} {outcome : ImportWriteOutcome} :
      Observed condition c d → condition request d → request.record d = .ok (outcome, e) →
      Observed condition c e

theorem seenInOrder_of_record {request : PendingImportRequest} {c d : Catalog}
    {outcome : ImportWriteOutcome} (hrows : ∀ row ∈ c.sourceFiles, PassesSeenChecks row)
    (hclock : ClockInOrder request c) (h : request.record c = .ok (outcome, d)) :
    ∀ row ∈ d.sourceFiles, PassesSeenChecks row := by
  intro row hrow
  rcases mem_sourceFiles_of_record h hrow with hold | ⟨t, ht, hagain⟩ | hnew
  · exact hrows row hold
  · obtain ⟨first, last, count, hin⟩ := passesSeenChecks_iff.mp (hrows t ht)
    obtain ⟨htimes, hcounts⟩ := hclock t ht hagain.isOf
    have hrange := hcounts count hin.seenCount
    rw [passesSeenChecks_iff]
    refine ⟨first, request.observation.observedAtMs, count + 1, ?_, hagain.last, ?_, ?_, ?_⟩
    · rw [hagain.first, hin.firstSeen]
    · rw [hagain.count, hin.seenCount, SqlArithmetic.addOne_integer count hrange]
    · exact htimes first hin.firstSeen
    · have := hin.pos
      omega
  · rw [passesSeenChecks_iff]
    exact ⟨_, _, _, hnew.first, hnew.last, hnew.count, le_refl _, one_pos⟩

/-- Imports whose clock stays in order write only rows that the inspection accepts, as far
as times and counts go. -/
theorem passesSeenChecks_of_observed {c : Catalog} (h : Observed ClockInOrder .fresh c) :
    ∀ row ∈ c.sourceFiles, PassesSeenChecks row := by
  induction h with
  | none => simp [Catalog.fresh]
  | write _ hclock hrecord ih => exact seenInOrder_of_record ih hclock hrecord

end Writes

/-! ## One file, observed twice -/

/-- The sums of SQLite, as far as integers in range go. -/
@[reducible] def integerSums : SqlArithmetic where
  addOne
    | .integer v => .integer (v + 1)
    | _ => .null
  addOne_integer _ _ := rfl

def photoHash : BlobHash := ⟨List.replicate 64 'b', by decide⟩

/-- An empty file `a`, observed at a time. -/
def photoObservation (observedAtMs : ℤ) : SourceObservation :=
  ⟨['/'], ⟨['a'], by decide⟩, photoHash, 0, none, observedAtMs⟩

/-- The import of that file. -/
def observationAt (observedAtMs : ℤ) : PendingImportRequest :=
  .imported ⟨photoHash, 0, observedAtMs⟩ (photoObservation observedAtMs)

/-- The catalog after a write that succeeds. -/
def catalogAfter [SqlArithmetic] (request : PendingImportRequest) (c : Catalog) : Catalog :=
  match request.record c with
  | .ok (_, d) => d
  | .error _ => c

theorem record_catalogAfter [SqlArithmetic] (request : PendingImportRequest) (c : Catalog)
    (h : (request.record c).isOk = true) :
    ∃ outcome, request.record c = .ok (outcome, catalogAfter request c) := by
  obtain ⟨⟨outcome, d⟩, hd⟩ := Except.exists_of_isOk h
  exact ⟨outcome, by simp [catalogAfter, hd]⟩

/-- With a clock that goes forward, a file that is imported twice keeps a valid row. -/
theorem passesSeenChecks_observed_twice :
    ∃ _ : SqlArithmetic, ∃ c, Observed ClockInOrder .fresh c ∧ c.sourceFiles ≠ [] ∧
      ∀ row ∈ c.sourceFiles, PassesSeenChecks row := by
  refine ⟨integerSums, ?_⟩
  let _ := integerSums
  obtain ⟨_, hfirst⟩ := record_catalogAfter (observationAt 1) .fresh
    (by decide +kernel)
  obtain ⟨_, hsecond⟩ := record_catalogAfter (observationAt 2)
    (catalogAfter (observationAt 1) .fresh) (by decide +kernel)
  have hclock : ClockInOrder (observationAt 2) (catalogAfter (observationAt 1) .fresh) := by
    have hseen : ∀ row ∈ (catalogAfter (observationAt 1) .fresh).sourceFiles,
        row.firstSeenAtMs = .integer 1 ∧ row.seenCount = .integer 1 := by decide +kernel
    intro row hrow _
    rw [(hseen row hrow).1, (hseen row hrow).2]
    refine ⟨?_, ?_⟩
    · rintro first ⟨⟩; decide
    · rintro count ⟨⟩; decide
  have hrun : Observed ClockInOrder .fresh
      (catalogAfter (observationAt 2) (catalogAfter (observationAt 1) .fresh)) :=
    .write (.write .none (by simp [ClockInOrder, Catalog.fresh]) hfirst) hclock hsecond
  exact ⟨_, hrun, by decide +kernel, passesSeenChecks_of_observed hrun⟩

/-- With a clock that goes back, it does not. -/
theorem not_passesSeenChecks_clock_back :
    ¬ ∀ (_ : SqlArithmetic) (c : Catalog), Observed (fun _ _ => True) .fresh c →
      ∀ row ∈ c.sourceFiles, PassesSeenChecks row := by
  intro hall
  let _ := integerSums
  obtain ⟨_, hfirst⟩ := record_catalogAfter (observationAt 2) .fresh
    (by decide +kernel)
  obtain ⟨_, hsecond⟩ := record_catalogAfter (observationAt 1)
    (catalogAfter (observationAt 2) .fresh) (by decide +kernel)
  obtain ⟨row, hrow, hfirstSeen, hlastSeen⟩ : ∃ row ∈ (catalogAfter (observationAt 1)
      (catalogAfter (observationAt 2) .fresh)).sourceFiles,
      row.firstSeenAtMs = .integer 2 ∧ row.lastSeenAtMs = .integer 1 := by decide +kernel
  obtain ⟨first, last, count, h⟩ := passesSeenChecks_iff.mp
    (hall integerSums _ (.write (.write .none trivial hfirst) trivial hsecond) row hrow)
  have hfirst : first = 2 := Value.integer.inj (h.firstSeen.symm.trans hfirstSeen)
  have hlast : last = 1 := Value.integer.inj (h.lastSeen.symm.trans hlastSeen)
  have := h.le
  omega

end MediaImporter
