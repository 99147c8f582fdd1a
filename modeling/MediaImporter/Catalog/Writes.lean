import MediaImporter.Catalog.Serialize
import MediaImporter.Gc.Staged

/-!
# What a write of an import changes

A write of an import is about one source file and one blob. It inserts the row of the file or
changes it, and the row of the blob is there and not marked after it. All other rows are as they
were. The statement of an imported file sets the blob and the size of the row; the one of a
known file sets neither, and finds the row only if both are what they were.

A catalog is well kept when the row of each file names a blob of its size that has a row. Imports
and collections keep it so. In a well kept catalog a write fails for a reason in the catalog only
if that knows the blob with another size, or the file with another blob.

## Main definitions

* `Catalog.rowsOf`, `OwnRowAfter`, `KeepsBlobs` — what a write changes.
* `Catalog.WellKept` — what holds between imports.
* `imported_accepted`, `known_accepted` — writes that do not fail.
-/

namespace MediaImporter

open Utf8

/-! ## The rows of a file -/

instance (row : SourceFileRow) (observation : SourceObservation) :
    Decidable (row.IsOf observation) :=
  inferInstanceAs (Decidable (row.Matches _ _))

theorem SourceFileRow.matches_ofText {row : SourceFileRow} {root path : Text} :
    row.Matches (.ofText root) (.ofText path) ↔
      row.sourceRoot = .ofText root ∧ row.relativePath = .ofText path := by
  simp [SourceFileRow.Matches]

/-- A row is about one file. -/
theorem SourceFileRow.eq_of_matches {row : SourceFileRow} {root root' : Text}
    {path path' : SourceRelativePath} (h : row.Matches (.ofText root) (.ofText path.text))
    (h' : row.Matches (.ofText root') (.ofText path'.text)) : root = root' ∧ path = path' := by
  rw [SourceFileRow.matches_ofText] at h h'
  have hroot := h.1.symm.trans h'.1
  have hpath := h.2.symm.trans h'.2
  rw [Value.ofText_inj] at hroot hpath
  exact ⟨hroot, SourceRelativePath.ext hpath⟩

namespace Catalog

/-- The rows of a file. -/
def rowsOf (c : Catalog) (root : Text) (path : SourceRelativePath) : List SourceFileRow :=
  c.sourceFiles.filter fun s => s.Matches (.ofText root) (.ofText path.text)

/-- The rows of the file that is observed. -/
def ownRows (c : Catalog) (observation : SourceObservation) : List SourceFileRow :=
  c.sourceFiles.filter fun s => s.IsOf observation

/-- The rows of all other files. -/
def otherRows (c : Catalog) (observation : SourceObservation) : List SourceFileRow :=
  c.sourceFiles.filter fun s => ¬ s.IsOf observation

theorem ownRows_eq (c : Catalog) (observation : SourceObservation) :
    c.ownRows observation = c.rowsOf observation.sourceRoot observation.relativePath := rfl

theorem rowsOf_congr {c d : Catalog} (h : d.sourceFiles = c.sourceFiles) (root : Text)
    (path : SourceRelativePath) : d.rowsOf root path = c.rowsOf root path := by
  rw [rowsOf, rowsOf, h]

theorem otherRows_congr {c d : Catalog} (h : d.sourceFiles = c.sourceFiles)
    (observation : SourceObservation) : d.otherRows observation = c.otherRows observation := by
  rw [otherRows, otherRows, h]

/-- When the rows of other files are the same, so are the rows of each of them. -/
theorem rowsOf_of_otherRows {c d : Catalog} {observation : SourceObservation}
    (h : d.otherRows observation = c.otherRows observation) {root : Text}
    {path : SourceRelativePath}
    (hne : ¬ (observation.sourceRoot = root ∧ observation.relativePath = path)) :
    d.rowsOf root path = c.rowsOf root path := by
  have hsub : ∀ e : Catalog, e.rowsOf root path =
      (e.otherRows observation).filter fun s => s.Matches (.ofText root) (.ofText path.text) := by
    intro e
    rw [rowsOf, otherRows, List.filter_filter]
    apply List.filter_congr
    intro s _
    by_cases hs : s.Matches (.ofText root) (.ofText path.text)
    · have hother : ¬ s.IsOf observation := fun hown => hne (SourceFileRow.eq_of_matches hown hs)
      simp [hs, hother]
    · simp [hs]
  rw [hsub d, hsub c, h]

/-- Where a file has one row at most, that is its row. -/
theorem rowsOf_eq_of_mem {c : Catalog} {root : Text} {path : SourceRelativePath}
    {s : SourceFileRow} (hs : s ∈ c.sourceFiles)
    (hmatches : s.Matches (.ofText root) (.ofText path.text))
    (hone : (c.rowsOf root path).length ≤ 1) : c.rowsOf root path = [s] := by
  have hmem : s ∈ c.rowsOf root path := List.mem_filter.2 ⟨hs, decide_eq_true hmatches⟩
  have hlen : (c.rowsOf root path).length = 1 := by
    have := List.length_pos_of_mem hmem
    omega
  obtain ⟨row, hrow⟩ := List.length_eq_one_iff.1 hlen
  rw [hrow] at hmem ⊢
  rw [List.mem_singleton.1 hmem]

section Update

variable {c : Catalog} {p q : SourceFileRow → Prop} [DecidablePred p] [DecidablePred q]
  {f : SourceFileRow → SourceFileRow}

theorem filter_updateSources (hq : ∀ s, p s → (q (f s) ↔ q s)) :
    (c.updateSources p f).sourceFiles.filter (fun s => q s) =
      (c.sourceFiles.filter fun s => q s).map fun s => if p s then f s else s := by
  rw [updateSources, List.filter_map]
  congr 1
  apply List.filter_congr
  intro s _
  by_cases hp : p s
  · simp [hp, hq s hp]
  · simp [hp]

/-- Rows that are not changed, and that no row is changed into. -/
theorem filter_updateSources_of_not (hp : ∀ s, p s → ¬ q s) (hf : ∀ s, p s → ¬ q (f s)) :
    (c.updateSources p f).sourceFiles.filter (fun s => q s) =
      c.sourceFiles.filter fun s => q s := by
  rw [filter_updateSources fun s hs => iff_of_false (hf s hs) (hp s hs)]
  have hsame : ∀ s ∈ c.sourceFiles.filter (fun s => q s), (if p s then f s else s) = id s := by
    intro s hs
    have hq : q s := by simpa using (List.mem_filter.1 hs).2
    exact if_neg fun h => hp s h hq
  rw [List.map_congr_left hsame, List.map_id]

end Update

end Catalog

/-! ## The statements of an import -/

/-- The catalog in which the blob of an imported file is there and is not marked. -/
def Catalog.withBlob (c : Catalog) (blob : BlobRecord) : Catalog :=
  ((c.insertBlob blob.hash.value blob.sizeBytes blob.createdAtMs).2.resurrectBlob blob.hash.value
    blob.sizeBytes).2

@[simp] theorem sourceFiles_withBlob (c : Catalog) (blob : BlobRecord) :
    (c.withBlob blob).sourceFiles = c.sourceFiles :=
  sourceFiles_insertBlob c blob.hash.value blob.sizeBytes blob.createdAtMs

section Import

variable [SqlArithmetic] {c d : Catalog} {observation : SourceObservation}

theorem upsertSourceFile_eq_ok_iff {root path hash modifiedAtMs : Value} {size observedAtMs : ℤ}
    {n : ℕ} : c.upsertSourceFile root path hash size modifiedAtMs observedAtMs = .ok (n, d) ↔
      root ≠ .ofText [] ∧ (∃ r ∈ c.blobs, r.hash.Equals hash) ∧ n = 1 ∧
      d = if ∃ s ∈ c.sourceFiles, s.Matches root path then
          c.updateSources (·.Matches root path)
            (Catalog.observedAgain hash size modifiedAtMs observedAtMs)
        else { c with sourceFiles := c.sourceFiles ++
          [⟨nextRowid (c.sourceFiles.map (·.id)), root, path, hash, .integer size, modifiedAtMs,
            .integer observedAtMs, .integer observedAtMs, .integer 1⟩] } := by
  simp only [Catalog.upsertSourceFile, Except.bind_eq_ok, Except.ensure_eq_ok_iff,
    Except.pure_eq_ok, Except.ok.injEq, Prod.mk.injEq, exists_and_left, exists_const]
  constructor
  · rintro ⟨hroot, hblob, hn, hd⟩
    exact ⟨hroot, hblob, hn.symm, hd.symm⟩
  · rintro ⟨hroot, hblob, hn, hd⟩
    exact ⟨hroot, hblob, hn.symm, hd.symm⟩

/-- Every check of an import, and what it leaves. -/
theorem record_imported_iff {blob : BlobRecord} :
    (∃ outcome, PendingImportRequest.record (.imported blob observation) c = .ok (outcome, d)) ↔
      blob.hash = observation.blobHash ∧ blob.sizeBytes = observation.sizeBytes ∧
      blob.sizeBytes < 2 ^ 63 ∧
      (c.insertBlob blob.hash.value blob.sizeBytes blob.createdAtMs).2.selectBlobSize
        blob.hash.value = .ok blob.sizeBytes ∧
      ((c.insertBlob blob.hash.value blob.sizeBytes blob.createdAtMs).2.resurrectBlob
        blob.hash.value blob.sizeBytes).1 = 1 ∧
      (c.withBlob blob).upsertSourceFile (.ofText observation.sourceRoot)
        (.ofText observation.relativePath.text) observation.blobHash.value observation.sizeBytes
        (.ofOption observation.modifiedAtMs) observation.observedAtMs = .ok (1, d) := by
  simp only [PendingImportRequest.record, recordImportedFile, validateImportedRecord,
    Except.bind_eq_ok, Except.ensure_eq_ok_iff, Except.pure_eq_ok, sqliteU64_eq_ok_iff,
    Except.ok.injEq, Prod.exists, Prod.mk.injEq]
  constructor
  · rintro ⟨_, _, _, _, ⟨_, ⟨-, hhash, -, hsize, _, ⟨hlt, rfl⟩, _, ⟨-, rfl⟩, -⟩, _, ⟨-, rfl⟩, _,
      ⟨-, rfl⟩, _, hexisting, -, rfl, -, hresurrected, _, ⟨-, rfl⟩, _, _, hupsert, -, rfl, -,
      rfl⟩, -, rfl⟩
    exact ⟨hhash, hsize, hlt, hexisting, hresurrected, hupsert⟩
  · rintro ⟨hhash, hsize, hlt, hexisting, hresurrected, hupsert⟩
    refine ⟨_, _, _, d, ⟨(), ⟨(), hhash, (), hsize, _, ⟨hlt, rfl⟩, _, ⟨hsize ▸ hlt, rfl⟩, trivial⟩,
      _, ⟨hlt, rfl⟩, _, ⟨hlt, rfl⟩, _, hexisting, (), rfl, (), hresurrected, _,
      ⟨hsize ▸ hlt, rfl⟩, 1, d, hupsert, (), rfl, ⟨rfl, rfl⟩, rfl⟩, rfl, rfl⟩

/-- Every check of the observation of a known file, and what it leaves. -/
theorem record_known_iff {n : ℕ} :
    (∃ outcome, PendingImportRequest.record (.known observation n) c = .ok (outcome, d)) ↔
      observation.sizeBytes = n ∧ n < 2 ^ 63 ∧
      (c.observeKnown (.ofText observation.sourceRoot) (.ofText observation.relativePath.text)
        observation.blobHash.value n (.ofOption observation.modifiedAtMs)
        observation.observedAtMs).1 = 1 ∧
      ((c.observeKnown (.ofText observation.sourceRoot) (.ofText observation.relativePath.text)
        observation.blobHash.value n (.ofOption observation.modifiedAtMs)
        observation.observedAtMs).2.resurrectBlob observation.blobHash.value n).1 = 1 ∧
      d = ((c.observeKnown (.ofText observation.sourceRoot)
        (.ofText observation.relativePath.text) observation.blobHash.value n
        (.ofOption observation.modifiedAtMs) observation.observedAtMs).2.resurrectBlob
          observation.blobHash.value n).2 := by
  simp only [PendingImportRequest.record, observeKnownSourceFile, Except.bind_eq_ok,
    Except.ensure_eq_ok_iff, Except.pure_eq_ok, sqliteU64_eq_ok_iff, Except.ok.injEq,
    Prod.mk.injEq]
  constructor
  · rintro ⟨_, _, ⟨-, rfl, _, ⟨hlt, rfl⟩, _, ⟨-, rfl⟩, -, hsource, -, hblob, rfl⟩, -, rfl⟩
    exact ⟨rfl, hlt, hsource, hblob, rfl⟩
  · rintro ⟨rfl, hlt, hsource, hblob, rfl⟩
    exact ⟨_, _, ⟨(), rfl, _, ⟨hlt, rfl⟩, _, ⟨hlt, rfl⟩, (), hsource, (), hblob, rfl⟩, rfl, rfl⟩

end Import

/-! ## What a write makes of the rows -/

/-- The row of a file that was not observed before. -/
def SourceObservation.firstRow (observation : SourceObservation) (id : ℤ) : SourceFileRow :=
  ⟨id, .ofText observation.sourceRoot, .ofText observation.relativePath.text,
    observation.blobHash.value, .integer observation.sizeBytes,
    .ofOption observation.modifiedAtMs, .integer observation.observedAtMs,
    .integer observation.observedAtMs, .integer 1⟩

theorem isOf_firstRow (observation : SourceObservation) (id : ℤ) :
    (observation.firstRow id).IsOf observation :=
  SourceFileRow.matches_ofText.2 ⟨rfl, rfl⟩

section Rows

variable [SqlArithmetic] {c d : Catalog} {observation : SourceObservation}

/-- What an observation makes of the row of its file. -/
def SourceObservation.nextRow (observation : SourceObservation) (row : SourceFileRow) :
    SourceFileRow :=
  Catalog.observedAgain observation.blobHash.value observation.sizeBytes
    (.ofOption observation.modifiedAtMs) observation.observedAtMs row

/-- The observation inserts the row of its file or changes it. -/
def OwnRowAfter (observation : SourceObservation) (c d : Catalog) : Prop :=
  (c.ownRows observation = [] ∧ ∃ id, d.ownRows observation = [observation.firstRow id]) ∨
    ∃ row, c.ownRows observation = [row] ∧ d.ownRows observation = [observation.nextRow row]

theorem otherRows_upsertSourceFile {hash modifiedAtMs : Value} {size : ℤ} {n : ℕ}
    (h : c.upsertSourceFile (.ofText observation.sourceRoot)
      (.ofText observation.relativePath.text) hash size modifiedAtMs observation.observedAtMs =
        .ok (n, d)) : d.otherRows observation = c.otherRows observation := by
  obtain ⟨-, -, -, hd⟩ := upsertSourceFile_eq_ok_iff.1 h
  rw [hd]
  split
  · apply Catalog.filter_updateSources_of_not
    · intro s hs hother
      exact hother hs
    · intro s hs hother
      exact hother hs
  · rw [Catalog.otherRows, List.filter_append, List.filter_singleton]
    simp [Catalog.otherRows, SourceFileRow.IsOf, SourceFileRow.matches_ofText]

theorem ownRow_upsertSourceFile {n : ℕ}
    (h : c.upsertSourceFile (.ofText observation.sourceRoot)
      (.ofText observation.relativePath.text) observation.blobHash.value observation.sizeBytes
      (.ofOption observation.modifiedAtMs) observation.observedAtMs = .ok (n, d))
    (hone : (c.ownRows observation).length ≤ 1) : OwnRowAfter observation c d := by
  obtain ⟨-, -, -, hd⟩ := upsertSourceFile_eq_ok_iff.1 h
  by_cases hthere : ∃ s ∈ c.sourceFiles,
      s.Matches (.ofText observation.sourceRoot) (.ofText observation.relativePath.text)
  · right
    obtain ⟨s, hs, hown⟩ := id hthere
    have hrow : c.ownRows observation = [s] := Catalog.rowsOf_eq_of_mem hs hown hone
    refine ⟨s, hrow, ?_⟩
    rw [hd, if_pos hthere]
    have hrows : (c.updateSources (·.IsOf observation) observation.nextRow).ownRows observation =
        (c.ownRows observation).map fun s =>
          if s.IsOf observation then observation.nextRow s else s :=
      Catalog.filter_updateSources fun _ _ => Iff.rfl
    rw [hrow, List.map_singleton, if_pos (show s.IsOf observation from hown)] at hrows
    exact hrows
  · left
    have hnone : c.ownRows observation = [] := by
      apply List.filter_eq_nil_iff.2
      intro s hs hown
      exact hthere ⟨s, hs, of_decide_eq_true hown⟩
    refine ⟨hnone, nextRowid (c.sourceFiles.map (·.id)), ?_⟩
    rw [hd, if_neg hthere, Catalog.ownRows, List.filter_append]
    have hnew := isOf_firstRow observation (nextRowid (c.sourceFiles.map (·.id)))
    rw [show c.sourceFiles.filter (fun s => s.IsOf observation) = [] from hnone, List.nil_append]
    exact List.filter_cons_of_pos (decide_eq_true hnew)

/-- The condition of the statement for a known file. -/
theorem known_of_observeKnown {n : ℕ}
    (h : (c.observeKnown (.ofText observation.sourceRoot) (.ofText observation.relativePath.text)
      observation.blobHash.value n (.ofOption observation.modifiedAtMs)
      observation.observedAtMs).1 = 1) :
    ∃ s ∈ c.sourceFiles, s.IsOf observation ∧ s.blobHash = observation.blobHash.value ∧
      s.sizeBytes = .integer n := by
  have hpos : 0 < (c.observeKnown (.ofText observation.sourceRoot)
      (.ofText observation.relativePath.text) observation.blobHash.value n
      (.ofOption observation.modifiedAtMs) observation.observedAtMs).1 := by omega
  obtain ⟨s, hs, hp⟩ := List.countP_pos_iff.1 hpos
  rw [decide_eq_true_iff, Value.equals_value, Value.equals_integer] at hp
  exact ⟨s, hs, hp⟩

theorem otherRows_observeKnown {n : ℤ} : ((c.observeKnown (.ofText observation.sourceRoot)
    (.ofText observation.relativePath.text) observation.blobHash.value n
    (.ofOption observation.modifiedAtMs) observation.observedAtMs).2).otherRows observation =
      c.otherRows observation := by
  apply Catalog.filter_updateSources_of_not
  · intro s hs hother
    exact hother hs.1
  · intro s hs hother
    exact hother hs.1

theorem ownRow_observeKnown (h : (c.observeKnown (.ofText observation.sourceRoot)
      (.ofText observation.relativePath.text) observation.blobHash.value observation.sizeBytes
      (.ofOption observation.modifiedAtMs) observation.observedAtMs).1 = 1)
    (hone : (c.ownRows observation).length ≤ 1) :
    OwnRowAfter observation c ((c.observeKnown (.ofText observation.sourceRoot)
      (.ofText observation.relativePath.text) observation.blobHash.value observation.sizeBytes
      (.ofOption observation.modifiedAtMs) observation.observedAtMs).2) := by
  obtain ⟨s, hs, hown, hblob, hsize⟩ := known_of_observeKnown h
  have hrow : c.ownRows observation = [s] := Catalog.rowsOf_eq_of_mem hs hown hone
  refine .inr ⟨s, hrow, ?_⟩
  have hrows : ((c.observeKnown (.ofText observation.sourceRoot)
      (.ofText observation.relativePath.text) observation.blobHash.value observation.sizeBytes
      (.ofOption observation.modifiedAtMs) observation.observedAtMs).2).ownRows observation =
      (c.ownRows observation).map fun s =>
        if s.IsOf observation ∧ s.blobHash.Equals observation.blobHash.value ∧
            s.sizeBytes.Equals (.integer observation.sizeBytes) then
          { s with
            modifiedAtMs := .ofOption observation.modifiedAtMs
            lastSeenAtMs := .integer observation.observedAtMs
            seenCount := SqlArithmetic.addOne s.seenCount }
        else s :=
    Catalog.filter_updateSources fun _ _ => Iff.rfl
  rw [hrows, hrow, List.map_singleton,
    if_pos ⟨hown, Value.equals_value.2 hblob, Value.equals_integer.2 hsize⟩]
  simp [SourceObservation.nextRow, Catalog.observedAgain, hblob, hsize]

/-- A write leaves the rows of all other files alone. -/
theorem otherRows_of_record {request : PendingImportRequest} {outcome : ImportWriteOutcome}
    (h : request.record c = .ok (outcome, d)) :
    d.otherRows request.observation = c.otherRows request.observation := by
  cases request with
  | imported blob observation =>
      obtain ⟨-, -, -, -, -, hupsert⟩ := record_imported_iff.1 ⟨_, h⟩
      exact (otherRows_upsertSourceFile hupsert).trans
        (Catalog.otherRows_congr (sourceFiles_withBlob c blob) observation)
  | known observation size =>
      obtain ⟨-, -, -, -, rfl⟩ := record_known_iff.1 ⟨_, h⟩
      exact otherRows_observeKnown

/-- It inserts the row of its file or changes it. -/
theorem ownRow_of_record {request : PendingImportRequest} {outcome : ImportWriteOutcome}
    (h : request.record c = .ok (outcome, d))
    (hone : (c.ownRows request.observation).length ≤ 1) :
    OwnRowAfter request.observation c d := by
  cases request with
  | imported blob observation =>
      obtain ⟨-, -, -, -, -, hupsert⟩ := record_imported_iff.1 ⟨_, h⟩
      have hsame : (c.withBlob blob).ownRows observation = c.ownRows observation :=
        Catalog.rowsOf_congr (sourceFiles_withBlob c blob) _ _
      have hafter := ownRow_upsertSourceFile hupsert (hsame ▸ hone)
      rw [OwnRowAfter, hsame] at hafter
      exact hafter
  | known observation size =>
      obtain ⟨rfl, -, hsource, -, rfl⟩ := record_known_iff.1 ⟨_, h⟩
      exact ownRow_observeKnown hsource hone

end Rows

/-! ## Garbage collection -/

/-- A statement of a collection marks or unmarks blobs, or it deletes blobs that no source row
refers to. -/
theorem stage_cases (statement : GcStatement) (c : Catalog) :
    (statement.stage c).2 = c ∨
    (∃ (p : BlobRow → Prop) (_ : DecidablePred p) (mark : Value),
      (statement.stage c).2 = (c.updateBlobs p (.setMark mark)).2) ∨
    ∃ (p : BlobRow → Prop) (_ : DecidablePred p), (∀ r, p r → ¬ c.Referenced r.hash) ∧
      (statement.stage c).2 = (c.deleteBlobs p).2 := by
  cases statement with
  | mark blob markedAtMs =>
      simp only [GcStatement.stage, stageGcMark, stageGc]
      split
      · exact .inl rfl
      · exact .inr (.inl ⟨_, inferInstance, _, rfl⟩)
  | resurrect blob =>
      simp only [GcStatement.stage, stageGcResurrect, stageGc]
      split
      · exact .inl rfl
      · exact .inr (.inl ⟨_, inferInstance, _, rfl⟩)
  | sweep blob =>
      simp only [GcStatement.stage, stageGcSweep, stageGc]
      split
      · exact .inl rfl
      · exact .inr (.inr ⟨_, inferInstance, fun r hr => hr.2.2, rfl⟩)

theorem sourceFiles_stage (statement : GcStatement) (c : Catalog) :
    (statement.stage c).2.sourceFiles = c.sourceFiles := by
  rcases stage_cases statement c with h | ⟨p, _, mark, h⟩ | ⟨p, _, -, h⟩
  · rw [h]
  · rw [h]
    rfl
  · rw [h]
    rfl

/-- What holds of a catalog and is kept by each statement is kept by a collection. -/
theorem stageAll_induction {P : Catalog → Prop} {c : Catalog} (statements : List GcStatement)
    (start : P c) (next : ∀ d statement, P d → P (GcStatement.stage statement d).2) :
    P (stageAll statements c) := by
  induction statements using List.reverseRecOn with
  | nil => exact start
  | append_singleton statements statement ih =>
      rw [stageAll_append]
      exact next _ statement ih

theorem sourceFiles_stageAll (statements : List GcStatement) (c : Catalog) :
    (stageAll statements c).sourceFiles = c.sourceFiles :=
  stageAll_induction (P := fun d => d.sourceFiles = c.sourceFiles) statements rfl
    fun d statement hd => (sourceFiles_stage statement d).trans hd

/-! ## What a write makes of the blobs -/

theorem mem_updateBlobs {c : Catalog} {p : BlobRow → Prop} [DecidablePred p]
    {f : BlobRow → BlobRow} {r : BlobRow} :
    r ∈ (c.updateBlobs p f).2.blobs ↔ ∃ r' ∈ c.blobs, r = if p r' then f r' else r' := by
  simp only [Catalog.updateBlobs, List.mem_map, eq_comm]

@[simp] theorem hash_ite_setMark {q : Prop} [Decidable q] (mark : Value) (r : BlobRow) :
    (if q then r.setMark mark else r).hash = r.hash := by
  split <;> rfl

@[simp] theorem sizeBytes_ite_setMark {q : Prop} [Decidable q] (mark : Value) (r : BlobRow) :
    (if q then r.setMark mark else r).sizeBytes = r.sizeBytes := by
  split <;> rfl

theorem hashes_setMark {c : Catalog} {p : BlobRow → Prop} [DecidablePred p] (mark : Value) :
    (c.updateBlobs p (.setMark mark)).2.blobs.map (·.hash) = c.blobs.map (·.hash) := by
  rw [Catalog.updateBlobs, List.map_map]
  apply List.map_congr_left
  intro r _
  exact hash_ite_setMark mark r

/-- The row has the hash and the size. -/
def BlobRow.Is (r : BlobRow) (hash : BlobHash) (size : ℕ) : Prop :=
  r.hash = hash.value ∧ r.sizeBytes = .integer size

/-- No blob is lost, none has another hash or size than before, and only the row of the one blob
is new or changed. -/
structure KeepsBlobs (hash : BlobHash) (size : ℕ) (c d : Catalog) : Prop where
  hashes : (c.blobs.map (·.hash)).Nodup → (d.blobs.map (·.hash)).Nodup
  kept : ∀ r ∈ c.blobs, ∃ r' ∈ d.blobs, r'.hash = r.hash ∧ r'.sizeBytes = r.sizeBytes
  known : ∀ r' ∈ d.blobs, (∃ r ∈ c.blobs, r'.hash = r.hash ∧ r'.sizeBytes = r.sizeBytes) ∨
    r'.Is hash size
  others : (d.blobs.filter fun r => r.hash ≠ hash.value) =
    c.blobs.filter fun r => r.hash ≠ hash.value

section Blobs

variable {c d e : Catalog} {hash : BlobHash} {size : ℕ}

theorem KeepsBlobs.trans (h : KeepsBlobs hash size c d) (h' : KeepsBlobs hash size d e) :
    KeepsBlobs hash size c e where
  hashes hc := h'.hashes (h.hashes hc)
  kept r hr := by
    obtain ⟨r', hr', hhash, hsize⟩ := h.kept r hr
    obtain ⟨r'', hr'', hhash', hsize'⟩ := h'.kept r' hr'
    exact ⟨r'', hr'', hhash'.trans hhash, hsize'.trans hsize⟩
  known r'' hr'' := by
    rcases h'.known r'' hr'' with ⟨r', hr', hhash', hsize'⟩ | his
    · rcases h.known r' hr' with ⟨r, hr, hhash, hsize⟩ | his
      · exact .inl ⟨r, hr, hhash'.trans hhash, hsize'.trans hsize⟩
      · exact .inr ⟨hhash'.trans his.1, hsize'.trans his.2⟩
    · exact .inr his
  others := h'.others.trans h.others

/-- Only the blobs matter. -/
theorem KeepsBlobs.of_eq {c' d' : Catalog} (h : KeepsBlobs hash size c d)
    (hc : c'.blobs = c.blobs) (hd : d'.blobs = d.blobs) : KeepsBlobs hash size c' d' where
  hashes := by
    rw [hc, hd]
    exact h.hashes
  kept := by
    rw [hc, hd]
    exact h.kept
  known := by
    rw [hc, hd]
    exact h.known
  others := by
    rw [hc, hd]
    exact h.others

theorem keepsBlobs_insertBlob (createdAtMs : ℤ) :
    KeepsBlobs hash size c (c.insertBlob hash.value size createdAtMs).2 := by
  by_cases hthere : ∃ r ∈ c.blobs, r.hash.Equals hash.value
  · rw [Catalog.insertBlob, if_pos hthere]
    exact ⟨id, fun r hr => ⟨r, hr, rfl, rfl⟩, fun r hr => .inl ⟨r, hr, rfl, rfl⟩, rfl⟩
  · rw [Catalog.insertBlob, if_neg hthere]
    refine ⟨fun hc => ?_, fun r hr => ⟨r, List.mem_append_left _ hr, rfl, rfl⟩, fun r hr => ?_, ?_⟩
    · rw [List.map_append, List.map_singleton, List.nodup_append]
      refine ⟨hc, List.nodup_singleton _, fun v hv w hw heq => ?_⟩
      obtain ⟨r, hr, rfl⟩ := List.mem_map.1 hv
      exact hthere ⟨r, hr, Value.equals_value.2 (heq.trans (List.mem_singleton.1 hw))⟩
    · rcases List.mem_append.1 hr with hold | hnew
      · exact .inl ⟨r, hold, rfl, rfl⟩
      · rw [List.mem_singleton.1 hnew]
        exact .inr ⟨rfl, rfl⟩
    · simp [List.filter_append]

theorem keepsBlobs_resurrectBlob :
    KeepsBlobs hash size c (c.resurrectBlob hash.value size).2 := by
  refine ⟨fun hc => ?_, fun r hr => ?_, fun r hr => ?_, ?_⟩
  · rw [Catalog.resurrectBlob, hashes_setMark]
    exact hc
  · exact ⟨_, mem_updateBlobs.2 ⟨r, hr, rfl⟩, hash_ite_setMark _ r, sizeBytes_ite_setMark _ r⟩
  · obtain ⟨r', hr', rfl⟩ := mem_updateBlobs.1 hr
    exact .inl ⟨r', hr', hash_ite_setMark _ r', sizeBytes_ite_setMark _ r'⟩
  · have hfilter : (fun r : BlobRow => decide (r.hash ≠ hash.value)) ∘
        (fun r : BlobRow => if r.Matches hash.value size then r.setMark .null else r) =
          fun r => decide (r.hash ≠ hash.value) := by
      funext r
      rw [Function.comp_apply, hash_ite_setMark]
    rw [Catalog.resurrectBlob, Catalog.updateBlobs, List.filter_map, hfilter]
    have hsame : ∀ r ∈ c.blobs.filter (fun r => r.hash ≠ hash.value),
        (if r.Matches hash.value size then r.setMark .null else r) = id r := by
      intro r hr
      have hne : r.hash ≠ hash.value := of_decide_eq_true (List.mem_filter.1 hr).2
      exact if_neg fun hm => hne (BlobRow.matches_value.1 hm).1
    rw [List.map_congr_left hsame, List.map_id]

/-- The row that is not marked any more. -/
theorem stored_of_resurrectBlob (h : (c.resurrectBlob hash.value size).1 = 1) :
    ∃ r ∈ (c.resurrectBlob hash.value size).2.blobs, r.Is hash size := by
  have hpos : 0 < (c.resurrectBlob hash.value size).1 := by omega
  obtain ⟨r, hr, hp⟩ := List.countP_pos_iff.1 hpos
  have hmatches : r.Matches hash.value size := of_decide_eq_true hp
  obtain ⟨hhash, hsize⟩ := BlobRow.matches_value.1 hmatches
  refine ⟨_, mem_updateBlobs.2 ⟨r, hr, rfl⟩, ?_, ?_⟩
  · rw [hash_ite_setMark, hhash]
  · rw [sizeBytes_ite_setMark, hsize]

/-- A write keeps the blobs, and the row of its blob is there after it. -/
theorem blobs_of_record [SqlArithmetic] {request : PendingImportRequest}
    {outcome : ImportWriteOutcome} (h : request.record c = .ok (outcome, d)) :
    KeepsBlobs request.observation.blobHash request.observation.sizeBytes c d ∧
      ∃ r ∈ d.blobs, r.Is request.observation.blobHash request.observation.sizeBytes := by
  cases request with
  | imported blob observation =>
      obtain ⟨hhash, hsize, -, -, hresurrected, hupsert⟩ := record_imported_iff.1 ⟨_, h⟩
      obtain ⟨-, -, -, hd⟩ := upsertSourceFile_eq_ok_iff.1 hupsert
      have hblobs : d.blobs = (c.withBlob blob).blobs := by
        rw [hd]
        split <;> rfl
      have hkeeps : KeepsBlobs blob.hash blob.sizeBytes c (c.withBlob blob) :=
        (keepsBlobs_insertBlob blob.createdAtMs).trans keepsBlobs_resurrectBlob
      have hstored : ∃ r ∈ (c.withBlob blob).blobs, r.Is blob.hash blob.sizeBytes :=
        stored_of_resurrectBlob hresurrected
      rw [hhash, hsize, ← hblobs] at hstored
      rw [hhash, hsize] at hkeeps
      exact ⟨hkeeps.of_eq rfl hblobs, hstored⟩
  | known observation size =>
      obtain ⟨rfl, -, hsource, hblob, rfl⟩ := record_known_iff.1 ⟨_, h⟩
      have hkeeps : KeepsBlobs observation.blobHash observation.sizeBytes (c.observeKnown
          (.ofText observation.sourceRoot) (.ofText observation.relativePath.text)
          observation.blobHash.value observation.sizeBytes (.ofOption observation.modifiedAtMs)
          observation.observedAtMs).2 _ := keepsBlobs_resurrectBlob
      exact ⟨hkeeps.of_eq rfl rfl, stored_of_resurrectBlob hblob⟩

end Blobs

/-! ## Well kept catalogs -/

/-- Each blob has one row, and each source row names the row of a blob of its size. -/
structure Catalog.WellKept (c : Catalog) : Prop where
  hashes : (c.blobs.map (·.hash)).Nodup
  blob : ∀ r ∈ c.blobs, ∃ hash size, r.Is hash size
  source : ∀ s ∈ c.sourceFiles, ∃ r ∈ c.blobs, r.hash = s.blobHash ∧ r.sizeBytes = s.sizeBytes

theorem wellKept_fresh : Catalog.fresh.WellKept :=
  ⟨List.nodup_nil, fun _ hr => absurd hr List.not_mem_nil, fun _ hs => absurd hs List.not_mem_nil⟩

section WellKept

variable {c d : Catalog}

/-- The row of the file is about the observation, and the others are as they were. -/
theorem mem_sourceFiles_after [SqlArithmetic] {observation : SourceObservation}
    (hothers : d.otherRows observation = c.otherRows observation)
    (hown : OwnRowAfter observation c d) {s : SourceFileRow} (hs : s ∈ d.sourceFiles) :
    s ∈ c.sourceFiles ∨
      s.blobHash = observation.blobHash.value ∧ s.sizeBytes = .integer observation.sizeBytes := by
  by_cases his : s.IsOf observation
  · right
    have hmem : s ∈ d.ownRows observation := List.mem_filter.2 ⟨hs, decide_eq_true his⟩
    rcases hown with ⟨-, id, hrow⟩ | ⟨row, -, hrow⟩
    · rw [hrow, List.mem_singleton] at hmem
      rw [hmem]
      exact ⟨rfl, rfl⟩
    · rw [hrow, List.mem_singleton] at hmem
      rw [hmem]
      exact ⟨rfl, rfl⟩
  · left
    have hmem : s ∈ d.otherRows observation := List.mem_filter.2 ⟨hs, decide_eq_true his⟩
    rw [hothers] at hmem
    exact (List.mem_filter.1 hmem).1

/-- A write keeps a catalog well. -/
theorem Catalog.WellKept.record [SqlArithmetic] (h : c.WellKept) {request : PendingImportRequest}
    {outcome : ImportWriteOutcome} (hrecord : request.record c = .ok (outcome, d))
    (hone : (c.ownRows request.observation).length ≤ 1) : d.WellKept := by
  obtain ⟨hkeeps, r, hr, his⟩ := blobs_of_record hrecord
  refine ⟨hkeeps.hashes h.hashes, fun r' hr' => ?_, fun s hs => ?_⟩
  · rcases hkeeps.known r' hr' with ⟨r, hr, hhash, hsize⟩ | his
    · obtain ⟨hash, size, his⟩ := h.blob r hr
      exact ⟨hash, size, hhash.trans his.1, hsize.trans his.2⟩
    · exact ⟨_, _, his⟩
  · rcases mem_sourceFiles_after (otherRows_of_record hrecord) (ownRow_of_record hrecord hone) hs
      with hold | ⟨hblob, hsize⟩
    · obtain ⟨r, hr, hhash, hsize⟩ := h.source s hold
      obtain ⟨r', hr', hhash', hsize'⟩ := hkeeps.kept r hr
      exact ⟨r', hr', hhash'.trans hhash, hsize'.trans hsize⟩
    · exact ⟨r, hr, his.1.trans hblob.symm, his.2.trans hsize.symm⟩

/-- So does a statement of a collection: what it deletes no source row names. -/
theorem Catalog.WellKept.stage (h : c.WellKept) (statement : GcStatement) :
    (statement.stage c).2.WellKept := by
  rcases stage_cases statement c with heq | ⟨p, _, mark, heq⟩ | ⟨p, _, hp, heq⟩
  · rw [heq]
    exact h
  · rw [heq]
    refine ⟨?_, fun r hr => ?_, fun s hs => ?_⟩
    · rw [hashes_setMark]
      exact h.hashes
    · obtain ⟨r', hr', rfl⟩ := mem_updateBlobs.1 hr
      obtain ⟨hash, size, his⟩ := h.blob r' hr'
      exact ⟨hash, size, by rw [hash_ite_setMark, his.1], by rw [sizeBytes_ite_setMark, his.2]⟩
    · obtain ⟨r, hr, hhash, hsize⟩ := h.source s hs
      exact ⟨_, mem_updateBlobs.2 ⟨r, hr, rfl⟩, by rw [hash_ite_setMark, hhash],
        by rw [sizeBytes_ite_setMark, hsize]⟩
  · rw [heq]
    refine ⟨List.Nodup.sublist (List.filter_sublist.map _) h.hashes, fun r hr => ?_,
      fun s hs => ?_⟩
    · exact h.blob r (List.mem_filter.1 hr).1
    · obtain ⟨r, hr, hhash, hsize⟩ := h.source s hs
      refine ⟨r, List.mem_filter.2 ⟨hr, decide_eq_true fun hdeleted => ?_⟩, hhash, hsize⟩
      obtain ⟨hash, size, his⟩ := h.blob r hr
      apply hp r hdeleted
      rw [his.1, Catalog.referenced_value]
      exact ⟨s, hs, hhash.symm.trans his.1⟩

end WellKept

/-! ## Writes that do not fail -/

section Accepted

variable {c d : Catalog} {hash : BlobHash} {size : ℕ}

/-- Where a blob is known with one size only, its row has that size. -/
theorem selectBlobSize_eq_ok (hthere : ∃ r ∈ c.blobs, r.hash = hash.value)
    (hsize : ∀ r ∈ c.blobs, r.hash = hash.value → r.sizeBytes = .integer size) :
    c.selectBlobSize hash.value = .ok (size : ℤ) := by
  obtain ⟨r, hr, hhash⟩ := hthere
  cases hfind : c.blobs.find? (fun r => r.hash.Equals hash.value) with
  | none =>
      have hno := List.find?_eq_none.1 hfind r hr
      exact absurd (decide_eq_true (Value.equals_value.2 hhash)) hno
  | some r' =>
      have hequals := List.find?_some hfind
      have hhash' : r'.hash = hash.value := Value.equals_value.1 (of_decide_eq_true hequals)
      have hsize' := hsize r' (List.mem_of_find?_eq_some hfind) hhash'
      rw [Catalog.selectBlobSize, hfind]
      simp only [hsize']

/-- Where each blob has one row, one row is not marked any more. -/
theorem resurrectBlob_eq_one (hashes : (c.blobs.map (·.hash)).Nodup)
    (hthere : ∃ r ∈ c.blobs, r.Is hash size) :
    (c.resurrectBlob hash.value size).1 = 1 := by
  obtain ⟨r, hr, hhash, hsize⟩ := hthere
  refine countP_eq_one hashes hr fun r' hr' => ?_
  rw [BlobRow.matches_value]
  constructor
  · intro hmatches
    rw [hmatches.1, hhash]
  · intro heq
    rw [List.inj_on_of_nodup_map hashes hr' hr heq]
    exact ⟨hhash, hsize⟩

theorem exists_insertBlob (createdAtMs : ℤ) :
    ∃ r ∈ (c.insertBlob hash.value size createdAtMs).2.blobs, r.hash = hash.value := by
  by_cases hthere : ∃ r ∈ c.blobs, r.hash.Equals hash.value
  · obtain ⟨r, hr, hhash⟩ := id hthere
    rw [Catalog.insertBlob, if_pos hthere]
    exact ⟨r, hr, Value.equals_value.1 hhash⟩
  · rw [Catalog.insertBlob, if_neg hthere]
    exact ⟨_, List.mem_append_right _ (List.mem_singleton_self _), rfl⟩

variable [SqlArithmetic] {observation : SourceObservation}

/-- An imported file is recorded unless the catalog knows its blob with another size. -/
theorem imported_accepted {blob : BlobRecord} (hashes : (c.blobs.map (·.hash)).Nodup)
    (hroot : observation.sourceRoot ≠ []) (hhash : blob.hash = observation.blobHash)
    (hsize : blob.sizeBytes = observation.sizeBytes) (hlt : blob.sizeBytes < 2 ^ 63)
    (hknown : ∀ r ∈ c.blobs, r.hash = blob.hash.value → r.sizeBytes = .integer blob.sizeBytes) :
    ∃ outcome d, PendingImportRequest.record (.imported blob observation) c = .ok (outcome, d) := by
  have hkeeps : KeepsBlobs blob.hash blob.sizeBytes c _ := keepsBlobs_insertBlob blob.createdAtMs
  obtain ⟨r, hr, hrhash⟩ : ∃ r ∈ (c.insertBlob blob.hash.value blob.sizeBytes
      blob.createdAtMs).2.blobs, r.hash = blob.hash.value := exists_insertBlob blob.createdAtMs
  have hsizes : ∀ r ∈ (c.insertBlob blob.hash.value blob.sizeBytes blob.createdAtMs).2.blobs,
      r.hash = blob.hash.value → r.sizeBytes = .integer blob.sizeBytes := by
    intro r hr hrhash
    rcases hkeeps.known r hr with ⟨r', hr', hhash', hsize'⟩ | his
    · rw [hsize']
      exact hknown r' hr' (hhash'.symm.trans hrhash)
    · exact his.2
  have hresurrected := resurrectBlob_eq_one (hkeeps.hashes hashes)
    ⟨r, hr, hrhash, hsizes r hr hrhash⟩
  obtain ⟨r', hr', his⟩ := stored_of_resurrectBlob hresurrected
  have hupsert : ∃ d, (c.withBlob blob).upsertSourceFile (.ofText observation.sourceRoot)
      (.ofText observation.relativePath.text) observation.blobHash.value observation.sizeBytes
      (.ofOption observation.modifiedAtMs) observation.observedAtMs = .ok (1, d) := by
    refine ⟨_, upsertSourceFile_eq_ok_iff.2 ⟨?_, ⟨r', hr', ?_⟩, rfl, rfl⟩⟩
    · rw [ne_eq, Value.ofText_inj]
      exact hroot
    · rw [Value.equals_value, ← hhash]
      exact his.1
  obtain ⟨d, hd⟩ := hupsert
  obtain ⟨outcome, hrecord⟩ := record_imported_iff.2
    ⟨hhash, hsize, hlt, selectBlobSize_eq_ok ⟨r, hr, hrhash⟩ hsizes, hresurrected, hd⟩
  exact ⟨outcome, d, hrecord⟩

/-- A known file is observed unless its row, or the row of its blob, is another one. -/
theorem known_accepted (hashes : (c.blobs.map (·.hash)).Nodup) {row : SourceFileRow}
    (hrow : c.ownRows observation = [row])
    (hblob : row.blobHash = observation.blobHash.value)
    (hsize : row.sizeBytes = .integer observation.sizeBytes)
    (hlt : observation.sizeBytes < 2 ^ 63)
    (hthere : ∃ r ∈ c.blobs, r.Is observation.blobHash observation.sizeBytes) :
    ∃ outcome d, PendingImportRequest.record (.known observation observation.sizeBytes) c =
      .ok (outcome, d) := by
  have hsource : (c.observeKnown (.ofText observation.sourceRoot)
      (.ofText observation.relativePath.text) observation.blobHash.value observation.sizeBytes
      (.ofOption observation.modifiedAtMs) observation.observedAtMs).1 = 1 := by
    have hfilter : (c.sourceFiles.filter fun s => s.IsOf observation ∧
        s.blobHash.Equals observation.blobHash.value ∧
        s.sizeBytes.Equals (.integer observation.sizeBytes)) =
          (c.ownRows observation).filter fun s =>
            s.blobHash.Equals observation.blobHash.value ∧
            s.sizeBytes.Equals (.integer observation.sizeBytes) := by
      rw [Catalog.ownRows, List.filter_filter]
      apply List.filter_congr
      intro s _
      rw [Bool.and_comm, ← Bool.decide_and]
    have hequals : row.blobHash.Equals observation.blobHash.value ∧
        row.sizeBytes.Equals (.integer observation.sizeBytes) :=
      ⟨Value.equals_value.2 hblob, Value.equals_integer.2 hsize⟩
    rw [hrow, List.filter_singleton, decide_eq_true hequals] at hfilter
    exact (List.countP_eq_length_filter ..).trans (congrArg List.length hfilter)
  obtain ⟨outcome, hrecord⟩ := record_known_iff.2
    ⟨rfl, hlt, hsource, resurrectBlob_eq_one hashes hthere, rfl⟩
  exact ⟨outcome, _, hrecord⟩

end Accepted

end MediaImporter
