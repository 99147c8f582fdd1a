import MediaImporter.Catalog.Inspect

/-!
# Statements inside a transaction

Each SQL statement of the program is a function on the tables. A statement that changes
rows also returns how many it affected, because the program checks that number. The
functions that combine statements run inside a transaction: when one fails the caller
rolls the transaction back, so what a failed combination leaves behind is not returned.

## Main definitions

* `Catalog.updateBlobs`, `Catalog.deleteBlobs`, `Catalog.upsertSourceFile` — statements.
* `recordImportedFile`, `observeKnownSourceFile` — what an import does to the tables.
* `stageGcMark`, `stageGcResurrect`, `stageGcSweep` — what garbage collection does.
* `knownSourceFile`, `liveMaterializationEntries` — the two readers.
-/

namespace MediaImporter

open Utf8 UnixPath

/-! ## Rows and columns -/

/-- A size as a column value, unless it is too large for one. -/
def sqliteU64 (value : ℕ) (label : String) : Except String ℤ :=
  if value < 2 ^ 63 then .ok value else .error (label ++ " exceeds SQLite INTEGER range")

theorem sqliteU64_eq_ok_iff {value : ℕ} {label : String} {v : ℤ} :
    sqliteU64 value label = .ok v ↔ value < 2 ^ 63 ∧ v = value := by
  unfold sqliteU64
  by_cases h : value < 2 ^ 63
  · rw [if_pos h, Except.ok.injEq, eq_comm]
    exact (and_iff_right h).symm
  · rw [if_neg h]
    exact iff_of_false (by simp) fun hv => h hv.1

/-- The row id of a new row. -/
def nextRowid (ids : List ℤ) : ℤ := match ids.max? with
  | none => 1
  | some m => m + 1

/-- `WHERE hash = ?1 AND size_bytes = ?2`. -/
def BlobRow.Matches (row : BlobRow) (hash : Value) (size : ℤ) : Prop :=
  row.hash.Equals hash ∧ row.sizeBytes.Equals (.integer size)

instance (row : BlobRow) (hash : Value) (size : ℤ) : Decidable (row.Matches hash size) :=
  inferInstanceAs (Decidable (_ ∧ _))

@[simp] theorem BlobRow.matches_value {row : BlobRow} {h : BlobHash} {size : ℤ} :
    row.Matches h.value size ↔ row.hash = h.value ∧ row.sizeBytes = .integer size := by
  simp [BlobRow.Matches]

/-- `SET deleted_at_ms = ...`. -/
def BlobRow.setMark (mark : Value) (row : BlobRow) : BlobRow := { row with deletedAtMs := mark }

@[simp] theorem BlobRow.setMark_hash (mark : Value) (row : BlobRow) :
    (row.setMark mark).hash = row.hash := rfl
@[simp] theorem BlobRow.setMark_sizeBytes (mark : Value) (row : BlobRow) :
    (row.setMark mark).sizeBytes = row.sizeBytes := rfl
@[simp] theorem BlobRow.setMark_createdAtMs (mark : Value) (row : BlobRow) :
    (row.setMark mark).createdAtMs = row.createdAtMs := rfl
@[simp] theorem BlobRow.setMark_deletedAtMs (mark : Value) (row : BlobRow) :
    (row.setMark mark).deletedAtMs = mark := rfl

/-- `WHERE source_root = ?1 AND relative_path = ?2`. -/
def SourceFileRow.Matches (row : SourceFileRow) (root path : Value) : Prop :=
  row.sourceRoot.Equals root ∧ row.relativePath.Equals path

instance (row : SourceFileRow) (root path : Value) : Decidable (row.Matches root path) :=
  inferInstanceAs (Decidable (_ ∧ _))

namespace Catalog

/-- `UPDATE blobs SET ... WHERE ...`. -/
def updateBlobs (c : Catalog) (p : BlobRow → Prop) [DecidablePred p] (f : BlobRow → BlobRow) :
    ℕ × Catalog :=
  (c.blobs.countP p, { c with blobs := c.blobs.map fun r => if p r then f r else r })

/-- `DELETE FROM blobs WHERE ...`. -/
def deleteBlobs (c : Catalog) (p : BlobRow → Prop) [DecidablePred p] : ℕ × Catalog :=
  (c.blobs.countP p, { c with blobs := c.blobs.filter fun r => ¬ p r })

/-- `UPDATE source_files SET ... WHERE ...`. -/
def updateSources (c : Catalog) (p : SourceFileRow → Prop) [DecidablePred p]
    (f : SourceFileRow → SourceFileRow) : Catalog :=
  { c with sourceFiles := c.sourceFiles.map fun s => if p s then f s else s }

/-- `insert_blob.sql`. -/
def insertBlob (c : Catalog) (hash : Value) (size createdAtMs : ℤ) : ℕ × Catalog :=
  if ∃ r ∈ c.blobs, r.hash.Equals hash then (0, c)
  else (1, { c with blobs := c.blobs ++
    [⟨nextRowid (c.blobs.map (·.rowid)), hash, .integer size, .integer createdAtMs, .null⟩] })

/-- `select_blob_size.sql`, which must return an integer. -/
def selectBlobSize (c : Catalog) (hash : Value) : Except String ℤ :=
  match c.blobs.find? fun r => r.hash.Equals hash with
  | some r => match r.sizeBytes with
    | .integer v => .ok v
    | _ => .error "read existing blob record"
  | none => .error "read existing blob record"

/-- `resurrect_imported_blob.sql` and `resurrect_known_source_blob.sql`. -/
def resurrectBlob (c : Catalog) (hash : Value) (size : ℤ) : ℕ × Catalog :=
  c.updateBlobs (fun r => r.Matches hash size) (.setMark .null)

/-- `select_source_file_id.sql`. -/
def selectSourceFileId (c : Catalog) (root path : Value) : Option ℤ :=
  (c.sourceFiles.find? fun s => s.Matches root path).map (·.id)

variable [SqlArithmetic]

/-- What `ON CONFLICT DO UPDATE` does to the row that is there. -/
def observedAgain (hash : Value) (size : ℤ) (modifiedAtMs : Value) (observedAtMs : ℤ)
    (row : SourceFileRow) : SourceFileRow :=
  { row with
    blobHash := hash
    sizeBytes := .integer size
    modifiedAtMs
    lastSeenAtMs := .integer observedAtMs
    seenCount := SqlArithmetic.addOne row.seenCount }

/-- `upsert_source_file.sql`, with the constraints a new row can violate. -/
def upsertSourceFile (c : Catalog) (root path hash : Value) (size : ℤ) (modifiedAtMs : Value)
    (observedAtMs : ℤ) : Except String (ℕ × Catalog) := do
  Except.ensure (root ≠ .ofText []) "CHECK constraint failed: length(source_root) > 0"
  Except.ensure (∃ r ∈ c.blobs, r.hash.Equals hash) "FOREIGN KEY constraint failed"
  return (1,
    if ∃ s ∈ c.sourceFiles, s.Matches root path then
      c.updateSources (·.Matches root path) (observedAgain hash size modifiedAtMs observedAtMs)
    else { c with sourceFiles := c.sourceFiles ++
      [⟨nextRowid (c.sourceFiles.map (·.id)), root, path, hash, .integer size, modifiedAtMs,
        .integer observedAtMs, .integer observedAtMs, .integer 1⟩] })

/-- `observe_known_source_file.sql`. -/
def observeKnown (c : Catalog) (root path hash : Value) (size : ℤ) (modifiedAtMs : Value)
    (observedAtMs : ℤ) : ℕ × Catalog :=
  let p (s : SourceFileRow) : Prop :=
    s.Matches root path ∧ s.blobHash.Equals hash ∧ s.sizeBytes.Equals (.integer size)
  (c.sourceFiles.countP p, c.updateSources p fun s =>
    { s with
      modifiedAtMs
      lastSeenAtMs := .integer observedAtMs
      seenCount := SqlArithmetic.addOne s.seenCount })

end Catalog

/-! ## Import -/

structure BlobRecord where
  hash : BlobHash
  sizeBytes : ℕ
  createdAtMs : ℤ
  deriving DecidableEq

structure SourceObservation where
  sourceRoot : Text
  relativePath : SourceRelativePath
  blobHash : BlobHash
  sizeBytes : ℕ
  modifiedAtMs : Option ℤ
  observedAtMs : ℤ
  deriving DecidableEq

inductive BlobRecordOutcome
  | inserted
  | alreadyPresent
  deriving DecidableEq, Repr

inductive SourceObservationOutcome
  | inserted
  | updated
  deriving DecidableEq, Repr

/-- The two halves of an imported record describe the same blob. -/
def validateImportedRecord (blob : BlobRecord) (observation : SourceObservation) :
    Except String Unit := do
  Except.ensure (blob.hash = observation.blobHash)
    "imported record has another blob hash than its source observation"
  Except.ensure (blob.sizeBytes = observation.sizeBytes)
    "imported record has another blob size than its source observation"
  let _ ← sqliteU64 blob.sizeBytes "blob size"
  let _ ← sqliteU64 observation.sizeBytes "source file size"

section Import

variable [SqlArithmetic]

def recordImportedFile (c : Catalog) (blob : BlobRecord) (observation : SourceObservation) :
    Except String ((BlobRecordOutcome × SourceObservationOutcome) × Catalog) := do
  validateImportedRecord blob observation
  let size ← sqliteU64 blob.sizeBytes "blob size"
  let inserted := c.insertBlob blob.hash.value size blob.createdAtMs
  let blobOutcome : BlobRecordOutcome := if inserted.1 = 1 then .inserted else .alreadyPresent
  let expectedSize ← sqliteU64 blob.sizeBytes "blob size"
  let existingSize ← inserted.2.selectBlobSize blob.hash.value
  Except.ensure (existingSize = expectedSize) "catalog blob exists with another size"
  let resurrected := inserted.2.resurrectBlob blob.hash.value expectedSize
  Except.ensure (resurrected.1 = 1) "expected one matching blob row while resurrecting"
  let root := Value.ofText observation.sourceRoot
  let path := Value.ofText observation.relativePath.text
  let sourceOutcome : SourceObservationOutcome :=
    if (resurrected.2.selectSourceFileId root path).isSome then .updated else .inserted
  let sourceSize ← sqliteU64 observation.sizeBytes "source file size"
  let source ← resurrected.2.upsertSourceFile root path observation.blobHash.value sourceSize
    (.ofOption observation.modifiedAtMs) observation.observedAtMs
  Except.ensure (source.1 = 1) "imported source observation expected one affected source row"
  return ((blobOutcome, sourceOutcome), source.2)

def observeKnownSourceFile (c : Catalog) (observation : SourceObservation)
    (expectedBlobSizeBytes : ℕ) : Except String Catalog := do
  Except.ensure (observation.sizeBytes = expectedBlobSizeBytes)
    "known-source observation has another source size than the expected blob size"
  let sourceSize ← sqliteU64 observation.sizeBytes "source file size"
  let expectedBlobSize ← sqliteU64 expectedBlobSizeBytes "expected blob size"
  let source := c.observeKnown (.ofText observation.sourceRoot)
    (.ofText observation.relativePath.text) observation.blobHash.value sourceSize
    (.ofOption observation.modifiedAtMs) observation.observedAtMs
  Except.ensure (source.1 = 1) "known-source observation expected one matching source row"
  let blob := source.2.resurrectBlob observation.blobHash.value expectedBlobSize
  Except.ensure (blob.1 = 1) "known-source observation expected one matching blob row"
  return blob.2

end Import

/-! ## Garbage collection -/

/-- `gc_mark.sql`. -/
def Catalog.gcMark (c : Catalog) (hash : Value) (size markedAtMs : ℤ) : ℕ × Catalog :=
  c.updateBlobs (fun r => r.Matches hash size ∧ r.deletedAtMs = .null ∧ ¬ c.Referenced r.hash)
    (.setMark (.integer markedAtMs))

/-- `gc_resurrect.sql`. -/
def Catalog.gcResurrect (c : Catalog) (hash : Value) (size : ℤ) : ℕ × Catalog :=
  c.updateBlobs (fun r => r.Matches hash size ∧ r.deletedAtMs ≠ .null ∧ c.Referenced r.hash)
    (.setMark .null)

/-- `gc_sweep.sql`. -/
def Catalog.gcSweep (c : Catalog) (hash : Value) (size : ℤ) : ℕ × Catalog :=
  c.deleteBlobs fun r => r.Matches hash size ∧ r.deletedAtMs ≠ .null ∧ ¬ c.Referenced r.hash

/-- Run a staged statement and check that it affected one row. The statement has run
even when the check fails. -/
def stageGc (c : Catalog) (blob : CatalogBlob) (operation : String)
    (statement : ℤ → ℕ × Catalog) : Except String Unit × Catalog :=
  match sqliteU64 blob.sizeBytes "blob size" with
  | .error e => (.error e, c)
  | .ok size =>
      (Except.ensure ((statement size).1 = 1)
        ("garbage collection " ++ operation ++ " expected one matching row"), (statement size).2)

def stageGcMark (c : Catalog) (blob : CatalogBlob) (markedAtMs : ℤ) :
    Except String Unit × Catalog :=
  stageGc c blob "mark" fun size => c.gcMark blob.hash.value size markedAtMs

def stageGcResurrect (c : Catalog) (blob : CatalogBlob) : Except String Unit × Catalog :=
  stageGc c blob "resurrect" fun size => c.gcResurrect blob.hash.value size

def stageGcSweep (c : Catalog) (blob : CatalogBlob) : Except String Unit × Catalog :=
  stageGc c blob "sweep" fun size => c.gcSweep blob.hash.value size

/-! ## Readers -/

/-- A previously recorded source identity and the blob it references. -/
structure KnownSourceFile where
  blobHash : BlobHash
  sourceSizeBytes : ℕ
  modifiedAtMs : Option ℤ
  blobSizeBytes : ℕ
  blobDeletedAtMs : Option ℤ
  deriving DecidableEq

/-- A column that must hold what is decoded from it. -/
def required {α : Type} (decoded : Option α) (e : String) : Except String α :=
  match decoded with
  | some a => .ok a
  | none => .error e

@[simp] theorem required_eq_ok_iff {α : Type} {decoded : Option α} {e : String} {a : α} :
    required decoded e = .ok a ↔ decoded = some a := by
  cases decoded <;> simp [required]

/-- `select_known_source_file.sql` and its decoding. -/
def knownSourceFile (c : Catalog) (sourceRoot : Text) (relativePath : SourceRelativePath) :
    Except String (Option KnownSourceFile) :=
  let rows := c.sourceFiles.flatMap fun s =>
    (c.blobs.filter fun b => b.hash.Equals s.blobHash ∧
      s.Matches (.ofText sourceRoot) (.ofText relativePath.text)).map fun b => (s, b)
  match rows.head? with
  | none => .ok none
  | some (s, b) => do
      let blobHash ← required (decodeHash s.blobHash) "read known source file"
      let sourceSizeBytes ← required (decodeSize s.sizeBytes) "catalog source size is negative"
      let modifiedAtMs ← required (decodeMark s.modifiedAtMs) "read known source file"
      let blobSizeBytes ← required (decodeSize b.sizeBytes) "catalog blob size is negative"
      let blobDeletedAtMs ← required (decodeMark b.deletedAtMs) "read known source file"
      return some { blobHash, sourceSizeBytes, modifiedAtMs, blobSizeBytes, blobDeletedAtMs }

structure LiveMaterializationEntry where
  relativePath : SourceRelativePath
  blobHash : BlobHash
  blobSizeBytes : ℕ
  deriving DecidableEq

/-- The order SQLite sorts values in: nulls, numbers, texts, blobs. Columns declared as
text hold no numbers, so how numbers compare with each other does not matter here. -/
def Value.sortKey : Value → ℕ ×ₗ ℤ ×ₗ Bytes
  | .null => toLex (0, toLex (0, []))
  | .integer v => toLex (1, toLex (v, []))
  | .real bits => toLex (2, toLex (bits.toNat, []))
  | .text bytes => toLex (3, toLex (0, bytes))
  | .blob bytes => toLex (4, toLex (0, bytes))

/-- One row of `select_live_materialization_entries.sql`. -/
structure LiveRow where
  relativePath : Value
  blobHash : Value
  sizeBytes : Value
  deriving DecidableEq

def LiveRow.sortKey (r : LiveRow) : (ℕ ×ₗ ℤ ×ₗ Bytes) ×ₗ (ℕ ×ₗ ℤ ×ₗ Bytes) :=
  toLex (r.relativePath.sortKey, r.blobHash.sortKey)

/-- One row of each group. -/
def groupRows (rows : List LiveRow) : List LiveRow :=
  rows.pwFilter fun r r' => ¬ (r.relativePath = r'.relativePath ∧ r.blobHash = r'.blobHash)

/-- `select_live_materialization_entries.sql`. -/
def selectLiveMaterializationEntries (c : Catalog) : List LiveRow :=
  let joined := c.sourceFiles.flatMap fun s =>
    (c.blobs.filter fun b => b.hash.Equals s.blobHash ∧ b.deletedAtMs = .null).map fun b =>
      (⟨s.relativePath, s.blobHash, b.sizeBytes⟩ : LiveRow)
  (groupRows joined).insertionSort fun r r' => r.sortKey ≤ r'.sortKey

def decodeLiveRow (r : LiveRow) : Except String LiveMaterializationEntry := do
  let relativePath ← required r.relativePath.toText "read live materialization entry"
  let blobHash ← required r.blobHash.toText "read live materialization entry"
  let sizeBytes ← required (decodeInteger r.sizeBytes) "read live materialization entry"
  Except.ensure (0 ≤ sizeBytes) "catalog blob size is negative"
  let path ← SourceRelativePath.fromCatalogText relativePath
  let hash ← BlobHash.new blobHash
  return { relativePath := path, blobHash := hash, blobSizeBytes := sizeBytes.toNat }

def liveMaterializationEntries (c : Catalog) : Except String (List LiveMaterializationEntry) :=
  (selectLiveMaterializationEntries c).mapM decodeLiveRow

/-! ## Paths that come back -/

theorem mem_reasonsOf {checks : List (Bool × String)} {reason : Text} :
    reason ∈ reasonsOf checks ↔ ∃ k ∈ checks, k.1 = true ∧ k.2.toList = reason := by
  simp [reasonsOf, and_assoc]

theorem mem_blobDisagreement {valid : List CatalogBlob} {row : SourceFileRow} {reason : Text}
    (h : reason ∈ blobDisagreement valid row) :
    reason = "blob-size-disagreement".toList ∨ reason = "missing-valid-blob".toList := by
  unfold blobDisagreement at h
  split at h
  · split at h
    · split at h
      · exact .inl (List.mem_singleton.mp h)
      · simp at h
    · exact .inr (List.mem_singleton.mp h)
  · simp at h

/-- The inspection objects to the path of a row exactly when it cannot be read. -/
theorem invalidRelativePath_mem_iff {valid : List CatalogBlob} {row : SourceFileRow} :
    "invalid-relative-path".toList ∈ sourceRowReasons valid row ↔
      decodeRelativePath row.relativePath = none := by
  rw [← Option.isNone_iff_eq_none, sourceRowReasons, List.mem_append, mem_reasonsOf]
  constructor
  · rintro (⟨k, hk, htrue, hname⟩ | h)
    · simp only [List.mem_cons, List.not_mem_nil, or_false] at hk
      rcases hk with rfl | rfl | rfl | rfl | rfl | rfl | rfl | rfl | rfl <;>
        first | exact htrue | (dsimp only at hname; exact absurd hname (by decide))
    · rcases mem_blobDisagreement h with h | h <;> exact absurd h (by decide)
  · intro h
    exact .inl ⟨((decodeRelativePath row.relativePath).isNone, "invalid-relative-path"),
      by simp only [List.mem_cons, true_or, or_true], h, rfl⟩

theorem decodeRelativePath_ofText (s : SourceRelativePath) :
    decodeRelativePath (.ofText s.text) = none ↔
      SourceRelativePath.fromCatalogText s.text ≠ .ok s := by
  rw [← not_iff_not, not_not, ← ne_eq, Option.ne_none_iff_exists']
  simp only [decodeRelativePath_eq_some, Value.ofText_inj]
  constructor
  · rintro ⟨r, htext, hr⟩
    rwa [SourceRelativePath.ext htext]
  · intro h
    exact ⟨s, rfl, h⟩

theorem decodeLiveRow_ofText (s : SourceRelativePath) (hash : BlobHash) (size : ℕ) :
    decodeLiveRow ⟨.ofText s.text, hash.value, .integer size⟩ = .ok ⟨s, hash, size⟩ ↔
      SourceRelativePath.fromCatalogText s.text = .ok s := by
  simp only [decodeLiveRow, Except.bind_eq_ok, required_eq_ok_iff, Value.toText_eq_some,
    Except.pure_eq_ok, Except.ok.injEq, LiveMaterializationEntry.mk.injEq]
  constructor
  · rintro ⟨t, ht, -, -, -, -, -, -, r, hr, -, -, rfl, -⟩
    obtain rfl := Value.ofText_inj.mp ht
    exact hr
  · intro h
    exact ⟨s.text, rfl, hash.text, rfl, size, by simp, (), by simp, s, h, hash, by simp, rfl,
      rfl, by simp⟩

/-- A source path is read back as it was stored: by the decoder, by the inspection of any
row that holds it, and by the query for live entries. -/
structure SourceRelativePath.ReadsBack (s : SourceRelativePath) : Prop where
  decoded : SourceRelativePath.fromCatalogText s.text = .ok s
  inspected : ∀ valid row, row.relativePath = .ofText s.text →
    "invalid-relative-path".toList ∉ sourceRowReasons valid row
  materialized : ∀ (hash : BlobHash) (size : ℕ),
    decodeLiveRow ⟨.ofText s.text, hash.value, .integer size⟩ = .ok ⟨s, hash, size⟩

theorem SourceRelativePath.readsBack_iff (s : SourceRelativePath) :
    s.ReadsBack ↔ SourceRelativePath.fromCatalogText s.text = .ok s := by
  constructor
  · exact ReadsBack.decoded
  · intro h
    refine ⟨h, ?_, fun hash size => (decodeLiveRow_ofText s hash size).mpr h⟩
    intro valid row hrow hmem
    rw [invalidRelativePath_mem_iff, hrow, decodeRelativePath_ofText] at hmem
    exact hmem h

/-- A path that an import accepts is read back exactly when no backslash occurs in it. -/
theorem readsBack_fromPath_iff {path : Bytes} {s : SourceRelativePath}
    (h : SourceRelativePath.fromPath path = .ok s) : s.ReadsBack ↔ 92 ∉ path := by
  rw [s.readsBack_iff, SourceRelativePath.fromCatalogText_text,
    SourceRelativePath.backslash_mem_text_iff h]

/-- `a` is accepted and read back. -/
theorem readsBack_fromPath_a :
    ∃ s, SourceRelativePath.fromPath [97] = .ok s ∧ (s.ReadsBack ↔ 92 ∉ ([97] : Bytes)) := by
  have h : SourceRelativePath.fromPath [97] = .ok ⟨['a'], by decide⟩ := by decide
  exact ⟨_, h, readsBack_fromPath_iff h⟩

/-- `a\b` is accepted and not read back. -/
theorem not_readsBack_backslash :
    ¬ ∀ path s, SourceRelativePath.fromPath path = .ok s → s.ReadsBack := by
  intro hall
  have h : SourceRelativePath.fromPath [97, 92, 98] = .ok ⟨['a', '\\', 'b'], by decide⟩ := by
    decide
  have hback := (hall _ _ h).decoded
  revert hback
  decide

end MediaImporter
