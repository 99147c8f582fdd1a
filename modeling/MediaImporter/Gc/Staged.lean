import MediaImporter.Catalog.Connection
import MediaImporter.Gc.Plan

/-!
# What a session stages

A session stages marks, removals of marks and deletions one after the other. Each statement
affects the one row of its blob, because the plan was made from the rows that the session
still sees. So the catalog that a session has staged so far is given by the blobs the
statements were about.

## Main definitions

* `Catalog.staged` — the catalog after some statements.
* `stageGcMark_staged`, `stageGcResurrect_staged`, `stageGcSweep_staged` — the next one.
-/

namespace MediaImporter

/-! ## Staged catalogs -/

/-- What a session makes of a row that it keeps. -/
def stagedRow (now : ℤ) (marks resurrections : List BlobHash) (row : BlobRow) : BlobRow :=
  if ∃ h ∈ marks, row.hash = h.value then row.setMark (.integer now)
  else if ∃ h ∈ resurrections, row.hash = h.value then row.setMark .null
  else row

/-- The catalog once the rows of some blobs are marked, not marked any more, or deleted. -/
def Catalog.staged (c : Catalog) (now : ℤ) (marks resurrections sweeps : List BlobHash) :
    Catalog :=
  { c with
    blobs := (c.blobs.filter fun row => ¬ ∃ h ∈ sweeps, row.hash = h.value).map
      (stagedRow now marks resurrections) }

section Staged

variable {c : Catalog} {now : ℤ} {marks resurrections sweeps : List BlobHash}

@[simp] theorem stagedRow_hash (row : BlobRow) :
    (stagedRow now marks resurrections row).hash = row.hash := by
  unfold stagedRow
  split
  · rfl
  · split <;> rfl

@[simp] theorem stagedRow_sizeBytes (row : BlobRow) :
    (stagedRow now marks resurrections row).sizeBytes = row.sizeBytes := by
  unfold stagedRow
  split
  · rfl
  · split <;> rfl

@[simp] theorem stagedRow_nil : stagedRow now [] [] = id := by
  funext row
  simp [stagedRow]

@[simp] theorem staged_nil : c.staged now [] [] [] = c := by
  simp [Catalog.staged]

@[simp] theorem staged_sourceFiles :
    (c.staged now marks resurrections sweeps).sourceFiles = c.sourceFiles := rfl

theorem referenced_staged {v : Value} :
    (c.staged now marks resurrections sweeps).Referenced v ↔ c.Referenced v := Iff.rfl

/-- The row of a blob that no statement was about is as it was. -/
theorem stagedRow_of_notMem {row : BlobRow} {h : BlobHash} (hrow : row.hash = h.value)
    (hmarks : h ∉ marks) (hresurrections : h ∉ resurrections) :
    stagedRow now marks resurrections row = row := by
  have hnone : ∀ l : List BlobHash, h ∉ l → ¬ ∃ h' ∈ l, row.hash = h'.value := by
    intro l hl ⟨h', hh', heq⟩
    rw [hrow, BlobHash.value_inj] at heq
    exact hl (heq ▸ hh')
  rw [stagedRow, if_neg (hnone marks hmarks), if_neg (hnone resurrections hresurrections)]

/-- Where hashes are unique, one row has the hash of a given row. -/
theorem countP_eq_one {rows : List BlobRow} (hashes : (rows.map (·.hash)).Nodup) {row : BlobRow}
    (hrow : row ∈ rows) {p : BlobRow → Prop} [DecidablePred p]
    (hp : ∀ r ∈ rows, p r ↔ r.hash = row.hash) : rows.countP p = 1 := by
  have hcount : rows.countP p = (rows.map (·.hash)).count row.hash := by
    rw [List.count, List.countP_map]
    refine List.countP_congr fun r hr => ?_
    simpa using hp r hr
  rw [hcount]
  exact List.count_eq_one_of_mem hashes (List.mem_map_of_mem hrow)

end Staged

/-! ## The next statement -/

section Next

variable {c : Catalog} {now : ℤ} {marks resurrections sweeps : List BlobHash} {b : CatalogBlob}

/-- The row a valid blob was read from is the only one with its hash. -/
theorem exists_row_of_mem_validBlobs (hashes : (c.blobs.map (·.hash)).Nodup)
    (hb : b ∈ validBlobs c) : ∃ row ∈ c.blobs, decodeBlobRow c row = some b ∧
      ∀ r ∈ c.blobs, r.hash = b.hash.value → r = row := by
  obtain ⟨row, hrow, hdecode⟩ := (mem_validBlobs hashes).mp hb
  refine ⟨row, hrow, hdecode, fun r hr hhash => ?_⟩
  exact List.inj_on_of_nodup_map hashes hr hrow
    (hhash.trans (hash_of_decodeBlobRow hdecode).symm)

/-- The blob is one that no statement of the session was about. -/
structure Untouched (c : Catalog) (marks resurrections sweeps : List BlobHash)
    (b : CatalogBlob) : Prop where
  hashes : (c.blobs.map (·.hash)).Nodup
  valid : b ∈ validBlobs c
  marks : b.hash ∉ marks
  resurrections : b.hash ∉ resurrections
  sweeps : b.hash ∉ sweeps

theorem nodup_staged (hashes : (c.blobs.map (·.hash)).Nodup) :
    ((c.staged now marks resurrections sweeps).blobs.map (·.hash)).Nodup := by
  have hsame : (c.staged now marks resurrections sweeps).blobs.map (·.hash) =
      (c.blobs.filter fun row => ¬ ∃ h ∈ sweeps, row.hash = h.value).map (·.hash) := by
    rw [Catalog.staged, List.map_map]
    exact List.map_congr_left fun row _ => stagedRow_hash row
  rw [hsame]
  exact List.Nodup.sublist (List.filter_sublist.map _) hashes

/-- The row of an untouched blob is still there, and only that row matches it. -/
theorem Untouched.row (now : ℤ) (hb : Untouched c marks resurrections sweeps b) :
    ∃ row ∈ (c.staged now marks resurrections sweeps).blobs, decodeBlobRow c row = some b ∧
      ∀ r ∈ (c.staged now marks resurrections sweeps).blobs, r.hash = b.hash.value → r = row := by
  obtain ⟨row, hrow, hdecode, hunique⟩ := exists_row_of_mem_validBlobs hb.hashes hb.valid
  have hhash := hash_of_decodeBlobRow hdecode
  have hkept : row ∈ (c.staged now marks resurrections sweeps).blobs := by
    refine List.mem_map.mpr ⟨row, List.mem_filter.mpr ⟨hrow, ?_⟩,
      stagedRow_of_notMem hhash hb.marks hb.resurrections⟩
    rw [decide_eq_true_iff]
    rintro ⟨h, hh, heq⟩
    rw [hhash, BlobHash.value_inj] at heq
    exact hb.sweeps (heq ▸ hh)
  refine ⟨row, hkept, hdecode, fun r hr heq => ?_⟩
  exact List.inj_on_of_nodup_map (nodup_staged hb.hashes) hr hkept (heq.trans hhash.symm)

/-- A statement about the hash and the size of an untouched blob, with a condition that its
row meets, affects that row alone. -/
theorem Untouched.affects (now : ℤ) (hb : Untouched c marks resurrections sweeps b)
    {p : BlobRow → Prop} [DecidablePred p]
    (hp : ∀ row, decodeBlobRow c row = some b → p row)
    (hhash : ∀ row, p row → row.hash = b.hash.value) :
    (∀ r ∈ (c.staged now marks resurrections sweeps).blobs, p r ↔ r.hash = b.hash.value) ∧
      (c.staged now marks resurrections sweeps).blobs.countP p = 1 := by
  obtain ⟨row, hrow, hdecode, hunique⟩ := hb.row now
  have hiff : ∀ r ∈ (c.staged now marks resurrections sweeps).blobs,
      p r ↔ r.hash = b.hash.value := by
    refine fun r hr => ⟨hhash r, fun heq => ?_⟩
    rw [hunique r hr heq]
    exact hp row hdecode
  refine ⟨hiff, countP_eq_one (nodup_staged hb.hashes) hrow fun r hr => ?_⟩
  rw [hiff r hr, hash_of_decodeBlobRow hdecode]

/-- Marking the rows of one more blob. -/
theorem map_stagedRow_mark (hb : Untouched c marks resurrections sweeps b)
    {p : BlobRow → Prop} [DecidablePred p]
    (hp : ∀ r ∈ (c.staged now marks resurrections sweeps).blobs, p r ↔ r.hash = b.hash.value) :
    (c.staged now marks resurrections sweeps).blobs.map
        (fun r => if p r then r.setMark (.integer now) else r) =
      (c.staged now (marks ++ [b.hash]) resurrections sweeps).blobs := by
  simp only [Catalog.staged, List.map_map]
  refine List.map_congr_left fun row hrow => ?_
  have hiff := hp _ (List.mem_map_of_mem hrow)
  rw [stagedRow_hash] at hiff
  rw [Function.comp_apply]
  by_cases heq : row.hash = b.hash.value
  · rw [if_pos (hiff.mpr heq), stagedRow_of_notMem heq hb.marks hb.resurrections, stagedRow,
      if_pos ⟨b.hash, by simp, heq⟩]
  · rw [if_neg fun h => heq (hiff.mp h)]
    have hmarks : (∃ h ∈ marks ++ [b.hash], row.hash = h.value) ↔
        ∃ h ∈ marks, row.hash = h.value := by
      simp [or_and_right, exists_or, heq]
    simp only [stagedRow, hmarks]

/-- Removing the mark of one more blob. -/
theorem map_stagedRow_resurrect (hb : Untouched c marks resurrections sweeps b)
    {p : BlobRow → Prop} [DecidablePred p]
    (hp : ∀ r ∈ (c.staged now marks resurrections sweeps).blobs, p r ↔ r.hash = b.hash.value) :
    (c.staged now marks resurrections sweeps).blobs.map
        (fun r => if p r then r.setMark .null else r) =
      (c.staged now marks (resurrections ++ [b.hash]) sweeps).blobs := by
  simp only [Catalog.staged, List.map_map]
  refine List.map_congr_left fun row hrow => ?_
  have hiff := hp _ (List.mem_map_of_mem hrow)
  rw [stagedRow_hash] at hiff
  rw [Function.comp_apply]
  by_cases heq : row.hash = b.hash.value
  · have hmarks : ¬ ∃ h ∈ marks, row.hash = h.value := by
      rintro ⟨h, hh, hval⟩
      rw [heq, BlobHash.value_inj] at hval
      exact hb.marks (hval ▸ hh)
    rw [if_pos (hiff.mpr heq), stagedRow_of_notMem heq hb.marks hb.resurrections, stagedRow,
      if_neg hmarks, if_pos ⟨b.hash, by simp, heq⟩]
  · rw [if_neg fun h => heq (hiff.mp h)]
    have hresurrections : (∃ h ∈ resurrections ++ [b.hash], row.hash = h.value) ↔
        ∃ h ∈ resurrections, row.hash = h.value := by
      simp [or_and_right, exists_or, heq]
    simp only [stagedRow, hresurrections]

/-- Deleting the row of one more blob. -/
theorem filter_stagedRow_sweep
    {p : BlobRow → Prop} [DecidablePred p]
    (hp : ∀ r ∈ (c.staged now marks resurrections sweeps).blobs, p r ↔ r.hash = b.hash.value) :
    (c.staged now marks resurrections sweeps).blobs.filter (fun r => ¬ p r) =
      (c.staged now marks resurrections (sweeps ++ [b.hash])).blobs := by
  have hcongr : (c.staged now marks resurrections sweeps).blobs.filter (fun r => ¬ p r) =
      (c.staged now marks resurrections sweeps).blobs.filter
        fun r => ¬ r.hash = b.hash.value :=
    List.filter_congr fun r hr => by simp [hp r hr]
  rw [hcongr]
  simp only [Catalog.staged, List.filter_map, List.filter_filter]
  congr 1
  refine List.filter_congr fun row _ => ?_
  have hsweeps : (∃ h ∈ sweeps ++ [b.hash], row.hash = h.value) ↔
      row.hash = b.hash.value ∨ ∃ h ∈ sweeps, row.hash = h.value := by
    simp [or_and_right, exists_or, or_comm]
  rw [Bool.eq_iff_iff]
  simp only [hsweeps, Function.comp_apply, stagedRow_hash, Bool.and_eq_true, decide_eq_true_eq,
    not_or]

theorem planned_eq_mark : b.planned = .mark ↔ b.referenced = false ∧ b.markedAtMs = none := by
  unfold CatalogBlob.planned classify
  cases b.referenced <;> cases b.markedAtMs <;> simp

theorem planned_eq_resurrect :
    b.planned = .resurrect ↔ b.referenced = true ∧ b.markedAtMs ≠ none := by
  unfold CatalogBlob.planned classify
  cases b.referenced <;> cases b.markedAtMs <;> simp

theorem planned_eq_sweep : b.planned = .sweep ↔ b.referenced = false ∧ b.markedAtMs ≠ none := by
  unfold CatalogBlob.planned classify
  cases b.referenced <;> cases b.markedAtMs <;> simp

/-- What the row of a valid blob looks like to a statement. -/
theorem matches_of_decodeBlobRow {row : BlobRow} (h : decodeBlobRow c row = some b) :
    row.Matches b.hash.value b.sizeBytes ∧ (row.deletedAtMs = .null ↔ b.markedAtMs = none) ∧
      (c.Referenced row.hash ↔ b.referenced = true) := by
  obtain ⟨hhash, hsize, -, hmark, href⟩ := decodeBlobRow_eq_some_iff.mp h
  refine ⟨BlobRow.matches_value.mpr ⟨hhash, hsize⟩, ?_, ?_⟩
  · rw [hmark]
    cases b.markedAtMs <;> simp [Value.ofOption]
  · rw [href, hhash, decide_eq_true_iff]

theorem stageGc_eq (hsize : b.sizeBytes < 2 ^ 63) {operation : String} {d d' : Catalog}
    {statement : ℤ → ℕ × Catalog} (hrun : statement b.sizeBytes = (1, d')) :
    stageGc d b operation statement = (.ok (), d') := by
  have hfits : sqliteU64 b.sizeBytes "blob size" = .ok (b.sizeBytes : ℤ) :=
    sqliteU64_eq_ok_iff.mpr ⟨hsize, rfl⟩
  simp only [stageGc, hfits, hrun, Except.ensure, if_true]

theorem stageGc_eq_error (hsize : ¬ b.sizeBytes < 2 ^ 63) (operation : String) (d : Catalog)
    (statement : ℤ → ℕ × Catalog) : ∃ e, stageGc d b operation statement = (.error e, d) := by
  have hlarge : sqliteU64 b.sizeBytes "blob size" =
      .error ("blob size" ++ " exceeds SQLite INTEGER range") := if_neg hsize
  refine ⟨"blob size" ++ " exceeds SQLite INTEGER range", ?_⟩
  rw [stageGc, hlarge]

theorem stageGcMark_staged (now : ℤ) (hb : Untouched c marks resurrections sweeps b)
    (hplan : b.planned = .mark) (hsize : b.sizeBytes < 2 ^ 63) :
    stageGcMark (c.staged now marks resurrections sweeps) b now =
      (.ok (), c.staged now (marks ++ [b.hash]) resurrections sweeps) := by
  obtain ⟨href, hmark⟩ := planned_eq_mark.mp hplan
  obtain ⟨hiff, hcount⟩ := hb.affects now
    (p := fun r => r.Matches b.hash.value b.sizeBytes ∧ r.deletedAtMs = .null ∧
      ¬ (c.staged now marks resurrections sweeps).Referenced r.hash)
    (fun row hrow => by
      obtain ⟨hmatches, hnull, href'⟩ := matches_of_decodeBlobRow hrow
      refine ⟨hmatches, hnull.mpr hmark, ?_⟩
      rw [referenced_staged, href', href]
      exact Bool.false_ne_true)
    (fun row hp => (BlobRow.matches_value.mp hp.1).1)
  refine stageGc_eq hsize ?_
  rw [Catalog.gcMark, Catalog.updateBlobs, hcount, map_stagedRow_mark hb hiff]
  rfl

theorem stageGcResurrect_staged (now : ℤ) (hb : Untouched c marks resurrections sweeps b)
    (hplan : b.planned = .resurrect) (hsize : b.sizeBytes < 2 ^ 63) :
    stageGcResurrect (c.staged now marks resurrections sweeps) b =
      (.ok (), c.staged now marks (resurrections ++ [b.hash]) sweeps) := by
  obtain ⟨href, hmark⟩ := planned_eq_resurrect.mp hplan
  obtain ⟨hiff, hcount⟩ := hb.affects now
    (p := fun r => r.Matches b.hash.value b.sizeBytes ∧ r.deletedAtMs ≠ .null ∧
      (c.staged now marks resurrections sweeps).Referenced r.hash)
    (fun row hrow => by
      obtain ⟨hmatches, hnull, href'⟩ := matches_of_decodeBlobRow hrow
      exact ⟨hmatches, fun h => hmark (hnull.mp h), referenced_staged.mpr (href'.mpr href)⟩)
    (fun row hp => (BlobRow.matches_value.mp hp.1).1)
  refine stageGc_eq hsize ?_
  rw [Catalog.gcResurrect, Catalog.updateBlobs, hcount, map_stagedRow_resurrect hb hiff]
  rfl

theorem stageGcSweep_staged (now : ℤ) (hb : Untouched c marks resurrections sweeps b)
    (hplan : b.planned = .sweep) (hsize : b.sizeBytes < 2 ^ 63) :
    stageGcSweep (c.staged now marks resurrections sweeps) b =
      (.ok (), c.staged now marks resurrections (sweeps ++ [b.hash])) := by
  obtain ⟨href, hmark⟩ := planned_eq_sweep.mp hplan
  obtain ⟨hiff, hcount⟩ := hb.affects now
    (p := fun r => r.Matches b.hash.value b.sizeBytes ∧ r.deletedAtMs ≠ .null ∧
      ¬ (c.staged now marks resurrections sweeps).Referenced r.hash)
    (fun row hrow => by
      obtain ⟨hmatches, hnull, href'⟩ := matches_of_decodeBlobRow hrow
      refine ⟨hmatches, fun h => hmark (hnull.mp h), ?_⟩
      rw [referenced_staged, href', href]
      exact Bool.false_ne_true)
    (fun row hp => (BlobRow.matches_value.mp hp.1).1)
  refine stageGc_eq hsize ?_
  rw [Catalog.gcSweep, Catalog.deleteBlobs, hcount, filter_stagedRow_sweep hiff]
  rfl

end Next

end MediaImporter
