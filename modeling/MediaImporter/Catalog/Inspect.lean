import MediaImporter.Catalog.Table
import MediaImporter.Integrity

/-!
# Inspecting a catalog

Before anything is deleted the whole catalog is read and checked: the engine's own
integrity and foreign-key checks, the schema, and every value of every row. A blob row
that passes is decoded; a source row is compared with the decoded row of its blob.

A catalog without findings is `Sound`: the tables are what the schema promises, and
reading them loses nothing.

## Main definitions

* `CatalogBlob`, `CatalogAuditSnapshot`, `inspectCatalogConnection` — the inspection.
* `Catalog.Sound` — what a catalog without findings is like.
* `findings_inspectCatalogConnection_eq_nil_iff` — the two say the same.
-/

namespace MediaImporter

open Utf8 UnixPath

/-- A decoded blob row. -/
structure CatalogBlob where
  hash : BlobHash
  sizeBytes : ℕ
  markedAtMs : Option ℤ
  referenced : Bool
  deriving DecidableEq

structure CatalogAuditSnapshot where
  blobRowsSeen : ℕ
  gcCandidates : ℕ
  validBlobs : List CatalogBlob
  findings : List IntegrityFinding

/-! ## Schema -/

def schemaFinding (identity : Text) : IntegrityFinding :=
  .new .catalogIntegrity identity "reason=schema-mismatch".toList

def expectedObjects : List (Text × Text) :=
  [("index".toList, "idx_source_files_blob_hash".toList), ("table".toList, "blobs".toList),
   ("table".toList, "source_files".toList)]

/-- Lowercase ASCII letters, and no white space. -/
def normalizeSql (sql : Text) : Text := (sql.map Char.toLower).filter fun c => ¬ isWhitespace c

def Schema.tableSql (s : Schema) (name : Text) : Text :=
  match s.objects.find? fun o => o.kind = "table".toList ∧ o.name = name with
  | some o => o.sql
  | none => []

def validateColumns (s : Schema) (table : Text) (expected : List ColumnShape) :
    List IntegrityFinding :=
  if s.tableInfo table = expected then [] else [schemaFinding (table ++ ".columns".toList)]

/-- A finding unless the condition holds. -/
def expect (condition : Prop) [Decidable condition] (identity : String) : List IntegrityFinding :=
  if condition then [] else [schemaFinding identity.toList]

def validateSchema (s : Schema) : List IntegrityFinding :=
  let actualObjects := (s.objects.map fun o => (o.kind, o.name)).dedup
  let blobsSql := normalizeSql (s.tableSql "blobs".toList)
  let sourcesSql := normalizeSql (s.tableSql "source_files".toList)
  let indexes := s.indexes "source_files".toList
  (expectedObjects.filter (· ∉ actualObjects)).map (fun o => schemaFinding o.2) ++
  (actualObjects.filter (· ∉ expectedObjects)).map (fun o => schemaFinding o.2) ++
  validateColumns s "blobs".toList blobsColumns ++
  validateColumns s "source_files".toList sourceFilesColumns ++
  expect ("check(length(hash)=64)".toList <:+: blobsSql) "blobs.check.hash-length" ++
  expect ("check(length(source_root)>0)".toList <:+: sourcesSql ∧
    "length(relative_path)>0".toList <:+: sourcesSql ∧
    "substr(relative_path,1,1)!='/".toList <:+: sourcesSql) "source_files.checks" ++
  expect (s.foreignKeys "source_files".toList =
    [["blobs".toList, "blob_hash".toList, "hash".toList, "NO ACTION".toList,
      "NO ACTION".toList]]) "source_files.foreign-key" ++
  expect (s.indexColumns "idx_source_files_blob_hash".toList = ["blob_hash".toList])
    "idx_source_files_blob_hash.columns" ++
  expect (⟨"idx_source_files_blob_hash".toList, "0".toList, "c".toList⟩ ∈ indexes)
    "idx_source_files_blob_hash" ++
  expect (∃ i ∈ indexes, i.unique = "1".toList ∧ i.origin = "u".toList ∧
    s.indexColumns i.name = ["source_root".toList, "relative_path".toList])
    "source_files.unique-identity"

/-! ## Integrity checks of the engine -/

/-- The first 256 characters. -/
def bounded (value : Text) : Text := value.take 256

/-- The uniqueness violations `PRAGMA integrity_check` reports. A null is unlike every
other null. -/
def Catalog.uniquenessViolations (c : Catalog) : List Text :=
  (if ((c.blobs.map (·.hash)).filter (· ≠ .null)).Nodup then []
    else ["non-unique entry in index sqlite_autoindex_blobs_1".toList]) ++
  (if ((c.sourceFiles.map fun s => (s.sourceRoot, s.relativePath)).filter
      fun k => k.1 ≠ .null ∧ k.2 ≠ .null).Nodup then []
    else ["non-unique entry in index sqlite_autoindex_source_files_1".toList])

def integrityFindings (c : Catalog) : List IntegrityFinding :=
  (c.damage ++ c.uniquenessViolations).map fun message =>
    .new .catalogIntegrity "integrity_check".toList
      ("reason=integrity-check detail=".toList ++ bounded message)

/-- One row of `PRAGMA foreign_key_check` for each source row whose blob is missing. -/
def foreignKeyFindings (c : Catalog) : List IntegrityFinding :=
  (c.sourceFiles.filter fun s =>
    s.blobHash ≠ .null ∧ ∀ b ∈ c.blobs, ¬ b.hash.Equals s.blobHash).map fun s =>
    .new .catalogIntegrity ("source_files:".toList ++ (toString s.id).toList)
      "reason=foreign-key parent=blobs fk=0".toList

/-! ## Rows -/

/-- The hash a column holds, if it holds one. -/
def decodeHash (v : Value) : Option BlobHash := v.toText.bind fun s => (BlobHash.new s).toOption

/-- The size a column holds, if it holds one. -/
def decodeSize : Value → Option ℕ
  | .integer v => if 0 ≤ v then some v.toNat else none
  | _ => none

def decodeInteger : Value → Option ℤ
  | .integer v => some v
  | _ => none

/-- A deletion mark: null or an integer. -/
def decodeMark : Value → Option (Option ℤ)
  | .null => some none
  | .integer v => some (some v)
  | _ => none

/-- The reasons whose condition holds, in order. -/
def reasonsOf (checks : List (Bool × String)) : List Text :=
  (checks.filter (·.1)).map (·.2.toList)

def blobRowReasons (row : BlobRow) : List Text :=
  reasonsOf
    [((decodeHash row.hash).isNone, "invalid-hash"),
     ((decodeSize row.sizeBytes).isNone, "invalid-size"),
     ((decodeInteger row.createdAtMs).isNone, "invalid-created-at"),
     ((decodeMark row.deletedAtMs).isNone, "invalid-deleted-at")]

/-- The blob a row describes, if the row is valid. -/
def decodeBlobRow (c : Catalog) (row : BlobRow) : Option CatalogBlob := do
  let hash ← decodeHash row.hash
  let sizeBytes ← decodeSize row.sizeBytes
  let _ ← decodeInteger row.createdAtMs
  let markedAtMs ← decodeMark row.deletedAtMs
  return { hash, sizeBytes, markedAtMs, referenced := decide (c.Referenced row.hash) }

/-- Insert into a map keyed by hash, over an older entry. -/
def insertBlob (blobs : List CatalogBlob) (blob : CatalogBlob) : List CatalogBlob :=
  blobs.filter (·.hash ≠ blob.hash) ++ [blob]

def validBlobs (c : Catalog) : List CatalogBlob :=
  (c.blobs.filterMap (decodeBlobRow c)).foldl insertBlob []

def joinReasons (reasons : List Text) : Text := "reason=".toList ++ [','].intercalate reasons

def blobRowFindings (row : BlobRow) : List IntegrityFinding :=
  if blobRowReasons row = [] then []
  else [.new .invalidBlobRow (toString row.rowid).toList (joinReasons (blobRowReasons row))]

/-- A text from which a relative path can be read. -/
def decodeRelativePath (v : Value) : Option SourceRelativePath :=
  v.toText.bind fun s => (SourceRelativePath.fromCatalogText s).toOption

/-- Disagreement of a source row with the decoded row of its blob. -/
def blobDisagreement (valid : List CatalogBlob) (row : SourceFileRow) : List Text :=
  match decodeHash row.blobHash, decodeSize row.sizeBytes with
  | some hash, some size => match valid.find? (·.hash = hash) with
    | some b => if b.sizeBytes ≠ size then ["blob-size-disagreement".toList] else []
    | none => ["missing-valid-blob".toList]
  | _, _ => []

/-- A text that is not empty, in whatever encoding. -/
def isNonemptyText : Value → Bool
  | .text bytes => decide (bytes ≠ [])
  | _ => false

/-- Both times are known and the first is after the last. -/
def reversedTimes (first last : Option ℤ) : Bool :=
  match first, last with
  | some a, some b => decide (b < a)
  | _, _ => false

def isPositive : Value → Bool
  | .integer v => decide (0 < v)
  | _ => false

def sourceRowReasons (valid : List CatalogBlob) (row : SourceFileRow) : List Text :=
  reasonsOf
    [(!isNonemptyText row.sourceRoot, "invalid-source-root"),
     ((decodeRelativePath row.relativePath).isNone, "invalid-relative-path"),
     ((decodeHash row.blobHash).isNone, "invalid-blob-hash"),
     ((decodeSize row.sizeBytes).isNone, "invalid-size"),
     ((decodeMark row.modifiedAtMs).isNone, "invalid-modified-at"),
     ((decodeInteger row.firstSeenAtMs).isNone, "invalid-first-seen"),
     ((decodeInteger row.lastSeenAtMs).isNone, "invalid-last-seen"),
     (reversedTimes (decodeInteger row.firstSeenAtMs) (decodeInteger row.lastSeenAtMs),
       "reversed-seen-times"),
     (!isPositive row.seenCount, "invalid-seen-count")] ++
  blobDisagreement valid row

def sourceRowFindings (valid : List CatalogBlob) (row : SourceFileRow) : List IntegrityFinding :=
  if sourceRowReasons valid row = [] then []
  else [.new .invalidSourceRow (toString row.id).toList
    (joinReasons (sourceRowReasons valid row))]

/-- Read and check everything. No part of it changes the catalog. -/
def inspectCatalogConnection (c : Catalog) : CatalogAuditSnapshot where
  blobRowsSeen := c.blobs.length
  gcCandidates := c.blobs.countP fun r => (decodeInteger r.deletedAtMs).isSome
  validBlobs := validBlobs c
  findings := integrityFindings c ++ foreignKeyFindings c ++ validateSchema c.schema ++
    c.blobs.flatMap blobRowFindings ++ c.sourceFiles.flatMap (sourceRowFindings (validBlobs c))

/-! ## Decoding -/

@[simp] theorem decodeHash_eq_some {v : Value} {h : BlobHash} :
    decodeHash v = some h ↔ v = h.value := by
  simp only [decodeHash, Option.bind_eq_some_iff, Value.toText_eq_some]
  constructor
  · rintro ⟨s, rfl, hs⟩
    cases hnew : BlobHash.new s with
    | error e => simp [hnew, Except.toOption] at hs
    | ok h' =>
        obtain rfl : h' = h := by simpa [hnew, Except.toOption] using hs
        rw [BlobHash.value, BlobHash.new_eq_ok_iff.mp hnew]
  · rintro rfl
    exact ⟨h.text, rfl, by simp [Except.toOption]⟩

@[simp] theorem decodeHash_value (h : BlobHash) : decodeHash h.value = some h :=
  decodeHash_eq_some.mpr rfl

@[simp] theorem decodeSize_eq_some {v : Value} {n : ℕ} :
    decodeSize v = some n ↔ v = .integer n := by
  cases v with
  | integer v =>
      simp only [decodeSize, Value.integer.injEq]
      split
      · rw [Option.some.injEq]; omega
      · refine iff_of_false (by simp) ?_
        rintro rfl
        simp at *
  | _ => simp [decodeSize]

@[simp] theorem decodeInteger_eq_some {v : Value} {n : ℤ} :
    decodeInteger v = some n ↔ v = .integer n := by
  cases v <;> simp [decodeInteger]

@[simp] theorem decodeMark_eq_some {v : Value} {m : Option ℤ} :
    decodeMark v = some m ↔ v = .ofOption m := by
  cases v <;> cases m <;> simp [decodeMark, Value.ofOption]

@[simp] theorem decodeRelativePath_eq_some {v : Value} {r : SourceRelativePath} :
    decodeRelativePath v = some r ↔
      v = .ofText r.text ∧ SourceRelativePath.fromCatalogText r.text = .ok r := by
  simp only [decodeRelativePath, Option.bind_eq_some_iff, Value.toText_eq_some]
  constructor
  · rintro ⟨s, rfl, hs⟩
    cases hnew : SourceRelativePath.fromCatalogText s with
    | error e => simp [hnew, Except.toOption] at hs
    | ok r' =>
        obtain rfl : r' = r := by simpa [hnew, Except.toOption] using hs
        obtain rfl := SourceRelativePath.text_of_fromCatalogText hnew
        exact ⟨rfl, hnew⟩
  · rintro ⟨rfl, hr⟩
    exact ⟨r.text, rfl, by simp [hr, Except.toOption]⟩

theorem decodeBlobRow_eq_some_iff {c : Catalog} {row : BlobRow} {b : CatalogBlob} :
    decodeBlobRow c row = some b ↔ row.hash = b.hash.value ∧
      row.sizeBytes = .integer b.sizeBytes ∧ (∃ v, row.createdAtMs = .integer v) ∧
      row.deletedAtMs = .ofOption b.markedAtMs ∧
      b.referenced = decide (c.Referenced b.hash.value) := by
  simp only [decodeBlobRow, Option.bind_eq_bind, Option.bind_eq_some_iff, decodeHash_eq_some,
    decodeSize_eq_some, decodeInteger_eq_some, decodeMark_eq_some, Option.pure_def,
    Option.some.injEq]
  constructor
  · rintro ⟨h, hh, n, hn, v, hv, m, hm, rfl⟩
    exact ⟨hh, hn, ⟨v, hv⟩, hm, by rw [hh]⟩
  · rintro ⟨hh, hn, ⟨v, hv⟩, hm, href⟩
    exact ⟨b.hash, hh, b.sizeBytes, hn, v, hv, b.markedAtMs, hm, by rw [hh, ← href]⟩

theorem reasonsOf_eq_nil {checks : List (Bool × String)} :
    reasonsOf checks = [] ↔ ∀ k ∈ checks, k.1 = false := by
  simp [reasonsOf, List.filter_eq_nil_iff]

theorem blobRowReasons_eq_nil_iff {c : Catalog} {row : BlobRow} :
    blobRowReasons row = [] ↔ ∃ b, decodeBlobRow c row = some b := by
  simp only [blobRowReasons, reasonsOf_eq_nil, List.forall_mem_cons, List.not_mem_nil,
    false_imp_iff, implies_true, and_true, Option.isNone_eq_false_iff, Option.isSome_iff_exists,
    decodeHash_eq_some, decodeSize_eq_some, decodeInteger_eq_some, decodeMark_eq_some,
    decodeBlobRow_eq_some_iff]
  constructor
  · rintro ⟨⟨h, hh⟩, ⟨n, hn⟩, hv, ⟨m, hm⟩⟩
    exact ⟨⟨h, n, m, decide (c.Referenced h.value)⟩, hh, hn, hv, hm, rfl⟩
  · rintro ⟨b, hh, hn, hv, hm, -⟩
    exact ⟨⟨_, hh⟩, ⟨_, hn⟩, hv, ⟨_, hm⟩⟩

theorem hash_of_decodeBlobRow {c : Catalog} {row : BlobRow} {b : CatalogBlob}
    (h : decodeBlobRow c row = some b) : row.hash = b.hash.value :=
  (decodeBlobRow_eq_some_iff.mp h).1

/-- Inserting blobs with different hashes keeps all of them. -/
theorem foldl_insertBlob {blobs acc : List CatalogBlob} (h : ((acc ++ blobs).map (·.hash)).Nodup) :
    blobs.foldl insertBlob acc = acc ++ blobs := by
  induction blobs generalizing acc with
  | nil => simp
  | cons b blobs ih =>
      have hkeep : acc.filter (·.hash ≠ b.hash) = acc := by
        rw [List.filter_eq_self]
        intro a ha
        rw [List.map_append, List.nodup_append] at h
        simpa using h.2.2 a.hash (List.mem_map_of_mem ha) b.hash (by simp)
      rw [List.foldl_cons, insertBlob, hkeep, ih (by simpa using h), List.append_assoc,
        List.singleton_append]

/-- A hash has one blob, whatever the rows say. -/
theorem nodup_validBlobs (c : Catalog) : ((validBlobs c).map (·.hash)).Nodup := by
  suffices key : ∀ (blobs acc : List CatalogBlob), (acc.map (·.hash)).Nodup →
      ((blobs.foldl insertBlob acc).map (·.hash)).Nodup from key _ [] List.nodup_nil
  intro blobs
  induction blobs with
  | nil => exact fun acc h => h
  | cons b blobs ih =>
      intro acc h
      refine ih _ ?_
      rw [insertBlob, List.map_append, List.map_singleton]
      refine List.nodup_append.2
        ⟨h.sublist (List.filter_sublist.map _), List.nodup_singleton _, ?_⟩
      intro hash hmem hash' hsame
      obtain ⟨b', hb', rfl⟩ := List.mem_map.1 hmem
      rw [List.mem_singleton.1 hsame]
      exact of_decide_eq_true (List.mem_filter.1 hb').2

/-- A hash has one decoded row at most. -/
theorem eq_of_mem_validBlobs {c : Catalog} {b b' : CatalogBlob} (hb : b ∈ validBlobs c)
    (hb' : b' ∈ validBlobs c) (heq : b.hash = b'.hash) : b = b' :=
  List.inj_on_of_nodup_map (nodup_validBlobs c) hb hb' heq

/-- The blob of a hash is found by its hash. -/
theorem find?_validBlobs {c : Catalog} {h : BlobHash} {b : CatalogBlob} :
    (validBlobs c).find? (·.hash = h) = some b ↔ b ∈ validBlobs c ∧ b.hash = h := by
  constructor
  · intro hfind
    exact ⟨List.mem_of_find?_eq_some hfind, by simpa using List.find?_some hfind⟩
  · rintro ⟨hb, hh⟩
    obtain ⟨b', hb'⟩ : ∃ b', (validBlobs c).find? (·.hash = h) = some b' := by
      rw [← Option.isSome_iff_exists, List.find?_isSome]
      exact ⟨b, hb, by simpa using hh⟩
    have hmem := List.mem_of_find?_eq_some hb'
    have hhash : b'.hash = h := by simpa using List.find?_some hb'
    rw [hb', eq_of_mem_validBlobs hmem hb (hhash.trans hh.symm)]

/-! ## Catalogs without findings -/

/-- What the checks of a source row say, with the row of its blob at hand. -/
structure SourceRowSound (c : Catalog) (s : SourceFileRow) : Prop where
  sourceRoot : ∃ b, s.sourceRoot = .text b ∧ b ≠ []
  relativePath : ∃ r, s.relativePath = .ofText r.text ∧
    SourceRelativePath.fromCatalogText r.text = .ok r
  blob : ∃ h n, s.blobHash = BlobHash.value h ∧ s.sizeBytes = .integer (n : ℕ) ∧
    ∃ b ∈ c.blobs, b.hash = h.value ∧ b.sizeBytes = .integer n
  modifiedAtMs : ∃ m, s.modifiedAtMs = .ofOption m
  seen : ∃ a b, s.firstSeenAtMs = .integer a ∧ s.lastSeenAtMs = .integer b ∧ a ≤ b
  seenCount : ∃ v, s.seenCount = .integer v ∧ 0 < v

/-- A catalog in which the inspection finds nothing. -/
structure Catalog.Sound (c : Catalog) : Prop where
  damage : c.damage = []
  schema : validateSchema c.schema = []
  hashes : (c.blobs.map (·.hash)).Nodup
  paths : (c.sourceFiles.map fun s => (s.sourceRoot, s.relativePath)).Nodup
  blobRow : ∀ row ∈ c.blobs, ∃ b, decodeBlobRow c row = some b
  sourceRow : ∀ s ∈ c.sourceFiles, SourceRowSound c s

/-- The decoded rows of a catalog whose rows are all valid and unique. -/
theorem validBlobs_eq {c : Catalog} (hashes : (c.blobs.map (·.hash)).Nodup) :
    validBlobs c = c.blobs.filterMap (decodeBlobRow c) := by
  rw [validBlobs, foldl_insertBlob, List.nil_append]
  rw [List.nil_append]
  have hsub : ∀ rows : List BlobRow, (rows.map (·.hash)).Nodup →
      ((rows.filterMap (decodeBlobRow c)).map (·.hash)).Nodup := by
    intro rows
    induction rows with
    | nil => simp
    | cons row rows ih =>
        intro h
        rw [List.map_cons, List.nodup_cons] at h
        cases hdec : decodeBlobRow c row with
        | none => simpa [hdec] using ih h.2
        | some b =>
            rw [List.filterMap_cons_some hdec, List.map_cons, List.nodup_cons]
            refine ⟨?_, ih h.2⟩
            intro hmem
            obtain ⟨b', hb', heq⟩ := List.mem_map.mp hmem
            obtain ⟨row', hrow', hdec'⟩ := List.mem_filterMap.mp hb'
            apply h.1
            rw [hash_of_decodeBlobRow hdec, ← heq, ← hash_of_decodeBlobRow hdec']
            exact List.mem_map_of_mem hrow'
  exact hsub _ hashes

theorem mem_validBlobs {c : Catalog} (hashes : (c.blobs.map (·.hash)).Nodup) {b : CatalogBlob} :
    b ∈ validBlobs c ↔ ∃ row ∈ c.blobs, decodeBlobRow c row = some b := by
  rw [validBlobs_eq hashes, List.mem_filterMap]

theorem blobDisagreement_eq_nil_iff {c : Catalog} (hashes : (c.blobs.map (·.hash)).Nodup)
    (hrows : ∀ row ∈ c.blobs, ∃ b, decodeBlobRow c row = some b) {s : SourceFileRow}
    {h : BlobHash} {n : ℕ} (hh : s.blobHash = h.value) (hn : s.sizeBytes = .integer n) :
    blobDisagreement (validBlobs c) s = [] ↔
      ∃ row ∈ c.blobs, row.hash = h.value ∧ row.sizeBytes = .integer n := by
  have hdec : decodeHash s.blobHash = some h := decodeHash_eq_some.mpr hh
  have hsize : decodeSize s.sizeBytes = some n := decodeSize_eq_some.mpr hn
  simp only [blobDisagreement, hdec, hsize]
  constructor
  · intro hnil
    cases hfind : (validBlobs c).find? (·.hash = h) with
    | none => simp [hfind] at hnil
    | some b =>
        obtain ⟨hb, rfl⟩ := find?_validBlobs.mp hfind
        obtain ⟨row, hrow, hdecRow⟩ := (mem_validBlobs hashes).mp hb
        obtain ⟨hrowHash, hrowSize, -⟩ := decodeBlobRow_eq_some_iff.mp hdecRow
        have hbn : b.sizeBytes = n := by
          by_contra hne
          simp [hfind, hne] at hnil
        exact ⟨row, hrow, hrowHash, hbn ▸ hrowSize⟩
  · rintro ⟨row, hrow, hrowHash, hrowSize⟩
    obtain ⟨b, hdecRow⟩ := hrows row hrow
    obtain ⟨hbHash, hbSize, -⟩ := decodeBlobRow_eq_some_iff.mp hdecRow
    have hb : b.hash = h := BlobHash.value_inj.mp (hbHash.symm.trans hrowHash)
    have hbn : b.sizeBytes = n :=
      Int.ofNat_inj.mp (Value.integer.inj (hbSize.symm.trans hrowSize))
    have hmem := (mem_validBlobs hashes).mpr ⟨row, hrow, hdecRow⟩
    have hfind := find?_validBlobs.mpr ⟨hmem, hb⟩
    simp [hfind, hbn]

theorem reversedTimes_eq_false {first last : Value} {a b : ℤ} (ha : first = .integer a)
    (hb : last = .integer b) :
    reversedTimes (decodeInteger first) (decodeInteger last) = false ↔ a ≤ b := by
  subst ha hb
  simp [reversedTimes, decodeInteger]

theorem isPositive_eq_true {v : Value} : isPositive v = true ↔ ∃ n, v = .integer n ∧ 0 < n := by
  cases v <;> simp [isPositive]

theorem isNonemptyText_eq_true {v : Value} :
    isNonemptyText v = true ↔ ∃ b, v = .text b ∧ b ≠ [] := by
  cases v <;> simp [isNonemptyText]

theorem sourceRowReasons_eq_nil_iff {c : Catalog} (hashes : (c.blobs.map (·.hash)).Nodup)
    (hrows : ∀ row ∈ c.blobs, ∃ b, decodeBlobRow c row = some b) {s : SourceFileRow} :
    sourceRowReasons (validBlobs c) s = [] ↔ SourceRowSound c s := by
  simp only [sourceRowReasons, List.append_eq_nil_iff, reasonsOf_eq_nil, List.forall_mem_cons,
    List.not_mem_nil, false_imp_iff, implies_true, and_true, Option.isNone_eq_false_iff,
    Option.isSome_iff_exists, decodeHash_eq_some, decodeSize_eq_some, decodeInteger_eq_some,
    decodeMark_eq_some, decodeRelativePath_eq_some, Bool.not_eq_false', isPositive_eq_true,
    isNonemptyText_eq_true]
  constructor
  · rintro ⟨⟨hroot, hpath, ⟨h, hh⟩, ⟨n, hn⟩, hmod, ⟨a, ha⟩, ⟨b, hb⟩, hrev, hseen⟩, hdis⟩
    refine ⟨hroot, hpath, ⟨h, n, hh, hn, ?_⟩, hmod, ⟨a, b, ha, hb, ?_⟩, hseen⟩
    · exact (blobDisagreement_eq_nil_iff hashes hrows hh hn).mp hdis
    · exact (reversedTimes_eq_false ha hb).mp hrev
  · rintro ⟨hroot, hpath, ⟨h, n, hh, hn, hblob⟩, hmod, ⟨a, b, ha, hb, hab⟩, hseen⟩
    exact ⟨⟨hroot, hpath, ⟨h, hh⟩, ⟨n, hn⟩, hmod, ⟨a, ha⟩, ⟨b, hb⟩,
      (reversedTimes_eq_false ha hb).mpr hab, hseen⟩,
      (blobDisagreement_eq_nil_iff hashes hrows hh hn).mpr hblob⟩

theorem uniquenessViolations_eq_nil_iff {c : Catalog} : c.uniquenessViolations = [] ↔
    ((c.blobs.map (·.hash)).filter (· ≠ .null)).Nodup ∧
      ((c.sourceFiles.map fun s => (s.sourceRoot, s.relativePath)).filter
        fun k => k.1 ≠ .null ∧ k.2 ≠ .null).Nodup := by
  simp only [Catalog.uniquenessViolations, List.append_eq_nil_iff]
  constructor
  · rintro ⟨h, h'⟩
    constructor
    · by_contra hnot; rw [if_neg hnot] at h; simp at h
    · by_contra hnot; rw [if_neg hnot] at h'; simp at h'
  · rintro ⟨h, h'⟩
    exact ⟨if_pos h, if_pos h'⟩

theorem sourceRowFindings_eq_nil_iff {valid : List CatalogBlob} {s : SourceFileRow} :
    sourceRowFindings valid s = [] ↔ sourceRowReasons valid s = [] := by
  simp [sourceRowFindings]

theorem blobRowFindings_eq_nil_iff {row : BlobRow} :
    blobRowFindings row = [] ↔ blobRowReasons row = [] := by
  simp [blobRowFindings]

/-- The key columns of valid rows are not null, so uniqueness is that of the columns. -/
theorem filter_ne_null_hashes {c : Catalog}
    (hrows : ∀ row ∈ c.blobs, ∃ b, decodeBlobRow c row = some b) :
    (c.blobs.map (·.hash)).filter (· ≠ .null) = c.blobs.map (·.hash) := by
  rw [List.filter_eq_self]
  intro v hv
  obtain ⟨row, hrow, rfl⟩ := List.mem_map.mp hv
  obtain ⟨b, hb⟩ := hrows row hrow
  simp [hash_of_decodeBlobRow hb]

theorem filter_ne_null_paths {c : Catalog} (hrows : ∀ s ∈ c.sourceFiles, SourceRowSound c s) :
    (c.sourceFiles.map fun s => (s.sourceRoot, s.relativePath)).filter
      (fun k => k.1 ≠ .null ∧ k.2 ≠ .null) =
        c.sourceFiles.map fun s => (s.sourceRoot, s.relativePath) := by
  rw [List.filter_eq_self]
  intro k hk
  obtain ⟨s, hs, rfl⟩ := List.mem_map.mp hk
  obtain ⟨b, hb, -⟩ := (hrows s hs).sourceRoot
  obtain ⟨r, hr, -⟩ := (hrows s hs).relativePath
  simp [hb, hr]

theorem foreignKeyFindings_eq_nil {c : Catalog} (hrows : ∀ s ∈ c.sourceFiles, SourceRowSound c s) :
    foreignKeyFindings c = [] := by
  rw [foreignKeyFindings, List.map_eq_nil_iff, List.filter_eq_nil_iff]
  intro s hs hmissing
  obtain ⟨h, n, hh, -, b, hb, hbh, -⟩ := (hrows s hs).blob
  obtain ⟨-, hnone⟩ := of_decide_eq_true hmissing
  exact hnone b hb (by rw [hh, Value.equals_value]; exact hbh)

/-- The inspection finds nothing exactly in a sound catalog. -/
theorem findings_inspectCatalogConnection_eq_nil_iff {c : Catalog} :
    (inspectCatalogConnection c).findings = [] ↔ c.Sound := by
  simp only [inspectCatalogConnection, List.append_eq_nil_iff, List.flatMap_eq_nil_iff,
    blobRowFindings_eq_nil_iff, sourceRowFindings_eq_nil_iff, integrityFindings,
    List.map_eq_nil_iff, blobRowReasons_eq_nil_iff (c := c), uniquenessViolations_eq_nil_iff]
  constructor
  · rintro ⟨⟨⟨⟨⟨hdamage, hhashes, hpaths⟩, -⟩, hschema⟩, hrows⟩, hsources⟩
    rw [filter_ne_null_hashes hrows] at hhashes
    have hsound := fun s hs => (sourceRowReasons_eq_nil_iff hhashes hrows).mp (hsources s hs)
    rw [filter_ne_null_paths hsound] at hpaths
    exact ⟨hdamage, hschema, hhashes, hpaths, hrows, hsound⟩
  · rintro ⟨hdamage, hschema, hhashes, hpaths, hrows, hsources⟩
    refine ⟨⟨⟨⟨⟨hdamage, ?_, ?_⟩, foreignKeyFindings_eq_nil hsources⟩, hschema⟩, hrows⟩, ?_⟩
    · rwa [filter_ne_null_hashes hrows]
    · rwa [filter_ne_null_paths hsources]
    · exact fun s hs => (sourceRowReasons_eq_nil_iff hhashes hrows).mpr (hsources s hs)

end MediaImporter
