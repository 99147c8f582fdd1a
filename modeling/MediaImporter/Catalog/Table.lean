import MediaImporter.Paths

/-!
# The catalog database

The catalog is an SQLite database with two tables. A column can hold any value, whatever
type it was declared with, so a row is a record of values and nothing is assumed about
them. What the engine itself answers about the database, such as the text of the schema
or the pages it finds damaged, is kept beside the tables.

A text compares equal to a text with the same bytes, and to nothing else; a null compares
equal to nothing.

## Main definitions

* `Value`, `BlobRow`, `SourceFileRow`, `Catalog` — the tables.
* `Catalog.Referenced` — a source row names the blob.
* `schemaV1`, `Catalog.fresh` — the catalog a first import creates.
-/

namespace MediaImporter

open Utf8 UnixPath

/-- An SQLite value. A floating-point number is kept as its bits. -/
inductive Value
  | null
  | integer (value : ℤ)
  | real (bits : UInt64)
  | text (bytes : Bytes)
  | blob (bytes : Bytes)
  deriving DecidableEq, Repr

/-- SQLite's `x + 1`, for which only the sum of integers in range is known. -/
class SqlArithmetic where
  addOne : Value → Value
  addOne_integer : ∀ v : ℤ, v + 1 < 2 ^ 63 → addOne (.integer v) = .integer (v + 1)

namespace Value

/-- A comparison `a = b` that is true, not false and not unknown. -/
def Equals (a b : Value) : Prop := a = b ∧ a ≠ null

instance (a b : Value) : Decidable (Equals a b) := inferInstanceAs (Decidable (_ ∧ _))

@[simp] theorem equals_text {a : Value} {bytes : Bytes} :
    Equals a (.text bytes) ↔ a = .text bytes := by
  constructor
  · exact And.left
  · rintro rfl; exact ⟨rfl, by simp⟩

@[simp] theorem equals_integer {a : Value} {v : ℤ} : Equals a (.integer v) ↔ a = .integer v := by
  constructor
  · exact And.left
  · rintro rfl; exact ⟨rfl, by simp⟩

/-- A nullable integer parameter. -/
def ofOption : Option ℤ → Value
  | none => null
  | some v => integer v

/-- A text parameter. -/
def ofText (s : Text) : Value := text (utf8 s)

@[simp] theorem ofText_inj {s t : Text} : ofText s = ofText t ↔ s = t := by simp [ofText]

@[simp] theorem ofText_ne_null {s : Text} : ofText s ≠ null := by simp [ofText]

@[simp] theorem equals_ofText {a : Value} {s : Text} : Equals a (ofText s) ↔ a = ofText s :=
  equals_text

/-- The text a column holds, if it holds one. -/
def toText : Value → Option Text
  | .text bytes => ofUtf8 bytes
  | _ => none

@[simp] theorem toText_eq_some {a : Value} {s : Text} : a.toText = some s ↔ a = ofText s := by
  cases a <;> simp [toText, ofText, ofUtf8_eq_some_iff]

end Value

/-- The column value of a hash. -/
def BlobHash.value (h : BlobHash) : Value := .ofText h.text

@[simp] theorem BlobHash.value_inj {h h' : BlobHash} : h.value = h'.value ↔ h = h' := by
  simp [BlobHash.value, BlobHash.ext_iff]

@[simp] theorem BlobHash.value_ne_null (h : BlobHash) : h.value ≠ .null := by
  simp [BlobHash.value]

@[simp] theorem Value.equals_value {a : Value} {h : BlobHash} : Equals a h.value ↔ a = h.value :=
  equals_ofText

structure BlobRow where
  rowid : ℤ
  hash : Value
  sizeBytes : Value
  createdAtMs : Value
  deletedAtMs : Value
  deriving DecidableEq

structure SourceFileRow where
  id : ℤ
  sourceRoot : Value
  relativePath : Value
  blobHash : Value
  sizeBytes : Value
  modifiedAtMs : Value
  firstSeenAtMs : Value
  lastSeenAtMs : Value
  seenCount : Value
  deriving DecidableEq

/-! ## What the engine says about the schema -/

structure ColumnShape where
  name : Text
  declaredType : Text
  notNull : Bool
  primaryKey : ℤ
  deriving DecidableEq

structure SchemaObject where
  kind : Text
  name : Text
  sql : Text
  deriving DecidableEq

structure IndexShape where
  name : Text
  unique : Text
  origin : Text
  deriving DecidableEq

/-- The answers of the schema pragmas, each for the table or the index it is asked about. -/
structure Schema where
  userVersion : ℤ
  journalMode : Text
  objects : List SchemaObject
  tableInfo : Text → List ColumnShape
  foreignKeys : Text → List (List Text)
  indexes : Text → List IndexShape
  indexColumns : Text → List Text

/-- A catalog database. `damage` are the complaints of the engine's integrity check that
do not follow from the rows. -/
@[ext] structure Catalog where
  schema : Schema
  damage : List Text
  blobs : List BlobRow
  sourceFiles : List SourceFileRow

def currentSchemaVersion : ℤ := 1

namespace Catalog

/-- `EXISTS (SELECT 1 FROM source_files WHERE source_files.blob_hash = ...)`. -/
def Referenced (c : Catalog) (hash : Value) : Prop :=
  ∃ s ∈ c.sourceFiles, s.blobHash.Equals hash

instance (c : Catalog) (hash : Value) : Decidable (c.Referenced hash) :=
  inferInstanceAs (Decidable (∃ s ∈ c.sourceFiles, _))

theorem referenced_value {c : Catalog} {h : BlobHash} :
    c.Referenced h.value ↔ ∃ s ∈ c.sourceFiles, s.blobHash = h.value := by
  simp [Referenced]

end Catalog

/-! ## The schema the program creates -/

def createBlobsSql : Text :=
  ("CREATE TABLE blobs (\n    hash TEXT PRIMARY KEY CHECK(length(hash) = 64),\n" ++
   "    size_bytes INTEGER NOT NULL,\n    created_at_ms INTEGER NOT NULL,\n" ++
   "    deleted_at_ms INTEGER\n)").toList

def createSourceFilesSql : Text :=
  ("CREATE TABLE source_files (\n    id INTEGER PRIMARY KEY,\n" ++
   "    source_root TEXT NOT NULL CHECK(length(source_root) > 0),\n" ++
   "    relative_path TEXT NOT NULL CHECK(\n        length(relative_path) > 0\n" ++
   "        AND substr(relative_path, 1, 1) != '/'\n    ),\n" ++
   "    blob_hash TEXT NOT NULL REFERENCES blobs(hash),\n" ++
   "    size_bytes INTEGER NOT NULL,\n    modified_at_ms INTEGER,\n" ++
   "    first_seen_at_ms INTEGER NOT NULL,\n    last_seen_at_ms INTEGER NOT NULL,\n" ++
   "    seen_count INTEGER NOT NULL DEFAULT 1,\n" ++
   "    UNIQUE(source_root, relative_path)\n)").toList

def createIndexSql : Text :=
  "CREATE INDEX idx_source_files_blob_hash\nON source_files(blob_hash)".toList

def column (name declaredType : String) (notNull : Bool) (primaryKey : ℤ) : ColumnShape :=
  { name := name.toList, declaredType := declaredType.toList, notNull, primaryKey }

def blobsColumns : List ColumnShape :=
  [column "hash" "TEXT" false 1, column "size_bytes" "INTEGER" true 0,
   column "created_at_ms" "INTEGER" true 0, column "deleted_at_ms" "INTEGER" false 0]

def sourceFilesColumns : List ColumnShape :=
  [column "id" "INTEGER" false 1, column "source_root" "TEXT" true 0,
   column "relative_path" "TEXT" true 0, column "blob_hash" "TEXT" true 0,
   column "size_bytes" "INTEGER" true 0, column "modified_at_ms" "INTEGER" false 0,
   column "first_seen_at_ms" "INTEGER" true 0, column "last_seen_at_ms" "INTEGER" true 0,
   column "seen_count" "INTEGER" true 0]

/-- What the engine answers after `schema_v1.sql` and the writer's pragmas. -/
def schemaV1 : Schema where
  userVersion := currentSchemaVersion
  journalMode := "wal".toList
  objects :=
    [⟨"index".toList, "idx_source_files_blob_hash".toList, createIndexSql⟩,
     ⟨"table".toList, "blobs".toList, createBlobsSql⟩,
     ⟨"table".toList, "source_files".toList, createSourceFilesSql⟩]
  tableInfo table :=
    if table = "blobs".toList then blobsColumns
    else if table = "source_files".toList then sourceFilesColumns else []
  foreignKeys table :=
    if table = "source_files".toList then
      [["blobs".toList, "blob_hash".toList, "hash".toList, "NO ACTION".toList,
        "NO ACTION".toList]]
    else []
  indexes table :=
    if table = "source_files".toList then
      [⟨"idx_source_files_blob_hash".toList, "0".toList, "c".toList⟩,
       ⟨"sqlite_autoindex_source_files_1".toList, "1".toList, "u".toList⟩]
    else if table = "blobs".toList then
      [⟨"sqlite_autoindex_blobs_1".toList, "1".toList, "pk".toList⟩]
    else []
  indexColumns index :=
    if index = "idx_source_files_blob_hash".toList then ["blob_hash".toList]
    else if index = "sqlite_autoindex_source_files_1".toList then
      ["source_root".toList, "relative_path".toList]
    else if index = "sqlite_autoindex_blobs_1".toList then ["hash".toList]
    else []

/-- A catalog that was just created. -/
def Catalog.fresh : Catalog := ⟨schemaV1, [], [], []⟩

end MediaImporter
