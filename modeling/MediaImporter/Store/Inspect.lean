import MediaImporter.Store.Staging
import MediaImporter.Integrity

/-!
# Inspecting the CAS

The CAS directory is walked from its root. An entry is a shard directory, a blob file in
the shards its name begins with, or an invalid entry; what lies below an invalid directory
is walked too, and is invalid as well. Reading can fail at any path. The walk goes on after
a failure and is then not complete.

Nothing here changes the store, so the functions read it through a `StoreReader`: the store
and the reads that fail. That the CAS directory is a real directory was checked when the
configuration of the command was made.

## Main definitions

* `StoreReader` — a store that is read, with failures.
* `classifyCasEntry`, `inspectCas` — the walk.
* `complete_inspectCas` — a walk without findings is complete.
-/

namespace MediaImporter

open Utf8 UnixPath PathOrder

/-! ## Reading a store -/

/-- What can fail to be read. -/
inductive ReadCall
  /-- Open a directory. -/
  | readDir (path : List Name)
  /-- Take the next entry from an open directory. -/
  | readEntry (path : List Name)
  | metadata (path : List Name)
  | openFile (path : List Name)
  | content (path : List Name)
  deriving DecidableEq

/-- A store that is read, and the reads that fail. -/
structure StoreReader where
  store : Store
  fails : ReadCall → Bool

/-- What distinguishes a file from another one that takes its place. -/
structure BlobFileIdentity where
  len : ℕ
  inode : ℕ
  deriving DecidableEq

/-- The identity of a regular file. -/
def BlobFileIdentity.fromMetadata : Metadata Bytes → Option BlobFileIdentity
  | ⟨.file inode, len⟩ => some ⟨len, inode⟩
  | _ => none

namespace StoreReader

variable (r : StoreReader)

/-- The entries of a directory, in the order of their names. -/
def readDir (path : List Name) : Except Text (List (List Name)) :=
  if r.fails (.readDir path) = true ∨ r.store.tree.lookup path ≠ some .directory then
    .error "enumerate blobs directory".toList
  else if r.fails (.readEntry path) = true then .error "enumerate CAS entry".toList
  else .ok (sortPaths (r.store.tree.children path))

def symlinkMetadata (path : List Name) : Except IoError (Metadata Bytes) :=
  if r.fails (.metadata path) then .error .fault else r.store.symlinkMetadata path

/-- Open a blob for reading; it must be a regular file. -/
def openBlobNoFollow (hash : BlobHash) : Except IoError BlobFileIdentity :=
  if r.fails (.openFile (blobPath hash)) then .error .fault
  else match r.store.openNoFollow (blobPath hash) with
    | .error e => .error e
    | .ok metadata => match BlobFileIdentity.fromMetadata metadata with
      | some identity => .ok identity
      | none => .error .fault

/-- Read an open blob to its end. -/
def readBlob (hash : BlobHash) (identity : BlobFileIdentity) : Except IoError Bytes :=
  if r.fails (.content (blobPath hash)) then .error .fault
  else .ok (r.store.data identity.inode)

end StoreReader

/-! ## Classification -/

inductive EntryKind
  | file
  | directory
  | symlink
  | other
  deriving DecidableEq, Repr

def EntryKind.fromNode : FileNode ℕ Bytes → EntryKind
  | .symlink _ => .symlink
  | .directory => .directory
  | .file _ => .file
  | .other => .other

inductive CasClassification
  | validDirectory
  | validBlob (hash : BlobHash)
  | invalid (reason : String)
  deriving DecidableEq

/-- Two lowercase hexadecimal digits. -/
def validShard (value : Name) : Bool :=
  match ofUtf8 value with
  | some text => decide (text.length = 2 ∧ ∀ c ∈ text, isLowerHex c)
  | none => false

/-- A regular file in two shard directories, with this name. -/
def classifyBlobFile (shard₁ shard₂ name : Name) : CasClassification :=
  if ¬ (validShard shard₁ = true ∧ validShard shard₂ = true) then .invalid "invalid-shard"
  else match ofUtf8 name with
    | none => .invalid "invalid-blob-name"
    | some text => match BlobHash.new text with
      | .error _ => .invalid "invalid-blob-name"
      | .ok hash =>
          if [shard₁, shard₂, name] = blobNames hash then .validBlob hash
          else .invalid "shard-mismatch"

/-- The components are those below the CAS directory. -/
def classifyCasEntry (components : List Name) (kind : EntryKind) (ancestorsValid : Bool) :
    CasClassification :=
  match kind with
  | .symlink => .invalid "symlink"
  | .other => .invalid "non-regular"
  | .directory =>
      if ancestorsValid = false then .invalid "malformed-ancestor"
      else if components.length ≤ 2 ∧ components.all validShard then .validDirectory
      else if 3 ≤ components.length then .invalid "directory-at-blob-depth"
      else .invalid "invalid-shard"
  | .file =>
      if ancestorsValid = false then .invalid "malformed-ancestor"
      else match components with
        | [shard₁, shard₂, name] => classifyBlobFile shard₁ shard₂ name
        | _ => .invalid "file-at-invalid-depth"

/-! ## The walk -/

/-- The valid blobs in the order of the walk, and whether everything could be read. -/
structure CasInspection where
  validBlobs : List BlobHash
  findings : List IntegrityFinding
  complete : Bool

namespace CasInspection

def empty : CasInspection := ⟨[], [], true⟩

def append (i j : CasInspection) : CasInspection :=
  ⟨i.validBlobs ++ j.validBlobs, i.findings ++ j.findings, i.complete && j.complete⟩

/-- Something could not be read. -/
def ioError (path : List Name) (details : Text) : CasInspection :=
  ⟨[], [.forPath .casIoError path details], false⟩

/-- What the walk of a directory found, or that it could not be enumerated. -/
def ofWalk (path : List Name) : Except Text CasInspection → CasInspection
  | .ok inspection => inspection
  | .error context => ioError path ("reason=enumeration-failed context=".toList ++ context)

end CasInspection

/-- Visit an entry, whose path is relative to the CAS directory. -/
def visitEntry (r : StoreReader) (walk : List Name → Bool → Except Text CasInspection)
    (ancestorsValid : Bool) (relative : List Name) : CasInspection :=
  match r.symlinkMetadata (blobsName :: relative) with
  | .error _ => .ioError relative "reason=stat-failed".toList
  | .ok metadata =>
      match classifyCasEntry relative (.fromNode metadata.node) ancestorsValid with
      | .validDirectory => .ofWalk relative (walk relative true)
      | .invalid reason =>
          CasInspection.append
            ⟨[], [.forPath .invalidCasEntry relative ("reason=" ++ reason).toList], true⟩
            (if metadata.node = .directory then .ofWalk relative (walk relative false)
              else .empty)
      | .validBlob hash => ⟨[hash], [], true⟩

/-- Walk a directory. The number bounds how deep the tree below it is. -/
def walkCas (r : StoreReader) : ℕ → List Name → Bool → Except Text CasInspection
  | 0, _, _ => .ok .empty
  | depth + 1, relative, ancestorsValid => do
      let entries ← r.readDir (blobsName :: relative)
      return (entries.map fun p => visitEntry r (walkCas r depth) ancestorsValid p.tail).foldr
        .append .empty

/-- No path of the store has more names than this. -/
def StoreReader.depth (r : StoreReader) : ℕ := (r.store.tree.paths.map List.length).foldr max 0

def inspectCas (r : StoreReader) : CasInspection :=
  .ofWalk [blobsName] (walkCas r (r.depth + 1) [] true)

/-! ## Complete walks -/

/-- What could not be read is a finding. -/
def CasInspection.Reported (i : CasInspection) : Prop := i.findings = [] → i.complete = true

theorem reported_append {i j : CasInspection} (hi : i.Reported) (hj : j.Reported) :
    (i.append j).Reported := by
  intro h
  obtain ⟨hi', hj'⟩ := List.append_eq_nil_iff.mp h
  simp [CasInspection.append, hi hi', hj hj']

theorem reported_ofWalk {path : List Name} {walk : Except Text CasInspection}
    (h : ∀ i, walk = .ok i → i.Reported) : (CasInspection.ofWalk path walk).Reported := by
  cases walk with
  | ok i => exact h i rfl
  | error context => intro hnil; simp [CasInspection.ofWalk, CasInspection.ioError] at hnil

theorem reported_visitEntry {r : StoreReader} {walk : List Name → Bool → Except Text CasInspection}
    (hwalk : ∀ p valid i, walk p valid = .ok i → i.Reported) (ancestorsValid : Bool)
    (relative : List Name) : (visitEntry r walk ancestorsValid relative).Reported := by
  unfold visitEntry
  cases r.symlinkMetadata (blobsName :: relative) with
  | error e => intro hnil; simp [CasInspection.ioError] at hnil
  | ok metadata =>
      dsimp only
      cases classifyCasEntry relative (.fromNode metadata.node) ancestorsValid with
      | validDirectory => exact reported_ofWalk fun i => hwalk _ _ i
      | validBlob hash => exact fun _ => rfl
      | invalid reason => intro hnil; simp [CasInspection.append] at hnil

theorem reported_walkCas (r : StoreReader) (depth : ℕ) (relative : List Name)
    (ancestorsValid : Bool) (i : CasInspection)
    (h : walkCas r depth relative ancestorsValid = .ok i) : i.Reported := by
  induction depth generalizing relative ancestorsValid i with
  | zero =>
      obtain rfl : CasInspection.empty = i := Except.ok.inj h
      exact fun _ => rfl
  | succ depth ih =>
      simp only [walkCas, Except.bind_eq_ok, Except.pure_eq_ok, Except.ok.injEq] at h
      obtain ⟨entries, -, rfl⟩ := h
      induction entries with
      | nil => exact fun _ => rfl
      | cons p entries ihEntries =>
          exact reported_append (reported_visitEntry ih ancestorsValid p.tail) ihEntries

/-- A walk without findings is complete. -/
theorem complete_inspectCas {r : StoreReader} (h : (inspectCas r).findings = []) :
    (inspectCas r).complete = true :=
  reported_ofWalk (reported_walkCas r _ _ _) h

end MediaImporter
