import MediaImporter.Ingest.Event
import MediaImporter.Lib.Interleave
import MediaImporter.Store.Inspect

/-!
# Putting files into the CAS

`ingestFile` copies a source file to a private file in staging and hashes it on the way. The
private file is then linked to the path of its hash, which fails when there is a file
already. In the end the private file is removed, whatever happened.

Several files are put into the CAS at once, and another process can do so, too. The calls of
all of them come in any order, and can fail. A source can change while it is read, so what it
answers is arbitrary.

## Main definitions

* `SourceAnswers`, `ingestFile` — the import of one file.
* `IngestWorld`, `Answered` — the store that the imports share.
-/

namespace MediaImporter

open Utf8 UnixPath

/-! ## What is read of the source -/

structure SourceMetadata where
  isFile : Bool
  len : ℕ
  device : ℕ
  inode : ℕ
  modified : Option ℕ

/-- The identity of a file, and the device it is on. -/
def SourceMetadata.identity (m : SourceMetadata) : BlobFileIdentity × ℕ :=
  (⟨m.len, m.inode⟩, m.device)

/-- One chunk of the source, and what the observer answers when it is staged. -/
structure SourceRead where
  bytes : Except IoError Bytes
  observed : Except String Unit

/-- The answers to the calls that are not about paths of the store, in the order in which
they are made. -/
structure SourceAnswers where
  before : Except IoError SourceMetadata
  opened : Except IoError Unit
  openedMetadata : Except IoError SourceMetadata
  buffer : Except IoError Unit
  reads : List SourceRead
  after : Except IoError SourceMetadata
  /-- Whether the staged file can be made read-only. -/
  staged : Except IoError Unit
  /-- Whether the file that is already in the CAS can be made read-only. -/
  existing : Except IoError Unit

/-! ## Hashing -/

structure HashResult where
  hash : BlobHash
  sizeBytes : ℕ

/-- The bytes hashed so far, and how many there are. -/
structure BlobHasher where
  input : Bytes
  sizeBytes : ℕ

namespace BlobHasher

def new : BlobHasher := ⟨[], 0⟩

def update (hasher : BlobHasher) (bytes : Bytes) : Except String BlobHasher :=
  if hasher.sizeBytes + bytes.length < 2 ^ 64 then
    .ok ⟨hasher.input ++ bytes, hasher.sizeBytes + bytes.length⟩
  else .error "hashed byte count overflow"

def finish (digest : Bytes → BlobHash) (hasher : BlobHasher) : HashResult :=
  ⟨digest hasher.input, hasher.sizeBytes⟩

end BlobHasher

/-- Hash and copy an open stream in a single pass. It ends with an empty read. -/
def hashReaderToWriter (digest : Bytes → BlobHash) (inode : ℕ) :
    List SourceRead → BlobHasher → FsProgram HashResult
  | [], hasher => return hasher.finish digest
  | read :: reads, hasher => do
      let bytes ← expectOk read.bytes "read source stream"
      if bytes = [] then return hasher.finish digest
      else
        let hasher ← liftExcept (hasher.update bytes)
        let written ← fsCall (.append inode bytes)
        expectOk written "write staging stream"
        liftExcept read.observed
        hashReaderToWriter digest inode reads hasher

/-! ## The import of a file -/

def stagingFile (name : Name) : List Name := [stagingName, name]

def removeStagingBestEffort (path : List Name) : FsProgram Unit := do
  let _ ← fsCall (.removeFile path)

/-- Fail when the condition holds, without the staged file. -/
def bailIf (c : Prop) [Decidable c] (path : List Name) (message : String) : FsProgram Unit :=
  if c then do
    removeStagingBestEffort path
    throw message
  else return ()

/-- When the program fails, remove the staged file and fail with the context. -/
def orRemove {α : Type} (path : List Name) (context : String) (p : FsProgram α) : FsProgram α :=
  tryCatch p fun e => do
    removeStagingBestEffort path
    throw (context ++ ": " ++ e)

/-- However the program ends, the staged file is removed after it. -/
def stagingCleanup {α : Type} (path : List Name) (p : FsProgram α) : FsProgram α :=
  ExceptT.mk do
    let result ← p.run
    let _ ← (removeStagingBestEffort path).run
    return result

/-- Open the file without following links, and see that it has the size. -/
def verifyAndMakeExistingBlobReadonly (path : List Name) (expectedSize : ℕ)
    (existing : Except IoError Unit) : FsProgram Unit := do
  let opened ← fsCall (.openNoFollow path)
  let metadata ← expectOk opened "open existing blob without following links"
  match metadata with
  | ⟨.file _, len⟩ =>
      if len ≠ expectedSize then throw "CAS blob exists with unexpected size"
      else expectOk existing "make existing blob read-only"
  | _ => throw "CAS blob is not a regular file"

/-- Remove the staged file that is not needed any more. -/
def removeStaged (path : List Name) (context : String) : FsProgram Unit := do
  let removed ← fsCall (.removeFile path)
  orRemove path context (expectOk removed context)

/-- Link the staged file to the path of its hash, or use the file that is there. -/
def installStaged (path : List Name) (result : HashResult) (existing : Except IoError Unit) :
    FsProgram StoredBlob := do
  let installed ← fsCall (.hardLink path (blobPath result.hash))
  match installed with
  | .ok () =>
      removeStaged path "remove installed staging file"
      return ⟨result.hash, result.sizeBytes, .created⟩
  | .error .alreadyExists =>
      verifyAndMakeExistingBlobReadonly (blobPath result.hash) result.sizeBytes existing
      removeStaged path "remove reused staging file"
      return ⟨result.hash, result.sizeBytes, .reused⟩
  | .error _ =>
      removeStagingBestEffort path
      throw "install staging file"

/-- Fill the staged file from the source, and see that the source did not change. -/
def stageSource (digest : Bytes → BlobHash) (path : List Name) (inode : ℕ)
    (source : SourceAnswers) (before : SourceMetadata) (expectedSize : ℕ) :
    FsProgram HashResult := do
  let result ← orRemove path "stream source into staging" do
    expectOk source.buffer "allocate copy buffer"
    hashReaderToWriter digest inode source.reads .new
  bailIf (result.sizeBytes ≠ expectedSize) path "source file size changed while reading"
  let after ← expectOk source.after "read source handle metadata after import"
  bailIf (after.isFile = false ∨ after.identity ≠ before.identity) path
    "source file changed during import"
  -- the times are compared where the system has both
  bailIf (before.modified.isSome ∧ after.modified.isSome ∧ before.modified ≠ after.modified) path
    "source file modified during import"
  return result

def ingestFile (digest : Bytes → BlobHash) (name : Name) (source : SourceAnswers)
    (expectedSize : ℕ) : FsProgram StoredBlob := do
  let before ← expectOk source.before "stat source file before import"
  if before.isFile = false then throw "source file is not a regular file"
  else
    expectOk source.opened "open source file for import"
    let opened ← expectOk source.openedMetadata "read opened source metadata"
    if opened.identity ≠ before.identity then
      throw "source file changed before its no-follow handle was opened"
    else
      let staging ← fsCall (.createNew (stagingFile name))
      let inode ← expectOk staging "create staging file"
      stagingCleanup (stagingFile name) do
        let result ← stageSource digest (stagingFile name) inode source before expectedSize
        expectOk source.staged "make staged blob read-only"
        orRemove (stagingFile name) "create blob parent directory"
          (ensureBlobParent (some result.hash))
        installStaged (stagingFile name) result source.existing

/-! ## The store that the imports share -/

/-- The store, and the links that were made, with the import that made them. The imports do
not read the links. -/
structure IngestWorld where
  disk : Store
  linked : List (ℕ × List Name)

/-- The link that a call made. -/
def linkedBy (k : ℕ) : (call : DirectoryCall) → FsAnswer call → List (ℕ × List Name)
  | .hardLink _ link, .ok () => [(k, link)]
  | _, _ => []

/-- The call takes effect. -/
def IngestWorld.perform (s : IngestWorld) (k : ℕ) (call : DirectoryCall) : IngestWorld :=
  ⟨(s.disk.perform call).2, linkedBy k call (s.disk.perform call).1 ++ s.linked⟩

/-- How a call can be answered, and what it does. Each but the removal of a file can fail. A
link is then not made, nor is a new file, but a directory can be there and some of the bytes
can be written. -/
inductive Answered (k : ℕ) :
    (call : DirectoryCall) → IngestWorld → FsAnswer call → IngestWorld → Prop
  | performed (call : DirectoryCall) (s : IngestWorld) :
      Answered k call s (s.disk.perform call).1 (s.perform k call)
  | failed (call : DirectoryCall) (s : IngestWorld) (e : IoError)
      (hcall : ∀ p, call ≠ .removeFile p) : Answered k call s (failedAnswer call e) s
  | madeDirectory (p : List Name) (s : IngestWorld) (e : IoError) :
      Answered k (.createDir p) s (failedAnswer (.createDir p) e) (s.perform k (.createDir p))
  | wrote (inode : ℕ) (bytes : Bytes) (n : ℕ) (s : IngestWorld) (e : IoError) :
      Answered k (.append inode bytes) s (failedAnswer (.append inode bytes) e)
        (s.perform k (.append inode (bytes.take n)))

/-- A file to import, and the name of its staged file. -/
structure IngestRequest where
  name : Name
  source : SourceAnswers
  expectedSize : ℕ

/-- An import that has not begun. -/
def IngestRequest.program (digest : Bytes → BlobHash) (request : IngestRequest) :
    Program DirectoryCall FsAnswer (Except String StoredBlob) :=
  (ingestFile digest request.name request.source request.expectedSize).run

/-- The imports, with what is left of each. -/
abbrev Ingests := Interleave.System DirectoryCall FsAnswer IngestWorld (Except String StoredBlob)

/-- All imports, before they begin. -/
def ingests (digest : Bytes → BlobHash) (requests : List IngestRequest) (start : Store) :
    Ingests :=
  ⟨⟨start, []⟩, requests.map (IngestRequest.program digest)⟩

end MediaImporter
