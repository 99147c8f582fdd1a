import MediaImporter.Catalog.SourceHistory
import MediaImporter.Ingest.Event
import MediaImporter.Store.WriteOnce

/-!
# Decisions from a snapshot

An import reads the catalog as it was before the import wrote to it. A file that is known there
with the size and the time that it has now is not read: its write only says that it was seen
again, and fails unless its row and its blob are what the snapshot said. Every other file waits
for a worker, and its write fails if the catalog knows its blob with another size.

The writes are made in the order in which they are submitted, which depends on the workers. None
of them makes another one fail: each file is written once, no blob is taken away, and the size of
a blob is that of its file in the CAS, which does not change.

## Main definitions

* `classifyImport`, `validatedDisposition` — whether a file is read.
* `ImportRun`, `ImportRun.Step` — the scan, the workers and the writer, in any order.
* `ImportRun.Guarded` — what holds in every state of an import.
* `import_passes_guards` — no submitted write fails.
-/

namespace MediaImporter

open Utf8 UnixPath Interleave

/-! ## Whether a file is read -/

inductive CasMetadataCheck
  | present
  | missing
  | sizeMismatch
  | invalid
  deriving DecidableEq

/-- Look at the file of a blob, and do not read it. -/
def StoreReader.checkBlobMetadata (r : StoreReader) (hash : BlobHash) (expectedSize : ℕ) :
    Except String CasMetadataCheck :=
  if r.fails (.openFile (blobPath hash)) then .error "open CAS blob metadata"
  else match r.store.openNoFollow (blobPath hash) with
    | .error .notFound => .ok .missing
    | .error _ => .error "open CAS blob metadata"
    | .ok metadata =>
        if r.fails (.metadata (blobPath hash)) then .error "read CAS blob metadata"
        else match metadata with
          | ⟨.file _, len⟩ => .ok (if len = expectedSize then .present else .sizeMismatch)
          | _ => .ok .invalid

/-- A file that the scan finds, with the name of its staged file and what the system answers when
it is read. -/
structure ScannedFile extends SourceFileCandidate where
  modifiedAtMs : Option ℤ
  stagedAs : Name
  answers : SourceAnswers
  /-- The system reports a length as a signed number of 64 bits. -/
  sizeBytes_lt : sizeBytes < 2 ^ 63

/-- The import of the content of the file. -/
def ScannedFile.ingest (file : ScannedFile) : IngestRequest :=
  ⟨file.stagedAs, file.answers, file.sizeBytes⟩

/-- Compare the file with what the catalog says of it. -/
def classifyImport (metadataSkip : Bool) (candidate : ScannedFile)
    (known : Option KnownSourceFile) : ImportDisposition :=
  if metadataSkip = false then .hash .metadataSkippingDisabled
  else match known with
    | none => .hash .noCatalogObservation
    | some known =>
        if known.sourceSizeBytes ≠ candidate.sizeBytes then .hash .sizeChanged
        else match known.modifiedAtMs, candidate.modifiedAtMs with
          | some recordedMtime, some observedMtime =>
              if recordedMtime ≠ observedMtime then .hash .modifiedTimeChanged
              else if known.blobSizeBytes ≠ known.sourceSizeBytes then
                .hash .catalogSourceInconsistency
              else .skip known.blobHash known.sourceSizeBytes known.blobDeletedAtMs.isSome
          | _, _ => .hash .modifiedTimeUnavailable

/-- A file whose blob the CAS does not have is read after all. -/
def validatedDisposition (r : StoreReader) :
    ImportDisposition → Except String ImportDisposition
  | .skip blobHash sizeBytes resurrectionRequired => do
      let check ← r.checkBlobMetadata blobHash sizeBytes
      return if check = .present then .skip blobHash sizeBytes resurrectionRequired
        else .hash .casEntryMissingOrInvalid
  | .hash reason => .ok (.hash reason)

def sourceObservation (sourceRoot : Text) (candidate : ScannedFile) (blobHash : BlobHash)
    (observedAtMs : ℤ) : SourceObservation where
  sourceRoot
  relativePath := candidate.relativePath
  blobHash
  sizeBytes := candidate.sizeBytes
  modifiedAtMs := candidate.modifiedAtMs
  observedAtMs

/-- A file is skipped only if both of its sizes in the catalog are the size it has. -/
theorem known_of_skip {r : StoreReader} {metadataSkip : Bool} {file : ScannedFile}
    {known : Option KnownSourceFile} {hash : BlobHash} {size : ℕ} {resurrect : Bool}
    (h : validatedDisposition r (classifyImport metadataSkip file known) =
      .ok (.skip hash size resurrect)) :
    ∃ k, known = some k ∧ k.blobHash = hash ∧ k.sourceSizeBytes = size ∧
      k.blobSizeBytes = size ∧ file.sizeBytes = size := by
  have hclass : classifyImport metadataSkip file known = .skip hash size resurrect := by
    cases hd : classifyImport metadataSkip file known with
    | hash reason =>
        rw [hd] at h
        simp [validatedDisposition] at h
    | skip hash' size' resurrect' =>
        rw [hd] at h
        simp only [validatedDisposition, Except.bind_eq_ok, Except.pure_eq_ok,
          Except.ok.injEq] at h
        obtain ⟨check, -, hite⟩ := h
        by_cases hpresent : check = .present
        · rwa [if_pos hpresent] at hite
        · rw [if_neg hpresent] at hite
          simp at hite
  unfold classifyImport at hclass
  split at hclass
  · simp at hclass
  · split at hclass
    · simp at hclass
    · rename_i k
      split at hclass
      · simp at hclass
      · rename_i hsource
        split at hclass
        · split at hclass
          · simp at hclass
          · split at hclass
            · simp at hclass
            · rename_i hblob
              obtain ⟨hhash, hsize, -⟩ := ImportDisposition.skip.inj hclass
              exact ⟨k, rfl, hhash, hsize, (not_not.1 hblob).trans hsize,
                (not_not.1 hsource).symm.trans hsize⟩
        · simp at hclass

/-! ## The import -/

/-- What an import works on. -/
structure ImportInput where
  sourceRoot : Text
  /-- The directory is known by its canonical path. -/
  rooted : sourceRoot.head? = some '/'
  metadataSkip : Bool
  /-- The catalog before the import, if there is one. -/
  snapshot : Option Catalog
  /-- What the scan finds, in order. -/
  files : List ScannedFile

namespace ImportInput

variable (input : ImportInput)

/-- The catalog that the writer opens. It makes a new one if there is none. -/
def catalog : Catalog := input.snapshot.getD .fresh

def requests : List IngestRequest := input.files.map ScannedFile.ingest

/-- What the snapshot says of a file. -/
def known (file : ScannedFile) : Except String (Option KnownSourceFile) :=
  match input.snapshot with
  | none => .ok none
  | some c => knownSourceFile c input.sourceRoot file.relativePath

def disposition (r : StoreReader) (file : ScannedFile) : Except String ImportDisposition := do
  let known ← input.known file
  validatedDisposition r (classifyImport input.metadataSkip file known)

end ImportInput

/-- An import: the catalog with the writes that were made, the workers and the store, the number
of files that were taken from the scan, the files to be read with their numbers, and the writes
that were submitted and not made. -/
structure ImportRun where
  catalog : Catalog
  workers : Ingests
  scanned : ℕ
  hashing : List (ℕ × ScannedFile)
  submitted : List PendingImportRequest

/-- Before the import. -/
def ImportInput.start (input : ImportInput) (digest : Bytes → BlobHash) (store : Store) :
    ImportRun :=
  ⟨input.catalog, ingests digest input.requests store, 0, [], []⟩

/-- What can happen next in an import. -/
inductive ImportRun.Step [SqlArithmetic] (input : ImportInput) : ImportRun → ImportRun → Prop
  /-- The next file is known. -/
  | skip {run file fails hash size resurrect} (observedAtMs : ℤ)
      (hfile : input.files[run.scanned]? = some file)
      (hskip : input.disposition ⟨run.workers.state.disk, fails⟩ file =
        .ok (.skip hash size resurrect)) :
      ImportRun.Step input run { run with
        scanned := run.scanned + 1
        submitted := run.submitted ++
          [.known (sourceObservation input.sourceRoot file hash observedAtMs) size] }
  /-- The next file is to be read. -/
  | queue {run file fails reason} (hfile : input.files[run.scanned]? = some file)
      (hhash : input.disposition ⟨run.workers.state.disk, fails⟩ file = .ok (.hash reason)) :
      ImportRun.Step input run { run with
        scanned := run.scanned + 1
        hashing := run.hashing ++ [(run.scanned, file)] }
  /-- A worker makes its next call. -/
  | work {run workers} (hwork : Interleave.Step Answered run.workers workers) :
      ImportRun.Step input run { run with workers := workers }
  /-- A file has been read and its blob is stored. -/
  | complete {run i work blob} (createdAtMs observedAtMs : ℤ)
      (hwork : run.hashing[i]? = some work) (hdone : Ended run.workers work.1 (.ok blob)) :
      ImportRun.Step input run { run with
        hashing := run.hashing.eraseIdx i
        submitted := run.submitted ++
          [.imported ⟨blob.hash, blob.sizeBytes, createdAtMs⟩
            (sourceObservation input.sourceRoot work.2 blob.hash observedAtMs)] }
  /-- The writer makes the first of the writes. -/
  | write {run request rest outcome d} (hfirst : run.submitted = request :: rest)
      (hrecord : request.record run.catalog = .ok (outcome, d)) :
      ImportRun.Step input run { run with catalog := d, submitted := rest }

/-! ## What holds in every state of an import -/

/-- Each blob of the catalog has a file of its size in the CAS. -/
def MatchingFiles (c : Catalog) (s : IngestWorld) : Prop :=
  ∀ r ∈ c.blobs, ∀ hash size, r.Is hash size → Stored hash size s

theorem Stored.unique {hash : BlobHash} {m n : ℕ} {s : IngestWorld} (hm : Stored hash m s)
    (hn : Stored hash n s) : m = n := by
  obtain ⟨i, hi, hlen⟩ := hm
  obtain ⟨j, hj, hlen'⟩ := hn
  obtain rfl : i = j := FileNode.file.inj (Option.some.inj (hi.symm.trans hj))
  exact hlen.symm.trans hlen'

/-- What the writer checks of a write, said of the catalog and the store. -/
def Passes (sourceRoot : Text) (c : Catalog) (s : IngestWorld) : PendingImportRequest → Prop
  | .imported blob observation => observation.sourceRoot = sourceRoot ∧
      blob.hash = observation.blobHash ∧ blob.sizeBytes = observation.sizeBytes ∧
      blob.sizeBytes < 2 ^ 63 ∧ Stored blob.hash blob.sizeBytes s
  | .known observation size => observation.sourceRoot = sourceRoot ∧
      size = observation.sizeBytes ∧ size < 2 ^ 63 ∧ ∃ row, c.ownRows observation = [row] ∧
        row.blobHash = observation.blobHash.value ∧ row.sizeBytes = .integer size

namespace ImportRun

/-- The files that are not written yet: those that are submitted, those that are read, and those
that are not scanned. -/
def unwritten (input : ImportInput) (run : ImportRun) : List SourceRelativePath :=
  run.submitted.map PendingImportRequest.sourcePath ++
    run.hashing.map (fun work => work.2.relativePath) ++
    (input.files.drop run.scanned).map (·.relativePath)

/-- What holds in every state of an import. -/
structure Guarded (digest : Bytes → BlobHash) (input : ImportInput) (store : Store)
    (run : ImportRun) : Prop where
  kept : run.catalog.WellKept
  single : ∀ root path, (run.catalog.rowsOf root path).length ≤ 1
  workers : Reaches Answered (ingests digest input.requests store) run.workers
  files : MatchingFiles run.catalog run.workers.state
  /-- Each file is written once. -/
  once : (run.unwritten input).Nodup
  /-- The rows of files that are not scanned are those of the snapshot. -/
  unchanged : ∀ file ∈ input.files.drop run.scanned,
    run.catalog.rowsOf input.sourceRoot file.relativePath =
      input.catalog.rowsOf input.sourceRoot file.relativePath
  queued : ∀ work ∈ run.hashing, input.files[work.1]? = some work.2
  passes : ∀ request ∈ run.submitted,
    Passes input.sourceRoot run.catalog run.workers.state request

end ImportRun

/-- A write that passes the checks is made. -/
theorem Passes.accepted [SqlArithmetic] {sourceRoot : Text} {c : Catalog} {s : IngestWorld}
    {request : PendingImportRequest} (h : Passes sourceRoot c s request)
    (hroot : sourceRoot.head? = some '/') (hkept : c.WellKept) (hfiles : MatchingFiles c s) :
    ∃ outcome d, request.record c = .ok (outcome, d) := by
  cases request with
  | imported blob observation =>
      obtain ⟨rfl, hhash, hsize, hlt, hstored⟩ := h
      have hne : observation.sourceRoot ≠ [] := by
        intro hnil
        simp [hnil] at hroot
      refine imported_accepted hkept.hashes hne hhash hsize hlt fun r hr hrhash => ?_
      obtain ⟨hash, size, his⟩ := hkept.blob r hr
      obtain rfl : hash = blob.hash := BlobHash.value_inj.1 (his.1.symm.trans hrhash)
      rw [his.2, (hfiles r hr _ size his).unique hstored]
  | known observation size =>
      obtain ⟨rfl, rfl, hlt, row, hrow, hblob, hsize⟩ := h
      refine known_accepted hkept.hashes hrow hblob hsize hlt ?_
      have hmem : row ∈ c.ownRows observation := hrow ▸ List.mem_singleton_self row
      obtain ⟨r, hr, hhash, hrsize⟩ := hkept.source row (List.mem_filter.1 hmem).1
      exact ⟨r, hr, hhash.trans hblob, hrsize.trans hsize⟩

theorem BlobRow.Is.unique {r : BlobRow} {hash hash' : BlobHash} {size size' : ℕ}
    (h : r.Is hash size) (h' : r.Is hash' size') : hash = hash' ∧ size = size' := by
  have hsize := Value.integer.inj (h.2.symm.trans h'.2)
  exact ⟨BlobHash.value_inj.1 (h.1.symm.trans h'.1), by omega⟩

/-- The blob of such a write is in the CAS. -/
theorem Passes.stored {sourceRoot : Text} {c : Catalog} {s : IngestWorld}
    {request : PendingImportRequest} (h : Passes sourceRoot c s request) (hkept : c.WellKept)
    (hfiles : MatchingFiles c s) :
    Stored request.observation.blobHash request.observation.sizeBytes s := by
  cases request with
  | imported blob observation =>
      obtain ⟨-, hhash, hsize, -, hstored⟩ := h
      rw [hhash, hsize] at hstored
      exact hstored
  | known observation size =>
      obtain ⟨-, rfl, -, row, hrow, hblob, hsize⟩ := h
      have hmem : row ∈ c.ownRows observation := hrow ▸ List.mem_singleton_self row
      obtain ⟨r, hr, hhash, hrsize⟩ := hkept.source row (List.mem_filter.1 hmem).1
      exact hfiles r hr _ _ ⟨hhash.trans hblob, hrsize.trans hsize⟩

/-- One row of each table is of the observation, and the others are as they were. -/
structure AffectsOneRow (observation : SourceObservation) (c d : Catalog) : Prop where
  source : ∃ row, d.ownRows observation = [row]
  otherSources : d.otherRows observation = c.otherRows observation
  blob : (d.blobs.countP fun r => r.hash = observation.blobHash.value) = 1
  otherBlobs : (d.blobs.filter fun r => r.hash ≠ observation.blobHash.value) =
    c.blobs.filter fun r => r.hash ≠ observation.blobHash.value

theorem affectsOneRow_of_record [SqlArithmetic] {c d : Catalog} {request : PendingImportRequest}
    {outcome : ImportWriteOutcome} (hkept : c.WellKept)
    (hone : (c.ownRows request.observation).length ≤ 1)
    (h : request.record c = .ok (outcome, d)) : AffectsOneRow request.observation c d := by
  obtain ⟨hkeeps, r, hr, hhash, -⟩ := blobs_of_record h
  refine ⟨?_, otherRows_of_record h, ?_, hkeeps.others⟩
  · rcases ownRow_of_record h hone with ⟨-, id, hrow⟩ | ⟨row, -, hrow⟩
    · exact ⟨_, hrow⟩
    · exact ⟨_, hrow⟩
  · apply countP_eq_one (hkeeps.hashes hkept.hashes) hr
    intro r' _
    rw [hhash]

/-- What the snapshot says of a file is what its row says. -/
theorem row_of_knownSourceFile {c : Catalog} {root : Text} {path : SourceRelativePath}
    {k : KnownSourceFile} (hone : (c.rowsOf root path).length ≤ 1)
    (h : knownSourceFile c root path = .ok (some k)) : ∃ row, c.rowsOf root path = [row] ∧
      row.blobHash = k.blobHash.value ∧ row.sizeBytes = .integer k.sourceSizeBytes := by
  unfold knownSourceFile at h
  dsimp only at h
  split at h
  · simp at h
  · rename_i s b hhead
    simp only [Except.bind_eq_ok, required_eq_ok_iff, decodeHash_eq_some, decodeSize_eq_some,
      Except.pure_eq_ok, Except.ok.injEq, Option.some.injEq] at h
    obtain ⟨hash, hhash, size, hsize, _, -, _, -, _, -, rfl⟩ := h
    obtain ⟨s', hs', hpair⟩ := List.mem_flatMap.1 (List.mem_of_head? hhead)
    obtain ⟨b', hb', heq⟩ := List.mem_map.1 hpair
    obtain ⟨rfl, rfl⟩ := Prod.mk.inj heq
    have hmatches := (of_decide_eq_true (List.mem_filter.1 hb').2).2
    exact ⟨s', Catalog.rowsOf_eq_of_mem hs' hmatches hone, hhash, hsize⟩

/-! ## One step -/

namespace ImportRun

section Steps

variable {digest : Bytes → BlobHash} {input : ImportInput} {store : Store} {run : ImportRun}

theorem drop_scanned {file : ScannedFile} (hfile : input.files[run.scanned]? = some file) :
    input.files.drop run.scanned = file :: input.files.drop (run.scanned + 1) := by
  obtain ⟨hlt, hget⟩ := List.getElem?_eq_some_iff.1 hfile
  rw [List.drop_eq_getElem_cons hlt, hget]

/-- The row that a skip relies on is still there: no write of the import has been about it. -/
theorem Guarded.skip (h : run.Guarded digest input store)
    (hsingle : ∀ root path, (input.catalog.rowsOf root path).length ≤ 1) {file : ScannedFile}
    {fails : ReadCall → Bool} {hash : BlobHash} {size : ℕ} {resurrect : Bool} (observedAtMs : ℤ)
    (hfile : input.files[run.scanned]? = some file)
    (hskip : input.disposition ⟨run.workers.state.disk, fails⟩ file =
      .ok (.skip hash size resurrect)) :
    Guarded digest input store { run with
      scanned := run.scanned + 1
      submitted := run.submitted ++
        [.known (sourceObservation input.sourceRoot file hash observedAtMs) size] } := by
  have hdrop := drop_scanned hfile
  have honce := h.once
  have hunchanged := h.unchanged
  rw [unwritten, hdrop] at honce
  rw [hdrop] at hunchanged
  refine { h with once := ?_, unchanged := ?_, passes := ?_ }
  · rw [unwritten, List.map_append]
    refine (List.Perm.nodup_iff ?_).1 honce
    simp only [List.map_cons, List.map_nil, List.append_assoc, List.singleton_append]
    exact List.perm_middle.append_left _
  · intro file' hfile'
    exact hunchanged file' (List.mem_cons_of_mem _ hfile')
  · intro request hrequest
    rcases List.mem_append.1 hrequest with hold | hnew
    · exact h.passes request hold
    · rw [List.mem_singleton.1 hnew]
      simp only [ImportInput.disposition, Except.bind_eq_ok] at hskip
      obtain ⟨known, hknown, hdisposition⟩ := hskip
      obtain ⟨k, rfl, rfl, rfl, -, hsize⟩ := known_of_skip hdisposition
      have hsnapshot : knownSourceFile input.catalog input.sourceRoot file.relativePath =
          .ok (some k) := by
        rw [ImportInput.known] at hknown
        rw [ImportInput.catalog]
        split at hknown
        · simp at hknown
        · rename_i c hc
          rw [hc]
          exact hknown
      obtain ⟨row, hrow, hblob, hrowSize⟩ := row_of_knownSourceFile (hsingle _ _) hsnapshot
      refine ⟨rfl, hsize.symm, hsize ▸ file.sizeBytes_lt, row, ?_, hblob, hrowSize⟩
      exact (hunchanged file List.mem_cons_self).trans hrow

theorem Guarded.queue (h : run.Guarded digest input store) {file : ScannedFile}
    (hfile : input.files[run.scanned]? = some file) :
    Guarded digest input store { run with
      scanned := run.scanned + 1
      hashing := run.hashing ++ [(run.scanned, file)] } := by
  have hdrop := drop_scanned hfile
  have honce := h.once
  have hunchanged := h.unchanged
  rw [unwritten, hdrop] at honce
  rw [hdrop] at hunchanged
  refine { h with once := ?_, unchanged := ?_, queued := ?_ }
  · rw [unwritten, List.map_append]
    simpa using honce
  · intro file' hfile'
    exact hunchanged file' (List.mem_cons_of_mem _ hfile')
  · intro work hwork
    rcases List.mem_append.1 hwork with hold | hnew
    · exact h.queued work hold
    · rw [List.mem_singleton.1 hnew]
      exact hfile

/-- A file of the CAS stays, with its size. -/
theorem stored_of_step (hnames : (input.requests.map IngestRequest.name).Nodup)
    (hcas : CasOfValidFiles digest store) {workers workers' : Ingests}
    (hreach : Reaches Answered (ingests digest input.requests store) workers)
    (hstep : Interleave.Step Answered workers workers') {hash : BlobHash} {size : ℕ}
    (hstored : Stored hash size workers.state) : Stored hash size workers'.state := by
  obtain ⟨hupheld, -, -⟩ := hreach.upholds (upheld_ingests hnames hcas)
  obtain ⟨i, hi, hlen⟩ := hstored
  obtain ⟨hi', hdata⟩ := unchanged_of_reaches hupheld (.single hstep) hash i hi
  exact ⟨i, hi', by rw [hdata, hlen]⟩

theorem Guarded.work (h : run.Guarded digest input store)
    (hnames : (input.requests.map IngestRequest.name).Nodup)
    (hcas : CasOfValidFiles digest store) {workers : Ingests}
    (hwork : Interleave.Step Answered run.workers workers) :
    Guarded digest input store { run with workers := workers } := by
  refine { h with workers := h.workers.tail hwork, files := ?_, passes := ?_ }
  · intro r hr hash size his
    exact stored_of_step hnames hcas h.workers hwork (h.files r hr hash size his)
  · intro request hrequest
    have hpasses := h.passes request hrequest
    cases request with
    | known observation size => exact hpasses
    | imported blob observation =>
        obtain ⟨hroot, hhash, hsize, hlt, hstored⟩ := hpasses
        exact ⟨hroot, hhash, hsize, hlt, stored_of_step hnames hcas h.workers hwork hstored⟩

/-- The blob that a worker returns is in the CAS, with the size the scan found. -/
theorem Guarded.complete (h : run.Guarded digest input store)
    (hnames : (input.requests.map IngestRequest.name).Nodup)
    (hcas : CasOfValidFiles digest store) {i : ℕ} {work : ℕ × ScannedFile} {blob : StoredBlob}
    (createdAtMs observedAtMs : ℤ) (hwork : run.hashing[i]? = some work)
    (hdone : Ended run.workers work.1 (.ok blob)) :
    Guarded digest input store { run with
      hashing := run.hashing.eraseIdx i
      submitted := run.submitted ++
        [.imported ⟨blob.hash, blob.sizeBytes, createdAtMs⟩
          (sourceObservation input.sourceRoot work.2 blob.hash observedAtMs)] } := by
  have hmem := List.mem_of_getElem? hwork
  refine { h with once := ?_, queued := ?_, passes := ?_ }
  · have hperm : run.hashing.Perm (work :: run.hashing.eraseIdx i) := by
      obtain ⟨hlt, hget⟩ := List.getElem?_eq_some_iff.1 hwork
      have herase := List.getElem_cons_eraseIdx_perm hlt
      rw [hget] at herase
      exact herase.symm
    refine (List.Perm.nodup_iff ?_).1 h.once
    simp only [unwritten, List.map_append, List.map_cons, List.map_nil]
    refine List.Perm.append_right _ ?_
    rw [List.append_assoc]
    exact (hperm.map _).append_left _
  · intro work' hwork'
    exact h.queued work' (List.mem_of_mem_eraseIdx hwork')
  · intro request hrequest
    rcases List.mem_append.1 hrequest with hold | hnew
    · exact h.passes request hold
    · rw [List.mem_singleton.1 hnew]
      obtain ⟨hupheld, -, -⟩ := h.workers.upholds (upheld_ingests hnames hcas)
      have hrequest : input.requests[work.1]? = some work.2.ingest := by
        rw [ImportInput.requests, List.getElem?_map, h.queued work hmem]
        rfl
      have hreport := (hupheld.done hdone _ hrequest).1
      have hstored : blob.sizeBytes = work.2.sizeBytes ∧
          Stored blob.hash blob.sizeBytes run.workers.state := by
        rcases blob with ⟨hash, size, outcome⟩
        cases outcome with
        | created => exact ⟨hreport.1, hreport.2.1⟩
        | reused => exact ⟨hreport.1, hreport.2.1⟩
      exact ⟨rfl, rfl, hstored.1, hstored.1 ▸ work.2.sizeBytes_lt, hstored.2⟩

/-- A write is about a file that no other write is about. -/
theorem Guarded.write [SqlArithmetic] (h : run.Guarded digest input store)
    {request : PendingImportRequest} {rest : List PendingImportRequest}
    {outcome : ImportWriteOutcome} {d : Catalog} (hfirst : run.submitted = request :: rest)
    (hrecord : request.record run.catalog = .ok (outcome, d)) :
    Guarded digest input store { run with catalog := d, submitted := rest } := by
  have hpasses := h.passes
  have honce := h.once
  rw [unwritten, hfirst] at honce
  rw [hfirst] at hpasses
  simp only [List.map_cons, List.cons_append, List.nodup_cons, List.mem_append,
    not_or] at honce
  obtain ⟨⟨⟨hrest, -⟩, hunscanned⟩, honce⟩ := honce
  have hone := h.single request.observation.sourceRoot request.observation.relativePath
  have hpath : request.sourcePath = request.observation.relativePath := by
    cases request with
    | imported blob observation => rfl
    | known observation size => rfl
  have hsame : ∀ root path, ¬ (request.observation.sourceRoot = root ∧
      request.observation.relativePath = path) →
      d.rowsOf root path = run.catalog.rowsOf root path := fun root path hne =>
    Catalog.rowsOf_of_otherRows (otherRows_of_record hrecord) hne
  have hother : ∀ root path, path ≠ request.sourcePath →
      d.rowsOf root path = run.catalog.rowsOf root path := by
    intro root path hne
    apply hsame
    intro hat
    exact hne (hat.2.symm.trans hpath.symm)
  have hfirstPasses := hpasses request List.mem_cons_self
  refine { h with
    kept := h.kept.record hrecord hone
    single := ?_, files := ?_, once := honce, unchanged := ?_, passes := ?_ }
  · intro root path
    by_cases hat : request.observation.sourceRoot = root ∧
        request.observation.relativePath = path
    · obtain ⟨rfl, rfl⟩ := hat
      obtain ⟨row, hrow⟩ := (affectsOneRow_of_record h.kept hone hrecord).source
      rw [← Catalog.ownRows_eq, hrow, List.length_singleton]
    · dsimp only
      rw [hsame root path hat]
      exact h.single root path
  · intro r hr hash size his
    rcases (blobs_of_record hrecord).1.known r hr with ⟨r', hr', hhash, hsize⟩ | hnew
    · exact h.files r' hr' hash size ⟨hhash.symm.trans his.1, hsize.symm.trans his.2⟩
    · obtain ⟨rfl, rfl⟩ := his.unique hnew
      exact hfirstPasses.stored h.kept h.files
  · intro file hfile
    have hne : file.relativePath ≠ request.sourcePath := by
      intro heq
      exact hunscanned (List.mem_map.2 ⟨file, hfile, heq⟩)
    exact (hother _ _ hne).trans (h.unchanged file hfile)
  · intro request' hrequest'
    have hne : request'.sourcePath ≠ request.sourcePath := by
      intro heq
      exact hrest (List.mem_map.2 ⟨request', hrequest', heq⟩)
    have hpasses' := hpasses request' (List.mem_cons_of_mem _ hrequest')
    cases request' with
    | imported blob observation => exact hpasses'
    | known observation size =>
        obtain ⟨hroot, hsize, hlt, row, hrow, hrowIs⟩ := hpasses'
        exact ⟨hroot, hsize, hlt, row, (hother _ _ hne).trans hrow, hrowIs⟩

end Steps

end ImportRun

/-! ## All runs -/

section Runs

variable [SqlArithmetic] {digest : Bytes → BlobHash} {input : ImportInput} {store : Store}

/-- Before the import nothing is submitted, and the catalog is what imports and collections have
made. -/
theorem ImportInput.guarded_start {seen : List SourceObservation}
    (hcatalog : SourceHistory seen input.catalog)
    (hfiles : MatchingFiles input.catalog ⟨store, []⟩)
    (honce : (input.files.map (·.relativePath)).Nodup) :
    (input.start digest store).Guarded digest input store where
  kept := hcatalog.wellKept
  single root path := (hcatalog.tells root path).length_le
  workers := .refl
  files := hfiles
  once := honce
  unchanged _ _ := rfl
  queued _ hwork := absurd hwork List.not_mem_nil
  passes _ hrequest := absurd hrequest List.not_mem_nil

theorem ImportRun.Guarded.step {run run' : ImportRun} (h : run.Guarded digest input store)
    (hsingle : ∀ root path, (input.catalog.rowsOf root path).length ≤ 1)
    (hnames : (input.requests.map IngestRequest.name).Nodup)
    (hcas : CasOfValidFiles digest store) (hstep : ImportRun.Step input run run') :
    run'.Guarded digest input store := by
  cases hstep with
  | skip observedAtMs hfile hskip => exact h.skip hsingle observedAtMs hfile hskip
  | queue hfile hhash => exact h.queue hfile
  | work hwork => exact h.work hnames hcas hwork
  | complete createdAtMs observedAtMs hwork hdone =>
      exact h.complete hnames hcas createdAtMs observedAtMs hwork hdone
  | write hfirst hrecord => exact h.write hfirst hrecord

/-- The writer can make any number of the writes at once. -/
theorem ImportRun.Guarded.batch {run : ImportRun} (h : run.Guarded digest input store)
    {items : List PendingImport} {rest : List PendingImportRequest}
    (hfirst : run.submitted = items.map (·.request) ++ rest) : ∃ outcomes d,
      Batch.all recordItem items run.catalog = .ok (outcomes, d) ∧
        Guarded digest input store { run with catalog := d, submitted := rest } := by
  induction items generalizing run with
  | nil =>
      refine ⟨[], run.catalog, rfl, ?_⟩
      obtain rfl : run.submitted = rest := hfirst
      exact h
  | cons item items ih =>
      have hmem : item.request ∈ run.submitted := by
        rw [hfirst]
        exact List.mem_cons_self
      obtain ⟨outcome, c, hrecord⟩ :=
        (h.passes item.request hmem).accepted input.rooted h.kept h.files
      obtain ⟨outcomes, d, hall, hd⟩ := ih (h.write hfirst hrecord) rfl
      exact ⟨outcome :: outcomes, d,
        Batch.all_cons_eq_ok_iff.2 ⟨outcome, c, outcomes, hrecord, hall, rfl⟩, hd⟩

/-- **An import does not trip its own guards**: from a catalog that imports and collections have
made, and whose blobs have their files in a valid CAS, every write that an import submits is
accepted in every state of the import, and affects one row of each table. -/
theorem import_passes_guards {seen : List SourceObservation}
    (hcatalog : SourceHistory seen input.catalog) (hcas : CasOfValidFiles digest store)
    (hfiles : MatchingFiles input.catalog ⟨store, []⟩)
    (hnames : (input.requests.map IngestRequest.name).Nodup)
    (honce : (input.files.map (·.relativePath)).Nodup) {run : ImportRun}
    (hreach : Relation.ReflTransGen (ImportRun.Step input) (input.start digest store) run) :
    ∀ request ∈ run.submitted, ∃ outcome d, request.record run.catalog = .ok (outcome, d) ∧
      AffectsOneRow request.observation run.catalog d := by
  have hguarded : run.Guarded digest input store := by
    induction hreach with
    | refl => exact input.guarded_start hcatalog hfiles honce
    | tail _ hstep ih =>
        exact ih.step (fun root path => (hcatalog.tells root path).length_le) hnames hcas hstep
  intro request hrequest
  obtain ⟨outcome, d, hrecord⟩ :=
    (hguarded.passes request hrequest).accepted input.rooted hguarded.kept hguarded.files
  exact ⟨outcome, d, hrecord,
    affectsOneRow_of_record hguarded.kept (hguarded.single _ _) hrecord⟩

end Runs

/-! ## A file that is known -/

theorem head_slash : (['/'] : Text).head? = some '/' := rfl

theorem one_lt_two_pow : 1 < 2 ^ 63 := by decide

/-- The file `a` with one letter. -/
def letterFile : ScannedFile where
  relativePath := (photoObservation 1).relativePath
  sizeBytes := 1
  mountId := ⟨1⟩
  modifiedAtMs := some 5
  stagedAs := (letterRequest 'b').name
  answers := letterSource
  sizeBytes_lt := one_lt_two_pow

/-- Its first import. -/
def letterRecord : PendingImportRequest :=
  .imported ⟨letterHash, 1, 1⟩ (sourceObservation ['/'] letterFile letterHash 1)

/-- A later import of the directory. -/
def letterInput [SqlArithmetic] : ImportInput where
  sourceRoot := ['/']
  rooted := head_slash
  metadataSkip := true
  snapshot := some (catalogAfter letterRecord .fresh)
  files := [letterFile]

/-- The store that the first import leaves. -/
def letterStore : Store := (letterRun 0 'a' ⟨bareStore, []⟩).2.disk

/-- The first import leaves a valid CAS, with the blob. -/
theorem letterStore_valid : CasOfValidFiles letterDigest letterStore ∧
    Stored letterHash 1 ⟨letterStore, []⟩ := by
  have hanswers : ∀ call s, Answered 0 call s (calmHandler 0 call s).1 (calmHandler 0 call s).2 :=
    fun call s => .performed call s
  have hreach : Reaches Answered (ingests letterDigest [letterRequest 'a'] bareStore)
      ⟨(letterRun 0 'a' ⟨bareStore, []⟩).2, [.done (letterRun 0 'a' ⟨bareStore, []⟩).1]⟩ :=
    reaches_run hanswers _ rfl
  obtain ⟨hupheld, -, -⟩ :=
    hreach.upholds (upheld_ingests (by decide) (casOfValidFiles_bareStore letterDigest))
  have hresult : (letterRun 0 'a' ⟨bareStore, []⟩).1 = .ok ⟨letterHash, 1, .created⟩ := by
    decide +kernel
  have hdone : Ended ⟨(letterRun 0 'a' ⟨bareStore, []⟩).2,
      [.done (letterRun 0 'a' ⟨bareStore, []⟩).1]⟩ 0 (.ok ⟨letterHash, 1, .created⟩) :=
    congrArg (fun r => some (Program.done r)) hresult
  have hreport := (hupheld.done hdone (letterRequest 'a') rfl).1
  exact ⟨hupheld.state.cas, hreport.2.1⟩

/-- The file is skipped, and the write that says so is accepted. -/
theorem import_passes_guards_letter : ∃ _ : SqlArithmetic, ∃ run,
    Relation.ReflTransGen (ImportRun.Step letterInput)
      (letterInput.start letterDigest letterStore) run ∧
    run.submitted =
      [.known (sourceObservation ['/'] letterFile letterHash 2) 1] ∧
    ∀ request ∈ run.submitted, ∃ outcome d, request.record run.catalog = .ok (outcome, d) ∧
      AffectsOneRow request.observation run.catalog d := by
  refine ⟨integerSums, ?_⟩
  let _ := integerSums
  obtain ⟨_, hrecord⟩ := record_catalogAfter letterRecord .fresh (by decide +kernel)
  have hhistory : SourceHistory [letterRecord.observation] letterInput.catalog :=
    .observe .fresh hrecord
  have hfiles : MatchingFiles letterInput.catalog ⟨letterStore, []⟩ := by
    intro r hr hash size his
    rcases (blobs_of_record hrecord).1.known r hr with ⟨r', hr', -⟩ | hnew
    · exact absurd hr' List.not_mem_nil
    · obtain ⟨rfl, rfl⟩ := his.unique hnew
      exact letterStore_valid.2
  have hskip : letterInput.disposition ⟨letterStore, fun _ => false⟩ letterFile =
      .ok (.skip letterHash 1 false) := by
    decide +kernel
  have hstep : ImportRun.Step letterInput (letterInput.start letterDigest letterStore) _ :=
    .skip 2 rfl hskip
  have hreach := Relation.ReflTransGen.single hstep
  exact ⟨_, hreach, rfl, import_passes_guards hhistory letterStore_valid.1 hfiles
    (by decide) (by decide) hreach⟩

end MediaImporter
