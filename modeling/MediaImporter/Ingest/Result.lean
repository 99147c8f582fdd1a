import MediaImporter.Catalog.Recorded
import MediaImporter.Commands
import MediaImporter.Store.Content

/-!
# What an import leaves

The scan, the workers and the writer go on side by side, in an order that nobody decides, and a
file that is known is not read when skipping is on. When an import has written all files, its
catalog and its CAS depend on none of this: each file has one row, with the hash of its content,
and each content has its blob, and everything else is as it was. So an import that was stopped is
made good by the next one, and what it has left is used.

A file is skipped for its size and its time. This is right if a file that has the size and the
time that the catalog has of it has the content it had.

## Main definitions

* `ImportRun.Traced` — the files that were written, submitted, and are to be read.
* `StoppedImport`, `CompleteImport` — the import of some files, stopped somewhere or complete.
* `import_leaves` — the rows, the blobs and the CAS after a complete import.
* `imports_agree` — imports of the same files agree, whatever the order and the skipping.
* `import_recovers` — a complete import makes stopped ones good.
-/

namespace MediaImporter

open Utf8 UnixPath Interleave

/-! ## Files -/

namespace ScannedFile

/-- What is read of the file. -/
def content (file : ScannedFile) : Bytes := file.answers.content

/-- The file, without the names and the chunks of one import. -/
def facts (file : ScannedFile) : SourceRelativePath × ℕ × Option ℤ × Bytes :=
  (file.relativePath, file.sizeBytes, file.modifiedAtMs, file.content)

end ScannedFile

/-- The observation that records the content of the file. -/
def ScannedFile.observation (digest : Bytes → BlobHash) (root : Text) (file : ScannedFile)
    (observedAtMs : ℤ) : SourceObservation :=
  sourceObservation root file (digest file.content) observedAtMs

theorem ScannedFile.observation_congr {digest : Bytes → BlobHash} {root : Text}
    {file file' : ScannedFile} (h : file.facts = file'.facts) (t : ℤ) :
    file.observation digest root t = file'.observation digest root t := by
  simp only [ScannedFile.facts, Prod.mk.injEq] at h
  obtain ⟨hpath, hsize, hmodified, hcontent⟩ := h
  simp [ScannedFile.observation, sourceObservation, hpath, hsize, hmodified, hcontent]

/-- A file that has the size and the time that the catalog has of it has the content it had. -/
def Catalog.Truthful (digest : Bytes → BlobHash) (root : Text) (files : List ScannedFile)
    (c : Catalog) : Prop :=
  ∀ file ∈ files, ∀ t, file.modifiedAtMs = some t → ∀ row ∈ c.rowsOf root file.relativePath,
    row.sizeBytes = .integer file.sizeBytes → row.modifiedAtMs = .integer t →
      row.blobHash = (digest file.content).value

/-- The CAS has the file of the blob. -/
def Store.Has (d : Store) (hash : BlobHash) : Prop :=
  ∃ i, d.tree.lookup (blobPath hash) = some (.file i)

/-! ## Files that are not read -/

section Skip

variable {r : StoreReader} {metadataSkip : Bool} {file : ScannedFile} {hash : BlobHash}
  {size : ℕ} {resurrect : Bool}

/-- A file is skipped only if its time is that of the catalog, too, and its blob is there. -/
theorem modified_of_skip {known : Option KnownSourceFile}
    (h : validatedDisposition r (classifyImport metadataSkip file known) =
      .ok (.skip hash size resurrect)) :
    (∃ k t, known = some k ∧ k.modifiedAtMs = some t ∧ file.modifiedAtMs = some t) ∧
      r.checkBlobMetadata hash size = .ok .present := by
  have hclass : classifyImport metadataSkip file known = .skip hash size resurrect ∧
      r.checkBlobMetadata hash size = .ok .present := by
    cases hd : classifyImport metadataSkip file known with
    | hash reason =>
        rw [hd] at h
        simp [validatedDisposition] at h
    | skip hash' size' resurrect' =>
        rw [hd] at h
        simp only [validatedDisposition, Except.bind_eq_ok, Except.pure_eq_ok,
          Except.ok.injEq] at h
        obtain ⟨check, hcheck, hite⟩ := h
        by_cases hpresent : check = .present
        · rw [if_pos hpresent] at hite
          obtain ⟨rfl, rfl, -⟩ := ImportDisposition.skip.inj hite
          exact ⟨hite, hpresent ▸ hcheck⟩
        · rw [if_neg hpresent] at hite
          simp at hite
  obtain ⟨hclass, hpresent⟩ := hclass
  refine ⟨?_, hpresent⟩
  unfold classifyImport at hclass
  split at hclass
  · simp at hclass
  · split at hclass
    · simp at hclass
    · rename_i k
      split at hclass
      · simp at hclass
      · split at hclass
        · rename_i recorded observed hrecorded hobserved
          split at hclass
          · simp at hclass
          · rename_i hsame
            exact ⟨k, recorded, rfl, hrecorded, (not_not.1 hsame) ▸ hobserved⟩
        · simp at hclass

/-- The time that the catalog has of a file. -/
theorem modified_of_knownSourceFile {c : Catalog} {root : Text} {path : SourceRelativePath}
    {k : KnownSourceFile} {row : SourceFileRow} (hrow : c.rowsOf root path = [row])
    (h : knownSourceFile c root path = .ok (some k)) :
    row.modifiedAtMs = .ofOption k.modifiedAtMs := by
  unfold knownSourceFile at h
  dsimp only at h
  split at h
  · simp at h
  · rename_i s b hhead
    simp only [Except.bind_eq_ok, required_eq_ok_iff, decodeMark_eq_some, Except.pure_eq_ok,
      Except.ok.injEq, Option.some.injEq] at h
    obtain ⟨_, -, _, -, modified, hmodified, _, -, _, -, rfl⟩ := h
    obtain ⟨s', hs', hpair⟩ := List.mem_flatMap.1 (List.mem_of_head? hhead)
    obtain ⟨b', hb', heq⟩ := List.mem_map.1 hpair
    obtain ⟨rfl, rfl⟩ := Prod.mk.inj heq
    have hmem : s' ∈ c.rowsOf root path :=
      List.mem_filter.2 ⟨hs', decide_eq_true (of_decide_eq_true (List.mem_filter.1 hb').2).2⟩
    rw [hrow, List.mem_singleton] at hmem
    rw [← hmem]
    exact hmodified

theorem has_of_present {digest : Bytes → BlobHash} (hcas : CasOfValidFiles digest r.store)
    (h : r.checkBlobMetadata hash size = .ok .present) : r.store.Has hash := by
  have hstays : r.store.tree.Stays (blobPath hash) := by
    intro p hp hne target hlink
    simpa using hcas.directory hash p _ hp hne hlink
  unfold StoreReader.checkBlobMetadata at h
  split at h
  · cases h
  · split at h
    · cases h
    · cases h
    · rename_i metadata hopen
      split at h
      · cases h
      · split at h
        · rename_i i len
          unfold Disk.openNoFollow at hopen
          split at hopen
          · cases hopen
          · exact ⟨i, Disk.lookup_of_symlinkMetadata hstays hopen⟩
        · cases h

/-- A skipped file has the blob of its content, and it is there. -/
theorem ImportInput.hash_of_skip {digest : Bytes → BlobHash} {input : ImportInput}
    (hsingle : ∀ root path, (input.catalog.rowsOf root path).length ≤ 1)
    (htrue : input.catalog.Truthful digest input.sourceRoot input.files)
    (hfile : file ∈ input.files) (hcas : CasOfValidFiles digest r.store)
    (h : input.disposition r file = .ok (.skip hash size resurrect)) :
    hash = digest file.content ∧ r.store.Has hash := by
  simp only [ImportInput.disposition, Except.bind_eq_ok] at h
  obtain ⟨known, hknown, hdisposition⟩ := h
  obtain ⟨k, rfl, rfl, hsource, -, hsize⟩ := known_of_skip hdisposition
  obtain ⟨⟨k', t, hk', hmodified, hobserved⟩, hpresent⟩ := modified_of_skip hdisposition
  obtain rfl := Option.some.inj hk'
  have hsnapshot : knownSourceFile input.catalog input.sourceRoot file.relativePath =
      .ok (some k) := by
    rw [ImportInput.known] at hknown
    rw [ImportInput.catalog]
    split at hknown
    · simp at hknown
    · rename_i c hc
      rw [hc]
      exact hknown
  obtain ⟨row, hrow, hblob, hrowSize⟩ := row_of_knownSourceFile (hsingle _ _) hsnapshot
  have hrowModified := modified_of_knownSourceFile hrow hsnapshot
  rw [hmodified] at hrowModified
  rw [hsource, ← hsize] at hrowSize
  have htold := htrue file hfile t hobserved row (hrow ▸ List.mem_singleton_self row) hrowSize
    hrowModified
  exact ⟨BlobHash.value_inj.1 (hblob.symm.trans htold), has_of_present hcas hpresent⟩

end Skip

/-! ## Runs -/

/-- The write records the content of the file. -/
def ImportInput.Tells (input : ImportInput) (digest : Bytes → BlobHash) (file : ScannedFile)
    (request : PendingImportRequest) : Prop :=
  ∃ t, request.observation = file.observation digest input.sourceRoot t

/-- Each file of the scan was written, is submitted, is to be read or is not scanned yet. -/
structure ImportRun.Traced [SqlArithmetic] (digest : Bytes → BlobHash) (input : ImportInput)
    (store : Store) (run : ImportRun) (done queued : List ScannedFile) : Prop where
  workers : Reaches Answered (ingests digest input.requests store) run.workers
  writes : ∃ written outcomes, List.Forall₂ (input.Tells digest) done written ∧
    Batch.all PendingImportRequest.record written input.catalog = .ok (outcomes, run.catalog)
  submitted : List.Forall₂ (input.Tells digest) queued run.submitted
  numbered : ∀ work ∈ run.hashing, input.files[work.1]? = some work.2
  files : (done ++ queued ++ run.hashing.map Prod.snd ++ input.files.drop run.scanned).Perm
    input.files
  stored : ∀ file ∈ done ++ queued, run.workers.state.disk.Has (digest file.content)

/-- All files are written. -/
def ImportRun.Complete (input : ImportInput) (run : ImportRun) : Prop :=
  run.scanned = input.files.length ∧ run.hashing = [] ∧ run.submitted = []

namespace ImportRun.Traced

variable [SqlArithmetic] {digest : Bytes → BlobHash} {input : ImportInput} {store : Store}
  {run run' : ImportRun} {done queued : List ScannedFile}

theorem atStart : (input.start digest store).Traced digest input store [] [] where
  workers := .refl
  writes := ⟨[], [], .nil, rfl⟩
  submitted := .nil
  numbered _ hwork := absurd hwork List.not_mem_nil
  files := .refl _
  stored _ hfile := absurd hfile List.not_mem_nil

theorem skip (h : run.Traced digest input store done queued) {file : ScannedFile}
    {hash : BlobHash} {size : ℕ} (t : ℤ) (hfile : input.files[run.scanned]? = some file)
    (hhash : hash = digest file.content) (hhas : run.workers.state.disk.Has hash) :
    ImportRun.Traced digest input store { run with
      scanned := run.scanned + 1
      submitted := run.submitted ++
        [.known (sourceObservation input.sourceRoot file hash t) size] }
      done (queued ++ [file]) := by
  subst hhash
  have hfiles := h.files
  rw [ImportRun.drop_scanned hfile] at hfiles
  refine { h with submitted := ?_, files := ?_, stored := ?_ }
  · exact List.rel_append h.submitted (.cons ⟨t, rfl⟩ .nil)
  · refine List.Perm.trans ?_ hfiles
    simp only [List.append_assoc]
    refine List.Perm.append_left _ (List.Perm.append_left _ ?_)
    rw [List.singleton_append]
    exact List.perm_middle.symm
  · intro file' hfile'
    rw [← List.append_assoc, List.mem_append, List.mem_singleton] at hfile'
    rcases hfile' with hold | rfl
    · exact h.stored file' hold
    · exact hhas

theorem queue (h : run.Traced digest input store done queued) {file : ScannedFile}
    (hfile : input.files[run.scanned]? = some file) :
    ImportRun.Traced digest input store { run with
      scanned := run.scanned + 1
      hashing := run.hashing ++ [(run.scanned, file)] } done queued := by
  have hfiles := h.files
  rw [ImportRun.drop_scanned hfile] at hfiles
  refine { h with numbered := ?_, files := ?_ }
  · intro work hwork
    rcases List.mem_append.1 hwork with hold | hnew
    · exact h.numbered work hold
    · rw [List.mem_singleton.1 hnew]
      exact hfile
  · simpa using hfiles

variable (hnames : (input.requests.map IngestRequest.name).Nodup)
  (hcas : CasOfValidFiles digest store)

include hnames hcas

theorem work (h : run.Traced digest input store done queued) {workers : Ingests}
    (hwork : Interleave.Step Answered run.workers workers) :
    ImportRun.Traced digest input store { run with workers := workers } done queued := by
  obtain ⟨hupheld, -, -⟩ := h.workers.upholds (upheld_ingests hnames hcas)
  refine { h with workers := h.workers.tail hwork, stored := fun file hfile => ?_ }
  obtain ⟨i, hi⟩ := h.stored file hfile
  exact ⟨i, (unchanged_of_reaches hupheld (.single hwork) _ i hi).1⟩

theorem complete (h : run.Traced digest input store done queued) {i : ℕ}
    {work : ℕ × ScannedFile} {blob : StoredBlob} (createdAtMs t : ℤ)
    (hwork : run.hashing[i]? = some work) (hdone : Ended run.workers work.1 (.ok blob)) :
    ImportRun.Traced digest input store { run with
      hashing := run.hashing.eraseIdx i
      submitted := run.submitted ++
        [.imported ⟨blob.hash, blob.sizeBytes, createdAtMs⟩
          (sourceObservation input.sourceRoot work.2 blob.hash t)] }
      done (queued ++ [work.2]) := by
  obtain ⟨hupheld, hlength, -⟩ := h.workers.upholds (upheld_ingests hnames hcas)
  have hrequest : input.requests[work.1]? = some work.2.ingest := by
    rw [ImportInput.requests, List.getElem?_map, h.numbered work (List.mem_of_getElem? hwork)]
    rfl
  have hhash : blob.hash = digest work.2.content := hash_of_ended h.workers hdone hrequest
  have hhas : run.workers.state.disk.Has blob.hash := by
    have hblob := hasBlob_of_ended hupheld (by simpa [ingests] using hlength) hdone
    obtain ⟨j, hj, -⟩ := hblob
    exact ⟨j, hj⟩
  refine { h with submitted := ?_, numbered := ?_, files := ?_, stored := ?_ }
  · refine List.rel_append h.submitted (.cons ⟨t, ?_⟩ .nil)
    rw [ScannedFile.observation, ← hhash]
    rfl
  · intro work' hwork'
    exact h.numbered work' (List.mem_of_mem_eraseIdx hwork')
  · have hperm : run.hashing.Perm (work :: run.hashing.eraseIdx i) := by
      obtain ⟨hlt, hget⟩ := List.getElem?_eq_some_iff.1 hwork
      have herase := List.getElem_cons_eraseIdx_perm hlt
      rw [hget] at herase
      exact herase.symm
    refine List.Perm.trans ?_ h.files
    refine List.Perm.append_right _ ?_
    simp only [List.append_assoc, List.singleton_append]
    refine List.Perm.append_left _ (List.Perm.append_left _ ?_)
    exact (hperm.map Prod.snd).symm
  · intro file hfile
    rw [← List.append_assoc, List.mem_append, List.mem_singleton] at hfile
    rcases hfile with hold | rfl
    · exact h.stored file hold
    · exact hhash ▸ hhas

omit hnames hcas in
theorem write (h : run.Traced digest input store done queued) {request : PendingImportRequest}
    {rest : List PendingImportRequest} {outcome : ImportWriteOutcome} {d : Catalog}
    (hfirst : run.submitted = request :: rest)
    (hrecord : request.record run.catalog = .ok (outcome, d)) :
    ∃ done queued, ImportRun.Traced digest input store
      { run with catalog := d, submitted := rest } done queued := by
  obtain ⟨written, outcomes, htells, hall⟩ := h.writes
  have hsubmitted := h.submitted
  rw [hfirst] at hsubmitted
  obtain ⟨file, queued', htold, hrest, rfl⟩ := List.forall₂_cons_right_iff.1 hsubmitted
  have hmove : done ++ [file] ++ queued' = done ++ file :: queued' := by simp
  refine ⟨done ++ [file], queued', { h with
    writes := ?_, submitted := hrest, files := ?_, stored := ?_ }⟩
  · exact ⟨written ++ [request], outcomes ++ [outcome],
      List.rel_append htells (.cons htold .nil), Batch.all_concat_eq_ok hall hrecord⟩
  · rw [hmove]
    exact h.files
  · rw [hmove]
    exact h.stored

theorem step (hsingle : ∀ root path, (input.catalog.rowsOf root path).length ≤ 1)
    (htrue : input.catalog.Truthful digest input.sourceRoot input.files)
    (h : run.Traced digest input store done queued) (hstep : ImportRun.Step input run run') :
    ∃ done queued, run'.Traced digest input store done queued := by
  cases hstep with
  | skip observedAtMs hfile hskip =>
      obtain ⟨hupheld, -, -⟩ := h.workers.upholds (upheld_ingests hnames hcas)
      obtain ⟨hhash, hhas⟩ := ImportInput.hash_of_skip hsingle htrue
        (List.mem_of_getElem? hfile) hupheld.state.cas hskip
      exact ⟨_, _, h.skip observedAtMs hfile hhash hhas⟩
  | queue hfile hhash => exact ⟨_, _, h.queue hfile⟩
  | work hwork => exact ⟨_, _, h.work hnames hcas hwork⟩
  | complete createdAtMs observedAtMs hwork hdone =>
      exact ⟨_, _, h.complete hnames hcas createdAtMs observedAtMs hwork hdone⟩
  | write hfirst hrecord => exact h.write hfirst hrecord

end ImportRun.Traced

section Runs

variable [SqlArithmetic] {digest : Bytes → BlobHash} {input : ImportInput} {store : Store}
  {run : ImportRun} {done queued : List ScannedFile}

theorem traced_of_steps (hnames : (input.requests.map IngestRequest.name).Nodup)
    (hcas : CasOfValidFiles digest store)
    (hsingle : ∀ root path, (input.catalog.rowsOf root path).length ≤ 1)
    (htrue : input.catalog.Truthful digest input.sourceRoot input.files)
    (h : Relation.ReflTransGen (ImportRun.Step input) (input.start digest store) run) :
    ∃ done queued, run.Traced digest input store done queued := by
  induction h with
  | refl => exact ⟨[], [], .atStart⟩
  | tail _ hstep ih =>
      obtain ⟨done, queued, htraced⟩ := ih
      exact htraced.step hnames hcas hsingle htrue hstep

/-- What is left to do when an import is complete. -/
theorem ImportRun.Traced.perm_of_complete (h : run.Traced digest input store done queued)
    (hend : run.Complete input) : done.Perm input.files := by
  obtain ⟨hscanned, hhashing, hsubmitted⟩ := hend
  have hqueued : queued = [] := by
    have hlist := h.submitted
    rw [hsubmitted] at hlist
    exact List.forall₂_nil_right_iff.1 hlist
  have hfiles := h.files
  rw [hscanned, hhashing, hqueued, List.drop_length] at hfiles
  simpa using hfiles

/-- What the writes that were made leave. -/
theorem ImportRun.Traced.records (h : run.Traced digest input store done queued)
    (honce : (input.files.map (·.relativePath)).Nodup)
    (hashes : (input.catalog.blobs.map (·.hash)).Nodup)
    (hsingle : ∀ root path, (input.catalog.rowsOf root path).length ≤ 1) :
    ∃ observations, Catalog.Records observations input.catalog run.catalog ∧
      List.Forall₂ (fun file o => ∃ t, o = file.observation digest input.sourceRoot t) done
        observations := by
  obtain ⟨written, outcomes, htells, hall⟩ := h.writes
  have hkeys : written.map (fun request => request.observation.key) =
      done.map fun file => (input.sourceRoot, file.relativePath) := by
    clear h hall
    induction htells with
    | nil => rfl
    | cons htold _ ih =>
        obtain ⟨t, ht⟩ := htold
        rw [List.map_cons, List.map_cons, ih, ht]
        rfl
  refine ⟨_, records_of_all hashes hsingle ?_ hall, ?_⟩
  · rw [hkeys]
    have hsub : (done.map (·.relativePath)).Nodup := by
      have hall := (h.files.map (·.relativePath)).nodup_iff.2 honce
      simp only [List.map_append, List.append_assoc] at hall
      exact (List.nodup_append.1 hall).1
    rw [show (done.map fun file => (input.sourceRoot, file.relativePath)) =
      (done.map (·.relativePath)).map (Prod.mk input.sourceRoot) by simp]
    exact hsub.map fun _ _ heq => (Prod.mk.inj heq).2
  · rw [List.forall₂_map_right_iff]
    exact htells

end Runs

/-! ## The import of some files -/

/-- An import of the files, which it finds in some order and reads in some chunks. It starts from
what preparing leaves of the store. -/
structure ImportsFiles (root : Text) (files : List ScannedFile) (before : Catalog × Store)
    (input : ImportInput) (store : Store) : Prop where
  root : input.sourceRoot = root
  files : (input.files.map ScannedFile.facts).Perm (files.map ScannedFile.facts)
  catalog : input.catalog = before.1
  prepared : ∃ faults n, store = (Program.after (storeHandler faults) n
    (ExceptT.run prepareStagingForImport) (before.2, 0)).1
  names : (input.requests.map IngestRequest.name).Nodup

/-- An import of the files that has written them all. -/
def CompleteImport [SqlArithmetic] (digest : Bytes → BlobHash) (root : Text)
    (files : List ScannedFile) (before after : Catalog × Store) : Prop :=
  ∃ input store run, ImportsFiles root files before input store ∧
    Relation.ReflTransGen (ImportRun.Step input) (input.start digest store) run ∧
    run.Complete input ∧ after = (run.catalog, run.workers.state.disk)

/-- What an import relies on. -/
structure Importable (digest : Bytes → BlobHash) (root : Text) (files : List ScannedFile)
    (s : Catalog × Store) : Prop where
  hashes : (s.1.blobs.map (·.hash)).Nodup
  single : ∀ root path, (s.1.rowsOf root path).length ≤ 1
  cas : CasOfValidFiles digest s.2
  truthful : s.1.Truthful digest root files

/-- What an import leaves, stopped or not. -/
structure Leaves [SqlArithmetic] (digest : Bytes → BlobHash) (root : Text)
    (files : List ScannedFile) (before after : Catalog × Store)
    (observations : List SourceObservation) : Prop where
  records : Catalog.Records observations before.1 after.1
  told : ∀ o ∈ observations, ∃ file ∈ files, ∃ t, o = file.observation digest root t
  kept : ∀ hash i, before.2.tree.lookup (blobPath hash) = some (.file i) →
    after.2.tree.lookup (blobPath hash) = some (.file i) ∧ after.2.data i = before.2.data i
  new : ∀ hash, after.2.Has hash → before.2.Has hash ∨ ∃ file ∈ files, hash = digest file.content
  cas : CasOfValidFiles digest after.2

section Imports

variable [SqlArithmetic] {digest : Bytes → BlobHash} {root : Text} {files : List ScannedFile}
  {before after s s' : Catalog × Store} {input : ImportInput} {store : Store} {run : ImportRun}
  {observations : List SourceObservation}

namespace ImportsFiles

omit [SqlArithmetic] in
theorem exists_of_mem (h : ImportsFiles root files before input store) {file : ScannedFile}
    (hfile : file ∈ input.files) : ∃ file' ∈ files, file'.facts = file.facts := by
  have hmem := h.files.mem_iff.1 (List.mem_map_of_mem hfile)
  exact List.mem_map.1 hmem

omit [SqlArithmetic] in
theorem exists_of_mem' (h : ImportsFiles root files before input store) {file : ScannedFile}
    (hfile : file ∈ files) : ∃ file' ∈ input.files, file'.facts = file.facts := by
  have hmem := h.files.mem_iff.2 (List.mem_map_of_mem hfile)
  exact List.mem_map.1 hmem

omit [SqlArithmetic] in
theorem truthful (h : ImportsFiles root files before input store)
    (htrue : before.1.Truthful digest root files) :
    input.catalog.Truthful digest input.sourceRoot input.files := by
  intro file hfile t ht row hrow hsize hmodified
  obtain ⟨file', hfile', hfacts⟩ := h.exists_of_mem hfile
  simp only [ScannedFile.facts, Prod.mk.injEq] at hfacts
  obtain ⟨hpath, hsame, htime, hcontent⟩ := hfacts
  rw [h.catalog, h.root, ← hpath] at hrow
  rw [← hsame] at hsize
  rw [← htime] at ht
  rw [← hcontent]
  exact htrue file' hfile' t ht row hrow hsize hmodified

omit [SqlArithmetic] in
theorem once (h : ImportsFiles root files before input store)
    (honce : (files.map (·.relativePath)).Nodup) : (input.files.map (·.relativePath)).Nodup := by
  have hpaths := h.files.map Prod.fst
  rw [List.map_map, List.map_map] at hpaths
  exact hpaths.nodup_iff.2 honce

omit [SqlArithmetic] in
theorem keepsCas (h : ImportsFiles root files before input store) : KeepsCas before.2 store := by
  obtain ⟨faults, n, rfl⟩ := h.prepared
  exact keepsCas_prepare faults n before.2

/-- What the import leaves, and that it has written every file if it is complete. -/
theorem leaves (h : ImportsFiles root files before input store)
    (hs : Importable digest root files before) (honce : (files.map (·.relativePath)).Nodup)
    (hsteps : Relation.ReflTransGen (ImportRun.Step input) (input.start digest store) run) :
    ∃ observations,
      Leaves digest root files before (run.catalog, run.workers.state.disk) observations ∧
      (run.Complete input → ∀ file ∈ files, run.workers.state.disk.Has (digest file.content) ∧
        ∃ t, file.observation digest root t ∈ observations) := by
  have hkeeps := h.keepsCas
  have hcas := hkeeps.casOfValidFiles hs.cas
  have hsingle : ∀ root path, (input.catalog.rowsOf root path).length ≤ 1 :=
    h.catalog ▸ hs.single
  obtain ⟨done, queued, htraced⟩ := traced_of_steps h.names hcas hsingle
    (h.truthful hs.truthful) hsteps
  obtain ⟨observations, hrecords, htold⟩ := htraced.records (h.once honce)
    (h.catalog ▸ hs.hashes) hsingle
  have hupheld : IngestsUpheld digest input.requests store
    (ingests digest input.requests store) := upheld_ingests h.names hcas
  have hdone : ∀ file ∈ done, file ∈ input.files := by
    intro file hfile
    apply htraced.files.mem_iff.1
    simp [hfile]
  refine ⟨observations, ⟨h.catalog ▸ hrecords, ?_, ?_, ?_, ?_⟩, ?_⟩
  · intro o ho
    obtain ⟨file, hfile, t, rfl⟩ := Except.exists_of_forall₂ htold.flip ho
    obtain ⟨file', hfile', hfacts⟩ := h.exists_of_mem (hdone file hfile)
    rw [h.root, ← ScannedFile.observation_congr hfacts]
    exact ⟨file', hfile', t, rfl⟩
  · intro hash i hi
    have hstart : store.tree.lookup (blobPath hash) = some (.file i) := by
      rw [hkeeps.blob, hi]
    obtain ⟨hi', hdata⟩ := unchanged_of_reaches hupheld htraced.workers hash i hstart
    exact ⟨hi', hdata.trans (hkeeps.data hash i hi)⟩
  · rintro hash ⟨i, hi⟩
    by_cases hnone : store.tree.lookup (blobPath hash) = none
    · right
      obtain ⟨request, hrequest, hhash⟩ := new_of_reaches h.names hcas htraced.workers
        (by rw [IngestWorld.lookup, hi]; simp) hnone
      obtain ⟨file, hfile, rfl⟩ := List.mem_map.1 hrequest
      obtain ⟨file', hfile', hfacts⟩ := h.exists_of_mem hfile
      simp only [ScannedFile.facts, Prod.mk.injEq] at hfacts
      exact ⟨file', hfile', by rw [hhash, hfacts.2.2.2]; rfl⟩
    · left
      obtain ⟨node, hnode⟩ := Option.ne_none_iff_exists'.1 hnone
      rw [hkeeps.blob] at hnode
      obtain ⟨j, rfl, -⟩ := hs.cas.file hash node hnode
      exact ⟨j, hnode⟩
  · exact (htraced.workers.upholds hupheld).1.state.cas
  · intro hend file hfile
    have hperm := htraced.perm_of_complete hend
    obtain ⟨file', hfile', hfacts⟩ := h.exists_of_mem' hfile
    have hmem := hperm.mem_iff.2 hfile'
    obtain ⟨o, ho, t, rfl⟩ := Except.exists_of_forall₂ htold hmem
    have hhas := htraced.stored file' (List.mem_append_left _ hmem)
    have hcontent : file'.content = file.content := by
      simp only [ScannedFile.facts, Prod.mk.injEq] at hfacts
      exact hfacts.2.2.2
    rw [hcontent] at hhas
    rw [h.root, ScannedFile.observation_congr hfacts] at ho
    exact ⟨hhas, t, ho⟩

end ImportsFiles

/-- The row of an observed file names its content. -/
theorem Leaves.facts (h : Leaves digest root files before after observations)
    {file : ScannedFile} {t : ℤ} (ho : file.observation digest root t ∈ observations) :
    (after.1.rowsOf root file.relativePath).map (·.facts) =
      [((digest file.content).value, .integer file.sizeBytes, .ofOption file.modifiedAtMs)] :=
  facts_of_ownRowAfter (h.records.own _ ho)

theorem Leaves.source (h : Leaves digest root files before after observations) {root' : Text}
    {path : SourceRelativePath} (hne : ∀ file ∈ files, (root, file.relativePath) ≠ (root', path)) :
    after.1.rowsOf root' path = before.1.rowsOf root' path := by
  apply h.records.others
  intro o ho
  obtain ⟨file, hfile, t, rfl⟩ := h.told o ho
  exact hne file hfile

theorem Leaves.blob (h : Leaves digest root files before after observations) {hash : BlobHash}
    (hne : ∀ file ∈ files, digest file.content ≠ hash) :
    after.1.blobRows hash = before.1.blobRows hash := by
  apply h.records.otherBlobs
  intro o ho
  obtain ⟨file, hfile, t, rfl⟩ := h.told o ho
  exact hne file hfile

theorem CompleteImport.leaves (h : CompleteImport digest root files before after)
    (hs : Importable digest root files before) (honce : (files.map (·.relativePath)).Nodup) :
    ∃ observations, Leaves digest root files before after observations ∧
      ∀ file ∈ files, after.2.Has (digest file.content) ∧
        ∃ t, file.observation digest root t ∈ observations := by
  obtain ⟨input, store, run, hfiles, hsteps, hend, rfl⟩ := h
  obtain ⟨observations, hleaves, hcomplete⟩ := hfiles.leaves hs honce hsteps
  exact ⟨observations, hleaves, hcomplete hend⟩

/-- The CAS after a complete import. -/
theorem Leaves.has_iff (h : Leaves digest root files before after observations)
    (hstored : ∀ file ∈ files, after.2.Has (digest file.content)) (hash : BlobHash) :
    after.2.Has hash ↔ before.2.Has hash ∨ ∃ file ∈ files, hash = digest file.content := by
  constructor
  · exact h.new hash
  · intro hcases
    rcases hcases with ⟨i, hi⟩ | ⟨file, hfile, rfl⟩
    · exact ⟨i, (h.kept hash i hi).1⟩
    · exact hstored file hfile

/-- **A complete import** leaves one row for each file, which names its content, and a blob for
each content. The rows of other files and other blobs, and the files of the CAS that were there,
are as they were. -/
theorem import_leaves (hs : Importable digest root files before)
    (honce : (files.map (·.relativePath)).Nodup)
    (h : CompleteImport digest root files before after) :
    (∀ file ∈ files,
      (after.1.rowsOf root file.relativePath).map (·.facts) =
        [((digest file.content).value, .integer file.sizeBytes, .ofOption file.modifiedAtMs)] ∧
      (after.1.blobRows (digest file.content)).map (·.facts) =
        [(.integer file.sizeBytes, true)]) ∧
    (∀ root' path, (∀ file ∈ files, (root, file.relativePath) ≠ (root', path)) →
      after.1.rowsOf root' path = before.1.rowsOf root' path) ∧
    (∀ hash, (∀ file ∈ files, digest file.content ≠ hash) →
      after.1.blobRows hash = before.1.blobRows hash) ∧
    (∀ hash, after.2.Has hash ↔
      before.2.Has hash ∨ ∃ file ∈ files, hash = digest file.content) ∧
    (∀ hash i, before.2.tree.lookup (blobPath hash) = some (.file i) →
      after.2.tree.lookup (blobPath hash) = some (.file i) ∧ after.2.data i = before.2.data i) ∧
    CasOfValidFiles digest after.2 := by
  obtain ⟨observations, hleaves, hcomplete⟩ := h.leaves hs honce
  refine ⟨fun file hfile => ?_, fun _ _ => hleaves.source, fun _ => hleaves.blob,
    hleaves.has_iff fun file hfile => (hcomplete file hfile).1, hleaves.kept, hleaves.cas⟩
  obtain ⟨-, t, ho⟩ := hcomplete file hfile
  refine ⟨hleaves.facts ho, ?_⟩
  obtain ⟨r, hr, his, hmark⟩ := hleaves.records.blob _ ho
  have hr : after.1.blobRows (digest file.content) = [r] := hr
  have hsize : r.sizeBytes = .integer file.sizeBytes := his.2
  rw [hr]
  simp [BlobRow.facts, hsize, hmark]

end Imports

/-! ## A file that is read, and one that is known -/

theorem importsFiles_directory (metadataSkip : Bool) (snapshot : Option Catalog) (store : Store) :
    ImportsFiles ['/'] [letterFile] ((directoryInput metadataSkip snapshot).catalog, store)
      (directoryInput metadataSkip snapshot) store where
  root := rfl
  files := .refl _
  catalog := rfl
  prepared := ⟨.none, 0, rfl⟩
  names := List.nodup_singleton _

/-- The store after the file was read. -/
def readStore (store : Store) : Store := (letterRun 0 'b' ⟨store, []⟩).2.disk

/-- What reading the file makes of a store. -/
theorem reaches_letterRun (store : Store) {outcome : StoreOutcome}
    (hresult : (letterRun 0 'b' ⟨store, []⟩).1 = .ok ⟨letterHash, 1, outcome⟩) :
    Reaches Answered (ingests letterDigest [letterRequest 'b'] store)
      ⟨(letterRun 0 'b' ⟨store, []⟩).2, [.done (.ok ⟨letterHash, 1, outcome⟩)]⟩ := by
  have hanswers : ∀ call s, Answered 0 call s (calmHandler 0 call s).1 (calmHandler 0 call s).2 :=
    fun call s => .performed call s
  have hreach : Reaches Answered (ingests letterDigest [letterRequest 'b'] store)
      ⟨(letterRun 0 'b' ⟨store, []⟩).2, [.done (letterRun 0 'b' ⟨store, []⟩).1]⟩ :=
    reaches_run hanswers _ rfl
  rw [hresult] at hreach
  exact hreach

theorem result_first : (letterRun 0 'b' ⟨bareStore, []⟩).1 = .ok ⟨letterHash, 1, .created⟩ := by
  decide +kernel

theorem importable_first :
    Importable letterDigest ['/'] [letterFile] (Catalog.fresh, bareStore) where
  hashes := List.nodup_nil
  single _ _ := Nat.zero_le 1
  cas := casOfValidFiles_bareStore letterDigest
  truthful _ _ _ _ _ hrow := absurd hrow List.not_mem_nil

section Letter

variable [SqlArithmetic]

/-- An import that reads the file. -/
theorem completeImport_read {metadataSkip : Bool} {snapshot : Option Catalog} {store : Store}
    {outcome : StoreOutcome} {reason : HashReason}
    (hreason : (directoryInput metadataSkip snapshot).disposition ⟨store, fun _ => false⟩
      letterFile = .ok (.hash reason))
    (hresult : (letterRun 0 'b' ⟨store, []⟩).1 = .ok ⟨letterHash, 1, outcome⟩)
    (haccepted : (letterRecord.record (directoryInput metadataSkip snapshot).catalog).isOk = true) :
    CompleteImport letterDigest ['/'] [letterFile]
      ((directoryInput metadataSkip snapshot).catalog, store)
      (catalogAfter letterRecord (directoryInput metadataSkip snapshot).catalog,
        readStore store) := by
  obtain ⟨_, hrecord⟩ := record_catalogAfter letterRecord _ haccepted
  have hworks : Reaches Answered
      (ingests letterDigest (directoryInput metadataSkip snapshot).requests store) _ :=
    reaches_letterRun store hresult
  have hsteps := ImportInput.steps_of_one rfl hreason hworks hrecord
  exact ⟨_, _, _, importsFiles_directory metadataSkip snapshot store, hsteps, ⟨rfl, rfl, rfl⟩, rfl⟩

/-- What the first import of the directory leaves. -/
def directoryAfter : Catalog × Store := (catalogAfter letterRecord .fresh, readStore bareStore)

theorem completeImport_first (h : (letterRecord.record .fresh).isOk = true) :
    CompleteImport letterDigest ['/'] [letterFile] (.fresh, bareStore) directoryAfter := by
  have hreason : (directoryInput true none).disposition ⟨bareStore, fun _ => false⟩ letterFile =
      .ok (.hash .noCatalogObservation) := rfl
  exact completeImport_read hreason result_first h

end Letter

theorem import_leaves_letter : ∃ _ : SqlArithmetic, ∃ after,
    CompleteImport letterDigest ['/'] [letterFile] (.fresh, bareStore) after ∧
      (after.1.rowsOf ['/'] letterFile.relativePath).map (·.facts) =
        [((letterDigest letterFile.content).value, .integer 1, .integer 5)] := by
  let _ := integerSums
  refine ⟨integerSums, directoryAfter, ?_⟩
  have himport := completeImport_first (by decide +kernel)
  exact ⟨himport, ((import_leaves importable_first (List.nodup_singleton _) himport).1
    letterFile List.mem_cons_self).1⟩

end MediaImporter
