import MediaImporter.Catalog.Recorded
import MediaImporter.Gc.Settles
import MediaImporter.Ingest.Snapshot
import MediaImporter.Materialize.Conflict
import MediaImporter.Store.Content

/-!
# All commands on one store

Imports, collections and builds of trees take turns at a store, and each of them can be stopped
at every step. What is committed and what was done to the files is still there then, and an open
transaction is lost.

An import reads files side by side. The writer commits requests in whole batches, and a request
for a file that was read is made for the blob that its reading has returned. So a source row is
committed after the file of its blob is in the CAS, with its size and with content of its name.
Imports take no file away, and collections take away only files that no source row names.

## Main definitions

* `SourceFileRow.Backed` — the blob of a source row is live, and its file is there.
* `CommandStep` — a command, to its end or stopped somewhere.
* `Coherent` — what holds of the catalog and the store in every state.
* `sourceRows_backed` — every source row is backed, whatever commands ran.
-/

namespace MediaImporter

open Utf8 UnixPath Interleave
open Program (Meets ObeysT)

/-! ## Blobs that are there -/

/-- The CAS has the file of the blob, with its size and with the content of its name. -/
def HasBlob (digest : Bytes → BlobHash) (d : Store) (hash : BlobHash) (size : ℕ) : Prop :=
  ∃ i, d.tree.lookup (blobPath hash) = some (.file i) ∧ (d.data i).length = size ∧
    digest (d.data i) = hash

/-- The row names a blob that has a row of its size and is not marked, and the CAS has its
file. -/
def SourceFileRow.Backed (digest : Bytes → BlobHash) (c : Catalog) (d : Store)
    (s : SourceFileRow) : Prop :=
  ∃ (hash : BlobHash) (size : ℕ), s.blobHash = hash.value ∧ s.sizeBytes = .integer size ∧
    (∃ r ∈ c.blobs, r.Is hash size ∧ r.deletedAtMs = .null) ∧ HasBlob digest d hash size

/-- What holds of the catalog and the store in every state. -/
structure Coherent (digest : Bytes → BlobHash) (c : Catalog) (d : Store) : Prop where
  catalog : c.WellKept
  single : ∀ root path, (c.rowsOf root path).length ≤ 1
  cas : CasOfValidFiles digest d
  live : ∀ s ∈ c.sourceFiles, ∀ r ∈ c.blobs, r.hash = s.blobHash → r.deletedAtMs = .null
  files : ∀ s ∈ c.sourceFiles, ∃ (hash : BlobHash) (size : ℕ), s.blobHash = hash.value ∧
    s.sizeBytes = .integer size ∧ HasBlob digest d hash size

section Coherence

variable {digest : Bytes → BlobHash} {c c' : Catalog} {d d' : Store}

theorem Coherent.backed (h : Coherent digest c d) {s : SourceFileRow} (hs : s ∈ c.sourceFiles) :
    s.Backed digest c d := by
  obtain ⟨hash, size, hhash, hsize, hfile⟩ := h.files s hs
  obtain ⟨r, hr, hrhash, hrsize⟩ := h.catalog.source s hs
  exact ⟨hash, size, hhash, hsize, ⟨r, hr, ⟨hrhash.trans hhash, hrsize.trans hsize⟩,
    h.live s hs r hr hrhash⟩, hfile⟩

theorem coherent_fresh (hcas : CasOfValidFiles digest d) : Coherent digest .fresh d where
  catalog := wellKept_fresh
  single _ _ := Nat.zero_le 1
  cas := hcas
  live _ hs := absurd hs List.not_mem_nil
  files _ hs := absurd hs List.not_mem_nil

/-- The files of the CAS are still there. -/
theorem Coherent.of_store (h : Coherent digest c d) (hcas : CasOfValidFiles digest d')
    (hfiles : ∀ hash i, d.tree.lookup (blobPath hash) = some (.file i) →
      d'.tree.lookup (blobPath hash) = some (.file i) ∧ d'.data i = d.data i) :
    Coherent digest c d' where
  catalog := h.catalog
  single := h.single
  cas := hcas
  live := h.live
  files s hs := by
    obtain ⟨hash, size, hhash, hsize, i, hi, hlength, hdigest⟩ := h.files s hs
    obtain ⟨hi', hdata⟩ := hfiles hash i hi
    exact ⟨hash, size, hhash, hsize, i, hi', by rw [hdata, hlength], by rw [hdata, hdigest]⟩

end Coherence

/-! ## Requests of an import -/

section Requests

variable [SqlArithmetic] {digest : Bytes → BlobHash} {c c' : Catalog} {d : Store}
  {request : PendingImportRequest} {outcome : ImportWriteOutcome}

/-- The file of the blob of an imported file is in the CAS. -/
def PendingImportRequest.HasFile (digest : Bytes → BlobHash) (d : Store) :
    PendingImportRequest → Prop
  | .imported blob _ => HasBlob digest d blob.hash blob.sizeBytes
  | .known _ _ => True

/-- What a write is about has its file in the CAS. -/
theorem hasBlob_of_record (h : Coherent digest c d) (hrecord : request.record c = .ok (outcome, c'))
    (hfile : request.HasFile digest d) :
    HasBlob digest d request.observation.blobHash request.observation.sizeBytes := by
  cases request with
  | imported blob observation =>
      obtain ⟨hhash, hsize, -⟩ := record_imported_iff.1 ⟨_, hrecord⟩
      have hfile : HasBlob digest d blob.hash blob.sizeBytes := hfile
      rwa [hhash, hsize] at hfile
  | known observation size =>
      -- the row of the file is there, and is backed already
      obtain ⟨rfl, -, hsource, -⟩ := record_known_iff.1 ⟨_, hrecord⟩
      obtain ⟨s, hs, -, hblob, hsize⟩ := known_of_observeKnown hsource
      obtain ⟨hash, n, hhash, hn, hthere⟩ := h.files s hs
      obtain rfl := BlobHash.value_inj.mp (hhash.symm.trans hblob)
      obtain rfl : n = observation.sizeBytes := by
        have heq := hn.symm.trans hsize
        simpa using heq
      exact hthere

theorem Coherent.record (h : Coherent digest c d) (hrecord : request.record c = .ok (outcome, c'))
    (hfile : request.HasFile digest d) : Coherent digest c' d := by
  have hone := h.single request.observation.sourceRoot request.observation.relativePath
  have hothers := otherRows_of_record hrecord
  have hown := ownRow_of_record hrecord hone
  have hblob := hasBlob_of_record h hrecord hfile
  refine ⟨h.catalog.record hrecord hone, single_of_record h.single hrecord, h.cas, ?_, ?_⟩
  · intro s hs r hr hhash
    by_cases hnew : r.hash = request.observation.blobHash.value
    · exact unmarked_of_record h.catalog.hashes hrecord hr hnew
    · obtain ⟨hkeeps, -⟩ := blobs_of_record hrecord
      have hmem : r ∈ c'.blobs.filter fun r => r.hash ≠ request.observation.blobHash.value :=
        List.mem_filter.2 ⟨hr, decide_eq_true hnew⟩
      rw [hkeeps.others] at hmem
      rcases mem_sourceFiles_after hothers hown hs with hold | ⟨hblobHash, -⟩
      · exact h.live s hold r (List.mem_filter.1 hmem).1 hhash
      · exact absurd (hhash.trans hblobHash) hnew
  · intro s hs
    rcases mem_sourceFiles_after hothers hown hs with hold | ⟨hblobHash, hsize⟩
    · exact h.files s hold
    · exact ⟨_, _, hblobHash, hsize, hblob⟩

end Requests

/-! ## Stores that keep their CAS -/

/-- The CAS has the same files, and nothing is new in it but directories. -/
structure KeepsCas (d d' : Store) : Prop where
  lookup : ∀ hash p, p <+: blobPath hash → d'.tree.lookup p = d.tree.lookup p ∨
    d'.tree.lookup p = some .directory ∧ p ≠ blobPath hash
  data : ∀ hash i, d.tree.lookup (blobPath hash) = some (.file i) → d'.data i = d.data i

section KeepsCas

variable {digest : Bytes → BlobHash} {d d' d'' : Store}

theorem KeepsCas.refl (d : Store) : KeepsCas d d := ⟨fun _ _ _ => .inl rfl, fun _ _ _ => rfl⟩

theorem KeepsCas.blob (h : KeepsCas d d') (hash : BlobHash) :
    d'.tree.lookup (blobPath hash) = d.tree.lookup (blobPath hash) := by
  rcases h.lookup hash _ List.prefix_rfl with heq | ⟨-, hne⟩
  · exact heq
  · exact absurd rfl hne

theorem KeepsCas.trans (h : KeepsCas d d') (h' : KeepsCas d' d'') : KeepsCas d d'' where
  lookup hash p hp := by
    rcases h'.lookup hash p hp with heq | hdir
    · rw [heq]
      exact h.lookup hash p hp
    · exact .inr hdir
  data hash i hi := (h'.data hash i (by rw [h.blob, hi])).trans (h.data hash i hi)

theorem SameOutsideStaging.keepsCas (h : SameOutsideStaging d d') : KeepsCas d d' where
  lookup hash p hp := .inl (h.lookup p (not_staging_of_prefix_blobPath hp))
  data _ i _ := by rw [h.files.1]

theorem KeepsCas.casOfValidFiles (h : KeepsCas d d') (hd : CasOfValidFiles digest d) :
    CasOfValidFiles digest d' where
  file hash node hnode := by
    rw [h.blob] at hnode
    obtain ⟨i, rfl, hi⟩ := hd.file hash node hnode
    exact ⟨i, rfl, by rw [h.data hash i hnode, hi]⟩
  directory hash p node hp hne hnode := by
    rcases h.lookup hash p hp with heq | ⟨hdir, -⟩
    · exact hd.directory hash p node hp hne (heq.symm.trans hnode)
    · exact Option.some.inj (hnode.symm.trans hdir)

theorem Coherent.keepsCas {c : Catalog} (h : Coherent digest c d) (hd : KeepsCas d d') :
    Coherent digest c d' := by
  refine h.of_store (hd.casOfValidFiles h.cas) fun hash i hi => ⟨?_, hd.data hash i hi⟩
  rw [hd.blob, hi]

end KeepsCas

/-! ## Before an import -/

/-- The calls to a store, some of which can fail. -/
def storeHandler (faults : FaultPlan Name Bytes UInt8) :
    Program.Handler DirectoryCall FsAnswer (Store × ℕ) := fun call s =>
  let r := s.1.answer faults s.2 call
  (r.1, (r.2, s.2 + 1))

/-- The call touches staging alone, or makes the directory of the CAS. -/
def PreparingCall (call : DirectoryCall) : Prop :=
  StagingCall call ∨ call = .createDir [blobsName]

theorem prepares_prepareStagingForImport :
    ObeysT PossibleAnswer PreparingCall (fun _ => True) prepareStagingForImport := by
  have hstaging : ∀ {α : Type} {p : FsProgram α}, InStaging (fun _ => True) p →
      ObeysT PossibleAnswer PreparingCall (fun _ => True) p := fun h => h.weaken fun _ => .inl
  refine (hstaging (inStaging_openValidatedStagingDirectory true)).bind fun _ _ => ?_
  refine (hstaging inStaging_purgeExistingStaging).bind fun _ _ => ?_
  refine Program.obeysT_forM fun p hp => ?_
  obtain rfl := List.mem_singleton.mp hp
  have hinspect : ∀ call : DirectoryCall, call.KeepsFiles → call.changes = [] →
      PreparingCall call := by
    intro call hfiles hchanges
    refine .inl ⟨hfiles, fun p hp => ?_⟩
    rw [hchanges] at hp
    cases hp
  exact obeysT_ensureDirectory (hinspect _ trivial rfl) (hinspect _ trivial rfl) (.inr rfl)

theorem keepsCas_answer (faults : FaultPlan Name Bytes UInt8) (n : ℕ) (d : Store)
    {call : DirectoryCall} (hcall : PreparingCall call) :
    KeepsCas d (d.answer faults n call).2 := by
  rcases hcall with hstaging | rfl
  · exact (sameOutsideStaging_answer (.refl d) faults n hstaging).keepsCas
  · rcases Disk.answer_snd faults n d (.createDir [blobsName]) with heq | heq
    · rw [heq]
      have hquiet : Quiet ⟨d, []⟩ (IngestWorld.perform ⟨d, []⟩ 0 (.createDir [blobsName])) :=
        quiet_createDir ⟨emptyHash, blobsName_prefix_blobPath emptyHash,
          by simp [blobPath, blobNames]⟩
      exact ⟨hquiet.sameCas.lookup, hquiet.sameCas.data⟩
    · rw [heq]
      exact .refl d

/-- Preparing the directories keeps the CAS, wherever it is stopped. -/
theorem keepsCas_prepare (faults : FaultPlan Name Bytes UInt8) (n : ℕ) (d : Store) :
    KeepsCas d (Program.after (storeHandler faults) n
      (ExceptT.run prepareStagingForImport) (d, 0)).1 :=
  Program.after_of_throughout (storeHandler faults) n
    (Program.Obeys.throughout (P := fun s : Store × ℕ => KeepsCas d s.1) (storeHandler faults)
      (fun call s _ => possibleAnswer_answer faults s.2 s.1 call)
      (fun _ s hcall hs => hs.trans (keepsCas_answer faults s.2 s.1 hcall))
      prepares_prepareStagingForImport (.refl d))

/-! ## Imports -/

section Import

variable {digest : Bytes → BlobHash} {input : ImportInput} {start : Store}

/-- The blob that the reading of a file returns is in the CAS. -/
theorem hasBlob_of_ended {workers : Ingests}
    (hupheld : IngestsUpheld digest input.requests start workers)
    (hlength : workers.threads.length = input.requests.length) {k : ℕ} {blob : StoredBlob}
    (hended : Ended workers k (.ok blob)) :
    HasBlob digest workers.state.disk blob.hash blob.sizeBytes := by
  have hlt : k < input.requests.length := hlength ▸ (List.getElem?_eq_some_iff.1 hended).1
  have hreport := (hupheld.done hended input.requests[k] (List.getElem?_eq_getElem hlt)).1
  have hstored : Stored blob.hash blob.sizeBytes workers.state := by
    rcases blob with ⟨hash, size, outcome⟩
    cases outcome with
    | created => exact hreport.2.1
    | reused => exact hreport.2.1
  obtain ⟨i, hi, hsize⟩ := hstored
  obtain ⟨j, hj, hdigest⟩ := hupheld.state.cas.file blob.hash _ hi
  obtain rfl := FileNode.file.inj hj
  exact ⟨i, hi, hsize, hdigest⟩

/-- What holds while an import runs. -/
structure ImportRun.Running (digest : Bytes → BlobHash) (input : ImportInput) (start : Store)
    (run : ImportRun) : Prop where
  coherent : Coherent digest run.catalog run.workers.state.disk
  upheld : IngestsUpheld digest input.requests start run.workers
  length : run.workers.threads.length = input.requests.length
  /-- A write is submitted after the file of its blob is installed. -/
  submitted : ∀ request ∈ run.submitted, request.HasFile digest run.workers.state.disk

namespace ImportRun.Running

variable {run run' : ImportRun}

theorem atStart (hc : Coherent digest input.catalog start)
    (hnames : (input.requests.map IngestRequest.name).Nodup) :
    (input.start digest start).Running digest input start where
  coherent := hc
  upheld := upheld_ingests hnames hc.cas
  length := by simp [ImportInput.start, ingests]
  submitted _ hrequest := absurd hrequest List.not_mem_nil

/-- A call of a worker leaves the files of the CAS. -/
theorem work (h : run.Running digest input start) {workers : Ingests}
    (hwork : Interleave.Step Answered run.workers workers) :
    ImportRun.Running digest input start { run with workers := workers } := by
  have hreach : Reaches Answered run.workers workers := .single hwork
  obtain ⟨hupheld, hlength, -⟩ := hreach.upholds h.upheld
  have hfiles := unchanged_of_reaches h.upheld hreach
  refine ⟨h.coherent.of_store hupheld.state.cas hfiles, hupheld, hlength.trans h.length, ?_⟩
  intro request hrequest
  have hfile := h.submitted request hrequest
  cases request with
  | known observation size => trivial
  | imported blob observation =>
      obtain ⟨i, hi, hsize, hdigest⟩ := hfile
      obtain ⟨hi', hdata⟩ := hfiles blob.hash i hi
      have hsize' := (congrArg List.length hdata).trans hsize
      exact ⟨i, hi', hsize', (congrArg digest hdata).trans hdigest⟩

theorem step [SqlArithmetic] (h : run.Running digest input start)
    (hstep : ImportRun.Step input run run') : run'.Running digest input start := by
  have happend : ∀ request : PendingImportRequest,
      request.HasFile digest run.workers.state.disk → ∀ r ∈ run.submitted ++ [request],
        r.HasFile digest run.workers.state.disk := by
    intro request hfile r hr
    rcases List.mem_append.1 hr with hold | hnew
    · exact h.submitted r hold
    · rw [List.mem_singleton.1 hnew]
      exact hfile
  cases hstep with
  | skip observedAtMs hfile hskip => exact { h with submitted := happend _ trivial }
  | queue hfile hhash => exact ⟨h.coherent, h.upheld, h.length, h.submitted⟩
  | work hwork => exact h.work hwork
  | complete createdAtMs observedAtMs hwork hdone =>
      exact { h with submitted := happend _ (hasBlob_of_ended h.upheld h.length hdone) }
  | write hfirst hrecord =>
      have hsubmitted := h.submitted
      rw [hfirst] at hsubmitted
      exact { h with
        coherent := h.coherent.record hrecord (hsubmitted _ List.mem_cons_self)
        submitted := fun request hrequest =>
          hsubmitted request (List.mem_cons_of_mem _ hrequest) }

end ImportRun.Running

/-- An import, wherever it is stopped. -/
theorem running_of_steps [SqlArithmetic] (hc : Coherent digest input.catalog start)
    (hnames : (input.requests.map IngestRequest.name).Nodup) {run : ImportRun}
    (h : Relation.ReflTransGen (ImportRun.Step input) (input.start digest start) run) :
    run.Running digest input start := by
  induction h with
  | refl => exact .atStart hc hnames
  | tail _ hstep ih => exact ih.step hstep

end Import

/-! ## Collections -/

section Collections

variable {digest : Bytes → BlobHash} {readFails : ReadCall → Bool} {c : Catalog} {d d' : Store}
  {w w' : GcWorld} {x : GcSession} {swept : List SweepCandidate}

/-- The row of a blob that is referred to and not marked stays as it is. -/
theorem GcSession.Valid.rowAfter_live (hx : x.Valid digest readFails)
    (hswept : swept <+: x.preflight.sweepCandidates) {row : BlobRow} (hrow : row ∈ x.catalog.blobs)
    (hmark : row.deletedAtMs = .null) (href : x.catalog.Referenced row.hash) :
    x.rowAfter swept row = some row := by
  obtain ⟨b, hdecode⟩ := hx.clean.sound.blobRow row hrow
  have hb : b ∈ validBlobs x.catalog := (mem_validBlobs hx.hashes).mpr ⟨row, hrow, hdecode⟩
  obtain ⟨-, hnull, href'⟩ := matches_of_decodeBlobRow hdecode
  have hplanned : b.planned = .unchanged :=
    planned_eq_unchanged.mpr ⟨href'.mp href, hnull.mp hmark⟩
  rw [hx.rowAfter_eq hswept hb (hash_of_decodeBlobRow hdecode), if_neg, hplanned]
  · rfl
  · intro hmem
    have hsweep := hx.planned_of_mem hswept hmem
    rw [hplanned] at hsweep
    cases hsweep

/-- Every source row of a sound catalog names a blob of its size. -/
theorem Catalog.Sound.wellKept (h : c.Sound) : c.WellKept where
  hashes := h.hashes
  blob r hr := by
    obtain ⟨b, hb⟩ := h.blobRow r hr
    obtain ⟨hhash, hsize, -⟩ := decodeBlobRow_eq_some_iff.mp hb
    exact ⟨b.hash, b.sizeBytes, hhash, hsize⟩
  source s hs := by
    obtain ⟨hash, n, hhash, hsize, row, hrow, hrowHash, hrowSize⟩ := (h.sourceRow s hs).blob
    exact ⟨row, hrow, hrowHash.trans hhash.symm, hrowSize.trans hsize.symm⟩

/-- A file of a sound catalog has one row. -/
theorem Catalog.Sound.single (h : c.Sound) (root : Text) (path : SourceRelativePath) :
    (c.rowsOf root path).length ≤ 1 := by
  by_contra hlong
  have hlong : 1 < (c.rowsOf root path).length := by omega
  have hnodup : ((c.rowsOf root path).map fun s => (s.sourceRoot, s.relativePath)).Nodup :=
    h.paths.sublist ((List.filter_sublist).map _)
  have hall : ∀ p ∈ (c.rowsOf root path).map fun s => (s.sourceRoot, s.relativePath),
      p = (Value.ofText root, Value.ofText path.text) := by
    intro p hp
    obtain ⟨s, hs, rfl⟩ := List.mem_map.mp hp
    have hmatches := of_decide_eq_true (List.mem_filter.mp hs).2
    rw [SourceFileRow.matches_ofText] at hmatches
    exact Prod.ext hmatches.1 hmatches.2
  have hlength := (List.nodup_iff_count_le_one.mp hnodup)
    (Value.ofText root, Value.ofText path.text)
  rw [List.count_eq_length.mpr fun p hp => (hall p hp).symm, List.length_map] at hlength
  omega

/-- A file that is gone from the store of a sweep was named by no source row. -/
theorem Coherent.of_onlySweepableGone (h : Coherent digest c d) (hd : OnlySweepableGone c d d') :
    Coherent digest c d' where
  catalog := h.catalog
  single := h.single
  cas :=
    { file := by
        intro hash node hnode
        rcases hd.lookup _ (not_staging_of_prefix_blobPath List.prefix_rfl) with heq | ⟨hnone, -⟩
        · obtain ⟨i, rfl, hi⟩ := h.cas.file hash node (heq.symm.trans hnode)
          exact ⟨i, rfl, by rw [show d'.data i = d.data i by rw [hd.files.1], hi]⟩
        · rw [hnone] at hnode
          cases hnode
      directory := by
        intro hash p node hp hne hnode
        rcases hd.lookup p (not_staging_of_prefix_blobPath hp) with heq | ⟨hnone, -⟩
        · exact h.cas.directory hash p node hp hne (heq.symm.trans hnode)
        · rw [hnone] at hnode
          cases hnode }
  live := h.live
  files s hs := by
    obtain ⟨hash, size, hhash, hsize, i, hi, hlength, hdigest⟩ := h.files s hs
    have hdata : d'.data i = d.data i := by rw [hd.files.1]
    refine ⟨hash, size, hhash, hsize, i, ?_, by rw [hdata, hlength], by rw [hdata, hdigest]⟩
    rcases hd.lookup (blobPath hash) (not_staging_of_prefix_blobPath List.prefix_rfl) with
      heq | ⟨-, hash', hpath, row, -, -, -, href⟩
    · exact heq.trans hi
    · obtain rfl := blobPath_inj.mp hpath
      exact absurd (Catalog.referenced_value.mpr ⟨s, hs, hhash⟩) href

/-- A session keeps the rows of the blobs that source rows name. -/
theorem Coherent.staged (hx : x.Valid digest readFails)
    (hswept : swept <+: x.preflight.sweepCandidates) (h : Coherent digest x.catalog d)
    (hsound : (x.staged (x.swept swept)).Sound) : Coherent digest (x.staged (x.swept swept)) d where
  catalog := hsound.wellKept
  single := hsound.single
  cas := h.cas
  live s hs r hr hhash := by
    have hs : s ∈ x.catalog.sourceFiles := hs
    obtain ⟨row, hrow, hrowHash, -⟩ := h.catalog.source s hs
    have hmark := h.live s hs row hrow hrowHash
    obtain ⟨hash, size, hblob, -⟩ := h.files s hs
    have href : x.catalog.Referenced row.hash := by
      rw [hrowHash, hblob]
      exact Catalog.referenced_value.mpr ⟨s, hs, hblob⟩
    have hkept : row ∈ (x.staged (x.swept swept)).blobs := by
      rw [x.blobs_staged]
      exact List.mem_filterMap.mpr ⟨row, hrow, hx.rowAfter_live hswept hrow hmark href⟩
    obtain rfl := List.inj_on_of_nodup_map hsound.hashes hr hkept (hhash.trans hrowHash.symm)
    exact hmark
  files := h.files

theorem GcSafe.coherent (h : GcSafe digest readFails c d w) (hc : Coherent digest c d) :
    Coherent digest w.catalog w.store := by
  have hgone := h.onlySweepableGone
  rcases h with ⟨hcatalog, hstore⟩ | ⟨x, hx, rfl, rfl, gone, hgoneSweeps, hunlinked, hcatalog⟩
  · rw [hcatalog, hstore]
    exact hc
  · have hevolves := hx.evolves hgoneSweeps hunlinked hcatalog
    have hsound := hevolves.sound hx.clean.sound
    rcases hcatalog with heq | ⟨swept, hswept, heq⟩
    · rw [heq]
      exact hc.of_onlySweepableGone hgone
    · have heq : w.catalog = x.staged (x.swept swept) := heq
      rw [heq] at hsound ⊢
      have hstaged := hc.staged hx (hswept.trans hgoneSweeps) hsound
      have hstore := hc.of_onlySweepableGone hgone
      exact { hstaged with cas := hstore.cas, files := hstore.files }

theorem CommandSafe.coherent [SqlArithmetic] {env : GcEnvironment} (h : CommandSafe digest env w w')
    (hc : Coherent digest w.catalog w.store) : Coherent digest w'.catalog w'.store := by
  rcases h with ⟨hcatalog, hstore⟩ | ⟨hpurged, hsafe⟩
  · rw [hcatalog]
    exact hc.keepsCas hstore.keepsCas
  · exact hsafe.coherent (hc.keepsCas hpurged.keepsCas)

/-- A collection, wherever it is stopped. -/
theorem StoppedCollection.coherent [SqlArithmetic] (h : StoppedCollection digest w w')
    (ht : w.writer.connection.transaction = none) (hc : Coherent digest w.catalog w.store) :
    Coherent digest w'.catalog w'.store := by
  obtain ⟨env, n, hopened⟩ := h
  have hsafe := Program.after_of_throughout (gcHandler env) n
    (meets_collectGarbage env digest ht).throughout
  rw [hopened.store, hopened.catalog]
  exact hsafe.coherent hc

end Collections

/-! ## Builds of trees -/

section Trees

/-- The call touches staging alone, if it is a call to the store. -/
def TreeCall.OnlyStaging : TreeCall → Prop
  | .store call => StagingCall call
  | _ => True

/-- A part of the command that makes no call to the store but to staging. -/
abbrev OnlyStaging {α : Type} (p : TreeProgram α) : Prop :=
  Program.ObeysT (fun _ _ => True) TreeCall.OnlyStaging (fun _ => True) p

theorem onlyStaging_bind {α : Type} {call : TreeCall} {f : TreeAnswer call → TreeProgram α}
    (hcall : call.OnlyStaging) (hf : ∀ r, OnlyStaging (f r)) : OnlyStaging (treeCall call >>= f) :=
  (Program.obeysT_requestT hcall).bind fun r _ => hf r

theorem onlyStaging_expectOk (answer : Except IoError Unit) (context : String) :
    OnlyStaging (expectOk answer context) := by
  cases answer with
  | error e => exact Program.obeysT_throw _
  | ok u => exact Program.obeysT_pure trivial

theorem onlyStaging_checkTelemetry {α : Type} {f : Unit → TreeProgram α}
    (hf : OnlyStaging (f ())) : OnlyStaging (checkTelemetry >>= f) := by
  have hcheck : OnlyStaging checkTelemetry := by
    refine onlyStaging_bind trivial fun failed => ?_
    split
    · exact Program.obeysT_throw _
    · exact Program.obeysT_pure trivial
  exact hcheck.bind fun _ _ => hf

theorem onlyStaging_applyLink (link : DesiredLink) : OnlyStaging (applyLink link) := by
  have hreplace : OnlyStaging (replaceLink link) := by
    refine onlyStaging_bind trivial fun uuid => onlyStaging_bind trivial fun made => ?_
    refine (onlyStaging_expectOk made _).bind fun _ _ => onlyStaging_bind trivial fun moved => ?_
    split
    · exact Program.obeysT_pure trivial
    · exact onlyStaging_bind trivial fun _ => Program.obeysT_throw _
  refine onlyStaging_checkTelemetry (onlyStaging_bind trivial fun metadata => ?_)
  split
  · split
    · exact Program.obeysT_pure trivial
    · exact hreplace
  · exact Program.obeysT_throw _
  · exact onlyStaging_bind trivial fun made => onlyStaging_expectOk made _
  · exact Program.obeysT_throw _

theorem onlyStaging_pruneDirectory (dir : List Name) : OnlyStaging (pruneDirectory dir) := by
  refine onlyStaging_checkTelemetry (onlyStaging_bind trivial fun removed => ?_)
  split
  · exact Program.obeysT_pure trivial
  · exact Program.obeysT_pure trivial
  · exact Program.obeysT_pure trivial
  · exact Program.obeysT_throw _

theorem onlyStaging_apply (p : Plan) : OnlyStaging (apply p) := by
  have hcreate : ∀ dir, OnlyStaging (createDirectory dir) := fun dir =>
    onlyStaging_checkTelemetry (onlyStaging_bind trivial fun made => onlyStaging_expectOk made _)
  have hstale : ∀ path, OnlyStaging (removeStale path) := fun path =>
    onlyStaging_checkTelemetry (onlyStaging_bind trivial fun gone => onlyStaging_expectOk gone _)
  refine (Program.obeysT_forM fun dir _ => hcreate dir).bind fun _ _ => ?_
  refine (Program.obeysT_forM fun link _ => onlyStaging_applyLink link).bind fun _ _ => ?_
  refine (Program.obeysT_forM fun path _ => hstale path).bind fun _ _ => ?_
  exact Program.obeysT_forM fun dir _ => onlyStaging_pruneDirectory dir

theorem onlyStaging_planAndApply (config : BuildTreeConfig) (c : Catalog) :
    OnlyStaging (planAndApply config c) := by
  refine onlyStaging_bind (show TreeCall.OnlyStaging .view from trivial) fun seen =>
    onlyStaging_checkTelemetry ?_
  split
  · exact Program.obeysT_throw _
  · refine onlyStaging_checkTelemetry ?_
    split
    · exact Program.obeysT_pure trivial
    · exact onlyStaging_checkTelemetry
        ((onlyStaging_apply _).bind fun _ _ => Program.obeysT_pure trivial)

/-- The command changes nothing of the store but staging, wherever it is stopped. -/
theorem sameOutsideStaging_buildTree (env : TreeEnvironment) (config : BuildTreeConfig)
    (c : Catalog) (n : ℕ) (w : TreeWorld) : SameOutsideStaging w.store
      (Program.after (treeHandler env) n (ExceptT.run (buildTree config c)) w).store := by
  let P := fun v : TreeWorld => SameOutsideStaging w.store v.store
  have hpurge : Meets (treeHandler env) P (purgeUnlessDryRun config) w (fun _ => P)
      (fun _ => P) := by
    unfold purgeUnlessDryRun
    split
    · exact Program.meets_pure (.refl _) (.refl _)
    · refine Program.meets_embedT (Meets.mono (ObeysT.meets ?_ ?_ inStaging_purgeExistingStaging
        (SameOutsideStaging.refl w.store)) (fun _ _ => And.right) fun _ _ => id)
      · intro call v _
        exact possibleAnswer_answer env.faults v.calls v.store call
      · intro call v hcall hv
        exact sameOutsideStaging_answer hv env.faults v.calls hcall
  have hrest : ∀ v, P v → Meets (treeHandler env) P (planAndApply config c) v (fun _ => P)
      (fun _ => P) := by
    intro v hv
    refine Meets.mono (ObeysT.meets (fun _ _ _ => trivial) ?_
      (onlyStaging_planAndApply config c) hv) (fun _ _ => And.right) fun _ _ => id
    intro call u hcall hu
    cases call with
    | store call => exact sameOutsideStaging_answer hu env.faults u.calls hcall
    | tree call => exact hu
    | view => exact hu
    | newUuid => exact hu
    | telemetryFailed => exact hu
  exact Program.after_of_throughout (treeHandler env) n
    (hpurge.bind (fun _ v hv _ => hrest v hv) fun _ _ => id).throughout

end Trees

/-! ## All commands -/

/-- A command, to its end or stopped somewhere, seen from the catalog that is committed and the
files of the store. A write of an import is made when its batch is committed. -/
inductive CommandStep [SqlArithmetic] (digest : Bytes → BlobHash) :
    Catalog × Store → Catalog × Store → Prop
  /-- What an import does before it reads files. -/
  | prepare {c d} (faults : FaultPlan Name Bytes UInt8) (n : ℕ) :
      CommandStep digest (c, d) (c, (Program.after (storeHandler faults) n
        (ExceptT.run prepareStagingForImport) (d, 0)).1)
  /-- The files that an import reads are staged under different names. -/
  | importFiles {d} {input : ImportInput} {run : ImportRun}
      (hnames : (input.requests.map IngestRequest.name).Nodup)
      (h : Relation.ReflTransGen (ImportRun.Step input) (input.start digest d) run) :
      CommandStep digest (input.catalog, d) (run.catalog, run.workers.state.disk)
  | collectGarbage {w w' : GcWorld} (ht : w.writer.connection.transaction = none)
      (h : StoppedCollection digest w w') :
      CommandStep digest (w.catalog, w.store) (w'.catalog, w'.store)
  | buildTree {c} (env : TreeEnvironment) (config : BuildTreeConfig) (n : ℕ) (w : TreeWorld) :
      CommandStep digest (c, w.store) (c, (Program.after (treeHandler env) n
        (ExceptT.run (buildTree config c)) w).store)

section Commands

variable [SqlArithmetic] {digest : Bytes → BlobHash} {c : Catalog} {d : Store}

theorem CommandStep.coherent {before after : Catalog × Store}
    (h : CommandStep digest before after) (hc : Coherent digest before.1 before.2) :
    Coherent digest after.1 after.2 := by
  cases h with
  | prepare faults n => exact hc.keepsCas (keepsCas_prepare faults n _)
  | importFiles hnames h => exact (running_of_steps hc hnames h).coherent
  | collectGarbage ht h => exact h.coherent ht hc
  | buildTree env config n w =>
      exact hc.keepsCas (sameOutsideStaging_buildTree env config _ n w).keepsCas

theorem coherent_of_commands {before after : Catalog × Store}
    (h : Relation.ReflTransGen (CommandStep digest) before after)
    (hc : Coherent digest before.1 before.2) : Coherent digest after.1 after.2 := by
  induction h with
  | refl => exact hc
  | tail _ hstep ih => exact hstep.coherent ih

/-- **Source rows are backed**: whatever commands ran on a store that had a valid CAS, and
wherever each of them was stopped, every source row names a blob that is not marked, with the
size of the row, and the CAS has its file with this size and the right content. -/
theorem sourceRows_backed {start : Store} (hcas : CasOfValidFiles digest start)
    (h : Relation.ReflTransGen (CommandStep digest) (Catalog.fresh, start) (c, d)) :
    (∀ s ∈ c.sourceFiles, s.Backed digest c d) ∧ CasOfValidFiles digest d ∧ c.WellKept ∧
      ∀ root path, (c.rowsOf root path).length ≤ 1 := by
  have hc := coherent_of_commands h (coherent_fresh hcas)
  exact ⟨fun s hs => hc.backed hs, hc.cas, hc.catalog, hc.single⟩

end Commands

/-! ## A first import -/

/-- The workers make all their calls while nothing else happens. -/
theorem ImportRun.works [SqlArithmetic] (input : ImportInput) (run : ImportRun)
    {workers : Ingests} (h : Reaches Answered run.workers workers) :
    Relation.ReflTransGen (ImportRun.Step input) run { run with workers := workers } := by
  induction h with
  | refl => exact .refl
  | tail _ hstep ih => exact ih.tail (.work hstep)

/-- The import of one file, which is read. -/
theorem ImportInput.steps_of_one [SqlArithmetic] {digest : Bytes → BlobHash} {input : ImportInput}
    {file : ScannedFile} {store : Store} {fails : ReadCall → Bool} {reason : HashReason}
    {s : IngestWorld} {blob : StoredBlob} {c : Catalog} {outcome : ImportWriteOutcome}
    (hfiles : input.files = [file])
    (hreason : input.disposition ⟨store, fails⟩ file = .ok (.hash reason))
    (hworks : Reaches Answered (ingests digest input.requests store) ⟨s, [.done (.ok blob)]⟩)
    (hrecord : (PendingImportRequest.imported ⟨blob.hash, blob.sizeBytes, 1⟩
      (sourceObservation input.sourceRoot file blob.hash 1)).record input.catalog =
        .ok (outcome, c)) :
    Relation.ReflTransGen (ImportRun.Step input) (input.start digest store)
      ⟨c, ⟨s, [.done (.ok blob)]⟩, 1, [], []⟩ := by
  have hqueue : ImportRun.Step input (input.start digest store)
      ⟨input.catalog, ingests digest input.requests store, 1, [(0, file)], []⟩ :=
    .queue (by simp [ImportInput.start, hfiles]) hreason
  have hworks := ImportRun.works input
    ⟨input.catalog, ingests digest input.requests store, 1, [(0, file)], []⟩ hworks
  exact (((Relation.ReflTransGen.single hqueue).trans hworks).tail
    (.complete (i := 0) 1 1 rfl rfl)).tail (.write rfl hrecord)

/-- A directory with one file, whose source has a catalog already or not. -/
def directoryInput (metadataSkip : Bool) (snapshot : Option Catalog) : ImportInput where
  sourceRoot := ['/']
  rooted := head_slash
  metadataSkip
  snapshot
  files := [letterFile]

theorem sourceRows_backed_letter : ∃ _ : SqlArithmetic, ∃ c d,
    Relation.ReflTransGen (CommandStep letterDigest) (Catalog.fresh, bareStore) (c, d) ∧
      c.sourceFiles ≠ [] ∧ ∀ s ∈ c.sourceFiles, s.Backed letterDigest c d := by
  refine ⟨integerSums, ?_⟩
  let _ := integerSums
  let made := letterRun 0 'b' ⟨bareStore, []⟩
  have hanswers : ∀ call s, Answered 0 call s (calmHandler 0 call s).1 (calmHandler 0 call s).2 :=
    fun call s => .performed call s
  have hworks : Reaches Answered (ingests letterDigest [letterRequest 'b'] bareStore)
      ⟨made.2, [.done made.1]⟩ := reaches_run hanswers _ rfl
  have hresult : made.1 = .ok ⟨letterHash, 1, .created⟩ := by decide +kernel
  have hrequests : (directoryInput true none).requests = [letterRequest 'b'] := rfl
  rw [hresult, ← hrequests] at hworks
  obtain ⟨outcome, hrecord⟩ := record_catalogAfter letterRecord .fresh (by decide +kernel)
  have hcatalog : (directoryInput true none).catalog = .fresh := rfl
  have hreason : (directoryInput true none).disposition ⟨bareStore, fun _ => false⟩ letterFile =
      .ok (.hash .noCatalogObservation) := rfl
  rw [← hcatalog] at hrecord
  have hsteps := ImportInput.steps_of_one rfl hreason hworks hrecord
  have hstep := CommandStep.importFiles (by decide) hsteps
  rw [hcatalog] at hstep
  have hreach := Relation.ReflTransGen.single hstep
  have hrows : (catalogAfter letterRecord .fresh).sourceFiles ≠ [] := by decide +kernel
  exact ⟨_, _, hreach, hrows,
    (sourceRows_backed (casOfValidFiles_bareStore letterDigest) hreach).1⟩

end MediaImporter
