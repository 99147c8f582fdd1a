import MediaImporter.Gc.Tracks

/-!
# The loop that sweeps

For a blob that is swept the file goes first and the row is staged for deletion after it. Once
the first file is gone there is no way back.

## Main definitions

* `meets_unlinkPresent`, `meets_applyFile` — the file of a candidate.
* `meets_applySweep` — a step of the loop.
* `meets_stagePlan` — all loops.
-/

namespace MediaImporter

open Utf8 UnixPath
open Program (Meets)

/-! ## What a session knows about a candidate -/

section Candidates

variable {digest : Bytes → BlobHash} {readFails : ReadCall → Bool} {x : GcSession}

/-- A valid tree stays valid when files are unlinked. -/
theorem CasTree.unlinked {d d' : Store} {hashes : List BlobHash} (h : CasTree d)
    (hd : Unlinked hashes d d') : CasTree d' where
  root := (hd.lookup_of_length (by simp)).trans h.root
  entries relative node hne hlookup := by
    rw [hd.lookup] at hlookup
    split at hlookup
    · simp at hlookup
    · exact h.entries relative node hne hlookup

/-- A candidate whose file was found has it, with the identity it was found with. -/
theorem lookup_of_presentCandidate {b : CatalogBlob} {identity : BlobFileIdentity}
    (h : PresentCandidate digest ⟨x.store, readFails⟩ b identity) :
    ∃ inode, x.store.tree.lookup (blobPath b.hash) = some (.file inode) ∧
      identity = ⟨(x.store.data inode).length, inode⟩ := by
  obtain ⟨inode, hlookup⟩ := lookup_of_mem_validBlobs h.found
  refine ⟨inode, hlookup, ?_⟩
  have hopened := h.opened
  simp only [StoreReader.openBlobNoFollow, Disk.openNoFollow,
    Disk.symlinkMetadata_of_lookup hlookup] at hopened
  split at hopened
  · simp at hopened
  · simpa [BlobFileIdentity.fromMetadata, Disk.len, eq_comm] using hopened

/-- The candidates done so far are others than the next one. -/
theorem GcSession.Valid.hash_notMem (hx : x.Valid digest readFails)
    {done rest : List SweepCandidate} {candidate : SweepCandidate}
    (hl : x.preflight.sweepCandidates = done ++ candidate :: rest) :
    ∀ c ∈ done, c.blob ∈ validBlobs x.catalog ∧ c.blob ≠ candidate.blob := by
  intro c hc
  have hnodup := hx.sweeps.nodup
  have hvalid := hx.sweeps.valid
  rw [← hx.map_blob, hl] at hnodup hvalid
  refine ⟨hvalid c.blob (List.mem_map_of_mem (by simp [hc])), fun heq => ?_⟩
  rw [List.map_append, List.map_cons] at hnodup
  exact List.disjoint_of_nodup_append hnodup (List.mem_map_of_mem hc) (by simp [heq])

theorem GcSession.Valid.blob_mem (hx : x.Valid digest readFails) {candidate : SweepCandidate}
    (hmem : candidate ∈ x.preflight.sweepCandidates) :
    candidate.blob ∈ x.preflight.plan.sweeps := by
  rw [← hx.map_blob]
  exact List.mem_map_of_mem hmem

theorem GcSession.Valid.notMem_presentHashes (hx : x.Valid digest readFails)
    {done rest : List SweepCandidate} {candidate : SweepCandidate}
    (hl : x.preflight.sweepCandidates = done ++ candidate :: rest) :
    candidate.blob.hash ∉ presentHashes done := by
  intro hmem
  obtain ⟨c, hc, heq⟩ := List.mem_map.mp hmem
  obtain ⟨hvalid, hne⟩ := hx.hash_notMem hl c (List.mem_of_mem_filter hc)
  have hin : candidate ∈ x.preflight.sweepCandidates := by simp [hl]
  have hcandidate := hx.sweeps.valid _ (hx.blob_mem hin)
  exact hne (eq_of_mem_validBlobs hvalid hcandidate heq)

/-- The bytes of the candidates fit into 64 bits. -/
theorem GcSession.Valid.presentBytes_lt (hx : x.Valid digest readFails)
    {done rest : List SweepCandidate} {candidate : SweepCandidate}
    (hl : x.preflight.sweepCandidates = done ++ candidate :: rest) :
    presentBytes (done ++ [candidate]) < 2 ^ 64 := by
  have hsum := hx.clean.reclaimable
  rw [hl, ← List.singleton_append, ← List.append_assoc, presentBytes_append] at hsum
  omega

/-- There are not more candidates than rows. -/
theorem GcSession.Valid.length_lt (hx : x.Valid digest readFails) (hfits : x.catalog.Fits)
    {done rest : List SweepCandidate} {candidate : SweepCandidate}
    (hl : x.preflight.sweepCandidates = done ++ candidate :: rest) :
    done.length + 1 < 2 ^ 64 := by
  have hlength := hx.sweeps.length
  have hrows := hfits.rows
  rw [← hx.map_blob, hl, List.length_map, List.length_append, List.length_cons] at hlength
  omega

theorem length_presentHashes_le (l : List SweepCandidate) :
    (presentHashes l).length ≤ l.length := by
  rw [presentHashes, List.length_map]
  exact List.length_filter_le _ _

end Candidates

section Snoc

variable {done : List SweepCandidate} {b : CatalogBlob} {identity : Option BlobFileIdentity}

@[simp] theorem presentHashes_snoc_present :
    presentHashes (done ++ [⟨b, .present, identity⟩]) = presentHashes done ++ [b.hash] := by
  rw [presentHashes_append]
  rfl

@[simp] theorem presentHashes_snoc_absent :
    presentHashes (done ++ [⟨b, .alreadyAbsent, identity⟩]) = presentHashes done := by
  rw [presentHashes_append]
  exact List.append_nil _

end Snoc

/-! ## The file of a candidate -/

section Files

variable [SqlArithmetic] {env : GcEnvironment} {x : GcSession} {s : ApplyState} {w : GcWorld}
  {digest : Bytes → BlobHash} {readFails : ReadCall → Bool}
  {done rest : List SweepCandidate} {candidate : SweepCandidate}

/-- Everything but the last sweeps is staged. -/
def GcSession.swept (x : GcSession) (done : List SweepCandidate) : GcDone :=
  ⟨x.preflight.plan.marks, x.preflight.plan.resurrections, done⟩

/-- The file of the next candidate is dealt with, but its row is not. -/
structure FileGone (x : GcSession) (done : List SweepCandidate) (candidate : SweepCandidate)
    (s : ApplyState) (w : GcWorld) (gone : List SweepCandidate) : Prop
    extends Holds x (x.swept done) gone gone s w where
  transaction : w.writer.connection.transaction = some (x.staged (x.swept done))
  hashes : presentHashes gone = presentHashes (done ++ [candidate])
  bytes : presentBytes gone = presentBytes (done ++ [candidate])

omit [SqlArithmetic] in
theorem physicalProgress_ok {report : GcReport} {size : ℕ}
    (hfiles : report.casFilesRemoved + 1 < 2 ^ 64) (hbytes : report.bytesUnlinked + size < 2 ^ 64) :
    PhysicalProgress.checkedAfterPresentUnlink report size =
      .ok ⟨report.casFilesRemoved + 1, report.bytesUnlinked + size⟩ := by
  simp only [PhysicalProgress.checkedAfterPresentUnlink, Except.bind_eq_ok, checkedAdd_eq_ok_iff,
    Except.pure_eq_ok]
  exact ⟨_, ⟨hfiles, rfl⟩, _, ⟨hbytes, rfl⟩, rfl⟩

omit [SqlArithmetic] in
theorem reaches_snoc (hl : x.preflight.sweepCandidates = done ++ candidate :: rest) :
    x.Reaches (x.swept done) (done ++ [candidate]) where
  marks := List.prefix_rfl
  resurrections := List.prefix_rfl
  candidates := ⟨rest, by simp [hl]⟩
  sweeps := List.prefix_append _ _
  sweepsLast _ := ⟨rfl, rfl⟩

omit [SqlArithmetic] in
/-- The unlink took place. -/
theorem unlinked_snoc {b : CatalogBlob} {identity : Option BlobFileIdentity} {w' : GcWorld}
    (h : Unlinked (presentHashes done) x.store w.store)
    (hw : AfterRemoval w b.hash true w') :
    Unlinked (presentHashes (done ++ [⟨b, .present, identity⟩])) x.store w'.store := by
  rw [presentHashes_append]
  exact h.snoc (by simpa using hw.lookup) hw.files

theorem meets_unlinkPresent (hx : x.Valid digest readFails) {b : CatalogBlob}
    {identity : BlobFileIdentity} (hcandidate : candidate = ⟨b, .present, some identity⟩)
    (hpresent : PresentCandidate digest ⟨x.store, readFails⟩ b identity)
    (hl : x.preflight.sweepCandidates = done ++ candidate :: rest)
    (h : Tracks x (x.swept done) s w) {next : PhysicalProgress}
    (hnext : next.assignTo s.report = x.report (done ++ [candidate])) :
    Meets (gcHandler env) x.Stopped (unlinkPresent s candidate next) w
      (fun s' w' => FileGone x done candidate s' w' (done ++ [candidate])) (Halts env x) := by
  subst hcandidate
  obtain ⟨inode, hlookup, hidentity⟩ := lookup_of_presentCandidate hpresent
  have hnew := hx.notMem_presentHashes hl
  have hreaches := reaches_snoc hl
  have hfile : ∀ w', Tracks x (x.swept done) s w' →
      w'.store.tree.lookup (blobPath b.hash) = some (.file inode) := by
    intro w' hw'
    rw [hw'.store.lookup_blobPath hnew, hlookup]
  simp only [unlinkPresent, pure_bind]
  -- look at the file once more
  refine (meets_attemptOrAbort (Q := fun _ w' => Tracks x (x.swept done) s w')
    (meets_revalidate fun w' hw' => h.stopped hw') (fun _ _ hw' => h.same hw') ?_).bind ?_
    fun _ _ he => he
  · rintro e w' ⟨hw', hblame⟩
    refine (h.same hw').halts fun henv _ => ?_
    refine hblame henv _ (Disk.symlinkMetadata_of_lookup (hfile w h)) ?_
    rw [hidentity, ← h.store.files.1]
    rfl
  intro _ w' hPw h'
  -- unlink it
  have hremoved : ∀ w'' removed, AfterRemoval w' b.hash removed w'' →
      Holds x (x.swept done)
        (if removed then done ++ [⟨b, .present, some identity⟩] else done) done s w'' := by
    intro w'' removed hw''
    have hcatalog : w''.catalog = x.catalog :=
      (congrArg (·.connection.committed) hw''.writer).trans h'.catalog
    cases removed with
    | true =>
        exact { h'.toHolds with
          reaches := hreaches
          catalog := hcatalog
          store := unlinked_snoc h'.store hw'' }
    | false =>
        refine { h'.toHolds with catalog := hcatalog, store := ?_ }
        refine ⟨fun q => ?_, h'.store.files.trans hw''.files⟩
        rw [hw''.lookup, if_neg (fun hq => Bool.false_ne_true hq.1)]
        exact h'.store.lookup q
  refine (meets_attemptOrAbort (Q := fun _ w'' => AfterRemoval w' b.hash true w'')
    (meets_removeBlobFile hPw fun w'' removed hw'' => (hremoved w'' removed hw'').stopped)
    (fun _ _ hw'' => hw'') ?_).bind ?_ fun _ _ he => he
  · rintro e w'' ⟨removed, hw'', hmild, hblame⟩
    have ht : w''.writer.connection.transaction = some (x.staged (x.swept done)) :=
      (congrArg (·.connection.transaction) hw''.writer).trans h'.transaction
    refine ⟨fun henv _ => hblame henv inode (hfile w' h'), by simp, x.swept done, _, done,
      hremoved w'' removed hw'', .inl ht, ?_⟩
    cases removed with
    | false => exact .inl rfl
    | true => exact .inr ⟨rfl, fun henv => by simpa using hmild henv⟩
  intro _ w'' _ hw''
  have ht : w''.writer.connection.transaction = some (x.staged (x.swept done)) :=
    (congrArg (·.connection.transaction) hw''.writer).trans h'.transaction
  have hgone : FileGone x done ⟨b, .present, some identity⟩
      { s with report := next.assignTo s.report, sweepMutationsStarted := true } w''
      (done ++ [⟨b, .present, some identity⟩]) :=
    { hremoved w'' true hw'' with
      report := hnext
      started := by simp
      transaction := ht
      hashes := rfl
      bytes := rfl }
  -- make it durable
  refine (meets_attempt (E := Halts env x) (Q := fun r w₃ => w''.SameState w₃ ∧
    ∀ e, r = .error e → ¬ env.Faultless)
    (meets_syncBlobParent fun w₃ hw₃ => (hgone.toHolds.same hw₃).stopped)
    (fun _ w₃ hw₃ => ⟨hw₃, by simp⟩) ?_).bind ?_ fun _ _ he => he
  · rintro e w₃ ⟨hw₃, hblame⟩
    refine ⟨hw₃, fun _ _ henv => hblame henv ?_⟩
    rw [hgone.store.lookup_of_length (by simp [blobPath, blobNames])]
    exact FileTree.lookup_dropLast (by simp [hlookup]) (by simp [blobPath])
  · rintro synced w₃ hP₃ ⟨hw₃, hblame⟩
    have ht₃ : w₃.writer.connection.transaction = some (x.staged (x.swept done)) :=
      (congrArg (·.connection.transaction) hw₃.2).trans ht
    cases synced with
    | ok u =>
        refine Program.meets_pure hP₃ ?_
        exact { hgone with toHolds := hgone.toHolds.same hw₃, transaction := ht₃ }
    | error e =>
        refine Program.meets_throw hP₃ ⟨fun henv => absurd henv (hblame e rfl), ?_, _, _, _,
          hgone.toHolds.same hw₃, .inl ht₃, .inl rfl⟩
        rintro _ _ ⟨⟩
        rfl

theorem meets_applyFile (hx : x.Valid digest readFails)
    (hl : x.preflight.sweepCandidates = done ++ candidate :: rest)
    (h : Tracks x (x.swept done) s w) :
    Meets (gcHandler env) x.Stopped (applyFile s candidate) w
      (fun s' w' => ∃ gone, FileGone x done candidate s' w' gone) (Halts env x) := by
  have hin : candidate ∈ x.preflight.sweepCandidates := by simp [hl]
  have hcandidate := hx.candidate hin
  have hbytes := hx.presentBytes_lt hl
  have hlength := fun hfits => hx.length_lt hfits hl
  have htree := casTree_of_findings hx.clean.cas
  generalize hb : candidate.blob = b at hcandidate
  cases hcandidate with
  | absent hfound hmissing =>
      -- there is nothing to unlink, but its directory is made durable
      refine (meets_attemptOrAbort (Q := fun _ w' => Tracks x (x.swept done) s w')
        (meets_syncNearest fun w' hw' => h.stopped hw') (fun _ _ hw' => h.same hw') ?_).bind ?_
        fun _ _ he => he
      · rintro e w' ⟨hw', hblame⟩
        refine (h.same hw').halts fun henv _ => hblame henv ?_
        exact firstExisting_of_casTree (htree.unlinked h.store) _
      · intro _ w' hPw h'
        refine Program.meets_pure hPw ⟨done, ?_⟩
        exact { h' with
          hashes := presentHashes_snoc_absent.symm
          bytes := by simp }
  | present identity hpresent =>
      refine (meets_orAbort (Q := fun next w' => w' = w ∧
        next.assignTo s.report = x.report (done ++ [⟨b, .present, some identity⟩]))
        (h.stopped (.refl w)) ?_ ?_).bind ?_ fun _ _ he => he
      · intro next hnext
        refine ⟨rfl, ?_⟩
        simp only [PhysicalProgress.checkedAfterPresentUnlink, Except.bind_eq_ok,
          checkedAdd_eq_ok_iff, Except.pure_eq_ok, Except.ok.injEq] at hnext
        obtain ⟨removed, ⟨-, rfl⟩, bytes, ⟨-, rfl⟩, rfl⟩ := hnext
        rw [h.report, GcSession.report, GcSession.report, presentHashes_snoc_present]
        simp [PhysicalProgress.assignTo, GcSession.swept]
      · intro e herror
        refine h.halts fun _ hfits => ?_
        rw [h.report] at herror
        have hcount := hlength hfits
        have hle := length_presentHashes_le done
        rw [presentBytes_append, presentBytes_singleton_present] at hbytes
        rw [physicalProgress_ok (by simp only [GcSession.report, GcSession.swept]; omega) (by
          simp only [GcSession.report, GcSession.swept]; omega)] at herror
        simp at herror
      · rintro next _ - ⟨rfl, hnext⟩
        refine (meets_unlinkPresent hx rfl hpresent hl h hnext).mono ?_ fun _ _ he => he
        exact fun s' w' hgone => ⟨_, hgone⟩

end Files

/-! ## The loops -/

section Loops

variable [SqlArithmetic] {env : GcEnvironment} {x : GcSession} {s : ApplyState} {w : GcWorld}
  {digest : Bytes → BlobHash} {readFails : ReadCall → Bool}

omit [SqlArithmetic] in
/-- The count of one more sweep, unless it overflows. -/
theorem checkedSweep_eq_ok_iff {y : GcDone} {candidate : SweepCandidate} {next : StagedProgress} :
    y.progress.checkedSweep candidate.blob.sizeBytes candidate.sourceState = .ok next ↔
      (candidate.sourceState = .present → presentBytes (y.sweeps ++ [candidate]) < 2 ^ 64) ∧
      y.sweeps.length + 1 < 2 ^ 64 ∧
      next = (⟨y.marks, y.resurrections, y.sweeps ++ [candidate]⟩ : GcDone).progress := by
  obtain ⟨blob, state, identity⟩ := candidate
  cases state with
  | present =>
      simp only [StagedProgress.checkedSweep, GcDone.progress, Except.bind_eq_ok,
        checkedAdd_eq_ok_iff, Except.pure_eq_ok, Except.ok.injEq, presentBytes_append,
        presentBytes_singleton_present, List.length_append, List.length_singleton, true_imp_iff]
      constructor
      · rintro ⟨_, ⟨hbytes, rfl⟩, _, ⟨hlength, rfl⟩, rfl⟩
        exact ⟨hbytes, hlength, rfl⟩
      · rintro ⟨hbytes, hlength, rfl⟩
        exact ⟨_, ⟨hbytes, rfl⟩, _, ⟨hlength, rfl⟩, rfl⟩
  | alreadyAbsent =>
      simp only [StagedProgress.checkedSweep, GcDone.progress, Except.bind_eq_ok,
        checkedAdd_eq_ok_iff, Except.pure_eq_ok, Except.ok.injEq, presentBytes_append,
        presentBytes_singleton_absent, List.length_append, List.length_singleton, reduceCtorEq,
        false_imp_iff, true_and, add_zero]
      constructor
      · rintro ⟨_, rfl, _, ⟨hlength, rfl⟩, rfl⟩
        exact ⟨hlength, rfl⟩
      · rintro ⟨hlength, rfl⟩
        exact ⟨_, rfl, _, ⟨hlength, rfl⟩, rfl⟩

/-- One more sweep. -/
theorem meets_applySweep (hx : x.Valid digest readFails) {done rest : List SweepCandidate}
    {candidate : SweepCandidate} (hl : x.preflight.sweepCandidates = done ++ candidate :: rest)
    (h : Tracks x (x.swept done) s w) :
    Meets (gcHandler env) x.Stopped (applySweep s candidate) w
      (Tracks x (x.swept (done ++ [candidate]))) (Halts env x) := by
  have hmem : candidate ∈ x.preflight.sweepCandidates := by simp [hl]
  have hblob := hx.blob_mem hmem
  have hvalid := hx.sweeps.valid _ hblob
  refine (meets_attemptOrAbort (Q := fun _ w' => Tracks x (x.swept done) s w')
    (meets_checkGcTelemetry fun w' hw' => h.stopped hw') (fun _ _ hw' => h.same hw')
    fun e w' hw' => (h.same hw'.1).halts fun henv => absurd henv hw'.2).bind ?_ fun _ _ he => he
  intro _ w' hPw h
  refine (meets_orAbort (Q := fun next w'' => w'' = w' ∧
    next = (x.swept (done ++ [candidate])).progress) hPw ?_ ?_).bind ?_ fun _ _ he => he
  · intro next hnext
    rw [h.progress] at hnext
    exact ⟨rfl, (checkedSweep_eq_ok_iff.mp hnext).2.2⟩
  · intro e herror
    refine h.halts fun _ hfits => ?_
    have hok : (x.swept done).progress.checkedSweep candidate.blob.sizeBytes
        candidate.sourceState = .ok (x.swept (done ++ [candidate])).progress :=
      checkedSweep_eq_ok_iff.mpr ⟨fun _ => hx.presentBytes_lt hl, hx.length_lt hfits hl, rfl⟩
    rw [h.progress, hok] at herror
    simp at herror
  rintro next _ - ⟨rfl, rfl⟩
  -- the file goes first
  refine (meets_applyFile hx hl h).bind ?_ fun _ _ he => he
  rintro s' w' hPw' ⟨gone, hgone⟩
  have hstage : (GcStatement.sweep candidate.blob).stage (x.staged (x.swept done)) =
        (.ok (), x.staged (x.swept (done ++ [candidate]))) ∨
      (∃ e, (GcStatement.sweep candidate.blob).stage (x.staged (x.swept done)) =
        (.error e, x.staged (x.swept done))) ∧ ¬ x.catalog.Fits := by
    by_cases hsize : candidate.blob.sizeBytes < 2 ^ 63
    · left
      have huntouched := hx.untouched (y := x.swept done) hvalid (by
        intro b' hb'
        have hkinds : b'.planned ≠ .sweep → b' ≠ candidate.blob := by
          rintro hkind rfl
          exact hkind (hx.sweeps.planned _ hblob)
        simp only [GcSession.swept, List.mem_append, List.mem_map] at hb'
        rcases hb' with (hb' | hb') | ⟨c, hc, rfl⟩
        · exact ⟨hx.marks.valid b' hb', hkinds (by simp [hx.marks.planned b' hb'])⟩
        · exact ⟨hx.resurrections.valid b' hb', hkinds (by simp [hx.resurrections.planned b' hb'])⟩
        · exact hx.hash_notMem hl c hc)
      have hstaged := stageGcSweep_staged x.now huntouched
        (hx.sweeps.planned _ hblob) hsize
      simpa [GcStatement.stage, GcSession.staged, GcSession.swept] using hstaged
    · right
      refine ⟨stageGc_eq_error hsize _ _ _, fun hfits => ?_⟩
      exact hsize (size_lt_of_fits hfits hx.hashes hvalid)
  refine (meets_stageAction _ (actionFor .sweep candidate.blob (some candidate.sourceState))
    (x.swept (done ++ [candidate])).progress hgone.toHolds hgone.transaction hstage).bind ?_
    fun _ _ he => he
  · rintro _ w'' hPw'' ⟨rfl, hholds, ht⟩
    refine Program.meets_pure hPw'' ⟨?_, ht⟩
    exact
      { reaches := ⟨List.prefix_rfl, List.prefix_rfl, ⟨rest, by simp [hl, GcSession.swept]⟩,
          List.prefix_rfl, fun _ => ⟨rfl, rfl⟩⟩
        thread := hholds.thread
        catalog := hholds.catalog
        store := by
          rw [GcSession.swept, ← hgone.hashes]
          exact hholds.store
        progress := rfl
        actions := by
          rw [hholds.actions]
          simp [GcDone.actions, GcSession.swept]
        report := by
          rw [hholds.report, GcSession.report, GcSession.report, hgone.hashes, hgone.bytes]
          rfl
        started := by simp [GcSession.swept] }

omit [SqlArithmetic] in
/-- What the loops start from. -/
theorem tracks_start (hx : x.Valid digest readFails) (hcatalog : w.catalog = x.catalog)
    (ht : w.writer.connection.transaction = some x.catalog) (hstore : w.store = x.store) :
    Tracks x .start (.start (.ok Writer.inSession) x.preflight.report) w where
  reaches := ⟨List.nil_prefix, List.nil_prefix, List.nil_prefix, List.nil_prefix, by
    simp [GcDone.start]⟩
  thread := rfl
  catalog := hcatalog
  store := hstore ▸ Unlinked.refl w.store
  progress := rfl
  actions := rfl
  report := hx.report_nil.symm
  started := by simp [ApplyState.start, GcDone.start]
  transaction := by simp [ht, GcSession.staged, GcDone.start]

/-- The loops stage everything that is planned, or stop for a reason outside of the catalog
and the store. Wherever they are stopped the committed catalog is the old one. -/
theorem meets_stagePlan (hx : x.Valid digest readFails) (hcatalog : w.catalog = x.catalog)
    (ht : w.writer.connection.transaction = some x.catalog) (hstore : w.store = x.store) :
    Meets (gcHandler env) x.Stopped
      (stagePlan x.preflight x.now (.start (.ok Writer.inSession) x.preflight.report)) w
      (Tracks x x.planned) (Halts env x) := by
  have hstart := tracks_start hx hcatalog ht hstore
  refine (Program.meets_foldlM (fun done => Tracks x ⟨done, [], []⟩) hstart
    (fun _ w' h => h.stopped (.refl w'))
    fun done b rest s w hl h => meets_applyMark hx hl h).bind ?_ fun _ _ he => he
  rintro s w - h
  refine (Program.meets_foldlM (fun done => Tracks x ⟨x.preflight.plan.marks, done, []⟩) h
    (fun _ w' h => h.stopped (.refl w'))
    fun done b rest s w hl h => meets_applyResurrection hx hl h).bind ?_ fun _ _ he => he
  rintro s w - h
  exact Program.meets_foldlM (fun done => Tracks x (x.swept done)) h
    (fun _ w' h => h.stopped (.refl w')) fun done b rest s w hl h => meets_applySweep hx hl h

end Loops

end MediaImporter
