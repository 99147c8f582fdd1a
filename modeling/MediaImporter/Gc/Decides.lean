import MediaImporter.Gc.Safety
import MediaImporter.Store.CasWalk

/-!
# What a preflight decides

Where nothing fails to be read, the preflight finds nothing exactly in the states from which
a collection may start: the catalog is sound, the CAS holds nothing but shard directories and
the files of the catalog's blobs, only a marked blob that nothing refers to may have lost its
file, and what is to be swept is what its name says. The candidates are then the planned
sweeps, and what is known of each suffices to remove it.

## Main definitions

* `Safe` — the states from which a collection may start.
* `Fits` — the numbers of the report have 64 bits.
* `runPreflight_decides` — the preflight decides `Safe`.
-/

namespace MediaImporter

open Utf8 UnixPath

/-- The states from which a collection may start. -/
structure Safe (digest : Bytes → BlobHash) (d : Store) (c : Catalog) : Prop where
  catalog : (inspectCatalogConnection c).findings = []
  entries : ∀ p node, p ≠ [] → d.tree.lookup (blobsName :: p) = some node → Proper p node
  known : ∀ hash inode, d.tree.lookup (blobPath hash) = some (.file inode) →
    ∃ b ∈ validBlobs c, b.hash = hash
  present : ∀ b ∈ validBlobs c, (∃ inode, d.tree.lookup (blobPath b.hash) = some (.file inode)) ∨
    (d.tree.lookup (blobPath b.hash) = none ∧ b.markedAtMs.isSome ∧ b.referenced = false)
  size : ∀ b ∈ validBlobs c, ∀ inode, d.tree.lookup (blobPath b.hash) = some (.file inode) →
    (d.data inode).length = b.sizeBytes
  content : ∀ b ∈ validBlobs c, b.planned = .sweep →
    ∀ inode, d.tree.lookup (blobPath b.hash) = some (.file inode) →
      digest (d.data inode) = b.hash

/-- Neither the blobs nor their bytes are too many for a number of 64 bits. -/
def Fits (c : Catalog) : Prop :=
  (validBlobs c).length < 2 ^ 64 ∧ ((validBlobs c).map (·.sizeBytes)).sum < 2 ^ 64

theorem planned_eq_sweep_iff {b : CatalogBlob} :
    b.planned = .sweep ↔ b.markedAtMs.isSome ∧ b.referenced = false := by
  unfold CatalogBlob.planned
  cases b.markedAtMs.isSome <;> cases b.referenced <;> simp [classify]

/-! ## From a safe state -/

section FromSafe

variable {digest : Bytes → BlobHash} {r : StoreReader} {c : Catalog}
  (hfails : ∀ call, r.fails call = false)
  (hroot : r.store.tree.lookup [blobsName] = some .directory)

include hroot

theorem Safe.casTree (h : Safe digest r.store c) : CasTree r.store :=
  ⟨hroot, fun p node hp hlookup => validEntry_iff_proper.2 (h.entries p node hp hlookup)⟩

include hfails

theorem Safe.cas (h : Safe digest r.store c) : (inspectCas r).findings = [] :=
  findings_of_casTree hfails (h.casTree hroot)

theorem Safe.mem_validBlobs_iff (h : Safe digest r.store c) {hash : BlobHash} :
    hash ∈ (inspectCas r).validBlobs ↔
      ∃ inode, r.store.tree.lookup (blobPath hash) = some (.file inode) :=
  mem_validBlobs_inspectCas (h.cas hfails hroot)

/-- A blob whose file is there has the size of its file, and a blob whose file is gone was
marked and is not referred to. -/
theorem Safe.blobFindings (h : Safe digest r.store c) {b : CatalogBlob} (hb : b ∈ validBlobs c) :
    blobFindings r (inspectCas r) b = [] := by
  have hstat (path : List Name) : r.symlinkMetadata path = r.store.symlinkMetadata path := by
    rw [StoreReader.symlinkMetadata, hfails, if_neg Bool.false_ne_true]
  rcases h.present b hb with ⟨inode, hlookup⟩ | ⟨hnone, hmarked⟩
  · have hmem := (h.mem_validBlobs_iff hfails hroot).2 ⟨inode, hlookup⟩
    have hlen : r.store.len (.file inode) = b.sizeBytes := h.size b hb inode hlookup
    rw [MediaImporter.blobFindings, if_pos hmem, presentFindings, hstat,
      Disk.symlinkMetadata_of_lookup hlookup]
    dsimp only
    rw [hlen, if_neg (fun hne => hne rfl)]
  · have hmem : b.hash ∉ (inspectCas r).validBlobs := by
      rw [h.mem_validBlobs_iff hfails hroot, hnone]
      simp
    rw [MediaImporter.blobFindings, if_neg hmem,
      if_pos (complete_inspectCas (h.cas hfails hroot)), classifyMissingBlob, hstat,
      (h.casTree hroot).symlinkMetadata_notFound hnone]
    dsimp only
    rw [if_pos hmarked]

theorem Safe.compareCas (h : Safe digest r.store c) :
    compareCas r (inspectCas r) (inspectCatalogConnection c) = [] := by
  have horphan : orphanFindings (inspectCatalogConnection c) (inspectCas r) = [] := by
    rw [orphanFindings, List.map_eq_nil_iff, List.filter_eq_nil_iff]
    intro hash hmem hunknown
    obtain ⟨inode, hlookup⟩ := (h.mem_validBlobs_iff hfails hroot).1 hmem
    obtain ⟨b, hb, hsame⟩ := h.known hash inode hlookup
    exact of_decide_eq_true hunknown b hb hsame
  unfold MediaImporter.compareCas
  simp only [List.append_eq_nil_iff, List.flatMap_eq_nil_iff]
  refine ⟨⟨h.cas hfails hroot, ?_⟩, fun b hb => h.blobFindings hfails hroot hb⟩
  rw [if_pos (complete_inspectCas (h.cas hfails hroot)), horphan]

/-- What the preflight finds when it reads a planned sweep. -/
theorem Safe.hashCandidate (h : Safe digest r.store c) {s t : Candidates} {b : CatalogBlob}
    (hb : b ∈ validBlobs c) (hsweep : b.planned = .sweep)
    (hmem : b.hash ∈ (inspectCas r).validBlobs) (ht : hashCandidate digest r s b = .ok t) :
    t.findings = s.findings := by
  obtain ⟨inode, hlookup⟩ := (h.mem_validBlobs_iff hfails hroot).1 hmem
  have hlen : (r.store.data inode).length = b.sizeBytes := h.size b hb inode hlookup
  have hopen : r.openBlobNoFollow b.hash = .ok ⟨b.sizeBytes, inode⟩ := by
    rw [StoreReader.openBlobNoFollow, hfails, if_neg Bool.false_ne_true, Disk.openNoFollow,
      Disk.symlinkMetadata_of_lookup hlookup, show r.store.len (.file inode) = _ from hlen]
    rfl
  have hread : r.readBlob b.hash ⟨b.sizeBytes, inode⟩ = .ok (r.store.data inode) := by
    rw [StoreReader.readBlob, hfails, if_neg Bool.false_ne_true]
  have hverify : verifyContent digest b ⟨b.sizeBytes, inode⟩ (r.store.data inode) = [] := by
    rw [verifyContent, if_pos ⟨rfl, hlen, hlen⟩, if_pos (h.content b hb hsweep inode hlookup)]
    rfl
  unfold MediaImporter.hashCandidate at ht
  simp only [hopen, hread, hverify, if_true, Except.bind_eq_ok, Except.pure_eq_ok,
    Except.ok.injEq] at ht
  obtain ⟨hashed, -, reclaimable, -, rfl⟩ := ht
  rfl

theorem Safe.addCandidate (h : Safe digest r.store c) {s t : Candidates} {b : CatalogBlob}
    (hb : b ∈ validBlobs c) (hsweep : b.planned = .sweep)
    (ht : addCandidate digest r (inspectCas r) s b = .ok t) : t.findings = s.findings := by
  unfold MediaImporter.addCandidate at ht
  by_cases hmem : b.hash ∈ (inspectCas r).validBlobs
  · rw [if_pos hmem] at ht
    exact h.hashCandidate hfails hroot hb hsweep hmem ht
  · rw [if_neg hmem] at ht
    split at ht
    · obtain rfl := Except.ok.inj ht
      rfl
    · obtain rfl := Except.ok.inj ht
      rfl

/-- A preflight of a safe state finds nothing. -/
theorem Safe.findings (h : Safe digest r.store c) {dryRun : Bool} {p : Preflight}
    (hp : preflightOf digest r dryRun (inspectCatalogConnection c) = .ok p) :
    p.report.findings = [] := by
  unfold preflightOf at hp
  simp only [Except.bind_eq_ok, Except.pure_eq_ok, Except.ok.injEq] at hp
  obtain ⟨⟨plan, reachable⟩, hplan, s, hloop, rfl⟩ := hp
  obtain ⟨-, -, rfl⟩ := buildPlan_eq_ok_iff.1 hplan
  have hstart : (candidatesStart r (inspectCatalogConnection c)).findings = [] := by
    rw [candidatesStart, h.catalog, h.compareCas hfails hroot]
    rfl
  have hfold := Except.foldlM_inv (fun done (t : Candidates) =>
      (∀ b ∈ done, b ∈ validBlobs c ∧ b.planned = .sweep) → t.findings = [])
    (fun _ => hstart) (by
      intro done b t u ih hstep hvalid
      obtain ⟨hb, hsweep⟩ := hvalid b (by simp)
      rw [h.addCandidate hfails hroot hb hsweep hstep]
      exact ih fun b' hb' => hvalid b' (List.mem_append_left _ hb')) hloop
  refine sortAndDeduplicate_eq_nil.2 (hfold fun b hb => ?_)
  obtain ⟨hsorted, hsweep⟩ := List.mem_filter.1 hb
  exact ⟨mem_sortedBlobs.1 hsorted, of_decide_eq_true hsweep⟩

end FromSafe

/-! ## To a safe state -/

section ToSafe

variable {digest : Bytes → BlobHash} {r : StoreReader} {c : Catalog}

/-- A candidate whose file is there was read through its own entry. -/
theorem PresentCandidate.content_eq {b : CatalogBlob} {identity : BlobFileIdentity} {inode : ℕ}
    (h : PresentCandidate digest r b identity)
    (hlookup : r.store.tree.lookup (blobPath b.hash) = some (.file inode)) :
    digest (r.store.data inode) = b.hash := by
  obtain ⟨content, hread, -, hhash⟩ := h.content
  have hopen := h.opened
  unfold StoreReader.openBlobNoFollow at hopen
  rw [Disk.openNoFollow, Disk.symlinkMetadata_of_lookup hlookup] at hopen
  split at hopen
  · cases hopen
  · obtain rfl := Except.ok.inj hopen
    unfold StoreReader.readBlob at hread
    split at hread
    · cases hread
    · rwa [← Except.ok.inj hread] at hhash

/-- A preflight that finds nothing was of a safe state. -/
theorem Clean.safe {p : Preflight} (h : Clean digest r c p) : Safe digest r.store c := by
  have htree := casTree_of_findings h.cas
  have hmem {hash : BlobHash} : hash ∈ (inspectCas r).validBlobs ↔
      ∃ inode, r.store.tree.lookup (blobPath hash) = some (.file inode) :=
    mem_validBlobs_inspectCas h.cas
  refine ⟨findings_inspectCatalogConnection_eq_nil_iff.2 h.sound,
    fun p node hp hlookup => validEntry_iff_proper.1 (htree.entries p node hp hlookup),
    fun hash inode hlookup => h.known hash (hmem.2 ⟨inode, hlookup⟩), ?_, ?_, ?_⟩
  · intro b hb
    by_cases hfound : b.hash ∈ (inspectCas r).validBlobs
    · exact .inl (hmem.1 hfound)
    · obtain ⟨hmissing, hsweep⟩ :=
        missing_of_blobFindings (complete_inspectCas h.cas) hfound (h.blob b hb)
      refine .inr ⟨?_, planned_eq_sweep_iff.1 hsweep⟩
      unfold StoreReader.symlinkMetadata at hmissing
      split at hmissing
      · cases hmissing
      · exact Disk.lookup_of_symlinkMetadata_notFound hmissing
  · intro b hb inode hlookup
    obtain ⟨inode', hstat⟩ := present_of_blobFindings (hmem.2 ⟨inode, hlookup⟩) (h.blob b hb)
    unfold StoreReader.symlinkMetadata at hstat
    split at hstat
    · cases hstat
    · rw [Disk.symlinkMetadata_of_lookup hlookup] at hstat
      exact congrArg Metadata.len (Except.ok.inj hstat)
  · intro b hb hsweep inode hlookup
    obtain ⟨reachable, hplan⟩ := h.plan
    have hsweeps : p.plan.sweeps =
        (sortedBlobs (inspectCatalogConnection c)).filter (·.planned = .sweep) :=
      congrArg GcPlan.sweeps (buildPlan_eq_ok_iff.1 hplan).2.2
    have hplanned : b ∈ p.plan.sweeps := by
      rw [hsweeps, List.mem_filter]
      exact ⟨mem_sortedBlobs.2 hb, by simpa using hsweep⟩
    obtain ⟨candidate, -, hcandidate⟩ := Except.exists_of_forall₂ h.candidates hplanned
    cases hcandidate with
    | present identity hpresent => exact hpresent.content_eq hlookup
    | absent hfound => exact absurd (hmem.2 ⟨inode, hlookup⟩) hfound

end ToSafe

/-! ## Numbers of 64 bits -/

section Fits

variable {digest : Bytes → BlobHash} {r : StoreReader} {cas : CasInspection} {c : Catalog}

/-- A candidate adds one file and its size at most. -/
theorem addCandidate_counts {s t : Candidates} {b : CatalogBlob}
    (h : addCandidate digest r cas s b = .ok t) :
    t.hashed ≤ s.hashed + 1 ∧ t.reclaimable ≤ s.reclaimable + b.sizeBytes := by
  have hsame (f : List IntegrityFinding) (l : List SweepCandidate)
      (ht : { s with findings := f, candidates := l } = t) :
      t.hashed ≤ s.hashed + 1 ∧ t.reclaimable ≤ s.reclaimable + b.sizeBytes := by
    subst ht
    exact ⟨Nat.le_succ _, Nat.le_add_right _ _⟩
  unfold addCandidate hashCandidate at h
  split_ifs at h with hmem habsent
  · dsimp only at h
    split at h
    · exact hsame _ _ (Except.ok.inj h)
    · split at h
      · exact hsame _ _ (Except.ok.inj h)
      · simp only [Except.bind_eq_ok, checkedAdd_eq_ok_iff] at h
        obtain ⟨hashed, ⟨-, rfl⟩, h⟩ := h
        split_ifs at h
        · simp only [Except.bind_eq_ok, checkedAdd_eq_ok_iff, Except.pure_eq_ok,
            Except.ok.injEq] at h
          obtain ⟨reclaimable, ⟨-, rfl⟩, rfl⟩ := h
          exact ⟨le_rfl, le_rfl⟩
        · obtain rfl := Except.ok.inj h
          exact ⟨le_rfl, Nat.le_add_right _ _⟩
  · exact hsame _ _ (Except.ok.inj h)
  · exact hsame s.findings s.candidates (Except.ok.inj h)

/-- A candidate is refused only when a number has no room for it. -/
theorem le_of_addCandidate_eq_error {s : Candidates} {b : CatalogBlob} {e : String}
    (h : addCandidate digest r cas s b = .error e) :
    2 ^ 64 ≤ s.hashed + 1 ∨ 2 ^ 64 ≤ s.reclaimable + b.sizeBytes := by
  unfold addCandidate hashCandidate at h
  split_ifs at h with hmem habsent
  dsimp only at h
  split at h
  · cases h
  · split at h
    · cases h
    · rcases Except.bind_eq_error.1 h with h | ⟨hashed, -, h⟩
      · exact .inl (le_of_checkedAdd_eq_error h)
      · split_ifs at h
        · rcases Except.bind_eq_error.1 h with h | ⟨reclaimable, -, h⟩
          · exact .inr (le_of_checkedAdd_eq_error h)
          · cases h
        · cases h

/-- The preflight fails only when its numbers do not fit. -/
theorem not_fits_of_preflightOf_eq_error {dryRun : Bool} {e : String}
    (h : preflightOf digest r dryRun (inspectCatalogConnection c) = .error e) : ¬ Fits c := by
  intro hfits
  have hperm : (sortedBlobs (inspectCatalogConnection c)).Perm (validBlobs c) :=
    List.perm_insertionSort _ _
  unfold preflightOf at h
  rcases Except.bind_eq_error.1 h with h | ⟨⟨plan, reachable⟩, hplan, h⟩
  · rcases Except.bind_eq_error.1 h with h | ⟨_, -, h⟩
    · have hcount := (Except.ensure_eq_error h).1
      have hle := List.countP_le_length (p := (·.referenced))
        (l := sortedBlobs (inspectCatalogConnection c))
      rw [hperm.length_eq] at hle
      exact hcount (lt_of_le_of_lt hle hfits.1)
    · cases h
  · obtain ⟨-, -, rfl⟩ := buildPlan_eq_ok_iff.1 hplan
    rcases Except.bind_eq_error.1 h with h | ⟨s, -, h⟩
    · obtain ⟨done, b, rest, s, hsplit, hdone, hstep⟩ := Except.exists_of_foldlM_eq_error h
      have hcounts := Except.foldlM_inv (fun done (t : Candidates) =>
          t.hashed ≤ done.length ∧ t.reclaimable ≤ (done.map (·.sizeBytes)).sum)
        ⟨le_rfl, le_rfl⟩ (by
          intro done b t u ih hu
          have hstep := addCandidate_counts hu
          rw [List.length_append, List.map_append, List.sum_append]
          exact ⟨by simp; omega, by simp; omega⟩) hdone
      -- the blobs up to this one are among the valid blobs
      have hsub : (done ++ [b]).Sublist (sortedBlobs (inspectCatalogConnection c)) := by
        refine List.Sublist.trans ?_ (List.filter_sublist (p := (·.planned = .sweep)))
        dsimp only at hsplit
        rw [hsplit]
        exact (List.Sublist.refl done).append ((List.nil_sublist rest).cons_cons b)
      have hlen := hsub.length_le
      have hsum := (hsub.map (·.sizeBytes)).sum_le_sum fun _ _ => Nat.zero_le _
      rw [hperm.length_eq, List.length_append, List.length_singleton] at hlen
      rw [(hperm.map _).sum_eq, List.map_append, List.sum_append, List.map_singleton,
        List.sum_singleton] at hsum
      have hfits₁ := hfits.1
      have hfits₂ := hfits.2
      rcases le_of_addCandidate_eq_error hstep with hover | hover
      · omega
      · omega
    · cases h

/-- A safe state whose numbers fit has a preflight, and it finds nothing. -/
theorem Safe.exists_preflight (h : Safe digest r.store c) (hfails : ∀ call, r.fails call = false)
    (hroot : r.store.tree.lookup [blobsName] = some .directory) (hfits : Fits c) (dryRun : Bool) :
    ∃ p, preflightOf digest r dryRun (inspectCatalogConnection c) = .ok p ∧
      p.report.findings = [] := by
  cases hp : preflightOf digest r dryRun (inspectCatalogConnection c) with
  | error e => exact absurd hfits (not_fits_of_preflightOf_eq_error hp)
  | ok p => exact ⟨p, rfl, h.findings hfails hroot hp⟩

end Fits

/-! ## The decision -/

/-- What is left of removing a file once its identity is known. -/
def unlinkIdentified (s : ApplyState) (candidate : SweepCandidate) (identity : BlobFileIdentity)
    (next : PhysicalProgress) : ApplyProgram ApplyState := do
  attemptOrAbort s (onGcStore (revalidateBlobForRemoval candidate.blob.hash identity))
  attemptOrAbort s (onGcStore (removeBlobFile candidate.blob.hash))
  let s := { s with report := next.assignTo s.report, sweepMutationsStarted := true }
  let synced ← attempt (onGcStore (syncBlobParent candidate.blob.hash))
  match synced with
  | .ok () => return s
  | .error e => throw (.commitPartial s e)

/-- The candidates are the planned sweeps in the order of their hashes, and the identity of
each file that is there is known, so that removing it never misses one. -/
structure Decided (c : Catalog) (p : Preflight) : Prop where
  sweeps : p.sweepCandidates.map (·.blob) = p.plan.sweeps
  planned : ∀ b, b ∈ p.plan.sweeps ↔
    b ∈ validBlobs c ∧ b.markedAtMs.isSome ∧ b.referenced = false
  sorted : p.plan.sweeps.Pairwise fun b b' => b.hash < b'.hash
  identified : ∀ candidate ∈ p.sweepCandidates, candidate.sourceState = .present →
    ∃ identity, candidate.identity = some identity ∧ ∀ s next,
      unlinkPresent s candidate next = unlinkIdentified s candidate identity next

theorem map_blob_of_isCandidate {digest : Bytes → BlobHash} {r : StoreReader}
    {sweeps : List CatalogBlob} {candidates : List SweepCandidate}
    (h : List.Forall₂ (IsCandidate digest r) sweeps candidates) :
    candidates.map (·.blob) = sweeps := by
  induction h with
  | nil => rfl
  | cons hcandidate _ ih =>
      rw [List.map_cons, ih]
      cases hcandidate with
      | present | absent => rfl

theorem Clean.decided {digest : Bytes → BlobHash} {r : StoreReader} {c : Catalog} {p : Preflight}
    (h : Clean digest r c p) : Decided c p := by
  obtain ⟨reachable, hplan⟩ := h.plan
  have hsweeps : p.plan.sweeps =
      (sortedBlobs (inspectCatalogConnection c)).filter (·.planned = .sweep) :=
    congrArg GcPlan.sweeps (buildPlan_eq_ok_iff.1 hplan).2.2
  refine ⟨?_, fun b => ?_, ?_, ?_⟩
  · exact map_blob_of_isCandidate h.candidates
  · rw [hsweeps, List.mem_filter, mem_sortedBlobs, decide_eq_true_iff, planned_eq_sweep_iff]
    rfl
  · rw [hsweeps]
    refine List.Pairwise.filter _ ?_
    have hle : (sortedBlobs (inspectCatalogConnection c)).Pairwise fun b b' => b.hash ≤ b'.hash :=
      List.pairwise_insertionSort _ _
    have hne := List.pairwise_map.1 (nodup_sortedBlobs h.sound.hashes)
    exact (hle.and hne).imp fun hboth => lt_of_le_of_ne hboth.1 hboth.2
  · intro candidate hmem hstate
    have hall := h.candidates
    obtain ⟨b, hcandidate⟩ : ∃ b, IsCandidate digest r b candidate := by
      obtain ⟨b, -, hb⟩ := Except.exists_of_forall₂ hall.flip hmem
      exact ⟨b, hb⟩
    cases hcandidate with
    | present identity _ => exact ⟨identity, rfl, fun s next => rfl⟩
    | absent => cases hstate

/-- **The preflight decides the safe states.** Where nothing fails to be read, a preflight
that returns finds nothing exactly when the state is safe, and then its candidates are the
planned sweeps in the order of their hashes, with an identity for each file that is there. It
fails to return only with the telemetry, or when the numbers do not fit. -/
theorem runPreflight_decides [SqlArithmetic] (digest : Bytes → BlobHash) (env : GcEnvironment)
    (hreads : ∀ call, env.readFails call = false) (dryRun : Bool) (c : Catalog) (w : GcWorld)
    (hroot : w.store.tree.lookup [blobsName] = some .directory) :
    (∀ p w', Program.exec (gcHandler env)
        (runPreflight digest dryRun (inspectCatalogConnection c)) w = (.ok p, w') →
      (p.report.findings = [] ↔ Safe digest w.store c) ∧
      (p.report.findings = [] → Decided c p)) ∧
    ∀ e w', Program.exec (gcHandler env)
        (runPreflight digest dryRun (inspectCatalogConnection c)) w = (.error e, w') →
      (∃ n, env.telemetryFails n = true) ∨ ¬ Fits c := by
  obtain ⟨w₁, -, hexec⟩ := exec_runPreflight digest env dryRun (inspectCatalogConnection c) w
  rcases hexec with ⟨n, hn, hexec⟩ | hexec
  · refine ⟨fun p w' h => ?_, fun e w' _ => .inl ⟨n, hn⟩⟩
    rw [hexec] at h
    cases h
  · rw [hexec]
    refine ⟨fun p w' h => ?_, fun e w' h => .inr ?_⟩
    · have hp := congrArg Prod.fst h
      refine ⟨⟨fun hnil => (clean_of_findings hp hnil).safe, fun hsafe => ?_⟩,
        fun hnil => (clean_of_findings hp hnil).decided⟩
      exact Safe.findings (r := ⟨w.store, env.readFails⟩) hreads hroot hsafe hp
    · exact not_fits_of_preflightOf_eq_error (congrArg Prod.fst h)

/-- The collection of one marked blob is decided. -/
theorem runPreflight_decides_marked : ∃ _ : SqlArithmetic,
    ∀ p w', Program.exec (gcHandler calmEnvironment)
        (runPreflight (fun _ => emptyHash) true (inspectCatalogConnection markedCatalog))
        markedWorld = (.ok p, w') →
      (p.report.findings = [] ↔ Safe (fun _ => emptyHash) emptyBlobStore markedCatalog) :=
  ⟨integerSums, fun p w' h =>
    ((@runPreflight_decides integerSums _ calmEnvironment (fun _ => rfl) true markedCatalog
      markedWorld (by decide +kernel)).1 p w' h).1⟩

end MediaImporter
