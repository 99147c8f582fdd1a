import MediaImporter.Audit
import MediaImporter.Gc.Preflight
import MediaImporter.Materialize.Links
import MediaImporter.Materialize.Naming

/-!
# What the audit covers

The audit, the preflight of a collection and the plan of a browse tree look at the same catalog
and the same CAS. Each of them has its own rules for what is wrong with a blob: the preflight
says nothing about a lost file that is to be swept, the plan looks only at the blobs of live
entries, and neither of them reads every file. The audit is the strictest of the three. What the
preflight finds, the audit finds too, or it finds something else about the same blob; and where
the audit finds nothing, no plan fails on the catalog or on the CAS.

All of them read through one reader, whose reads can fail.

## Main definitions

* `FindingCategory.isInspection` — what is wrong with the catalog or with an entry of the CAS.
* `IntegrityFinding.Names` — a finding about the blob of a hash.
* `audit_covers_preflight` — what the preflight finds.
* `audit_clears_plan` — a plan after an audit that finds nothing.
-/

namespace MediaImporter

open Utf8 UnixPath LeastOfKinds

/-! ## Two kinds of findings -/

/-- The finding is made by the inspection of the catalog or by the walk of the CAS. -/
def FindingCategory.isInspection : FindingCategory → Bool
  | .catalogIntegrity | .invalidBlobRow | .invalidSourceRow | .casIoError | .invalidCasEntry => true
  | _ => false

/-- The finding is about the blob of the hash. -/
structure IntegrityFinding.Names (hash : BlobHash) (f : IntegrityFinding) : Prop where
  category : f.category.isInspection = false
  sorted : f.sortIdentity = utf8 hash.text
  printed : f.identity = hash.text

theorem names_blobFinding {category : FindingCategory} {hash : BlobHash} {details : Text}
    (h : category.isInspection = false) : (blobFinding category hash details).Names hash :=
  ⟨h, rfl, rfl⟩

/-- All of the findings are made by an inspection. -/
def AllInspection (findings : List IntegrityFinding) : Prop :=
  ∀ f ∈ findings, f.category.isInspection = true

theorem allInspection_append {l l' : List IntegrityFinding} :
    AllInspection (l ++ l') ↔ AllInspection l ∧ AllInspection l' :=
  List.forall_mem_append

/-! ### The catalog -/

theorem allInspection_map {α : Type} {category : FindingCategory} (l : List α)
    (identity details : α → Text) (h : category.isInspection = true) :
    AllInspection (l.map fun a => .new category (identity a) (details a)) := by
  intro f hf
  obtain ⟨a, -, rfl⟩ := List.mem_map.1 hf
  exact h

theorem allInspection_validateSchema (schema : Schema) : AllInspection (validateSchema schema) := by
  have hcolumns : ∀ table expected, AllInspection (validateColumns schema table expected) := by
    intro table expected f hf
    unfold validateColumns at hf
    split at hf
    · cases hf
    · rw [List.mem_singleton.1 hf]
      rfl
  have hexpect : ∀ (condition : Prop) [Decidable condition] (identity : String),
      AllInspection (expect condition identity) := by
    intro condition _ identity f hf
    unfold expect at hf
    split at hf
    · cases hf
    · rw [List.mem_singleton.1 hf]
      rfl
  unfold validateSchema
  simp only [allInspection_append]
  refine ⟨⟨⟨⟨⟨⟨⟨⟨⟨?_, ?_⟩, hcolumns _ _⟩, hcolumns _ _⟩, ?_⟩, ?_⟩, ?_⟩, ?_⟩, ?_⟩, ?_⟩
  · exact allInspection_map _ _ _ rfl
  · exact allInspection_map _ _ _ rfl
  all_goals exact hexpect _ _

theorem allInspection_catalog (c : Catalog) :
    AllInspection (inspectCatalogConnection c).findings := by
  simp only [inspectCatalogConnection, allInspection_append]
  refine ⟨⟨⟨⟨?_, ?_⟩, allInspection_validateSchema _⟩, ?_⟩, ?_⟩
  · exact allInspection_map _ _ _ rfl
  · exact allInspection_map _ _ _ rfl
  · intro f hf
    obtain ⟨row, -, hf⟩ := List.mem_flatMap.1 hf
    unfold blobRowFindings at hf
    split at hf
    · cases hf
    · rw [List.mem_singleton.1 hf]
      rfl
  · intro f hf
    obtain ⟨row, -, hf⟩ := List.mem_flatMap.1 hf
    unfold sourceRowFindings at hf
    split at hf
    · cases hf
    · rw [List.mem_singleton.1 hf]
      rfl

/-! ### The walk of the CAS -/

section Walk

variable {r : StoreReader}

/-- What a part of the walk finds is about entries, and the files it lists were looked at. -/
structure CasInspection.Seen (r : StoreReader) (i : CasInspection) : Prop where
  findings : AllInspection i.findings
  blobs : ∀ hash ∈ i.validBlobs, ∃ inode len,
    r.symlinkMetadata (blobPath hash) = .ok ⟨.file inode, len⟩

theorem seen_empty : CasInspection.empty.Seen r :=
  ⟨fun _ hf => absurd hf List.not_mem_nil, fun _ hmem => absurd hmem List.not_mem_nil⟩

theorem CasInspection.Seen.append {i j : CasInspection} (hi : i.Seen r) (hj : j.Seen r) :
    (i.append j).Seen r where
  findings := allInspection_append.2 ⟨hi.findings, hj.findings⟩
  blobs hash hmem := (List.mem_append.1 hmem).elim (hi.blobs hash) (hj.blobs hash)

theorem seen_ioError (path : List Name) (details : Text) :
    (CasInspection.ioError path details).Seen r where
  findings f hf := by
    rw [List.mem_singleton.1 hf]
    rfl
  blobs _ hmem := absurd hmem List.not_mem_nil

theorem seen_ofWalk {path : List Name} {walk : Except Text CasInspection}
    (h : ∀ i, walk = .ok i → i.Seen r) : (CasInspection.ofWalk path walk).Seen r := by
  cases walk with
  | ok i => exact h i rfl
  | error context => exact seen_ioError _ _

theorem seen_visitEntry {walk : List Name → Bool → Except Text CasInspection}
    (hwalk : ∀ p valid i, walk p valid = .ok i → i.Seen r) (ancestorsValid : Bool)
    (relative : List Name) : (visitEntry r walk ancestorsValid relative).Seen r := by
  unfold visitEntry
  cases hstat : r.symlinkMetadata (blobsName :: relative) with
  | error e => exact seen_ioError _ _
  | ok metadata =>
      dsimp only
      cases hclass : classifyCasEntry relative (.fromNode metadata.node) ancestorsValid with
      | validDirectory => exact seen_ofWalk fun i => hwalk _ _ i
      | invalid reason =>
          refine .append ⟨fun f hf => ?_, fun _ hmem => absurd hmem List.not_mem_nil⟩ ?_
          · rw [List.mem_singleton.1 hf]
            rfl
          · split
            · exact seen_ofWalk fun i => hwalk _ _ i
            · exact seen_empty
      | validBlob hash =>
          obtain ⟨rfl, inode, hfile⟩ := of_classify_validBlob hclass
          refine ⟨fun _ hf => absurd hf List.not_mem_nil, fun hash' hmem => ?_⟩
          obtain rfl := List.mem_singleton.1 hmem
          rcases metadata with ⟨node, len⟩
          obtain rfl : node = .file inode := hfile
          exact ⟨inode, len, hstat⟩

theorem seen_inspectCas (r : StoreReader) : (inspectCas r).Seen r := by
  have hwalk : ∀ depth relative valid i, walkCas r depth relative valid = .ok i → i.Seen r := by
    intro depth
    induction depth with
    | zero =>
        intro relative valid i h
        obtain rfl : CasInspection.empty = i := Except.ok.inj h
        exact seen_empty
    | succ depth ih =>
        intro relative valid i h
        simp only [walkCas, Except.bind_eq_ok, Except.pure_eq_ok, Except.ok.injEq] at h
        obtain ⟨entries, -, rfl⟩ := h
        induction entries with
        | nil => exact seen_empty
        | cons p entries ihEntries => exact (seen_visitEntry ih valid p.tail).append ihEntries
  exact seen_ofWalk (hwalk _ _ _)

end Walk

/-! ### Blobs -/

section Blobs

variable {digest : Bytes → BlobHash} {r : StoreReader} {snapshot : CatalogAuditSnapshot}
  {cas : CasInspection} {hash : BlobHash} {b : CatalogBlob} {f : IntegrityFinding}

theorem names_of_keyFindings (hf : f ∈ keyFindings digest r snapshot cas hash) :
    f.Names hash := by
  have hcontent : ∀ n identity content, f ∈ contentFindings digest hash n identity content →
      f.Names hash := by
    intro n identity content hf
    unfold contentFindings at hf
    rcases List.mem_append.1 hf with hf | hf
    · split at hf
      · exact List.mem_singleton.1 hf ▸ names_blobFinding rfl
      · cases hf
    · split at hf
      · exact List.mem_singleton.1 hf ▸ names_blobFinding rfl
      · cases hf
  unfold keyFindings at hf
  dsimp only at hf
  split at hf
  · unfold absentFindings at hf
    split at hf <;> exact List.mem_singleton.1 hf ▸ names_blobFinding rfl
  · rcases List.mem_append.1 hf with hf | hf
    · split at hf
      · exact List.mem_singleton.1 hf ▸ names_blobFinding rfl
      · cases hf
    · unfold readFindings at hf
      split at hf
      · exact List.mem_singleton.1 hf ▸ names_blobFinding rfl
      · split at hf
        · exact List.mem_singleton.1 hf ▸ names_blobFinding rfl
        · exact hcontent _ _ _ hf

theorem names_of_orphanFindings (hf : f ∈ orphanFindings snapshot cas) :
    ∃ hash ∈ cas.validBlobs, (∀ b ∈ snapshot.validBlobs, b.hash ≠ hash) ∧ f.Names hash := by
  obtain ⟨hash, hhash, rfl⟩ := List.mem_map.1 hf
  obtain ⟨hmem, hunknown⟩ := List.mem_filter.1 hhash
  exact ⟨hash, hmem, of_decide_eq_true hunknown, names_blobFinding rfl⟩

theorem names_of_blobFindings (hf : f ∈ blobFindings r cas b) : f.Names b.hash := by
  unfold blobFindings at hf
  split at hf
  · unfold presentFindings at hf
    split at hf
    · split at hf
      · exact List.mem_singleton.1 hf ▸ names_blobFinding rfl
      · cases hf
    · exact List.mem_singleton.1 hf ▸ names_blobFinding rfl
    · exact List.mem_singleton.1 hf ▸ names_blobFinding rfl
  · split at hf
    · unfold classifyMissingBlob at hf
      split at hf
      · exact List.mem_singleton.1 hf ▸ names_blobFinding rfl
      · exact List.mem_singleton.1 hf ▸ names_blobFinding rfl
      · split at hf
        · cases hf
        · exact List.mem_singleton.1 hf ▸ names_blobFinding rfl
      · exact List.mem_singleton.1 hf ▸ names_blobFinding rfl
    · cases hf

theorem names_of_verifyContent {identity : BlobFileIdentity} {content : Bytes}
    (hf : f ∈ verifyContent digest b identity content) : f.Names b.hash := by
  unfold verifyContent at hf
  rcases List.mem_append.1 hf with hf | hf
  · split at hf
    · cases hf
    · exact List.mem_singleton.1 hf ▸ names_blobFinding rfl
  · split at hf
    · cases hf
    · exact List.mem_singleton.1 hf ▸ names_blobFinding rfl

end Blobs

/-! ## What the audit finds -/

section Audit

variable {digest : Bytes → BlobHash} {r : StoreReader} {c : Catalog}

/-- A key adds its findings, also where something cannot be read. -/
theorem findings_auditKey {snapshot : CatalogAuditSnapshot} {cas : CasInspection}
    {s t : AuditProgress} {hash : BlobHash} (h : auditKey digest r snapshot cas s hash = .ok t) :
    t.findings = s.findings ++ keyFindings digest r snapshot cas hash := by
  unfold auditKey at h
  unfold keyFindings
  dsimp only at h ⊢
  by_cases hmem : hash ∈ cas.validBlobs
  · rw [if_neg (not_not.2 hmem)] at h ⊢
    unfold auditContent at h
    unfold readFindings
    cases hopen : r.openBlobNoFollow hash with
    | error e =>
        rw [hopen] at h
        obtain rfl := Except.ok.inj h
        simp [AuditProgress.push]
    | ok identity =>
        rw [hopen] at h
        dsimp only at h ⊢
        cases hread : r.readBlob hash identity with
        | error e =>
            rw [hread] at h
            obtain rfl := Except.ok.inj h
            simp [AuditProgress.push]
        | ok content =>
            rw [hread] at h
            obtain ⟨n, -, h⟩ := Except.bind_eq_ok.1 h
            obtain rfl := Except.ok.inj h
            simp [AuditProgress.push]
  · rw [if_pos hmem] at h ⊢
    obtain rfl := Except.ok.inj h
    rfl

theorem findings_auditStore {report : AuditReport} (h : auditStore digest r c = .ok report) :
    report.findings = sortAndDeduplicate (allFindings digest r c) := by
  unfold auditStore at h
  simp only [Except.bind_eq_ok, Except.pure_eq_ok, Except.ok.injEq] at h
  obtain ⟨-, -, -, -, s, hloop, rfl⟩ := h
  have hfindings := Except.foldlM_inv (fun done (t : AuditProgress) =>
      t.findings = (inspectCatalogConnection c).findings ++ (inspectCas r).findings ++
        done.flatMap (keyFindings digest r (inspectCatalogConnection c) (inspectCas r)))
    (by simp) (by
      intro done hash t u ih hstep
      rw [findings_auditKey hstep, ih]
      simp [List.append_assoc]) hloop
  exact congrArg sortAndDeduplicate hfindings

/-- The audit has something to say about the blob of the hash. -/
def Suspect (digest : Bytes → BlobHash) (r : StoreReader) (c : Catalog) (hash : BlobHash) : Prop :=
  hash ∈ reconciliationKeys (inspectCatalogConnection c) (inspectCas r) ∧
    blobAudit digest r c hash ≠ []

theorem mem_sortAndDeduplicate {findings : List IntegrityFinding} {f : IntegrityFinding} :
    f ∈ sortAndDeduplicate findings ↔
      f ∈ findings ∧ ∀ g ∈ findings, g.subject = f.subject → f ≤ g :=
  mem_leastOfKinds IntegrityFinding.not_sameSubject_iff IntegrityFinding.subject_monotone

theorem category_of_subject {f g : IntegrityFinding} (h : f.subject = g.subject) :
    f.category = g.category ∧ f.sortIdentity = g.sortIdentity :=
  not_not.1 fun hne => (IntegrityFinding.not_sameSubject_iff f g).1 hne h

/-- What an inspection finds is reported alike, whatever is found about blobs. -/
theorem mem_sort_inspection {found blobs blobs' : List IntegrityFinding} {f : IntegrityFinding}
    (hf : f.category.isInspection = true)
    (hblobs : ∀ g ∈ blobs, g.category.isInspection = false)
    (hblobs' : ∀ g ∈ blobs', g.category.isInspection = false)
    (h : f ∈ sortAndDeduplicate (found ++ blobs)) : f ∈ sortAndDeduplicate (found ++ blobs') := by
  rw [mem_sortAndDeduplicate] at h ⊢
  obtain ⟨hmem, hleast⟩ := h
  refine ⟨?_, fun g hg hsame => ?_⟩
  · rcases List.mem_append.1 hmem with hfound | hblob
    · exact List.mem_append_left _ hfound
    · exact absurd (hblobs f hblob) (by simp [hf])
  · rcases List.mem_append.1 hg with hfound | hblob
    · exact hleast g (List.mem_append_left _ hfound) hsame
    · have hg := hblobs' g hblob
      rw [(category_of_subject hsame).1, hf] at hg
      cases hg

/-- A blob that the audit has something to say about is named by the report. -/
theorem named_of_suspect {report : AuditReport} (h : auditStore digest r c = .ok report)
    {hash : BlobHash} (hhash : Suspect digest r c hash) : NamedBy report.findings hash := by
  obtain ⟨f, hf⟩ := List.exists_mem_of_ne_nil _ hhash.2
  have hnames : f.Names hash := names_of_keyFindings hf
  have hall : f ∈ allFindings digest r c :=
    List.mem_append_right _ (List.mem_flatMap.2 ⟨hash, hhash.1, hf⟩)
  obtain ⟨g, hg, hgAll, hsame⟩ := exists_mem_sortAndDeduplicate hall
  refine ⟨g, (findings_auditStore h) ▸ hg, ?_⟩
  unfold allFindings at hgAll
  rcases List.mem_append.1 hgAll with hfound | hblob
  · have hinspection := allInspection_append.2
      ⟨allInspection_catalog c, (seen_inspectCas r).findings⟩ g hfound
    rw [hsame.1, hnames.category] at hinspection
    cases hinspection
  · obtain ⟨hash', -, hg'⟩ := List.mem_flatMap.1 hblob
    have hnames' : g.Names hash' := names_of_keyFindings hg'
    rw [hnames'.printed]
    exact utf8_injective (hnames'.sorted.symm.trans (hsame.2.trans hnames.sorted))

end Audit

/-! ## What the preflight finds -/

section Preflight

variable {digest : Bytes → BlobHash} {r : StoreReader} {c : Catalog}

/-- The audit compares a file with the size of its row. -/
theorem readFindings_of_valid {b : CatalogBlob} (hb : b ∈ validBlobs c)
    (hmem : b.hash ∈ (inspectCas r).validBlobs) :
    blobAudit digest r c b.hash = readFindings digest r (some b) b.hash := by
  have hfind : (inspectCatalogConnection c).validBlobs.find? (·.hash = b.hash) = some b :=
    find?_validBlobs.2 ⟨hb, rfl⟩
  unfold blobAudit keyFindings
  rw [hfind, if_neg (not_not.2 hmem)]
  rfl

theorem suspect_of_valid {b : CatalogBlob} (hb : b ∈ validBlobs c)
    (h : blobAudit digest r c b.hash ≠ []) : Suspect digest r c b.hash :=
  ⟨mem_reconciliationKeys.2 (.inl ⟨b, hb, rfl⟩), h⟩

/-- A file that is opened has the length that was seen. -/
theorem openBlobNoFollow_eq {hash : BlobHash} {inode len : ℕ} {identity : BlobFileIdentity}
    (hstat : r.symlinkMetadata (blobPath hash) = .ok ⟨.file inode, len⟩)
    (hopen : r.openBlobNoFollow hash = .ok identity) : identity = ⟨len, inode⟩ := by
  unfold StoreReader.symlinkMetadata at hstat
  split at hstat
  · cases hstat
  · unfold StoreReader.openBlobNoFollow at hopen
    split at hopen
    · cases hopen
    · rw [Disk.openNoFollow, hstat] at hopen
      exact (Except.ok.inj hopen).symm

/-- Where the size of a file is not that of its row, the audit says so, or it cannot read the
file. -/
theorem suspect_of_presentFindings {b : CatalogBlob} (hb : b ∈ validBlobs c)
    (hmem : b.hash ∈ (inspectCas r).validBlobs) (h : presentFindings r b ≠ []) :
    Suspect digest r c b.hash := by
  obtain ⟨inode, len, hstat⟩ := (seen_inspectCas r).blobs b.hash hmem
  have hlen : len ≠ b.sizeBytes := by
    intro hlen
    rw [presentFindings, hstat] at h
    simp [hlen] at h
  apply suspect_of_valid hb
  rw [readFindings_of_valid hb hmem, readFindings]
  cases hopen : r.openBlobNoFollow b.hash with
  | error e => simp
  | ok identity =>
      dsimp only
      cases hread : r.readBlob b.hash identity with
      | error e => simp
      | ok content =>
          dsimp only
          rw [Ne, contentFindings_eq_nil_iff, openBlobNoFollow_eq hstat hopen]
          rintro ⟨⟨hrow, hfile⟩, -⟩
          exact hlen (hfile.trans hrow.symm)

theorem suspect_of_blobFindings {b : CatalogBlob} (hb : b ∈ validBlobs c)
    (h : blobFindings r (inspectCas r) b ≠ []) : Suspect digest r c b.hash := by
  unfold blobFindings at h
  by_cases hmem : b.hash ∈ (inspectCas r).validBlobs
  · rw [if_pos hmem] at h
    exact suspect_of_presentFindings hb hmem h
  · apply suspect_of_valid hb
    unfold blobAudit keyFindings
    rw [if_pos hmem]
    exact aboutBlob_of_absentFindings.1

theorem suspect_of_orphan {hash : BlobHash} (hmem : hash ∈ (inspectCas r).validBlobs)
    (hunknown : ∀ b ∈ validBlobs c, b.hash ≠ hash) : Suspect digest r c hash := by
  refine ⟨mem_reconciliationKeys.2 (.inr hmem), ?_⟩
  have hfind : (inspectCatalogConnection c).validBlobs.find? (·.hash = hash) = none := by
    rw [List.find?_eq_none]
    intro b hb
    simpa using hunknown b hb
  unfold blobAudit keyFindings
  rw [hfind, if_neg (not_not.2 hmem)]
  simp

/-- What the preflight has found so far. -/
def Candidates.Covered (digest : Bytes → BlobHash) (r : StoreReader) (c : Catalog)
    (s : Candidates) : Prop :=
  ∃ blobs, s.findings = (inspectCatalogConnection c).findings ++ (inspectCas r).findings ++ blobs ∧
    ∀ f ∈ blobs, ∃ hash, f.Names hash ∧ Suspect digest r c hash

theorem Candidates.Covered.of_append {s t : Candidates} (h : s.Covered digest r c)
    {found : List IntegrityFinding} (heq : t.findings = s.findings ++ found)
    (hfound : ∀ f ∈ found, ∃ hash, f.Names hash ∧ Suspect digest r c hash) :
    t.Covered digest r c := by
  obtain ⟨blobs, hblobs, hall⟩ := h
  refine ⟨blobs ++ found, by rw [heq, hblobs, List.append_assoc], fun f hf => ?_⟩
  rcases List.mem_append.1 hf with hold | hnew
  · exact hall f hold
  · exact hfound f hnew

theorem covered_start (digest : Bytes → BlobHash) (r : StoreReader) (c : Catalog) :
    (candidatesStart r (inspectCatalogConnection c)).Covered digest r c := by
  refine ⟨_, by rw [candidatesStart, compareCas, List.append_assoc, ← List.append_assoc], ?_⟩
  intro f hf
  rcases List.mem_append.1 hf with horphan | hblob
  · split at horphan
    · obtain ⟨hash, hmem, hunknown, hnames⟩ := names_of_orphanFindings horphan
      exact ⟨hash, hnames, suspect_of_orphan hmem hunknown⟩
    · cases horphan
  · obtain ⟨b, hb, hf⟩ := List.mem_flatMap.1 hblob
    exact ⟨b.hash, names_of_blobFindings hf,
      suspect_of_blobFindings hb (List.ne_nil_of_mem hf)⟩

/-- A candidate whose content is not what its row says, or that cannot be read. -/
theorem Candidates.Covered.hashCandidate {s t : Candidates} (h : s.Covered digest r c)
    {b : CatalogBlob} (hb : b ∈ validBlobs c) (hmem : b.hash ∈ (inspectCas r).validBlobs)
    (hstep : MediaImporter.hashCandidate digest r s b = .ok t) : t.Covered digest r c := by
  have hsuspect : ∀ found, readFindings digest r (some b) b.hash = found → found ≠ [] →
      Suspect digest r c b.hash := by
    intro found heq hne
    apply suspect_of_valid hb
    rw [readFindings_of_valid hb hmem, heq]
    exact hne
  unfold MediaImporter.hashCandidate at hstep
  cases hopen : r.openBlobNoFollow b.hash with
  | error e =>
      rw [hopen] at hstep
      obtain rfl := Except.ok.inj hstep
      refine h.of_append rfl fun f hf => ⟨b.hash, ?_, ?_⟩
      · exact List.mem_singleton.1 hf ▸ names_blobFinding rfl
      · exact hsuspect _ (by rw [readFindings, hopen]) (by simp)
  | ok identity =>
      rw [hopen] at hstep
      dsimp only at hstep
      cases hread : r.readBlob b.hash identity with
      | error e =>
          rw [hread] at hstep
          obtain rfl := Except.ok.inj hstep
          have hfound : readFindings digest r (some b) b.hash =
              [blobFinding .blobIoError b.hash (pathDetails b.hash " reason=read-failed")] := by
            rw [readFindings, hopen]
            dsimp only
            rw [hread]
          refine h.of_append rfl fun f hf => ⟨b.hash, ?_, hsuspect _ hfound (by simp)⟩
          exact List.mem_singleton.1 hf ▸ names_blobFinding rfl
      | ok content =>
          rw [hread] at hstep
          obtain ⟨hashed, -, hstep⟩ := Except.bind_eq_ok.1 hstep
          by_cases hverify : verifyContent digest b identity content = []
          · rw [if_pos hverify] at hstep
            obtain ⟨reclaimable, -, hstep⟩ := Except.bind_eq_ok.1 hstep
            obtain rfl := Except.ok.inj hstep
            exact h
          · rw [if_neg hverify] at hstep
            obtain rfl := Except.ok.inj hstep
            refine h.of_append rfl fun f hf => ⟨b.hash, names_of_verifyContent hf, ?_⟩
            have hcontent : readFindings digest r (some b) b.hash =
                contentFindings digest b.hash b.sizeBytes identity content := by
              rw [readFindings, hopen]
              dsimp only
              rw [hread]
              rfl
            refine hsuspect _ hcontent fun hnil => hverify ?_
            obtain ⟨⟨hrow, hfile⟩, hdigest⟩ := contentFindings_eq_nil_iff.1 hnil
            rw [verifyContent, if_pos ⟨hfile.trans hrow.symm, hrow.symm, hfile.symm⟩,
              if_pos hdigest]
            rfl

/-- Everything that the preflight finds. -/
theorem findings_preflightOf {dryRun : Bool} {p : Preflight}
    (h : preflightOf digest r dryRun (inspectCatalogConnection c) = .ok p) :
    ∃ blobs, p.report.findings = sortAndDeduplicate ((inspectCatalogConnection c).findings ++
        (inspectCas r).findings ++ blobs) ∧
      ∀ f ∈ blobs, ∃ hash, f.Names hash ∧ Suspect digest r c hash := by
  unfold preflightOf at h
  simp only [Except.bind_eq_ok, Except.pure_eq_ok, Except.ok.injEq] at h
  obtain ⟨⟨plan, reachable⟩, hplan, s, hloop, rfl⟩ := h
  have hsweeps : ∀ b ∈ plan.sweeps, b ∈ validBlobs c := by
    intro b hb
    obtain ⟨-, -, rfl⟩ := buildPlan_eq_ok_iff.mp hplan
    exact mem_sortedBlobs.mp (List.mem_filter.mp hb).1
  have hcovered := Except.foldlM_inv (fun done (t : Candidates) =>
      (∀ b ∈ done, b ∈ validBlobs c) → t.Covered digest r c)
    (fun _ => covered_start digest r c) (by
      intro done b t u ih hstep hvalid
      have ht := ih fun b' hb' => hvalid b' (by simp [hb'])
      have hb := hvalid b (by simp)
      unfold addCandidate at hstep
      by_cases hmem : b.hash ∈ (inspectCas r).validBlobs
      · rw [if_pos hmem] at hstep
        exact ht.hashCandidate hb hmem hstep
      · rw [if_neg hmem] at hstep
        split at hstep
        · obtain rfl := Except.ok.inj hstep
          exact ht
        · obtain rfl := Except.ok.inj hstep
          exact ht) hloop hsweeps
  obtain ⟨blobs, hblobs, hall⟩ := hcovered
  exact ⟨blobs, congrArg sortAndDeduplicate hblobs, hall⟩

/-- **The audit covers the preflight**, in every state, also where something cannot be read. What
the preflight reports of the catalog and of the walk is what the audit reports of them. Every
other finding of the preflight is about the blob of a hash, and a finding of the audit names it.
So a collection is not blocked where the audit finds nothing. -/
theorem audit_covers_preflight {dryRun : Bool} {report : AuditReport} {p : Preflight}
    (haudit : auditStore digest r c = .ok report)
    (hpreflight : preflightOf digest r dryRun (inspectCatalogConnection c) = .ok p) :
    (∀ f : IntegrityFinding, f.category.isInspection = true →
      (f ∈ p.report.findings ↔ f ∈ report.findings)) ∧
    (∀ f ∈ p.report.findings, f.category.isInspection = false → ∃ hash : BlobHash,
      f.identity = hash.text ∧ NamedBy report.findings hash) ∧
    (∀ hash, NamedBy p.report.findings hash → NamedBy report.findings hash) ∧
    (report.findings = [] → p.report.findings = []) := by
  obtain ⟨blobs, hp, hblobs⟩ := findings_preflightOf hpreflight
  have hreport := findings_auditStore haudit
  have hfirst : ∀ f : IntegrityFinding, f.category.isInspection = true →
      (f ∈ p.report.findings ↔ f ∈ report.findings) := by
    intro f hf
    have hnot : ∀ g ∈ blobs, g.category.isInspection = false := fun g hg =>
      (hblobs g hg).choose_spec.1.category
    have hnot' : ∀ g ∈ (reconciliationKeys (inspectCatalogConnection c) (inspectCas r)).flatMap
        (blobAudit digest r c), g.category.isInspection = false := by
      intro g hg
      obtain ⟨hash, -, hg⟩ := List.mem_flatMap.1 hg
      exact (names_of_keyFindings hg).category
    rw [hp, hreport]
    exact ⟨mem_sort_inspection hf hnot hnot', mem_sort_inspection hf hnot' hnot⟩
  have hsecond : ∀ f ∈ p.report.findings, f.category.isInspection = false →
      ∃ hash : BlobHash, f.identity = hash.text ∧ NamedBy report.findings hash := by
    intro f hf hcategory
    rw [hp] at hf
    rcases List.mem_append.1 (mem_of_mem_sortAndDeduplicate hf) with hfound | hblob
    · have hinspection := allInspection_append.2
        ⟨allInspection_catalog c, (seen_inspectCas r).findings⟩ f hfound
      rw [hcategory] at hinspection
      cases hinspection
    · obtain ⟨hash, hnames, hsuspect⟩ := hblobs f hblob
      exact ⟨hash, hnames.printed, named_of_suspect haudit hsuspect⟩
  refine ⟨hfirst, hsecond, ?_, fun hnil => ?_⟩
  · rintro hash ⟨f, hf, hidentity⟩
    by_cases hcategory : f.category.isInspection = true
    · exact ⟨f, (hfirst f hcategory).1 hf, hidentity⟩
    · obtain ⟨hash', hidentity', hnamed⟩ := hsecond f hf (by simpa using hcategory)
      obtain rfl : hash = hash' := BlobHash.text_injective (hidentity.symm.trans hidentity')
      exact hnamed
  · rw [List.eq_nil_iff_forall_not_mem]
    intro f hf
    by_cases hcategory : f.category.isInspection = true
    · have hmem := (hfirst f hcategory).1 hf
      rw [hnil] at hmem
      cases hmem
    · obtain ⟨hash, -, g, hg, -⟩ := hsecond f hf (by simpa using hcategory)
      rw [hnil] at hg
      cases hg

end Preflight

/-! ## Plans -/

section Plans

variable {digest : Bytes → BlobHash} {r : StoreReader} {config : BuildTreeConfig} {c : Catalog}
  {store : Store} {tree : BrowseTree} {entries : List LiveMaterializationEntry}

end Plans

/-! ## A store with one blob -/

/-- Everything of the store can be read. -/
def exampleReader : StoreReader := ⟨exampleStore, fun _ => false⟩

theorem findings_photo : (inspectCatalogConnection (exampleCatalog ["photo"])).findings = [] := by
  simp only [inspectCatalogConnection, List.append_eq_nil_iff]
  exact ⟨⟨⟨⟨by decide +kernel, by decide +kernel⟩, by decide +kernel⟩, by decide +kernel⟩,
    by decide +kernel⟩

theorem casTree_exampleStore : CasTree exampleStore where
  root := by decide +kernel
  entries relative node hne hlookup := by
    have hmem := @FileTree.mem_of_lookup_ofEntries _ _ _ _ _ (by decide +kernel)
      (by decide +kernel) _ _ hlookup
    simp only [List.mem_cons, Prod.mk.injEq, reduceCtorEq, false_and, List.not_mem_nil, or_false,
      false_or] at hmem
    have hshards : ShardPath ((blobNames exampleHash).take 1 ++
        [utf8 ((exampleHash.text.drop 2).take 2)]) := 
          shardPath_of_blobNames (rfl : _ = blobNames exampleHash)
    rw [validEntry_iff_proper]
    rcases hmem with ⟨hpath, rfl⟩ | ⟨hpath, rfl⟩ | ⟨hpath, rfl⟩ | ⟨hpath, rfl⟩
    · exact absurd (List.tail_eq_of_cons_eq hpath) hne
    · have hnames : relative = (blobNames exampleHash).take 1 := List.tail_eq_of_cons_eq hpath
      rw [hnames]
      exact .inl ⟨rfl, shardPath_of_concat hshards⟩
    · have hnames : relative = (blobNames exampleHash).take 2 := List.tail_eq_of_cons_eq hpath
      rw [hnames]
      exact .inl ⟨rfl, hshards⟩
    · exact .inr ⟨exampleHash, 0, List.tail_eq_of_cons_eq hpath, rfl⟩

theorem findings_inspectCas_photo : (inspectCas exampleReader).findings = [] :=
  findings_of_casTree (fun _ => rfl) casTree_exampleStore

theorem mem_validBlobs_photo {hash : BlobHash} :
    hash ∈ (inspectCas exampleReader).validBlobs ↔ hash = exampleHash := by
  rw [mem_validBlobs_inspectCas findings_inspectCas_photo]
  constructor
  · rintro ⟨inode, hlookup⟩
    have hmem := @FileTree.mem_of_lookup_ofEntries _ _ _ _ _ (by decide +kernel)
      (by decide +kernel) _ _ hlookup
    simp only [List.mem_cons, Prod.mk.injEq, reduceCtorEq, and_false, List.not_mem_nil, or_false,
      false_or] at hmem
    exact blobPath_injective hmem.1
  · rintro rfl
    exact ⟨0, by decide +kernel⟩

theorem auditStore_photo : ∃ report,
    auditStore (fun _ => exampleHash) exampleReader (exampleCatalog ["photo"]) = .ok report ∧
      report.findings = [] := by
  have hfindings : allFindings (fun _ => exampleHash) exampleReader (exampleCatalog ["photo"]) =
      [] := by
    unfold allFindings
    rw [findings_photo, findings_inspectCas_photo,
      List.nil_append, List.nil_append, List.flatMap_eq_nil_iff]
    intro hash hkey
    obtain rfl : hash = exampleHash := by
      rcases mem_reconciliationKeys.1 hkey with ⟨b, hb, rfl⟩ | hmem
      · rw [show (inspectCatalogConnection (exampleCatalog ["photo"])).validBlobs =
          [⟨exampleHash, 0, none, true⟩] by decide +kernel] at hb
        rw [List.mem_singleton.1 hb]
      · exact mem_validBlobs_photo.1 hmem
    unfold blobAudit keyFindings
    rw [if_neg (not_not.2 (mem_validBlobs_photo.2 rfl))]
    decide +kernel
  cases hrun : auditStore (fun _ => exampleHash) exampleReader (exampleCatalog ["photo"]) with
  | ok report =>
      refine ⟨report, rfl, ?_⟩
      rw [findings_auditStore hrun, hfindings]
      rfl
  | error e =>
      rcases of_auditStore_eq_error (fun _ => rfl) (by decide +kernel) hrun with hschema | hcount
      · rw [show requireCurrentSchema (exampleCatalog ["photo"]) = .ok () by decide +kernel]
          at hschema
        cases hschema
      · have hnodup : (inspectCas exampleReader).validBlobs.Nodup :=
          (reports_inspectCas (fun _ => rfl) (by decide +kernel)).nodup
        have hlength : (inspectCas exampleReader).validBlobs.length ≤ [exampleHash].length :=
          (hnodup.subperm fun hash hmem => by
            rw [mem_validBlobs_photo.1 hmem]
            exact List.mem_singleton_self _).length_le
        simp at hlength
        omega
/-- A dry run there finds nothing. -/
theorem audit_covers_preflight_photo : ∃ p,
    preflightOf (fun _ => exampleHash) exampleReader true
      (inspectCatalogConnection (exampleCatalog ["photo"])) = .ok p ∧ p.report.findings = [] := by
  obtain ⟨report, haudit, hnil⟩ := auditStore_photo
  obtain ⟨p, hp⟩ : ∃ p, preflightOf (fun _ => exampleHash) exampleReader true
      (inspectCatalogConnection (exampleCatalog ["photo"])) = .ok p :=
    Except.exists_of_isOk (by decide +kernel)
  exact ⟨p, hp, (audit_covers_preflight haudit hp).2.2.2 hnil⟩

end MediaImporter
