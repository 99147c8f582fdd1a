import MediaImporter.Gc.Removal
import MediaImporter.Gc.Staged

/-!
# What applying a plan passes through

While a plan is applied the committed catalog is the old one, the transaction holds what has
been staged, and the files that are gone are those of the first candidates. An early end
leaves the same, except that the file of one more candidate can be gone, and that a failure
of the engine can lose the transaction.

`Tracks` is the invariant of the loops and `Halts` what an early end leaves. Each loop has one
step lemma, and `meets_stagePlan` is the run of all three.

## Main definitions

* `GcSession`, `GcDone`, `GcSession.staged` — a session, and what it has done.
* `Tracks`, `Halts`, `Stopped` — the invariant, early ends, and all states in between.
* `meets_stagePlan` — the loops.
-/

namespace MediaImporter

open Utf8 UnixPath
open Program (Meets)

/-- The hashes of the candidates whose files are there. -/
def presentHashes (l : List SweepCandidate) : List BlobHash :=
  (l.filter (·.sourceState = .present)).map (·.blob.hash)

@[simp] theorem presentHashes_nil : presentHashes [] = [] := rfl

@[simp] theorem presentHashes_append (l l' : List SweepCandidate) :
    presentHashes (l ++ l') = presentHashes l ++ presentHashes l' := by
  simp [presentHashes]

/-- Integers have 64 bits in the database, and so have row ids. -/
structure Catalog.Fits (c : Catalog) : Prop where
  sizes : ∀ row ∈ c.blobs, ∀ v, row.sizeBytes = .integer v → v < 2 ^ 63
  rows : c.blobs.length < 2 ^ 63

/-! ## Sessions -/

/-- What a session starts from, its plan, and the time of its marks. -/
structure GcSession where
  catalog : Catalog
  store : Store
  preflight : Preflight
  now : ℤ

/-- The blobs for which a session has staged its statement. -/
structure GcDone where
  marks : List CatalogBlob
  resurrections : List CatalogBlob
  sweeps : List SweepCandidate

namespace GcDone

def start : GcDone := ⟨[], [], []⟩

def progress (y : GcDone) : StagedProgress :=
  ⟨y.marks.length, y.resurrections.length, y.sweeps.length, presentBytes y.sweeps⟩

def actions (y : GcDone) : List GcAction :=
  y.marks.map (actionFor .mark · none) ++ y.resurrections.map (actionFor .resurrect · none) ++
    y.sweeps.map fun c => actionFor .sweep c.blob (some c.sourceState)

end GcDone

namespace GcSession

/-- What the transaction of a session holds. -/
def staged (x : GcSession) (y : GcDone) : Catalog :=
  x.catalog.staged x.now (y.marks.map (·.hash)) (y.resurrections.map (·.hash))
    (y.sweeps.map (·.blob.hash))

/-- The report once the files of some candidates are unlinked. -/
def report (x : GcSession) (unlinked : List SweepCandidate) : GcReport :=
  { x.preflight.report with
    casFilesRemoved := (presentHashes unlinked).length
    bytesUnlinked := presentBytes unlinked }

/-- Everything is done. -/
def planned (x : GcSession) : GcDone :=
  ⟨x.preflight.plan.marks, x.preflight.plan.resurrections, x.preflight.sweepCandidates⟩

/-- The session has a preflight of its catalog and its store, without findings. -/
structure Valid (digest : Bytes → BlobHash) (readFails : ReadCall → Bool) (x : GcSession) :
    Prop where
  preflight : ∃ dryRun, preflightOf digest ⟨x.store, readFails⟩ dryRun
    (inspectCatalogConnection x.catalog) = .ok x.preflight
  findings : x.preflight.report.findings = []

end GcSession

/-! ## Valid sessions -/

section Valid

variable {digest : Bytes → BlobHash} {readFails : ReadCall → Bool} {x : GcSession}

theorem GcSession.Valid.clean (h : x.Valid digest readFails) :
    Clean digest ⟨x.store, readFails⟩ x.catalog x.preflight := by
  obtain ⟨dryRun, hpreflight⟩ := h.preflight
  exact clean_of_findings hpreflight h.findings

/-- The counts of a preflight are zero, but for those of the plan. -/
theorem GcSession.Valid.report_nil (h : x.Valid digest readFails) :
    x.report [] = x.preflight.report := by
  obtain ⟨dryRun, hpreflight⟩ := h.preflight
  unfold preflightOf at hpreflight
  simp only [Except.bind_eq_ok, Except.pure_eq_ok, Except.ok.injEq] at hpreflight
  obtain ⟨⟨plan, reachable⟩, -, s, -, hreport⟩ := hpreflight
  rw [GcSession.report, ← hreport]
  rfl

theorem GcSession.Valid.hashes (h : x.Valid digest readFails) :
    (x.catalog.blobs.map (·.hash)).Nodup :=
  h.clean.sound.hashes

/-- The sorted blobs of a catalog with unique hashes have unique hashes. -/
theorem nodup_sortedBlobs {c : Catalog} (hashes : (c.blobs.map (·.hash)).Nodup) :
    ((sortedBlobs (inspectCatalogConnection c)).map (·.hash)).Nodup := by
  have hperm : (sortedBlobs (inspectCatalogConnection c)).Perm (validBlobs c) :=
    List.perm_insertionSort _ _
  rw [(hperm.map _).nodup_iff, validBlobs_eq hashes]
  have hvalues : ((c.blobs.filterMap (decodeBlobRow c)).map fun b => b.hash.value).Sublist
      (c.blobs.map (·.hash)) := by
    generalize c.blobs = rows
    induction rows with
    | nil => exact .slnil
    | cons row rows ih =>
        cases hdecode : decodeBlobRow c row with
        | none =>
            rw [List.filterMap_cons_none hdecode]
            exact ih.cons _
        | some b =>
            rw [List.filterMap_cons_some hdecode, List.map_cons, List.map_cons,
              hash_of_decodeBlobRow hdecode]
            exact ih.cons_cons _
  refine List.Nodup.of_map BlobHash.value ?_
  rw [List.map_map]
  exact hvalues.nodup hashes

/-- The lists of the plan. -/
theorem GcSession.Valid.plan_eq (h : x.Valid digest readFails) : x.preflight.plan =
    ⟨(sortedBlobs (inspectCatalogConnection x.catalog)).filter (·.planned = .mark),
      (sortedBlobs (inspectCatalogConnection x.catalog)).filter (·.planned = .resurrect),
      (sortedBlobs (inspectCatalogConnection x.catalog)).filter (·.planned = .sweep)⟩ := by
  obtain ⟨reachable, hplan⟩ := h.clean.plan
  exact (buildPlan_eq_ok_iff.mp hplan).2.2

/-- A planned list: valid blobs of one kind, each of them once. -/
structure PlannedList (c : Catalog) (kind : PlannedKind) (l : List CatalogBlob) : Prop where
  valid : ∀ b ∈ l, b ∈ validBlobs c
  planned : ∀ b ∈ l, b.planned = kind
  nodup : l.Nodup
  length : l.length ≤ c.blobs.length

theorem plannedList_filter {c : Catalog} (hashes : (c.blobs.map (·.hash)).Nodup)
    (kind : PlannedKind) : PlannedList c kind
      ((sortedBlobs (inspectCatalogConnection c)).filter (·.planned = kind)) where
  valid b hb := mem_sortedBlobs.mp (List.mem_filter.mp hb).1
  planned b hb := of_decide_eq_true (List.mem_filter.mp hb).2
  nodup := (List.Nodup.of_map _ (nodup_sortedBlobs hashes)).filter _
  length := by
    have hsorted : (sortedBlobs (inspectCatalogConnection c)).length = (validBlobs c).length :=
      List.length_insertionSort _ _
    have hvalid : (validBlobs c).length ≤ c.blobs.length := by
      rw [validBlobs_eq hashes]
      exact List.length_filterMap_le _ _
    exact (List.length_filter_le _ _).trans (hsorted.le.trans hvalid)

theorem GcSession.Valid.marks (h : x.Valid digest readFails) :
    PlannedList x.catalog .mark x.preflight.plan.marks := by
  rw [h.plan_eq]
  exact plannedList_filter h.hashes .mark

theorem GcSession.Valid.resurrections (h : x.Valid digest readFails) :
    PlannedList x.catalog .resurrect x.preflight.plan.resurrections := by
  rw [h.plan_eq]
  exact plannedList_filter h.hashes .resurrect

theorem GcSession.Valid.sweeps (h : x.Valid digest readFails) :
    PlannedList x.catalog .sweep x.preflight.plan.sweeps := by
  rw [h.plan_eq]
  exact plannedList_filter h.hashes .sweep

/-- Every planned sweep is a candidate, in order. -/
theorem GcSession.Valid.map_blob (h : x.Valid digest readFails) :
    x.preflight.sweepCandidates.map (·.blob) = x.preflight.plan.sweeps := by
  have hall := h.clean.candidates
  generalize x.preflight.plan.sweeps = sweeps at hall
  generalize x.preflight.sweepCandidates = candidates at hall
  induction hall with
  | nil => rfl
  | cons hcandidate _ ih =>
      rw [List.map_cons, ih]
      cases hcandidate <;> rfl

theorem GcSession.Valid.candidate (h : x.Valid digest readFails) {candidate : SweepCandidate}
    (hmem : candidate ∈ x.preflight.sweepCandidates) :
    IsCandidate digest ⟨x.store, readFails⟩ candidate.blob candidate := by
  have hall := h.clean.candidates
  generalize x.preflight.plan.sweeps = sweeps at hall
  generalize x.preflight.sweepCandidates = candidates at hall hmem
  induction hall with
  | nil => simp at hmem
  | cons hcandidate _ ih =>
      rcases List.mem_cons.mp hmem with rfl | hmem
      · cases hcandidate with
        | present identity hpresent => exact .present _ identity hpresent
        | absent hfound hmissing => exact .absent _ hfound hmissing
      · exact ih hmem

theorem size_lt_of_fits {c : Catalog} (hfits : c.Fits) (hashes : (c.blobs.map (·.hash)).Nodup)
    {b : CatalogBlob} (hb : b ∈ validBlobs c) : b.sizeBytes < 2 ^ 63 := by
  obtain ⟨row, hrow, hdecode⟩ := (mem_validBlobs hashes).mp hb
  have hsize := hfits.sizes row hrow _ (decodeBlobRow_eq_some_iff.mp hdecode).2.1
  omega

end Valid

end MediaImporter
