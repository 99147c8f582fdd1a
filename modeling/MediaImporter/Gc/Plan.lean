import MediaImporter.Catalog.Inspect
import MediaImporter.Store.Inspect

/-!
# Planning a garbage collection

A blob that no source file refers to is marked by one collection and swept by a later one,
unless it is referred to again, in which case the mark is removed. The plan follows from
what the inspection of the catalog says about each blob.

Before anything is changed the CAS is compared with the catalog, and the content of every
blob that is to be swept is hashed. A finding blocks the collection. What the comparison
remembers about a blob to be swept is its `SweepCandidate`.

## Main definitions

* `GcPlan`, `classify`, `buildPlan` — the plan.
* `GcReport`, `GcOutcome` — what a collection reports.
* `Preflight`, `compareCas`, `addCandidate` — the comparison and the candidates.
-/

namespace MediaImporter

open Utf8 UnixPath

/-! ## Reports -/

inductive GcActionKind
  | mark
  | resurrect
  | sweep
  deriving DecidableEq, Repr

/-- Whether there was a file to unlink for a swept blob. -/
inductive SweepSourceState
  | present
  | alreadyAbsent
  deriving DecidableEq, Repr

structure GcAction where
  kind : GcActionKind
  hash : BlobHash
  sizeBytes : ℕ
  sweepSourceState : Option SweepSourceState
  deriving DecidableEq

structure GcReport where
  dryRun : Bool
  catalogBlobs : ℕ
  reachableBlobs : ℕ
  sweepCandidatesHashed : ℕ
  plannedMarks : ℕ
  plannedResurrections : ℕ
  plannedSweeps : ℕ
  completedMarks : ℕ
  completedResurrections : ℕ
  completedSweeps : ℕ
  casFilesRemoved : ℕ
  bytesReclaimable : ℕ
  bytesUnlinked : ℕ
  bytesReclaimed : ℕ
  actions : List GcAction
  findings : List IntegrityFinding
  deriving DecidableEq

inductive GcOutcome
  | complete (report : GcReport)
  | blocked (report : GcReport)
  | incomplete (report : GcReport) (error : String)

def actionFor (kind : GcActionKind) (blob : CatalogBlob)
    (sweepSourceState : Option SweepSourceState) : GcAction :=
  { kind, hash := blob.hash, sizeBytes := blob.sizeBytes, sweepSourceState }

/-- Add two numbers of 64 bits. -/
def checkedAdd (a b : ℕ) (e : String) : Except String ℕ :=
  if a + b < 2 ^ 64 then .ok (a + b) else .error e

@[simp] theorem checkedAdd_eq_ok_iff {a b c : ℕ} {e : String} :
    checkedAdd a b e = .ok c ↔ a + b < 2 ^ 64 ∧ c = a + b := by
  unfold checkedAdd
  by_cases h : a + b < 2 ^ 64
  · rw [if_pos h, Except.ok.injEq, eq_comm]
    exact (and_iff_right h).symm
  · rw [if_neg h]
    exact iff_of_false (by simp) fun hc => h hc.1

theorem le_of_checkedAdd_eq_error {a b : ℕ} {e e' : String} (h : checkedAdd a b e = .error e') :
    2 ^ 64 ≤ a + b := by
  by_contra hlt
  rw [checkedAdd, if_pos (not_le.1 hlt)] at h
  cases h

/-! ## The plan -/

inductive PlannedKind
  | unchanged
  | mark
  | resurrect
  | sweep
  deriving DecidableEq, Repr

def classify (referenced marked : Bool) : PlannedKind :=
  match referenced, marked with
  | true, false => .unchanged
  | true, true => .resurrect
  | false, false => .mark
  | false, true => .sweep

/-- What is to happen to a blob. -/
def CatalogBlob.planned (blob : CatalogBlob) : PlannedKind :=
  classify blob.referenced blob.markedAtMs.isSome

structure GcPlan where
  marks : List CatalogBlob
  resurrections : List CatalogBlob
  sweeps : List CatalogBlob

/-- The valid blobs in the order of their hashes. -/
def sortedBlobs (snapshot : CatalogAuditSnapshot) : List CatalogBlob :=
  snapshot.validBlobs.insertionSort fun left right => left.hash ≤ right.hash

/-- The plan, and how many blobs are referenced. -/
def buildPlan (snapshot : CatalogAuditSnapshot) : Except String (GcPlan × ℕ) := do
  let blobs := sortedBlobs snapshot
  let reachable := blobs.countP (·.referenced)
  Except.ensure (reachable < 2 ^ 64) "reachable blob counter overflow"
  return ({
    marks := blobs.filter (·.planned = .mark)
    resurrections := blobs.filter (·.planned = .resurrect)
    sweeps := blobs.filter (·.planned = .sweep) }, reachable)

/-! ## Comparing the CAS with the catalog -/

/-- The details of a finding about the path of a blob. -/
def pathDetails (hash : BlobHash) (reason : String) : Text :=
  "path=".toList ++ escapePath (blobPath hash) ++ reason.toList

def blobFinding (category : FindingCategory) (hash : BlobHash) (details : Text) :
    IntegrityFinding :=
  .new category hash.text details

def number (n : ℕ) : Text := (toString n).toList

/-- A file that the walk found, but that the catalog does not know. -/
def orphanFindings (snapshot : CatalogAuditSnapshot) (cas : CasInspection) :
    List IntegrityFinding :=
  (cas.validBlobs.filter fun hash => ∀ b ∈ snapshot.validBlobs, b.hash ≠ hash).map fun hash =>
    blobFinding .orphanBlob hash (pathDetails hash "")

/-- Check the size of a blob whose file the walk found. -/
def presentFindings (r : StoreReader) (blob : CatalogBlob) : List IntegrityFinding :=
  match r.symlinkMetadata (blobPath blob.hash) with
  | .ok ⟨.file _, len⟩ =>
      if len ≠ blob.sizeBytes then
        [blobFinding .sizeMismatch blob.hash
          ("expected=".toList ++ number blob.sizeBytes ++ " metadata=".toList ++ number len)]
      else []
  | .ok _ => [blobFinding .nonRegularBlob blob.hash (pathDetails blob.hash "")]
  | .error _ => [blobFinding .blobIoError blob.hash (pathDetails blob.hash " reason=stat-failed")]

/-- Only a marked blob that nothing refers to may have lost its file. -/
def classifyMissingBlob (r : StoreReader) (blob : CatalogBlob) : List IntegrityFinding :=
  match r.symlinkMetadata (blobPath blob.hash) with
  | .ok ⟨.file _, _⟩ =>
      [blobFinding .blobIoError blob.hash
        (pathDetails blob.hash " reason=appeared-after-traversal")]
  | .ok _ => [blobFinding .nonRegularBlob blob.hash (pathDetails blob.hash "")]
  | .error .notFound =>
      if blob.markedAtMs.isSome ∧ blob.referenced = false then []
      else [blobFinding .missingBlob blob.hash (pathDetails blob.hash "")]
  | .error _ => [blobFinding .blobIoError blob.hash (pathDetails blob.hash " reason=stat-failed")]

def blobFindings (r : StoreReader) (cas : CasInspection) (blob : CatalogBlob) :
    List IntegrityFinding :=
  if blob.hash ∈ cas.validBlobs then presentFindings r blob
  else if cas.complete then classifyMissingBlob r blob
  else []

/-- Everything that is wrong with the CAS, before any content is read. -/
def compareCas (r : StoreReader) (cas : CasInspection) (snapshot : CatalogAuditSnapshot) :
    List IntegrityFinding :=
  cas.findings ++ (if cas.complete then orphanFindings snapshot cas else []) ++
    snapshot.validBlobs.flatMap (blobFindings r cas)

/-! ## Sweep candidates -/

structure SweepCandidate where
  blob : CatalogBlob
  sourceState : SweepSourceState
  identity : Option BlobFileIdentity
  deriving DecidableEq

/-- The candidates so far, and what the report says about them. -/
structure Candidates where
  hashed : ℕ
  reclaimable : ℕ
  findings : List IntegrityFinding
  candidates : List SweepCandidate

/-- Compare what was read of a blob with the catalog. -/
def verifyContent (digest : Bytes → BlobHash) (blob : CatalogBlob) (identity : BlobFileIdentity)
    (content : Bytes) : List IntegrityFinding :=
  (if identity.len = blob.sizeBytes ∧ content.length = blob.sizeBytes ∧
      content.length = identity.len then []
    else [blobFinding .sizeMismatch blob.hash
      ("expected=".toList ++ number blob.sizeBytes ++ " metadata=".toList ++
        number identity.len ++ " actual=".toList ++ number content.length)]) ++
  (if digest content = blob.hash then []
    else [blobFinding .hashMismatch blob.hash
      ("expected=".toList ++ blob.hash.text ++ " actual=".toList ++ (digest content).text)])

/-- Hash the file of a blob that is to be swept. Its identity is kept if the content is
the catalog's. -/
def hashCandidate (digest : Bytes → BlobHash) (r : StoreReader) (s : Candidates)
    (blob : CatalogBlob) : Except String Candidates :=
  let candidate : SweepCandidate := ⟨blob, .present, none⟩
  let failed (reason : String) : Candidates :=
    { s with
      findings := s.findings ++
        [blobFinding .blobIoError blob.hash (pathDetails blob.hash reason)]
      candidates := s.candidates ++ [candidate] }
  match r.openBlobNoFollow blob.hash with
  | .error _ => .ok (failed " reason=open-failed")
  | .ok identity => match r.readBlob blob.hash identity with
    | .error _ => .ok (failed " reason=read-failed")
    | .ok content => do
        let hashed ← checkedAdd s.hashed 1 "sweep candidate hash counter overflow"
        let found := verifyContent digest blob identity content
        if found = [] then
          let reclaimable ← checkedAdd s.reclaimable blob.sizeBytes
            "reclaimable byte count overflow"
          return {
            hashed, reclaimable
            findings := s.findings
            candidates := s.candidates ++ [{ candidate with identity := some identity }] }
        else return {
          hashed
          reclaimable := s.reclaimable
          findings := s.findings ++ found
          candidates := s.candidates ++ [candidate] }

/-- Whether there is nothing at the path of a blob. -/
def canonicalPathIsAbsent (r : StoreReader) (hash : BlobHash) : Bool :=
  match r.symlinkMetadata (blobPath hash) with
  | .error .notFound => true
  | _ => false

/-- Look at a blob that is to be swept. -/
def addCandidate (digest : Bytes → BlobHash) (r : StoreReader) (cas : CasInspection)
    (s : Candidates) (blob : CatalogBlob) : Except String Candidates :=
  if blob.hash ∈ cas.validBlobs then hashCandidate digest r s blob
  else if cas.complete = true ∧ canonicalPathIsAbsent r blob.hash = true then
    .ok { s with candidates := s.candidates ++ [⟨blob, .alreadyAbsent, none⟩] }
  else .ok s

structure Preflight where
  plan : GcPlan
  sweepCandidates : List SweepCandidate
  report : GcReport

/-- The report before anything is done. -/
def initialReport (dryRun : Bool) (snapshot : CatalogAuditSnapshot) (plan : GcPlan)
    (reachable : ℕ) : GcReport where
  dryRun := dryRun
  catalogBlobs := snapshot.blobRowsSeen
  reachableBlobs := reachable
  sweepCandidatesHashed := 0
  plannedMarks := plan.marks.length
  plannedResurrections := plan.resurrections.length
  plannedSweeps := plan.sweeps.length
  completedMarks := 0
  completedResurrections := 0
  completedSweeps := 0
  casFilesRemoved := 0
  bytesReclaimable := 0
  bytesUnlinked := 0
  bytesReclaimed := 0
  actions := []
  findings := snapshot.findings

/-- The preflight that the candidates complete. -/
def Candidates.preflight (s : Candidates) (plan : GcPlan) (report : GcReport) : Preflight where
  plan := plan
  sweepCandidates := s.candidates
  report := { report with
    sweepCandidatesHashed := s.hashed
    bytesReclaimable := s.reclaimable
    findings := sortAndDeduplicate s.findings }

end MediaImporter
