import MediaImporter.Gc.Apply

/-!
# What a preflight decides

The preflight changes nothing, and unless the telemetry renderer fails it is a function of
the store and of the catalog. When it finds nothing the catalog is sound, the walk of the
CAS is complete, and every planned sweep is a candidate: its file is there with the content
the catalog knows, or it is gone.

## Main definitions

* `preflightOf` — the preflight as a function.
* `exec_runPreflight` — it is what the program computes.
* `Clean`, `clean_of_findings` — a preflight without findings.
-/

namespace MediaImporter

open Utf8 UnixPath

/-- The world after a call that only looks. -/
def GcWorld.next (w : GcWorld) : GcWorld := { w with calls := w.calls + 1 }

/-- Nothing but the count of the calls is different. -/
def GcWorld.SameState (w w' : GcWorld) : Prop := w'.store = w.store ∧ w'.writer = w.writer

theorem GcWorld.SameState.refl (w : GcWorld) : w.SameState w := ⟨rfl, rfl⟩

theorem GcWorld.SameState.trans {w w' w'' : GcWorld} (h : w.SameState w')
    (h' : w'.SameState w'') : w.SameState w'' := ⟨h'.1.trans h.1, h'.2.trans h.2⟩

theorem GcWorld.SameState.next (w : GcWorld) : w.SameState w.next := ⟨rfl, rfl⟩

section Parts

variable [SqlArithmetic] {env : GcEnvironment} {w : GcWorld} {ε : Type}

@[simp] theorem exec_gcCall (call : GcCall) (w : GcWorld) :
    Program.exec (gcHandler env) (gcCall call : GcProgram ε _) w =
      (.ok (gcHandler env call w).1, (gcHandler env call w).2) := rfl

@[simp] theorem exec_ofExcept {α : Type} (r : Except ε α) (w : GcWorld) :
    Program.exec (gcHandler env) (ofExcept r) w = (r, w) := rfl

@[simp] theorem exec_attempt {ε' α : Type} (p : GcProgram ε' α) (w : GcWorld) :
    Program.exec (gcHandler env) (attempt p : GcProgram ε _) w =
      (.ok (Program.exec (gcHandler env) p w).1, (Program.exec (gcHandler env) p w).2) := by
  unfold attempt
  rw [Program.exec_mk, ← bind_pure_comp, Program.run_bind]
  rfl

theorem exec_checkGcTelemetry (env : GcEnvironment) (w : GcWorld) :
    Program.exec (gcHandler env) checkGcTelemetry w =
      (if env.telemetryFails w.calls then .error "telemetry renderer failed" else .ok (),
        w.next) := by
  unfold checkGcTelemetry
  rw [Program.exec_bind_ok _ (exec_gcCall _ w)]
  by_cases hfails : env.telemetryFails w.calls = true
  · simp only [gcHandler, hfails, if_true]
    rfl
  · simp only [gcHandler, hfails]
    rfl

end Parts

/-! ## The preflight as a function -/

section PreflightOf

variable (digest : Bytes → BlobHash)

/-- What the preflight starts from when it looks at the candidates. -/
def candidatesStart (reader : StoreReader) (snapshot : CatalogAuditSnapshot) : Candidates :=
  ⟨0, 0, snapshot.findings ++ compareCas reader (inspectCas reader) snapshot, []⟩

/-- The preflight of a store and a catalog that is snapshot. -/
def preflightOf (reader : StoreReader) (dryRun : Bool) (snapshot : CatalogAuditSnapshot) :
    Except String Preflight := do
  let (plan, reachable) ← buildPlan snapshot
  let candidates ← plan.sweeps.foldlM (addCandidate digest reader (inspectCas reader))
    (candidatesStart reader snapshot)
  return candidates.preflight plan (initialReport dryRun snapshot plan reachable)

/-- The same preflight, reported for a dry run or for a real one. -/
def Preflight.reportedFor (dryRun : Bool) (p : Preflight) : Preflight :=
  { p with report := { p.report with dryRun } }

/-- A dry run and a real run have the same preflight. -/
theorem preflightOf_eq_map (reader : StoreReader) (dryRun dryRun' : Bool)
    (snapshot : CatalogAuditSnapshot) : preflightOf digest reader dryRun snapshot =
      (preflightOf digest reader dryRun' snapshot).map (.reportedFor dryRun) := by
  unfold preflightOf
  cases buildPlan snapshot with
  | error e => rfl
  | ok planned =>
      simp only [Except.ok_bind]
      cases planned.1.sweeps.foldlM (addCandidate digest reader (inspectCas reader))
          (candidatesStart reader snapshot) with
      | error e => rfl
      | ok candidates => rfl

variable [SqlArithmetic] {env : GcEnvironment} {w : GcWorld}

/-- A loop that checks the telemetry before each step fails with it, or is the loop of the
steps. -/
theorem exec_foldlM_checked (env : GcEnvironment) {α β : Type} (f : α → β → Except String α)
    (l : List β) (a : α) (w : GcWorld) : ∃ w', w.SameState w' ∧
      ((∃ n, env.telemetryFails n = true ∧ Program.exec (gcHandler env)
          (l.foldlM (fun a x => do checkGcTelemetry; ofExcept (f a x)) a) w =
            (.error "telemetry renderer failed", w')) ∨
        Program.exec (gcHandler env)
          (l.foldlM (fun a x => do checkGcTelemetry; ofExcept (f a x)) a) w =
            (l.foldlM f a, w')) := by
  induction l generalizing a w with
  | nil => exact ⟨w, .refl w, .inr rfl⟩
  | cons x l ih =>
      rw [List.foldlM_cons, List.foldlM_cons]
      have hcheck := exec_checkGcTelemetry env w
      by_cases hfails : env.telemetryFails w.calls = true
      · rw [if_pos hfails] at hcheck
        refine ⟨w.next, .next w, .inl ⟨w.calls, hfails, ?_⟩⟩
        rw [Program.exec_bind_error _ (Program.exec_bind_error _ hcheck)]
      · rw [if_neg hfails] at hcheck
        have hstep : Program.exec (gcHandler env) (do checkGcTelemetry; ofExcept (f a x)) w =
            (f a x, w.next) := Program.exec_bind_ok _ hcheck
        cases hf : f a x with
        | error e =>
            rw [hf] at hstep
            refine ⟨w.next, .next w, .inr ?_⟩
            rw [Program.exec_bind_error _ hstep]
            rfl
        | ok b =>
            rw [hf] at hstep
            obtain ⟨w', hsame, hrest⟩ := ih b w.next
            refine ⟨w', (GcWorld.SameState.next w).trans hsame, ?_⟩
            rw [Program.exec_bind_ok _ hstep]
            exact hrest

/-- The preflight fails with the telemetry, or is the function of the store and the
catalog. -/
theorem exec_runPreflight (env : GcEnvironment) (dryRun : Bool) (snapshot : CatalogAuditSnapshot)
    (w : GcWorld) :
    ∃ w', w.SameState w' ∧
      ((∃ n, env.telemetryFails n = true ∧
        Program.exec (gcHandler env) (runPreflight digest dryRun snapshot) w =
          (.error "telemetry renderer failed", w')) ∨
      Program.exec (gcHandler env) (runPreflight digest dryRun snapshot) w =
        (preflightOf digest ⟨w.store, env.readFails⟩ dryRun snapshot, w')) := by
  unfold runPreflight preflightOf
  cases hplan : buildPlan snapshot with
  | error e => exact ⟨w, .refl w, .inr rfl⟩
  | ok planned =>
      obtain ⟨plan, reachable⟩ := planned
      rw [Program.exec_bind_ok _ (exec_ofExcept _ w)]
      dsimp only
      have hcheck := exec_checkGcTelemetry env w
      by_cases hfails : env.telemetryFails w.calls = true
      · rw [if_pos hfails] at hcheck
        exact ⟨w.next, .next w, .inl ⟨w.calls, hfails, Program.exec_bind_error _ hcheck⟩⟩
      · rw [if_neg hfails] at hcheck
        rw [Program.exec_bind_ok _ hcheck, Program.exec_bind_ok _ (exec_gcCall _ w.next)]
        obtain ⟨w', hsame, hloop⟩ := exec_foldlM_checked env
          (addCandidate digest ⟨w.store, env.readFails⟩ (inspectCas ⟨w.store, env.readFails⟩))
          plan.sweeps (candidatesStart ⟨w.store, env.readFails⟩ snapshot) w.next.next
        have hsame : w.SameState w' := ((GcWorld.SameState.next w).trans (.next w.next)).trans hsame
        refine ⟨w', hsame, ?_⟩
        rcases hloop with ⟨n, hn, hloop⟩ | hloop
        · exact .inl ⟨n, hn, Program.exec_bind_error _ hloop⟩
        · right
          cases hfold : plan.sweeps.foldlM (addCandidate digest ⟨w.store, env.readFails⟩
              (inspectCas ⟨w.store, env.readFails⟩))
              (candidatesStart ⟨w.store, env.readFails⟩ snapshot) with
          | error e =>
              rw [hfold] at hloop
              refine (Program.exec_bind_error _ hloop).trans ?_
              rw [Except.ok_bind, hfold]
              rfl
          | ok candidates =>
              rw [hfold] at hloop
              refine (Program.exec_bind_ok _ hloop).trans ?_
              rw [Except.ok_bind, hfold]
              rfl

end PreflightOf

/-! ## Preflights without findings -/

section Clean

/-- The bytes of the candidates whose files are there. -/
def presentBytes (candidates : List SweepCandidate) : ℕ :=
  (candidates.map fun c => match c.sourceState with
    | .present => c.blob.sizeBytes
    | .alreadyAbsent => 0).sum

@[simp] theorem presentBytes_nil : presentBytes [] = 0 := rfl

@[simp] theorem presentBytes_append (l l' : List SweepCandidate) :
    presentBytes (l ++ l') = presentBytes l + presentBytes l' := by
  simp [presentBytes]

@[simp] theorem presentBytes_singleton_present (b : CatalogBlob)
    (identity : Option BlobFileIdentity) :
    presentBytes [⟨b, .present, identity⟩] = b.sizeBytes := by
  simp [presentBytes]

@[simp] theorem presentBytes_singleton_absent (b : CatalogBlob)
    (identity : Option BlobFileIdentity) :
    presentBytes [⟨b, .alreadyAbsent, identity⟩] = 0 := by
  simp [presentBytes]

variable (digest : Bytes → BlobHash) (r : StoreReader)

/-- The file of the blob was found and read, and it is what the catalog says. -/
structure PresentCandidate (b : CatalogBlob) (identity : BlobFileIdentity) : Prop where
  found : b.hash ∈ (inspectCas r).validBlobs
  opened : r.openBlobNoFollow b.hash = .ok identity
  content : ∃ content, r.readBlob b.hash identity = .ok content ∧
    content.length = b.sizeBytes ∧ digest content = b.hash
  len : identity.len = b.sizeBytes

/-- The candidate that a planned sweep becomes. -/
inductive IsCandidate : CatalogBlob → SweepCandidate → Prop
  | present (b : CatalogBlob) (identity : BlobFileIdentity)
      (h : PresentCandidate digest r b identity) :
      IsCandidate b ⟨b, .present, some identity⟩
  | absent (b : CatalogBlob) (hfound : b.hash ∉ (inspectCas r).validBlobs)
      (h : r.symlinkMetadata (blobPath b.hash) = .error .notFound) :
      IsCandidate b ⟨b, .alreadyAbsent, none⟩

variable {digest r}

theorem hashCandidate_of_findings {s t : Candidates} {b : CatalogBlob}
    (hfound : b.hash ∈ (inspectCas r).validBlobs) (h : hashCandidate digest r s b = .ok t)
    (hnil : t.findings = []) : s.findings = [] ∧ ∃ identity,
      PresentCandidate digest r b identity ∧ s.reclaimable + b.sizeBytes < 2 ^ 64 ∧
      t.reclaimable = s.reclaimable + b.sizeBytes ∧
      t.candidates = s.candidates ++ [⟨b, .present, some identity⟩] := by
  unfold hashCandidate at h
  cases hopen : r.openBlobNoFollow b.hash with
  | error e =>
      rw [hopen] at h
      obtain rfl := Except.ok.inj h
      simp at hnil
  | ok identity =>
      rw [hopen] at h
      dsimp only at h
      cases hread : r.readBlob b.hash identity with
      | error e =>
          rw [hread] at h
          obtain rfl := Except.ok.inj h
          simp at hnil
      | ok content =>
          rw [hread] at h
          dsimp only at h
          rw [Except.bind_eq_ok] at h
          obtain ⟨hashed, -, h⟩ := h
          by_cases hverify : verifyContent digest b identity content = []
          · rw [if_pos hverify, Except.bind_eq_ok] at h
            obtain ⟨reclaimable, hadd, h⟩ := h
            obtain ⟨hfits, rfl⟩ := checkedAdd_eq_ok_iff.mp hadd
            obtain rfl := Except.ok.inj h
            obtain ⟨hsizes, hhash⟩ := List.append_eq_nil_iff.mp hverify
            have hsizes : identity.len = b.sizeBytes ∧ content.length = b.sizeBytes ∧
                content.length = identity.len := by
              by_contra hnot
              rw [if_neg hnot] at hsizes
              simp at hsizes
            have hhash : digest content = b.hash := by
              by_contra hnot
              rw [if_neg hnot] at hhash
              simp at hhash
            exact ⟨hnil, identity, ⟨hfound, hopen, ⟨content, hread, hsizes.2.1, hhash⟩, hsizes.1⟩,
              hfits, rfl, rfl⟩
          · rw [if_neg hverify] at h
            obtain rfl := Except.ok.inj h
            exact absurd (List.append_eq_nil_iff.mp hnil).2 hverify

/-- A blob whose file was not found, and about which there is nothing to say, is marked,
not referenced, and has no file. -/
theorem missing_of_blobFindings {b : CatalogBlob} (hcomplete : (inspectCas r).complete = true)
    (hfound : b.hash ∉ (inspectCas r).validBlobs)
    (h : blobFindings r (inspectCas r) b = []) :
    r.symlinkMetadata (blobPath b.hash) = .error .notFound ∧ b.planned = .sweep := by
  unfold blobFindings classifyMissingBlob at h
  rw [if_neg hfound, if_pos hcomplete] at h
  split at h
  · simp at h
  · simp at h
  · rename_i hmissing
    refine ⟨hmissing, ?_⟩
    by_cases hmarked : b.markedAtMs.isSome ∧ b.referenced = false
    · simp [CatalogBlob.planned, hmarked, classify]
    · rw [if_neg hmarked] at h
      simp at h
  · simp at h

/-- A blob whose file was found, and about which there is nothing to say, has the size of
its file. -/
theorem present_of_blobFindings {b : CatalogBlob} (hfound : b.hash ∈ (inspectCas r).validBlobs)
    (h : blobFindings r (inspectCas r) b = []) :
    ∃ inode, r.symlinkMetadata (blobPath b.hash) = .ok ⟨.file inode, b.sizeBytes⟩ := by
  unfold blobFindings presentFindings at h
  rw [if_pos hfound] at h
  split at h
  · rename_i inode len hstat
    by_cases hlen : len = b.sizeBytes
    · exact ⟨inode, hlen ▸ hstat⟩
    · rw [if_pos hlen] at h
      simp at h
  · simp at h
  · simp at h

/-- What a preflight without findings knows. -/
structure Clean (digest : Bytes → BlobHash) (r : StoreReader) (c : Catalog) (p : Preflight) :
    Prop where
  sound : c.Sound
  cas : (inspectCas r).findings = []
  known : ∀ h ∈ (inspectCas r).validBlobs, ∃ b ∈ validBlobs c, b.hash = h
  blob : ∀ b ∈ validBlobs c, blobFindings r (inspectCas r) b = []
  plan : ∃ reachable, buildPlan (inspectCatalogConnection c) = .ok (p.plan, reachable)
  candidates : List.Forall₂ (IsCandidate digest r) p.plan.sweeps p.sweepCandidates
  reclaimable : p.report.bytesReclaimable = presentBytes p.sweepCandidates ∧
    p.report.bytesReclaimable < 2 ^ 64

theorem mem_sortedBlobs {snapshot : CatalogAuditSnapshot} {b : CatalogBlob} :
    b ∈ sortedBlobs snapshot ↔ b ∈ snapshot.validBlobs :=
  List.mem_insertionSort _

theorem buildPlan_eq_ok_iff {snapshot : CatalogAuditSnapshot} {plan : GcPlan} {n : ℕ} :
    buildPlan snapshot = .ok (plan, n) ↔ n = (sortedBlobs snapshot).countP (·.referenced) ∧
      n < 2 ^ 64 ∧ plan = ⟨(sortedBlobs snapshot).filter (·.planned = .mark),
        (sortedBlobs snapshot).filter (·.planned = .resurrect),
        (sortedBlobs snapshot).filter (·.planned = .sweep)⟩ := by
  simp only [buildPlan, Except.bind_eq_ok, Except.ensure_eq_ok_iff, Except.pure_eq_ok,
    Except.ok.injEq, Prod.mk.injEq, exists_const]
  constructor
  · rintro ⟨hlt, rfl, rfl⟩
    exact ⟨rfl, hlt, rfl⟩
  · rintro ⟨rfl, hlt, rfl⟩
    exact ⟨hlt, rfl, rfl⟩

/-- A preflight without findings is clean. -/
theorem clean_of_findings {c : Catalog} {dryRun : Bool} {p : Preflight}
    (h : preflightOf digest r dryRun (inspectCatalogConnection c) = .ok p)
    (hnil : p.report.findings = []) : Clean digest r c p := by
  unfold preflightOf at h
  simp only [Except.bind_eq_ok, Except.pure_eq_ok, Except.ok.injEq] at h
  obtain ⟨⟨plan, reachable⟩, hplan, s, hloop, rfl⟩ := h
  have hnil : s.findings = [] := sortAndDeduplicate_eq_nil.mp hnil
  have hsweeps : ∀ b ∈ plan.sweeps, b ∈ validBlobs c := by
    intro b hb
    obtain ⟨-, -, rfl⟩ := buildPlan_eq_ok_iff.mp hplan
    exact mem_sortedBlobs.mp (List.mem_filter.mp hb).1
  have hinv := Except.foldlM_inv (fun done (t : Candidates) => (∀ b ∈ done, b ∈ validBlobs c) →
      t.findings = [] → (candidatesStart r (inspectCatalogConnection c)).findings = [] ∧
        List.Forall₂ (IsCandidate digest r) done t.candidates ∧
        t.reclaimable = presentBytes t.candidates ∧ t.reclaimable < 2 ^ 64)
    (fun _ hstart => ⟨hstart, .nil, rfl, by simp [candidatesStart]⟩) (by
      intro done b t u ih hstep hvalid hu
      unfold addCandidate at hstep
      by_cases hfound : b.hash ∈ (inspectCas r).validBlobs
      · rw [if_pos hfound] at hstep
        obtain ⟨ht, identity, hpresent, hfits, hreclaimable, hcandidates⟩ :=
          hashCandidate_of_findings hfound hstep hu
        obtain ⟨hstart, hall, hsum, -⟩ := ih (fun b' hb' => hvalid b' (by simp [hb'])) ht
        refine ⟨hstart, ?_, ?_, by omega⟩
        · rw [hcandidates]
          exact List.rel_append hall (.cons (.present b identity hpresent) .nil)
        · rw [hcandidates, hreclaimable, hsum]
          simp
      · rw [if_neg hfound] at hstep
        have hkeep : u.findings = t.findings := by
          split at hstep
          · obtain rfl := Except.ok.inj hstep
            rfl
          · obtain rfl := Except.ok.inj hstep
            rfl
        obtain ⟨hstart, hall, hsum, hlt⟩ := ih (fun b' hb' => hvalid b' (by simp [hb']))
          (hkeep ▸ hu)
        have hcompare : compareCas r (inspectCas r) (inspectCatalogConnection c) = [] :=
          (List.append_eq_nil_iff.mp hstart).2
        unfold compareCas at hcompare
        simp only [List.append_eq_nil_iff, List.flatMap_eq_nil_iff] at hcompare
        have hcomplete := complete_inspectCas hcompare.1.1
        obtain ⟨hmissing, -⟩ := missing_of_blobFindings hcomplete hfound
          (hcompare.2 b (hvalid b (by simp)))
        rw [if_pos ⟨hcomplete, by simp [canonicalPathIsAbsent, hmissing]⟩] at hstep
        obtain rfl := Except.ok.inj hstep
        refine ⟨hstart, ?_, ?_, hlt⟩
        · exact List.rel_append hall (.cons (.absent b hfound hmissing) .nil)
        · simpa using hsum) hloop hsweeps hnil
  obtain ⟨hstart, hall, hsum, hlt⟩ := hinv
  obtain ⟨hcatalog, hcompare⟩ := List.append_eq_nil_iff.mp hstart
  unfold compareCas at hcompare
  simp only [List.append_eq_nil_iff, List.flatMap_eq_nil_iff] at hcompare
  obtain ⟨⟨hcas, horphan⟩, hblob⟩ := hcompare
  refine ⟨findings_inspectCatalogConnection_eq_nil_iff.mp hcatalog, hcas, ?_, hblob,
    ⟨reachable, hplan⟩, hall, hsum, hlt⟩
  intro hash hmem
  rw [if_pos (complete_inspectCas hcas), orphanFindings, List.map_eq_nil_iff,
    List.filter_eq_nil_iff] at horphan
  by_contra hunknown
  push Not at hunknown
  exact horphan hash hmem (by simpa [inspectCatalogConnection] using hunknown)

end Clean

end MediaImporter
