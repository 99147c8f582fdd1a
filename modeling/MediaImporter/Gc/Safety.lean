import MediaImporter.Catalog.History
import MediaImporter.Gc.Crash

/-!
# What a collection may delete

Wherever a collection is stopped, and whatever fails, the only files of the store that are
gone are in the staging area or belong to blobs that were marked and that nothing referred to
when the session began. With a finding nothing is changed at all.

## Main definitions

* `Catalog.Sweepable` — marked, and not referred to.
* `meets_collectGarbage` — the whole command, wherever it is stopped.
* `sweepable_of_unlinked` — what is gone was sweepable.
-/

namespace MediaImporter

open Utf8 UnixPath
open Program (Meets ObeysT)

/-- The blob has a row, is marked, and no source file refers to it. -/
def Catalog.Sweepable (c : Catalog) (h : BlobHash) : Prop :=
  ∃ row ∈ c.blobs, row.hash = h.value ∧ row.deletedAtMs ≠ .null ∧ ¬ c.Referenced h.value

section Safety

variable {digest : Bytes → BlobHash} {readFails : ReadCall → Bool} {x : GcSession}

/-- A planned sweep is sweepable. -/
theorem sweepable_of_planned {c : Catalog} (hashes : (c.blobs.map (·.hash)).Nodup)
    {b : CatalogBlob} (hb : b ∈ validBlobs c) (hplan : b.planned = .sweep) :
    c.Sweepable b.hash := by
  obtain ⟨row, hrow, hdecode⟩ := (mem_validBlobs hashes).mp hb
  obtain ⟨href, hmark⟩ := planned_eq_sweep.mp hplan
  obtain ⟨-, hnull, href'⟩ := matches_of_decodeBlobRow hdecode
  have hhash := hash_of_decodeBlobRow hdecode
  refine ⟨row, hrow, hhash, fun h => hmark (hnull.mp h), ?_⟩
  rw [← hhash, href', href]
  exact Bool.false_ne_true

theorem sweepable_of_mem_presentHashes (hx : x.Valid digest readFails)
    {gone : List SweepCandidate} (hgone : gone <+: x.preflight.sweepCandidates) {h : BlobHash}
    (hh : h ∈ presentHashes gone) : x.catalog.Sweepable h := by
  obtain ⟨candidate, hcandidate, rfl⟩ := List.mem_map.mp hh
  have hmem := hx.blob_mem (hgone.subset (List.mem_of_mem_filter hcandidate))
  exact sweepable_of_planned hx.hashes (hx.sweeps.valid _ hmem) (hx.sweeps.planned _ hmem)

/-- Nothing of the store is different outside of staging, except that the files of sweepable
blobs can be gone. -/
structure OnlySweepableGone (c : Catalog) (d d' : Store) : Prop where
  lookup : ∀ q, ¬ stagingPath <+: q → d'.tree.lookup q = d.tree.lookup q ∨
    d'.tree.lookup q = none ∧ ∃ h, q = blobPath h ∧ c.Sweepable h
  files : d.SameFiles d'

/-- What a state in which a collection can be stopped says about the store. -/
theorem GcSafe.onlySweepableGone {c : Catalog} {d : Store} {w : GcWorld}
    (h : GcSafe digest readFails c d w) : OnlySweepableGone c d w.store := by
  rcases h with ⟨-, rfl⟩ | ⟨x, hx, rfl, rfl, gone, hgone, hunlinked, -⟩
  · exact ⟨fun _ _ => .inl rfl, .refl _⟩
  · refine ⟨fun q _ => ?_, hunlinked.files⟩
    rw [hunlinked.lookup]
    by_cases hq : ∃ h ∈ presentHashes gone, q = blobPath h
    · rw [if_pos hq]
      obtain ⟨h, hh, rfl⟩ := hq
      exact .inr ⟨rfl, h, rfl, sweepable_of_mem_presentHashes hx hgone hh⟩
    · rw [if_neg hq]
      exact .inl rfl

/-- With a finding there is no valid session, so nothing has happened. -/
theorem GcSafe.of_findings {c : Catalog} {d : Store} {w : GcWorld} {p : Preflight}
    (h : GcSafe digest readFails c d w) {dryRun : Bool}
    (hp : preflightOf digest ⟨d, readFails⟩ dryRun (inspectCatalogConnection c) = .ok p)
    (hfindings : p.report.findings ≠ []) : w.catalog = c ∧ w.store = d := by
  rcases h with h | ⟨x, hx, rfl, rfl, -⟩
  · exact h
  · obtain ⟨dryRun', hpreflight⟩ := hx.preflight
    rw [preflightOf_eq_map digest _ dryRun dryRun', hpreflight] at hp
    obtain rfl := Except.ok.inj hp
    exact absurd hx.findings hfindings

end Safety

/-! ## The command -/

section Command

variable [SqlArithmetic] {env : GcEnvironment} {w : GcWorld} {digest : Bytes → BlobHash}

/-- Emptying the staging area leaves the catalog and the rest of the store alone. -/
structure Purging (w w' : GcWorld) : Prop where
  writer : w'.writer = w.writer
  store : SameOutsideStaging w.store w'.store

theorem meets_purgeExistingStaging {P : GcWorld → Prop} (hP : ∀ w', Purging w w' → P w') :
    Meets (gcHandler env) P (onGcStore purgeExistingStaging) w (fun _ w' => Purging w w')
      (fun _ w' => Purging w w') := by
  refine Program.meets_embedT ?_
  have hmeets := ObeysT.meets (h := Program.restrict GcCall.store (fun _ => id) (gcHandler env))
    (P := Purging w)
    (fun call w' _ => possibleAnswer_answer env.storeFaults w'.calls w'.store call)
    (fun call w' hcall hw' => ⟨hw'.writer,
      sameOutsideStaging_answer hw'.store env.storeFaults w'.calls hcall⟩)
    inStaging_purgeExistingStaging ⟨rfl, .refl w.store⟩
  exact (hmeets.safe hP).mono (fun _ _ h => h.2) fun _ _ h => h

/-- The world in which the staging area has been emptied, or could not be. -/
def GcWorld.purged (env : GcEnvironment) (w : GcWorld) : GcWorld :=
  (Program.exec (gcHandler env) (onGcStore purgeExistingStaging) w.next).2

omit [SqlArithmetic] in
theorem SameOutsideStaging.trans {d d' d'' : Store} (h : SameOutsideStaging d d')
    (h' : SameOutsideStaging d' d'') : SameOutsideStaging d d'' where
  lookup q hq := (h'.lookup q hq).trans (h.lookup q hq)
  files := h.files.trans h'.files

/-- A state in which the command can be stopped: staging is being emptied, or the collection
proper can be stopped in it. -/
def CommandSafe (digest : Bytes → BlobHash) (env : GcEnvironment) (w w' : GcWorld) : Prop :=
  w'.catalog = w.catalog ∧ SameOutsideStaging w.store w'.store ∨
    SameOutsideStaging w.store (w.purged env).store ∧
      GcSafe digest env.readFails w.catalog (w.purged env).store w'

/-- A real collection, wherever it is stopped and whatever fails. -/
theorem meets_collectGarbage (env : GcEnvironment) (digest : Bytes → BlobHash)
    (ht : w.writer.connection.transaction = none) :
    Meets (gcHandler env) (CommandSafe digest env w) (collectGarbage digest false) w
      (fun _ w' => CommandSafe digest env w w') (fun _ w' => CommandSafe digest env w w') := by
  have hsame : ∀ w₀ w', CommandSafe digest env w w₀ → w₀.SameState w' →
      CommandSafe digest env w w' := by
    intro w₀ w' hsafe hw'
    have hcatalog : w'.catalog = w₀.catalog := congrArg (·.connection.committed) hw'.2
    rcases hsafe with ⟨hc, hd⟩ | ⟨hd, hsafe⟩
    · exact .inl ⟨hcatalog.trans hc, hw'.1 ▸ hd⟩
    · exact .inr ⟨hd, hsafe.congr hw'.1 hcatalog⟩
  have hstart : CommandSafe digest env w w := .inl ⟨rfl, .refl w.store⟩
  refine (meets_checkGcTelemetry fun w' hw' => hsame w w' hstart hw').exec_snd.bind ?_
    fun e w' hw' => hsame w w' hstart hw'.1.1
  rintro _ w₁ - ⟨-, hw₁⟩
  rw [exec_checkGcTelemetry] at hw₁
  obtain rfl : w₁ = w.next := hw₁
  dsimp only
  rw [if_neg Bool.false_ne_true]
  -- the staging area is emptied, and then the collection runs
  have hpurging : ∀ w', Purging w.next w' → CommandSafe digest env w w' := fun w' h =>
    .inl ⟨congrArg (·.connection.committed) h.writer, h.store⟩
  refine (meets_purgeExistingStaging hpurging).exec_snd.bind ?_
    fun e w' hw' => hpurging w' hw'.1
  rintro _ w₂ - ⟨hpurged, hw₂⟩
  have hcatalog : w₂.catalog = w.catalog := congrArg (·.connection.committed) hpurged.writer
  have hlift : ∀ w', GcSafe digest env.readFails w₂.catalog w₂.store w' →
      CommandSafe digest env w w' := by
    intro w' h
    have hstore : w₂.store = (w.purged env).store := congrArg GcWorld.store hw₂
    rw [hcatalog, hstore] at h
    exact .inr ⟨hstore ▸ hpurged.store, h⟩
  have hreal := meets_collectReal env digest (w := w₂)
    ((congrArg (·.connection.transaction) hpurged.writer).trans ht)
  refine ((hreal.safe hlift).mono (fun _ w' h => hlift w' h.1) fun _ => hlift).bind ?_
    fun _ _ he => he
  intro outcome w₃ _ hsafe₃
  refine (meets_checkGcTelemetry fun w' hw' => hsame w₃ w' hsafe₃ hw').bind ?_
    fun e w' hw' => hsame w₃ w' hsafe₃ hw'.1
  exact fun _ w₄ hsafe₄ _ => Program.meets_pure hsafe₄ hsafe₄

/-- Wherever a real collection is stopped, and whatever fails, no file is gone outside of
staging but those of blobs that were marked and unreferenced before. If the preflight finds
anything, catalog and CAS are as before. -/
theorem collectGarbage_unlinks (digest : Bytes → BlobHash) (env : GcEnvironment) (w : GcWorld)
    (ht : w.writer.connection.transaction = none) (n : ℕ) :
    let w' := Program.after (gcHandler env) n (ExceptT.run (collectGarbage digest false)) w
    OnlySweepableGone w.catalog w.store w'.store ∧
      ∀ p, preflightOf digest ⟨(w.purged env).store, env.readFails⟩ false
          (inspectCatalogConnection w.catalog) = .ok p → p.report.findings ≠ [] →
        w'.catalog = w.catalog ∧ SameOutsideStaging w.store w'.store := by
  have hsafe := Program.after_of_throughout (gcHandler env) n
    (meets_collectGarbage env digest ht).throughout
  intro w'
  rcases hsafe with ⟨hcatalog, hstore⟩ | ⟨hpurged, hsafe⟩
  · exact ⟨⟨fun q hq => .inl (hstore.lookup q hq), hstore.files⟩, fun _ _ _ => ⟨hcatalog, hstore⟩⟩
  · have hgone := hsafe.onlySweepableGone
    refine ⟨⟨fun q hq => ?_, hpurged.files.trans hgone.files⟩, fun p hp hfindings => ?_⟩
    · rw [← hpurged.lookup q hq]
      exact hgone.lookup q hq
    · obtain ⟨hcatalog, hstore⟩ := hsafe.of_findings hp hfindings
      exact ⟨hcatalog, hstore ▸ hpurged⟩

end Command

/-! ## One marked blob -/

/-- The BLAKE3 hash of no bytes. -/
def emptyHash : BlobHash :=
  ⟨"af1349b9f5f9a1a6a0404dea36dcc9499bcb25c9adc112b7cc9a93cae41f3262".toList, by decide +kernel⟩

/-- A store with one empty blob. -/
def emptyBlobStore : Store := .ofEntries
  [([], .directory), ([blobsName], .directory), ((blobPath emptyHash).take 2, .directory),
   ((blobPath emptyHash).take 3, .directory), (blobPath emptyHash, .file 0)]
  [[]] (by decide +kernel) (by decide +kernel) (by decide +kernel)

/-- The catalog with that blob, marked. -/
def markedCatalog : Catalog :=
  { Catalog.fresh with
    blobs := [⟨1, emptyHash.value, .integer 0, .integer 1, .integer 2⟩] }

/-- Nothing fails, and nobody else uses the catalog. -/
def calmEnvironment : GcEnvironment where
  storeFaults := .none
  readFails _ := false
  writer := ⟨id, 0, fun _ => (0, 0, 0), fun _ => none⟩
  stageFails _ := none
  openFails := none
  clock := (↑)
  telemetryFails _ := false

def markedWorld : GcWorld := ⟨emptyBlobStore, ⟨⟨markedCatalog, none, 0⟩, [], 0, []⟩, 0⟩

theorem collectGarbage_unlinks_marked : ∃ _ : SqlArithmetic,
    OnlySweepableGone markedCatalog emptyBlobStore
      (Program.after (gcHandler calmEnvironment) 100
        (ExceptT.run (collectGarbage (fun _ => emptyHash) false)) markedWorld).store := by
  let _ := integerSums
  exact ⟨integerSums, (collectGarbage_unlinks _ calmEnvironment markedWorld rfl 100).1⟩

end MediaImporter
