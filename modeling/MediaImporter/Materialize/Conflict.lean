import MediaImporter.Materialize.Outcome

/-!
# Conflicts that planning does not see

A build that fails for a reason in its inputs should fail while it plans, before anything
is changed. Planning foresees every conflict with the tree, and every pair of entries with
one output path. It does not foresee that the output path of one entry is a directory on
the way to another: the directory is created, and then the link at its path fails.

## Main definitions

* `Shadows` — an output path is a directory on the way to another.
* `buildTree_cases` — how a run of the command ends.
* `apply_succeeds_iff` — applying a plan succeeds exactly without such a pair.
-/

namespace MediaImporter

open Utf8 UnixPath PathOrder

/-! ## How a run ends -/

section BuildTree

variable (uuids : UuidSource) {config : BuildTreeConfig} {c : Catalog} {w w' : TreeWorld}

/-- The store answers the calls of a function of the store. -/
theorem answeredBy_store : FsCall.AnsweredBy (Program.restrict TreeCall.store (fun _ r => r)
    (treeHandler (.faultless uuids))) TreeWorld.store := fun _ _ => ⟨rfl, rfl⟩

/-- Purging touches nothing but staging, and empties it if it succeeds. -/
theorem exec_purge {r : Except String Unit}
    (h : Program.exec (treeHandler (.faultless uuids)) (onStore purgeExistingStaging) w =
      (r, w')) : w'.browse = w.browse ∧ SameOutsideStaging w.store w'.store ∧
      (r = .ok () → Purged w.store w'.store) := by
  rw [onStore, Program.exec_embedT] at h
  rw [← and_assoc]
  refine ⟨?_, fun hr => exec_purgeExistingStaging (answeredBy_store uuids) (hr ▸ h)⟩
  obtain rfl : _ = w' := congrArg Prod.snd h
  refine Program.ObeysT.exec_snd _ (P := fun v : TreeWorld =>
    v.browse = w.browse ∧ SameOutsideStaging w.store v.store) ?_ ?_
    inStaging_purgeExistingStaging ⟨rfl, SameOutsideStaging.refl w.store⟩
  · intro call v _
    exact possibleAnswer_answer _ v.calls v.store call
  · rintro call v hcall ⟨hbrowse, hstore⟩
    exact ⟨hbrowse, sameOutsideStaging_answer hstore _ v.calls hcall⟩

theorem exec_view_bind {α : Type} (f : Store × BrowseTree → TreeProgram α) (w : TreeWorld) :
    Program.exec (treeHandler (.faultless uuids)) (treeCall .view >>= f) w =
      Program.exec (treeHandler (.faultless uuids)) (f (w.store, w.browse))
        ⟨w.browse, w.store, w.calls + 1⟩ := rfl

/-- What planning and applying come to, without faults. -/
theorem exec_planAndApply : Program.exec (treeHandler (.faultless uuids))
    (planAndApply config c) w =
      match plan config c w.store w.browse with
      | .error e => (.error e, ⟨w.browse, w.store, w.calls + 1 + 1⟩)
      | .ok p =>
          if config.dryRun then (.ok p.report, ⟨w.browse, w.store, w.calls + 1 + 1 + 1⟩)
          else
            let end_ := Program.exec (treeHandler (.faultless uuids)) (apply p)
              ⟨w.browse, w.store, w.calls + 1 + 1 + 1 + 1⟩
            (end_.1.map fun _ => p.report, end_.2) := by
  rw [planAndApply, exec_view_bind]
  dsimp only
  rw [exec_checkTelemetry_bind]
  cases plan config c w.store w.browse with
  | error e => rfl
  | ok p =>
      dsimp only
      rw [exec_checkTelemetry_bind]
      split_ifs
      · rfl
      · rw [exec_checkTelemetry_bind, Program.exec_bind]
        rcases Program.exec (treeHandler (.faultless uuids)) (apply p) _ with ⟨e | u, v⟩
        · rfl
        · rfl

/-- A run fails before it plans, or it plans and reports, or it applies its plan. -/
theorem buildTree_cases {r : Except String BuildTreeReport}
    (h : Program.exec (treeHandler (.faultless uuids)) (buildTree config c) w = (r, w')) :
    (∃ e, r = .error e ∧ w'.browse = w.browse) ∨
    ∃ w₁ p, w₁.browse = w.browse ∧ SameOutsideStaging w.store w₁.store ∧
      plan config c w₁.store w.browse = .ok p ∧
      (config.dryRun = true ∧ r = .ok p.report ∧ w'.browse = w.browse ∨
        config.dryRun = false ∧ Purged w.store w₁.store ∧ ∃ result,
          Program.exec (treeHandler (.faultless uuids)) (apply p) w₁ = (result, w') ∧
            r = result.map fun _ => p.report) := by
  have hpurge : ∃ result w₀, Program.exec (treeHandler (.faultless uuids))
      (purgeUnlessDryRun config) w = (result, w₀) ∧ w₀.browse = w.browse ∧
      SameOutsideStaging w.store w₀.store ∧
      (result = .ok () → config.dryRun = false → Purged w.store w₀.store) := by
    unfold purgeUnlessDryRun
    split_ifs with hdry
    · exact ⟨_, _, rfl, rfl, SameOutsideStaging.refl w.store,
        fun _ hfalse => by simp [hdry] at hfalse⟩
    · have hrun : Program.exec (treeHandler (.faultless uuids)) (onStore purgeExistingStaging) w =
          (_, _) := rfl
      obtain ⟨hbrowse, hstore, hpurged⟩ := exec_purge uuids hrun
      exact ⟨_, _, rfl, hbrowse, hstore, fun hok _ => hpurged hok⟩
  obtain ⟨result, w₀, hrun, hbrowse, hstore, hpurged⟩ := hpurge
  rw [buildTree, Program.exec_bind, hrun] at h
  cases result with
  | error e =>
      obtain ⟨rfl, rfl⟩ := Prod.mk.inj h
      exact .inl ⟨e, rfl, hbrowse⟩
  | ok u =>
      dsimp only at h
      rw [exec_planAndApply, hbrowse] at h
      cases hplan : plan config c w₀.store w.browse with
      | error e =>
          rw [hplan] at h
          obtain ⟨rfl, rfl⟩ := Prod.mk.inj h
          exact .inl ⟨e, rfl, rfl⟩
      | ok p =>
          rw [hplan] at h
          dsimp only at h
          refine .inr ⟨⟨w.browse, w₀.store, w₀.calls + 1 + 1 + 1 + 1⟩, p, rfl, hstore, hplan, ?_⟩
          by_cases hdry : config.dryRun = true
          · rw [if_pos hdry] at h
            obtain ⟨rfl, rfl⟩ := Prod.mk.inj h
            exact .inl ⟨hdry, rfl, rfl⟩
          · rw [if_neg hdry] at h
            have hfalse : config.dryRun = false := by simpa using hdry
            obtain ⟨rfl, rfl⟩ := Prod.mk.inj h
            exact .inr ⟨hfalse, hpurged rfl hfalse, _, rfl, rfl⟩

/-- A dry run reports the plan. -/
theorem exec_buildTree_dryRun {p : Plan} (hdry : config.dryRun = true)
    (hplan : plan config c w.store w.browse = .ok p) :
    ∃ w', Program.exec (treeHandler (.faultless uuids)) (buildTree config c) w =
      (.ok p.report, w') ∧ w'.browse = w.browse := by
  rw [buildTree, purgeUnlessDryRun, if_pos hdry, pure_bind, exec_planAndApply, hplan]
  dsimp only
  rw [if_pos hdry]
  exact ⟨_, rfl, rfl⟩

end BuildTree

/-! ## Entries in the way of each other -/

/-- The output path of one entry is a directory on the way to the output of another. -/
def Shadows (config : BuildTreeConfig) (entries : List LiveMaterializationEntry) : Prop :=
  ∃ e ∈ entries, ∃ f ∈ entries, e.output config <+: f.relativePath.parentNames

instance (config : BuildTreeConfig) (entries : List LiveMaterializationEntry) :
    Decidable (Shadows config entries) := by
  unfold Shadows; infer_instance

/-- Proper ancestors of an output path lie above its file name. -/
theorem prefix_output_iff {config : BuildTreeConfig} {e f : LiveMaterializationEntry} :
    e.output config <+: f.relativePath.parentNames ↔
      e.output config <+: f.output config ∧ e.output config ≠ f.output config := by
  have hlen : (f.output config).length = f.relativePath.parentNames.length + 1 := by
    simp [LiveMaterializationEntry.output, outputRelativePath]
  constructor
  · intro h
    refine ⟨h.trans (List.prefix_append _ _), fun heq => ?_⟩
    have := h.length_le
    rw [heq] at this
    omega
  · rintro ⟨h, hne⟩
    exact (List.prefix_concat_iff.mp h).resolve_left hne

/-- No planned output path is above another. -/
def Plan.NoOutputAbove (p : Plan) : Prop :=
  ∀ a ∈ p.desired, ∀ b ∈ p.desired, a.outputPath <+: b.outputPath → a.outputPath = b.outputPath

section Shadow

variable {config : BuildTreeConfig} {c : Catalog} {store : Store} {tree : BrowseTree} {p : Plan}
  {entries : List LiveMaterializationEntry}

theorem noOutputAbove_iff (hplan : plan config c store tree = .ok p)
    (he : liveMaterializationEntries c = .ok entries) :
    p.NoOutputAbove ↔ ¬ Shadows config entries := by
  have hmem := @mem_outputs_of_plan config c store tree p entries hplan he
  constructor
  · rintro hno ⟨e, hem, f, hfm, hpre⟩
    obtain ⟨hpre, hne⟩ := prefix_output_iff.mp hpre
    obtain ⟨a, ha, hae⟩ := List.mem_map.mp (hmem.mpr ⟨e, hem, rfl⟩)
    obtain ⟨b, hb, hbf⟩ := List.mem_map.mp (hmem.mpr ⟨f, hfm, rfl⟩)
    rw [← hae, ← hbf] at hpre hne
    exact hne (hno a ha b hb hpre)
  · intro hno a ha b hb hpre
    by_contra hne
    obtain ⟨e, hem, hea⟩ := hmem.mp (List.mem_map.mpr ⟨a, ha, rfl⟩)
    obtain ⟨f, hfm, hfb⟩ := hmem.mp (List.mem_map.mpr ⟨b, hb, rfl⟩)
    rw [← hea, ← hfb] at hpre hne
    exact hno ⟨e, hem, f, hfm, prefix_output_iff.mpr ⟨hpre, hne⟩⟩

/-- A directory to create is an output path exactly when an output is above another. -/
theorem noShadow_iff (hs : p.Sound tree) : p.NoShadow ↔ p.NoOutputAbove := by
  constructor
  · intro hno a ha b hb hpre
    by_contra hne
    rcases hs.above b hb a.outputPath hpre hne with hmem | hdir
    · exact hno a ha hmem
    · rcases hs.output a ha with h | ⟨target, h⟩
      · simp [h] at hdir
      · simp [h] at hdir
  · intro hno link hlink hmem
    rcases hs.create_below _ hmem with hnil | ⟨other, hother, hpre, hne⟩
    · exact hs.output_ne_nil link hlink hnil
    · exact hne (hno link hlink other hother hpre)

end Shadow

/-- A plan is applied exactly when no live entry is in the way of another. -/
theorem exec_apply_ok_iff {config : BuildTreeConfig} {c : Catalog} (uuids : UuidSource)
    {w : TreeWorld} {p : Plan} {entries : List LiveMaterializationEntry}
    (hroot : validateBrowseTreeRoot w.browse = .ok ())
    (hplan : plan config c w.store w.browse = .ok p)
    (he : liveMaterializationEntries c = .ok entries) :
    (∃ w', Program.exec (treeHandler (.faultless uuids)) (apply p) w = (.ok (), w')) ↔
      ¬ Shadows config entries := by
  have hs := plan_sound hroot hplan
  rw [← noOutputAbove_iff hplan he, ← noShadow_iff hs]
  constructor
  · rintro ⟨w', hrun⟩
    by_contra hshadow
    exact exec_apply_ne_ok uuids hs hshadow w' hrun
  · intro hshadow
    obtain ⟨w', hrun, -⟩ := exec_apply uuids hs hshadow
    exact ⟨w', hrun⟩

/-- Applying a plan succeeds, planned outputs are never above each other, and a failing run
leaves the tree alone, exactly when no live entry is in the way of another. -/
theorem apply_succeeds_iff (config : BuildTreeConfig) (c : Catalog) (uuids : UuidSource)
    (w : TreeWorld) (p : Plan) (entries : List LiveMaterializationEntry)
    (hroot : validateBrowseTreeRoot w.browse = .ok ())
    (hplan : plan config c w.store w.browse = .ok p)
    (he : liveMaterializationEntries c = .ok entries) :
    ((∃ w', Program.exec (treeHandler (.faultless uuids)) (apply p) w = (.ok (), w')) ∧
      p.NoOutputAbove ∧
      ∀ e w', Program.exec (treeHandler (.faultless uuids)) (buildTree config c) w =
        (.error e, w') → w'.browse = w.browse) ↔
      ¬ Shadows config entries := by
  constructor
  · rintro ⟨hrun, -, -⟩
    exact (exec_apply_ok_iff uuids hroot hplan he).mp hrun
  · intro hno
    refine ⟨(exec_apply_ok_iff uuids hroot hplan he).mpr hno,
      (noOutputAbove_iff hplan he).mpr hno, fun e w' hbuild => ?_⟩
    rcases buildTree_cases uuids hbuild with ⟨-, -, hbrowse⟩ | ⟨w₁, p₁, hbrowse, -, hplan₁, hend⟩
    · exact hbrowse
    · rcases hend with ⟨-, hr, -⟩ | ⟨-, -, result, hrun, hr⟩
      · simp at hr
      · -- a plan made in the run is applied
        rw [← hbrowse] at hroot hplan₁
        obtain ⟨w₂, hrun₂⟩ := (exec_apply_ok_iff uuids hroot hplan₁ he).mpr hno
        obtain ⟨rfl, -⟩ := Prod.mk.inj (hrun.symm.trans hrun₂)
        simp [Except.map] at hr

/-! ## A store with one blob -/

def exampleHash : BlobHash := ⟨List.replicate 64 'a', by decide⟩

/-- A store that holds one empty blob. -/
def exampleStore : Store := .ofEntries
  [([], .directory), ([blobsName], .directory), ((blobPath exampleHash).take 2, .directory),
   ((blobPath exampleHash).take 3, .directory), (blobPath exampleHash, .file 0)]
  [[]] (by decide +kernel) (by decide +kernel) (by decide +kernel)

/-- The catalog row of a file with the content of that blob. -/
def exampleSource (relativePath : String) : SourceFileRow :=
  ⟨1, .ofText ['/'], .ofText relativePath.toList, exampleHash.value, .integer 0, .null,
    .integer 0, .integer 0, .integer 1⟩

def exampleCatalog (relativePaths : List String) : Catalog :=
  { Catalog.fresh with
    blobs := [⟨1, exampleHash.value, .integer 0, .integer 0, .null⟩]
    sourceFiles := relativePaths.map exampleSource }

def exampleConfig (hashDigits : ℕ) : BuildTreeConfig :=
  ⟨[utf8 ['s']], [utf8 ['t']], hashDigits, false⟩

/-- A browse tree that does not exist yet, next to the store. -/
def exampleWorld : TreeWorld :=
  ⟨.ofEntries [] [] (by decide) (by decide) (by decide), exampleStore, 0⟩

/-- One file is linked into a new tree. -/
theorem apply_succeeds_iff_photo : ∃ p entries,
    plan (exampleConfig 6) (exampleCatalog ["photo"]) exampleStore exampleWorld.browse = .ok p ∧
    liveMaterializationEntries (exampleCatalog ["photo"]) = .ok entries ∧
    (((∃ w', Program.exec (treeHandler (.faultless .longest)) (apply p) exampleWorld =
        (.ok (), w')) ∧ p.NoOutputAbove ∧
      ∀ e w', Program.exec (treeHandler (.faultless .longest))
        (buildTree (exampleConfig 6) (exampleCatalog ["photo"])) exampleWorld =
          (.error e, w') → w'.browse = exampleWorld.browse) ↔
      ¬ Shadows (exampleConfig 6) entries) := by
  obtain ⟨p, hplan⟩ : ∃ p, plan (exampleConfig 6) (exampleCatalog ["photo"]) exampleStore
      exampleWorld.browse = .ok p := Except.exists_of_isOk (by decide +kernel)
  obtain ⟨entries, he⟩ : ∃ entries, liveMaterializationEntries (exampleCatalog ["photo"]) =
      .ok entries := Except.exists_of_isOk (by decide +kernel)
  exact ⟨p, entries, hplan, he, apply_succeeds_iff _ _ _ exampleWorld p entries rfl hplan he⟩

/-- The entry `photo` becomes the link `photo_aaaaaa`, which is the directory of the other
entry: the plan is made, a directory is created, and then the run fails. -/
theorem not_apply_succeeds_photo : ∃ p,
    plan (exampleConfig 6) (exampleCatalog ["photo", "photo_aaaaaa/x"]) exampleStore
      exampleWorld.browse = .ok p ∧
    (∀ w', Program.exec (treeHandler (.faultless .longest)) (apply p) exampleWorld ≠
      (.ok (), w')) ∧ ¬ p.NoOutputAbove ∧
    ∃ e w', Program.exec (treeHandler (.faultless .longest))
        (buildTree (exampleConfig 6) (exampleCatalog ["photo", "photo_aaaaaa/x"])) exampleWorld =
      (.error e, w') ∧ exampleWorld.browse.tree.lookup [] = none ∧
      w'.browse.tree.lookup [] = some .directory := by
  obtain ⟨p, hplan⟩ : ∃ p, plan (exampleConfig 6) (exampleCatalog ["photo", "photo_aaaaaa/x"])
      exampleStore exampleWorld.browse = .ok p := Except.exists_of_isOk (by decide +kernel)
  have he : liveMaterializationEntries (exampleCatalog ["photo", "photo_aaaaaa/x"]) =
      .ok [⟨⟨"photo".toList, by decide⟩, exampleHash, 0⟩,
        ⟨⟨"photo_aaaaaa/x".toList, by decide⟩, exampleHash, 0⟩] := by decide +kernel
  have hshadow : Shadows (exampleConfig 6) [⟨⟨"photo".toList, by decide⟩, exampleHash, 0⟩,
      ⟨⟨"photo_aaaaaa/x".toList, by decide⟩, exampleHash, 0⟩] := by decide +kernel
  refine ⟨p, hplan, fun w' hrun => ?_, fun hno => (noOutputAbove_iff hplan he).mp hno hshadow, ?_⟩
  · exact (exec_apply_ok_iff .longest (w := exampleWorld) rfl hplan he).mp ⟨w', hrun⟩ hshadow
  · have hfails : (Program.exec (treeHandler (.faultless .longest)) (buildTree (exampleConfig 6)
        (exampleCatalog ["photo", "photo_aaaaaa/x"])) exampleWorld).1.isOk = false := by
      decide +kernel
    have hleft : (Program.exec (treeHandler (.faultless .longest)) (buildTree (exampleConfig 6)
        (exampleCatalog ["photo", "photo_aaaaaa/x"])) exampleWorld).2.browse.tree.lookup [] =
          some .directory := by
      decide +kernel
    rcases hrun : Program.exec (treeHandler (.faultless .longest)) (buildTree (exampleConfig 6)
        (exampleCatalog ["photo", "photo_aaaaaa/x"])) exampleWorld with ⟨e | report, w'⟩
    · rw [hrun] at hleft
      exact ⟨e, w', rfl, rfl, hleft⟩
    · rw [hrun] at hfails
      simp [Except.isOk, Except.toBool] at hfails

end MediaImporter
