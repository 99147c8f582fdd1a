import MediaImporter.Materialize.Conflict

/-!
# Which directories a run prunes

A plan chooses the directories to prune from what is in the tree before the run: those in
which there is nothing but stale links. A link that the run itself makes below such a
directory does not count, so a directory can be chosen, reported and then kept, because it
is not empty when its turn comes.

## Main definitions

* `mem_directoriesToPrune_iff` — which directories are chosen.
* `removedDirectories`, `removedDirectories_eq` — how many of them are removed.
* `KeepsDirectories`, `pruning_reported_iff` — when the report is right.
-/

namespace MediaImporter

open Utf8 UnixPath PathOrder

/-! ## The chosen directories -/

section Chosen

variable {tree : BrowseTree} {stale desiredPaths : List (List Name)}

/-- Every entry at or below a chosen directory is a stale link or leads to one. -/
theorem exists_stale_of_mem (r : List Name) {d : List Name}
    (hstale : ∀ s ∈ stale, ∃ target, tree.tree.lookup s = some (.symlink target))
    (hd : d ∈ directoriesToPrune tree stale desiredPaths)
    (hr : (tree.tree.lookup (d ++ r)).isSome) : ∃ s ∈ stale, d ++ r <+: s := by
  induction r generalizing d with
  | nil =>
      obtain ⟨⟨s, hs, hanc⟩, -⟩ := mem_directoriesToPrune.mp hd
      exact ⟨s, hs, by simpa using (mem_ancestors.mp hanc).1⟩
  | cons n r ih =>
      have happend : d ++ n :: r = d ++ [n] ++ r := by simp
      rw [happend] at hr ⊢
      have hchild : (tree.tree.lookup (d ++ [n])).isSome := by
        by_cases hnil : r = []
        · simpa [hnil] using hr
        · rw [FileTree.lookup_of_isPrefix hr (List.prefix_append _ r) (by simpa using hnil)]
          rfl
      rcases (mem_directoriesToPrune.mp hd).2 _ (FileTree.append_mem_children.mpr hchild) with
        hs | hprune
      · refine ⟨_, hs, ?_⟩
        obtain ⟨target, hlink⟩ := hstale _ hs
        by_cases hnil : r = []
        · simp [hnil]
        · rw [FileTree.lookup_append_eq_none (by simp [hlink]) hnil] at hr
          simp at hr
      · exact ih hprune hr

/-- A directory below which every entry is a stale link or leads to one is chosen. The
induction is on how far below it a stale link can be. -/
theorem mem_of_exists_stale (n : ℕ) {d : List Name}
    (hstale : ∀ s ∈ stale, ∃ target, tree.tree.lookup s = some (.symlink target))
    (hn : ∀ s ∈ stale, s.length ≤ d.length + n) (hnil : d ≠ [])
    (hdir : tree.tree.lookup d = some .directory)
    (hall : ∀ q, (tree.tree.lookup q).isSome → d <+: q → ∃ s ∈ stale, q <+: s) :
    d ∈ directoriesToPrune tree stale desiredPaths := by
  obtain ⟨s, hs, hpre⟩ := hall d (by simp [hdir]) List.prefix_rfl
  have hne : d ≠ s := by
    rintro rfl
    obtain ⟨target, hlink⟩ := hstale d hs
    simp [hdir] at hlink
  induction n generalizing d s with
  | zero =>
      have hle := hn s hs
      exact absurd (hpre.eq_of_length_le hle) hne
  | succ n ih =>
      refine mem_directoriesToPrune.mpr ⟨⟨s, hs, mem_ancestors.mpr ⟨hpre, hne, hnil⟩⟩, ?_⟩
      intro q hq
      obtain ⟨hsome, hqnil, hparent⟩ := FileTree.mem_children.mp hq
      have hdq : d <+: q := hparent ▸ List.dropLast_prefix q
      have hlen : q.length = d.length + 1 := by
        have := List.length_pos_of_ne_nil hqnil
        rw [← hparent, List.length_dropLast]
        omega
      obtain ⟨s', hs', hpre'⟩ := hall q hsome hdq
      by_cases heq : q = s'
      · exact .inl (heq ▸ hs')
      · refine .inr (ih ?_ hqnil ?_ ?_ s' hs' hpre' heq)
        · intro t ht
          have := hn t ht
          omega
        · obtain ⟨target, hlink⟩ := hstale s' hs'
          exact FileTree.lookup_of_isPrefix (by simp [hlink]) hpre' heq
        · intro t ht hqt
          exact hall t ht (hdq.trans hqt)

/-- The chosen directories are those in which there is nothing but stale links. -/
theorem mem_directoriesToPrune_iff {d : List Name}
    (hstale : ∀ s ∈ stale, ∃ target, tree.tree.lookup s = some (.symlink target)) :
    d ∈ directoriesToPrune tree stale desiredPaths ↔
      d ≠ [] ∧ tree.tree.lookup d = some .directory ∧
        ∀ q, (tree.tree.lookup q).isSome → d <+: q → ∃ s ∈ stale, q <+: s := by
  constructor
  · intro hd
    obtain ⟨⟨s, hs, hanc⟩, -⟩ := mem_directoriesToPrune.mp hd
    obtain ⟨hpre, hne, hnil⟩ := mem_ancestors.mp hanc
    obtain ⟨target, hlink⟩ := hstale s hs
    refine ⟨hnil, FileTree.lookup_of_isPrefix (by simp [hlink]) hpre hne, ?_⟩
    rintro q hq ⟨r, rfl⟩
    exact exists_stale_of_mem r hstale hd hq
  · rintro ⟨hnil, hdir, hall⟩
    refine mem_of_exists_stale ((stale.map List.length).max?.getD 0) hstale ?_ hnil hdir hall
    intro s hs
    have := List.le_max?_getD_of_mem (k := 0) (List.mem_map_of_mem (f := List.length) hs)
    omega

end Chosen

/-! ## The removed directories -/

/-- How many directories are gone after a run. -/
def removedDirectories (before after : BrowseTree) : ℕ :=
  (before.tree.paths.filter fun d =>
    before.tree.lookup d = some .directory ∧ after.tree.lookup d = none).length

theorem removedDirectories_eq {p : Plan} {before after : BrowseTree} (hs : p.Sound before)
    (hshadow : p.NoShadow)
    (hafter : ∀ q, after.tree.lookup q = p.applied before.tree.lookup q) :
    removedDirectories before after = (p.directoriesToPrune.filter fun d =>
      ¬ ∃ link ∈ p.desired, d <+: link.outputPath).length := by
  refine List.Perm.length_eq ((List.perm_ext_iff_of_nodup
    ((FileTree.nodup_paths _).filter _) ((hs.prune_sorted.imp ne_of_gt).filter _)).mpr ?_)
  intro d
  simp only [List.mem_filter, FileTree.mem_paths, decide_eq_true_eq]
  constructor
  · rintro ⟨-, hdir, hgone⟩
    rw [hafter, Plan.applied, pruned, cleaned_directory hs hshadow hdir] at hgone
    by_contra hcond
    rw [if_neg hcond] at hgone
    simp at hgone
  · rintro ⟨hd, hlink⟩
    obtain ⟨-, hdir, -⟩ := hs.prune d hd
    exact ⟨by simp [hdir], hdir, by rw [hafter, Plan.applied, pruned, if_pos ⟨hd, hlink⟩]⟩

/-- A run removes as many directories as it plans to when no desired link is below one of
them, and fewer otherwise. -/
theorem removedDirectories_eq_length_iff {p : Plan} {before after : BrowseTree}
    (hs : p.Sound before) (hshadow : p.NoShadow)
    (hafter : ∀ q, after.tree.lookup q = p.applied before.tree.lookup q) :
    p.directoriesToPrune.length = removedDirectories before after ↔
      ∀ d ∈ p.directoriesToPrune, ∀ link ∈ p.desired, ¬ d <+: link.outputPath := by
  rw [removedDirectories_eq hs hshadow hafter, eq_comm, List.length_filter_eq_length_iff]
  simp

/-! ## When the report is right -/

/-- A link that a run with these entries removes. -/
def Stale (config : BuildTreeConfig) (tree : BrowseTree)
    (entries : List LiveMaterializationEntry) (q : List Name) : Prop :=
  q ≠ [] ∧ isOwnedSymlink config tree q = .ok true ∧ ∀ e ∈ entries, e.output config ≠ q

instance (config : BuildTreeConfig) (tree : BrowseTree)
    (entries : List LiveMaterializationEntry) (q : List Name) :
    Decidable (Stale config tree entries q) := inferInstanceAs (Decidable (_ ∧ _))

/-- A directory holds, at or below it, something that is neither a stale link nor on the way
to one. -/
def HoldsOther (config : BuildTreeConfig) (tree : BrowseTree)
    (entries : List LiveMaterializationEntry) (d : List Name) : Prop :=
  ∃ q ∈ tree.tree.paths, d <+: q ∧
    ∀ s ∈ tree.tree.paths, Stale config tree entries s → ¬ q <+: s

/-- Every directory above a new output holds something besides stale links before the run. -/
def KeepsDirectories (config : BuildTreeConfig) (tree : BrowseTree)
    (entries : List LiveMaterializationEntry) : Prop :=
  ∀ e ∈ entries, ∀ d ∈ ancestors (e.output config), tree.tree.lookup d = some .directory →
    HoldsOther config tree entries d

instance (config : BuildTreeConfig) (tree : BrowseTree)
    (entries : List LiveMaterializationEntry) (d : List Name) :
    Decidable (HoldsOther config tree entries d) := by
  unfold HoldsOther; infer_instance

instance (config : BuildTreeConfig) (tree : BrowseTree)
    (entries : List LiveMaterializationEntry) :
    Decidable (KeepsDirectories config tree entries) := by
  unfold KeepsDirectories; infer_instance

section Report

variable {config : BuildTreeConfig} {c : Catalog} {store store' : Store} {tree : BrowseTree}
  {p : Plan} {entries : List LiveMaterializationEntry}

theorem mem_staleOwned_iff (hplan : plan config c store tree = .ok p)
    (he : liveMaterializationEntries c = .ok entries) {q : List Name} :
    q ∈ p.staleOwned ↔ Stale config tree entries q := by
  have hout : q ∈ p.desired.map (·.outputPath) ↔ ∃ e ∈ entries, e.output config = q :=
    mem_outputs_of_plan hplan he
  obtain ⟨-, -, desired, owned, actions, toCreate, -, -, howned, -, -, rfl⟩ :=
    plan_eq_ok_iff.mp hplan
  change q ∈ desired.map (·.outputPath) ↔ _ at hout
  change q ∈ owned.filter _ ↔ _
  rw [List.mem_filter, mem_collectOwnedSymlinks howned, decide_eq_true_eq, hout, Stale, and_assoc]
  push Not
  rfl

theorem directoriesToPrune_of_plan (hplan : plan config c store tree = .ok p) :
    p.directoriesToPrune =
      directoriesToPrune tree p.staleOwned (p.desired.map (·.outputPath)) := by
  obtain ⟨-, -, desired, owned, actions, toCreate, -, -, -, -, -, rfl⟩ := plan_eq_ok_iff.mp hplan
  rfl

theorem directoriesPruned_of_plan (hplan : plan config c store tree = .ok p) :
    p.report.directoriesPruned = p.directoriesToPrune.length := by
  obtain ⟨-, -, desired, owned, actions, toCreate, -, -, -, -, -, rfl⟩ := plan_eq_ok_iff.mp hplan
  rfl

/-- A directory is chosen when it holds nothing but stale links. -/
theorem mem_directoriesToPrune_of_plan (hroot : validateBrowseTreeRoot tree = .ok ())
    (hplan : plan config c store tree = .ok p) {d : List Name} :
    d ∈ p.directoriesToPrune ↔ d ≠ [] ∧ tree.tree.lookup d = some .directory ∧
      ∀ q, (tree.tree.lookup q).isSome → d <+: q → ∃ s ∈ p.staleOwned, q <+: s := by
  rw [directoriesToPrune_of_plan hplan]
  exact mem_directoriesToPrune_iff fun s hmem => ((plan_sound hroot hplan).stale s hmem).1

theorem mem_directoriesToPrune_iff_holdsOther (hroot : validateBrowseTreeRoot tree = .ok ())
    (hplan : plan config c store tree = .ok p)
    (he : liveMaterializationEntries c = .ok entries) {d : List Name} :
    d ∈ p.directoriesToPrune ↔ d ≠ [] ∧ tree.tree.lookup d = some .directory ∧
      ¬ HoldsOther config tree entries d := by
  rw [mem_directoriesToPrune_of_plan hroot hplan]
  refine and_congr_right fun _ => and_congr_right fun _ => ?_
  unfold HoldsOther
  push Not
  constructor
  · intro hall q hq hdq
    obtain ⟨s, hs, hqs⟩ := hall q (FileTree.mem_paths.mp hq) hdq
    obtain ⟨target, hlook⟩ := ((plan_sound hroot hplan).stale s hs).1
    exact ⟨s, FileTree.mem_paths.mpr (by simp [hlook]), (mem_staleOwned_iff hplan he).mp hs, hqs⟩
  · intro hall q hq hdq
    obtain ⟨s, -, hs, hqs⟩ := hall q (FileTree.mem_paths.mpr hq) hdq
    exact ⟨s, (mem_staleOwned_iff hplan he).mpr hs, hqs⟩

/-- No directory is chosen above a new link exactly when those directories hold something
else. -/
theorem keepsDirectories_iff (hroot : validateBrowseTreeRoot tree = .ok ())
    (hplan : plan config c store tree = .ok p)
    (he : liveMaterializationEntries c = .ok entries) :
    (∀ d ∈ p.directoriesToPrune, ∀ link ∈ p.desired, ¬ d <+: link.outputPath) ↔
      KeepsDirectories config tree entries := by
  have hs := plan_sound hroot hplan
  have hchosen : ∀ d, d ∈ p.directoriesToPrune ↔ d ≠ [] ∧ tree.tree.lookup d = some .directory ∧
      ¬ HoldsOther config tree entries d :=
    fun d => mem_directoriesToPrune_iff_holdsOther hroot hplan he
  constructor
  · intro hnone e hem d hanc hdir
    obtain ⟨hpre, -, hnil⟩ := mem_ancestors.mp hanc
    obtain ⟨link, hlink, hout⟩ :=
      List.mem_map.mp ((mem_outputs_of_plan hplan he).mpr ⟨e, hem, rfl⟩)
    by_contra hcontra
    exact hnone d ((hchosen d).mpr ⟨hnil, hdir, hcontra⟩) link hlink (hout ▸ hpre)
  · intro hkeeps d hd link hlink hpre
    obtain ⟨hnil, hdir, hother⟩ := (hchosen d).mp hd
    obtain ⟨e, hem, hout⟩ := (mem_outputs_of_plan hplan he).mp (List.mem_map.mpr ⟨link, hlink, rfl⟩)
    have hne : d ≠ link.outputPath := by
      rintro rfl
      rcases hs.output link hlink with h | ⟨_, h⟩
      · simp [hdir] at h
      · simp [hdir] at h
    exact hother (hkeeps e hem d (mem_ancestors.mpr ⟨hout ▸ hpre, hout ▸ hne, hnil⟩) hdir)

/-- The plan looks at nothing of the store but the blobs. -/
theorem plan_congr (h : SameOutsideStaging store store') :
    plan config c store' tree = plan config c store tree := by
  have hadd : addDesired config store' = addDesired config store := by
    funext desired entry
    simp only [addDesired, desiredLink, validateCasTarget, h.symlinkMetadata_blobPath]
  simp only [plan, desiredByOutput, hadd]

/-- A dry run makes the same plan. -/
theorem plan_dryRun (hplan : plan config c store tree = .ok p) :
    plan { config with dryRun := true } c store tree =
      .ok { p with report := { p.report with dryRun := true } } := by
  obtain ⟨hc, entries, desired, owned, actions, toCreate, he, hdesired, howned, hactions, hcreate,
    rfl⟩ := plan_eq_ok_iff.mp hplan
  exact plan_eq_ok_iff.mpr ⟨hc, entries, desired, owned, actions, toCreate, he, hdesired, howned,
    hactions, hcreate, rfl⟩

/-- A run that succeeds and is not dry purges staging and applies its plan. -/
theorem exec_buildTree_ok (uuids : UuidSource) {w w' : TreeWorld} {report : BuildTreeReport}
    (hroot : validateBrowseTreeRoot w.browse = .ok ()) (hdry : config.dryRun = false)
    (hrun : Program.exec (treeHandler (.faultless uuids)) (buildTree config c) w =
      (.ok report, w')) :
    ∃ p w₁, plan config c w.store w.browse = .ok p ∧ p.NoShadow ∧ report = p.report ∧
      w₁.browse = w.browse ∧ SameOutsideStaging w.store w₁.store ∧ Purged w.store w₁.store ∧
      Program.exec (treeHandler (.faultless uuids)) (apply p) w₁ = (.ok (), w') ∧
      (∀ q, w'.browse.tree.lookup q = p.applied w.browse.tree.lookup q) ∧
      w'.store = w₁.store := by
  obtain ⟨w₁, p, hbrowse, hsame, hplan, hpurged, happly, hreport⟩ :
      ∃ w₁ p, w₁.browse = w.browse ∧ SameOutsideStaging w.store w₁.store ∧
        plan config c w.store w.browse = .ok p ∧ Purged w.store w₁.store ∧
        Program.exec (treeHandler (.faultless uuids)) (apply p) w₁ = (.ok (), w') ∧
        report = p.report := by
    rcases buildTree_cases uuids hrun with ⟨e, hr, -⟩ | ⟨w₁, p, hbrowse, hsame, hplan, hend⟩
    · simp at hr
    · rcases hend with ⟨hdry', -⟩ | ⟨-, hpurged, result, happly, hr⟩
      · simp [hdry] at hdry'
      · cases result with
        | error e => simp [Except.map] at hr
        | ok u =>
            exact ⟨w₁, p, hbrowse, hsame, plan_congr hsame ▸ hplan, hpurged, happly,
              Except.ok.inj hr⟩
  have hs₁ : p.Sound w₁.browse := hbrowse ▸ plan_sound hroot hplan
  have hshadow : p.NoShadow := by
    by_contra hshadow
    exact exec_apply_ne_ok uuids hs₁ hshadow w' happly
  obtain ⟨w₂, hrun₂, hafter, hstore⟩ := exec_apply uuids hs₁ hshadow
  obtain rfl : w' = w₂ := congrArg Prod.snd (happly.symm.trans hrun₂)
  exact ⟨p, w₁, hplan, hshadow, hreport, hbrowse, hsame, hpurged, happly, hbrowse ▸ hafter, hstore⟩

end Report

/-- On a run that succeeds, the number of pruned directories in the report is the number of
directories that are gone, a dry run reports the same number, and no directory chosen for
pruning is above a desired link, exactly when every directory above a desired link holds
something besides stale links before the run. -/
theorem pruning_reported_iff (config : BuildTreeConfig) (c : Catalog) (uuids : UuidSource)
    (w w' : TreeWorld) (report : BuildTreeReport) (entries : List LiveMaterializationEntry)
    (hroot : validateBrowseTreeRoot w.browse = .ok ()) (hdry : config.dryRun = false)
    (hrun : Program.exec (treeHandler (.faultless uuids)) (buildTree config c) w =
      (.ok report, w'))
    (he : liveMaterializationEntries c = .ok entries) :
    (report.directoriesPruned = removedDirectories w.browse w'.browse ∧
      (∃ dry v, Program.exec (treeHandler (.faultless uuids))
          (buildTree { config with dryRun := true } c) w = (.ok dry, v) ∧
        dry.directoriesPruned = report.directoriesPruned) ∧
      ∀ p, plan config c w.store w.browse = .ok p → ∀ d ∈ p.directoriesToPrune,
        ∀ link ∈ p.desired, ¬ d <+: link.outputPath) ↔
      KeepsDirectories config w.browse entries := by
  obtain ⟨p, w₁, hplan, hshadow, rfl, -, -, -, -, hafter, -⟩ :=
    exec_buildTree_ok uuids hroot hdry hrun
  have hs := plan_sound hroot hplan
  have hcount := removedDirectories_eq_length_iff hs hshadow hafter
  rw [← keepsDirectories_iff hroot hplan he, directoriesPruned_of_plan hplan]
  constructor
  · rintro ⟨hremoved, -, -⟩
    exact hcount.mp hremoved
  · intro hnone
    refine ⟨hcount.mpr hnone, ?_, fun p' hplan' => ?_⟩
    · obtain ⟨v, hv, -⟩ := exec_buildTree_dryRun uuids (w := w) rfl (plan_dryRun hplan)
      exact ⟨_, v, hv, (directoriesPruned_of_plan hplan :)⟩
    · obtain rfl : p = p' := Except.ok.inj (hplan.symm.trans hplan')
      exact hnone

/-! ## A change of the number of hash digits -/

def photosName : Name := utf8 "photos".toList

/-- The text of a link two levels below the parent of the store. -/
def exampleTarget : Bytes :=
  utf8 "../../s/blobs/aa/aa/".toList ++ utf8 exampleHash.text

/-- A tree with one directory, whose only entry is the link for `photos/x` with six digits
of the hash. -/
def photosTree : BrowseTree := .ofEntries
  [([], .directory), ([photosName], .directory),
   ([photosName, utf8 "x_aaaaaa".toList], .symlink exampleTarget)]
  [] (by decide +kernel) (by decide +kernel) (by decide +kernel)

def photosWorld : TreeWorld := ⟨photosTree, exampleStore, 0⟩

/-- How the command ends on that tree. -/
def photosRun (hashDigits : ℕ) : Except String BuildTreeReport × TreeWorld :=
  Program.exec (treeHandler (.faultless .longest))
    (buildTree (exampleConfig hashDigits) (exampleCatalog ["photos/x"])) photosWorld

theorem photosRun_ok (hashDigits : ℕ) (h : (photosRun hashDigits).1.isOk = true) :
    ∃ report, Program.exec (treeHandler (.faultless .longest))
      (buildTree (exampleConfig hashDigits) (exampleCatalog ["photos/x"])) photosWorld =
        (.ok report, (photosRun hashDigits).2) := by
  obtain ⟨report, hreport⟩ := Except.exists_of_isOk h
  exact ⟨report, Prod.ext hreport rfl⟩

/-- The tree is up to date, and nothing is pruned. -/
theorem pruning_reported_iff_photos : ∃ (report : BuildTreeReport) (entries : _),
    liveMaterializationEntries (exampleCatalog ["photos/x"]) = .ok entries ∧
    ((report.directoriesPruned = removedDirectories photosTree (photosRun 6).2.browse ∧
      (∃ dry v, Program.exec (treeHandler (.faultless .longest))
          (buildTree { exampleConfig 6 with dryRun := true } (exampleCatalog ["photos/x"]))
            photosWorld = (.ok dry, v) ∧
        dry.directoriesPruned = report.directoriesPruned) ∧
      ∀ p, plan (exampleConfig 6) (exampleCatalog ["photos/x"]) exampleStore photosTree = .ok p →
        ∀ d ∈ p.directoriesToPrune, ∀ link ∈ p.desired, ¬ d <+: link.outputPath) ↔
      KeepsDirectories (exampleConfig 6) photosTree entries) := by
  obtain ⟨report, hrun⟩ := photosRun_ok 6 (by decide +kernel)
  obtain ⟨entries, he⟩ : ∃ entries, liveMaterializationEntries (exampleCatalog ["photos/x"]) =
      .ok entries := Except.exists_of_isOk (by decide +kernel)
  exact ⟨report, entries, he, pruning_reported_iff _ _ _ photosWorld _ report entries
    (by decide +kernel) rfl hrun he⟩

/-- With eight digits the link is replaced by another in the same directory. The directory
is reported as pruned, and is still there. -/
theorem not_pruning_reported_photos : ∃ report w',
    Program.exec (treeHandler (.faultless .longest))
      (buildTree (exampleConfig 8) (exampleCatalog ["photos/x"])) photosWorld =
        (.ok report, w') ∧
    report.directoriesPruned = 1 ∧ removedDirectories photosTree w'.browse = 0 ∧
    ∃ p, plan (exampleConfig 8) (exampleCatalog ["photos/x"]) exampleStore photosTree = .ok p ∧
      ∃ d ∈ p.directoriesToPrune, ∃ link ∈ p.desired, d <+: link.outputPath := by
  obtain ⟨report, hrun⟩ := photosRun_ok 8 (by decide +kernel)
  have hreport : (photosRun 8).1.map (·.directoriesPruned) = .ok 1 := by decide +kernel
  have hremoved : removedDirectories photosTree (photosRun 8).2.browse = 0 := by decide +kernel
  refine ⟨report, _, hrun, ?_, hremoved, ?_⟩
  · rw [photosRun, hrun] at hreport
    exact Except.ok.inj hreport
  · obtain ⟨p, hplan⟩ : ∃ p, plan (exampleConfig 8) (exampleCatalog ["photos/x"]) exampleStore
        photosTree = .ok p := Except.exists_of_isOk (by decide +kernel)
    have hpaths : (plan (exampleConfig 8) (exampleCatalog ["photos/x"]) exampleStore
        photosTree).map (fun p => decide (∃ d ∈ p.directoriesToPrune, ∃ link ∈ p.desired,
          d <+: link.outputPath)) = .ok true := by decide +kernel
    rw [hplan] at hpaths
    exact ⟨p, hplan, of_decide_eq_true (Except.ok.inj hpaths)⟩

end MediaImporter
