import MediaImporter.Materialize.Postcondition

/-!
# Planning once more

The same catalog and the same CAS give the same desired links, so a plan for another tree
exists when that tree can be read and nothing in it is in the way of the links.

In a tree that a run has left behind, all links are in place. The plan for it has nothing to
do, and applying it calls nothing that changes the tree.

## Main definitions

* `replan` — when there is a plan for another tree.
* `Settled` — a tree in which all links are in place.
* `buildTree_idempotent` — the second of two runs changes nothing.
-/

namespace MediaImporter

open Utf8 UnixPath PathOrder
open Program (Meets)

/-! ## A plan for another tree -/

section Replan

variable {config : BuildTreeConfig} {c : Catalog} {store : Store} {tree tree' : BrowseTree}
  {p : Plan}

/-- Every link of a tree for which there is a plan can be read. -/
theorem isOwnedSymlink_ok_of_plan (hroot : validateBrowseTreeRoot tree = .ok ())
    (hplan : plan config c store tree = .ok p) (q : List Name) :
    ∃ b, isOwnedSymlink config tree q = .ok b := by
  obtain ⟨-, -, -, owned, -, -, -, -, howned, -, -, -⟩ := plan_eq_ok_iff.mp hplan
  cases hlook : tree.tree.lookup q with
  | none => exact ⟨false, by simp [isOwnedSymlink, hlook]⟩
  | some node =>
      have hsome : tree.tree.lookup q ≠ none := by simp [hlook]
      by_cases hnil : q = []
      · subst hnil
        rcases lookup_root hroot with h | h
        · exact absurd h hsome
        · exact ⟨false, by simp [isOwnedSymlink, h]⟩
      · unfold collectOwnedSymlinks at howned
        split_ifs at howned with hempty
        · have hdir := FileTree.lookup_of_isPrefix (Option.isSome_iff_ne_none.mpr hsome)
            (List.nil_prefix (l := q)) (Ne.symm hnil)
          simp [hempty] at hdir
        · refine (Except.filterOk_eq_ok_iff.mp howned).1 q ?_
          rw [List.mem_filter, FileTree.mem_paths]
          exact ⟨by simp [hlook], by simpa using hnil⟩

/-- No name on the way to an output has a zero byte. -/
theorem passable_output (hplan : plan config c store tree = .ok p) {link : DesiredLink}
    (hlink : link ∈ p.desired) : ¬ ∃ name ∈ link.outputPath, 0 ∈ name := by
  obtain ⟨-, _, desired, _, actions, _, -, -, -, hactions, -, rfl⟩ := plan_eq_ok_iff.mp hplan
  obtain ⟨action, haction⟩ : ∃ a, linkAction config tree link = .ok a := by
    have hall := Except.mapM_eq_ok_iff.mp hactions
    obtain ⟨i, hi, rfl⟩ := List.getElem_of_mem hlink
    exact ⟨_, hall.get hi (hall.length_eq ▸ hi)⟩
  intro hzero
  simp [linkAction, statOutput, hzero] at haction

/-- There is a plan for every tree that can be read and in which nothing is in the way. -/
theorem replan (hplan : plan config c store tree = .ok p)
    (howned : ∀ q, ∃ b, isOwnedSymlink config tree' q = .ok b)
    (hactions : ∀ link ∈ p.desired, ∃ action, linkAction config tree' link = .ok action)
    (hdirectories : ∀ link ∈ p.desired, ∀ a ∈ ancestors link.outputPath,
      ∃ missing, isMissingDirectory tree' a = .ok missing) :
    ∃ p', plan config c store tree' = .ok p' ∧ p'.desired = p.desired := by
  obtain ⟨hc, entries, desired, _, _, _, he, hdesired, -, -, -, rfl⟩ := plan_eq_ok_iff.mp hplan
  have hcollect : ∃ owned, collectOwnedSymlinks config tree' = .ok owned := by
    unfold collectOwnedSymlinks
    split_ifs
    · exact ⟨[], rfl⟩
    · exact ⟨_, Except.filterOk_eq_ok_iff.mpr ⟨fun q _ => howned q, rfl⟩⟩
  have hmap : ∀ links : List DesiredLink, (∀ link ∈ links, ∃ action,
      linkAction config tree' link = .ok action) →
      ∃ actions, links.mapM (linkAction config tree') = .ok actions := by
    intro links hlinks
    induction links with
    | nil => exact ⟨[], rfl⟩
    | cons link links ih =>
        obtain ⟨action, haction⟩ := hlinks link (by simp)
        obtain ⟨actions, hactions⟩ := ih fun l hl => hlinks l (by simp [hl])
        exact ⟨action :: actions, by simp [List.mapM_cons, haction, hactions]⟩
  obtain ⟨owned, howned⟩ := hcollect
  obtain ⟨actions, hactions⟩ := hmap desired hactions
  have hcreate : ∃ toCreate, directoriesToCreate tree' desired = .ok toCreate := by
    have hfilter : ∃ missing, Except.filterOk (isMissingDirectory tree')
        (desired.flatMap fun link => ancestors link.outputPath) = .ok missing := by
      refine ⟨_, Except.filterOk_eq_ok_iff.mpr ⟨fun a ha => ?_, rfl⟩⟩
      obtain ⟨link, hlink, ha⟩ := List.mem_flatMap.mp ha
      exact hdirectories link hlink a ha
    obtain ⟨missing, hmissing⟩ := hfilter
    unfold directoriesToCreate
    rw [hmissing]
    exact ⟨_, rfl⟩
  obtain ⟨toCreate, hcreate⟩ := hcreate
  exact ⟨_, plan_eq_ok_iff.mpr ⟨hc, entries, desired, owned, actions, toCreate, he, hdesired,
    howned, hactions, hcreate, rfl⟩, rfl⟩

/-- A root that is not there will be created. -/
theorem root_mem_toCreate (hplan : plan config c store tree = .ok p)
    (hroot : tree.tree.lookup [] = none) : [] ∈ p.directoriesToCreate := by
  obtain ⟨-, _, desired, _, _, toCreate, -, -, -, -, hcreate, rfl⟩ := plan_eq_ok_iff.mp hplan
  exact ((directoriesToCreate_spec hcreate).2.2 []).mpr (.inl ⟨rfl, hroot⟩)

/-- What a plan reports. -/
theorem report_of_plan (hplan : plan config c store tree = .ok p) :
    ∃ actions, p.desired.mapM (linkAction config tree) = .ok actions ∧ p.report =
      { dryRun := config.dryRun
        desiredLinks := p.desired.length
        linksCreated := actions.count .create
        linksUnchanged := actions.count .keep
        linksReplaced := actions.count .replace
        staleLinksRemoved := p.staleOwned.length
        directoriesCreated := p.directoriesToCreate.length
        directoriesPruned := p.directoriesToPrune.length } := by
  obtain ⟨-, _, desired, _, actions, _, -, -, -, hactions, -, rfl⟩ := plan_eq_ok_iff.mp hplan
  exact ⟨actions, hactions, rfl⟩

theorem linkAction_of_symlink {link : DesiredLink} {target : Bytes}
    (hpass : ¬ ∃ name ∈ link.outputPath, 0 ∈ name)
    (hlook : tree.tree.lookup link.outputPath = some (.symlink target))
    (howned : isOwnedSymlink config tree link.outputPath = .ok true) :
    linkAction config tree link =
      .ok (if samePath target link.targetText then .keep else .replace) := by
  have hinside : pointsInsideBlobs (config.browseTreeRoot ++ link.outputPath.dropLast) target
      config.blobsDir = .ok true := by
    simpa [isOwnedSymlink, hlook] using howned
  unfold linkAction statOutput
  rw [if_neg hpass, Disk.symlinkMetadata_of_lookup hlook]
  simp [hinside, Except.ensure]

theorem isMissingDirectory_of_directory {a : List Name} (hpass : ¬ ∃ name ∈ a, 0 ∈ name)
    (hlook : tree.tree.lookup a = some .directory) : isMissingDirectory tree a = .ok false := by
  unfold isMissingDirectory statOutput
  rw [if_neg hpass, Disk.symlinkMetadata_of_lookup hlook]

end Replan

/-! ## A tree in which all links are in place -/

/-- The links are in place, and no other link leads into the CAS. -/
structure Settled (config : BuildTreeConfig) (desired : List DesiredLink) (tree : BrowseTree) :
    Prop where
  root : tree.tree.lookup [] = some .directory
  linked : ∀ link ∈ desired, ∃ target,
    tree.tree.lookup link.outputPath = some (.symlink target) ∧ samePath target link.targetText
  owned : ∀ q, isOwnedSymlink config tree q = .ok true ↔ q ∈ desired.map (·.outputPath)
  readable : ∀ q, ∃ b, isOwnedSymlink config tree q = .ok b

section Settled

variable {config : BuildTreeConfig} {c : Catalog} {store : Store} {tree tree' : BrowseTree}
  {p : Plan} {entries : List LiveMaterializationEntry}

theorem samePath_linkTarget (look : TreeLookup) (link : DesiredLink) :
    samePath (linkTarget look link) link.targetText := by
  unfold linkTarget
  split
  · split_ifs with hsame
    · exact hsame
    · rfl
  · rfl

/-- Everything above a link of a settled tree is a directory. -/
theorem Settled.above (h : Settled config p.desired tree) {link : DesiredLink}
    (hlink : link ∈ p.desired) {a : List Name} (ha : a ∈ ancestors link.outputPath) :
    tree.tree.lookup a = some .directory := by
  obtain ⟨hpre, hne, -⟩ := mem_ancestors.mp ha
  obtain ⟨target, hlook, -⟩ := h.linked link hlink
  exact FileTree.lookup_of_isPrefix (by simp [hlook]) hpre hne

/-- A run leaves a settled tree behind. -/
theorem settled_applied (hnames : ∀ n ∈ config.storeRoot, IsName n)
    (hroot : validateBrowseTreeRoot tree = .ok ()) (hplan : plan config c store tree = .ok p)
    (he : liveMaterializationEntries c = .ok entries) (hshadow : p.NoShadow)
    (hafter : ∀ q, tree'.tree.lookup q = p.applied tree.tree.lookup q) :
    Settled config p.desired tree' := by
  have hs := plan_sound hroot hplan
  have howned : ∀ q, isOwnedSymlink config tree' q = .ok true ↔
      q ∈ p.desired.map (·.outputPath) := by
    intro q
    rw [owned_applied_iff hnames hroot hplan he hshadow hafter, mem_outputs_of_plan hplan he]
  refine ⟨?_, ?_, howned, ?_⟩
  · rw [hafter]
    have hprune : ([] : List Name) ∉ p.directoriesToPrune := fun h => (hs.prune _ h).1 rfl
    have hstale : ([] : List Name) ∉ p.staleOwned := by
      intro h
      obtain ⟨target, hlook⟩ := (hs.stale _ h).1
      rcases lookup_root hroot with h | h
      · simp [h] at hlook
      · simp [h] at hlook
    have hout : ([] : List Name) ∉ p.desired.map (·.outputPath) := by
      intro h
      obtain ⟨link, hlink, hnil⟩ := List.mem_map.mp h
      exact hs.output_ne_nil link hlink hnil
    rw [Plan.applied, pruned, if_neg fun h => hprune h.1, Plan.cleaned, unlinked, if_neg hstale,
      linked_of_not_mem hout, created]
    rcases lookup_root hroot with h | h
    · rw [if_pos (root_mem_toCreate hplan h)]
    · rw [h, ite_self]
  · intro link hlink
    exact ⟨_, (hafter _).trans (applied_output hs hshadow hlink), samePath_linkTarget _ link⟩
  · intro q
    by_cases hq : q ∈ p.desired.map (·.outputPath)
    · exact ⟨true, (howned q).mpr hq⟩
    · by_cases hlink : ∃ target, tree'.tree.lookup q = some (.symlink target)
      · -- a link that is not one of the outputs was there before
        obtain ⟨target, hlook⟩ := hlink
        have hstale : q ∉ p.staleOwned := by
          intro hmem
          simp [hafter, applied_stale hmem] at hlook
        have hbefore : tree.tree.lookup q = some (.symlink target) :=
          (applied_other hs hq hstale (by simp)).mp ((hafter q).symm.trans hlook)
        obtain ⟨b, hb⟩ := isOwnedSymlink_ok_of_plan hroot hplan q
        exact ⟨b, by simpa [isOwnedSymlink, hlook, hbefore] using hb⟩
      · refine ⟨false, ?_⟩
        unfold isOwnedSymlink
        split
        · exact absurd ⟨_, ‹_›⟩ hlink
        · rfl

/-- The plan for a settled tree has nothing to do. -/
theorem plan_settled (hplan : plan config c store tree = .ok p)
    (hroot' : validateBrowseTreeRoot tree' = .ok ()) (h : Settled config p.desired tree') :
    ∃ p', plan config c store tree' = .ok p' ∧ p'.desired = p.desired ∧ p'.staleOwned = [] ∧
      p'.directoriesToCreate = [] ∧ p'.directoriesToPrune = [] ∧ p'.report =
        { dryRun := config.dryRun
          desiredLinks := p.desired.length
          linksCreated := 0
          linksUnchanged := p.desired.length
          linksReplaced := 0
          staleLinksRemoved := 0
          directoriesCreated := 0
          directoriesPruned := 0 } := by
  have hkeep : ∀ link ∈ p.desired, linkAction config tree' link = .ok .keep := by
    intro link hlink
    obtain ⟨target, hlook, hsame⟩ := h.linked link hlink
    rw [linkAction_of_symlink (passable_output hplan hlink) hlook
      ((h.owned _).mpr (List.mem_map_of_mem hlink)), if_pos hsame]
  obtain ⟨p', hplan', hdesired⟩ := replan hplan h.readable
    (fun link hlink => ⟨_, hkeep link hlink⟩) (fun link hlink a ha => by
      refine ⟨_, isMissingDirectory_of_directory ?_ (h.above hlink ha)⟩
      rintro ⟨name, hname, hzero⟩
      exact passable_output hplan hlink
        ⟨name, (mem_ancestors.mp ha).1.subset hname, hzero⟩)
  have hs' := plan_sound hroot' hplan'
  obtain ⟨-, entries, _, _, _, _, he, -, -, -, -, -⟩ := plan_eq_ok_iff.mp hplan'
  have hstale : p'.staleOwned = [] := by
    rw [List.eq_nil_iff_forall_not_mem]
    intro q hq
    have hmem := (h.owned q).mp ((mem_staleOwned_iff hplan' he).mp hq).2.1
    exact (hs'.stale q hq).2 (hdesired ▸ hmem)
  have hcreate : p'.directoriesToCreate = [] := by
    rw [List.eq_nil_iff_forall_not_mem]
    intro d hd
    have hfree := (hs'.create d hd).1
    rcases hs'.create_below d hd with rfl | ⟨link, hlink, hpre, hne⟩
    · simp [h.root] at hfree
    · obtain ⟨target, hlook, -⟩ := h.linked link (hdesired ▸ hlink)
      have hsome : (tree'.tree.lookup link.outputPath).isSome := by simp [hlook]
      simp [FileTree.lookup_of_isPrefix hsome hpre hne] at hfree
  have hprune : p'.directoriesToPrune = [] := by
    rw [directoriesToPrune_of_plan hplan', hstale]
    rfl
  obtain ⟨actions, hactions, hreport⟩ := report_of_plan hplan'
  have hall : ∀ action ∈ actions, action = .keep := by
    intro action haction
    have hall := Except.mapM_eq_ok_iff.mp hactions
    obtain ⟨i, hi, rfl⟩ := List.getElem_of_mem haction
    have hi' : i < p'.desired.length := by
      rw [hall.length_eq]
      exact hi
    have hlink : p'.desired[i] ∈ p.desired := by
      rw [← hdesired]
      exact List.getElem_mem hi'
    exact Except.ok.inj ((hall.get hi' hi).symm.trans (hkeep _ hlink))
  have hlength : actions.length = p.desired.length := by
    rw [← hdesired]
    exact (Except.mapM_eq_ok_iff.mp hactions).length_eq.symm
  have hcount : actions = List.replicate p.desired.length .keep :=
    List.eq_replicate_iff.mpr ⟨hlength, hall⟩
  refine ⟨p', hplan', hdesired, hstale, hcreate, hprune, ?_⟩
  rw [hreport, hcount, hdesired, hstale, hcreate, hprune]
  simp [List.count_replicate]

end Settled

/-! ## The second run -/

section Again

variable {config : BuildTreeConfig} {c : Catalog} (uuids : UuidSource) {w : TreeWorld} {p : Plan}

/-- Whether staging can be opened depends on what is found there. -/
theorem exec_openValidatedStagingDirectory_congr {σ : Type}
    {h h' : Program.Handler DirectoryCall FsAnswer σ} {disk : σ → Store} {s s' t : σ}
    (hdisk : FsCall.AnsweredBy h disk) (hdisk' : FsCall.AnsweredBy h' disk)
    (hsame : (disk s').symlinkMetadata stagingPath = (disk s).symlinkMetadata stagingPath)
    {present : Bool}
    (hrun : Program.exec h (openValidatedStagingDirectory false) s = (.ok present, t)) :
    ∃ t', Program.exec h' (openValidatedStagingDirectory false) s' = (.ok present, t') ∧
      disk t' = disk s' := by
  obtain ⟨hstat, hsame₁⟩ := hdisk (.symlinkMetadata stagingPath) s
  obtain ⟨hstat', hsame₁'⟩ := hdisk' (.symlinkMetadata stagingPath) s'
  change (h (.symlinkMetadata stagingPath) s).1 = (disk s).symlinkMetadata stagingPath at hstat
  change (h' (.symlinkMetadata stagingPath) s').1 = (disk s').symlinkMetadata stagingPath
    at hstat'
  rw [openValidatedStagingDirectory, Program.exec_bind_ok h (exec_fsCall h _ s), hstat] at hrun
  rw [openValidatedStagingDirectory, Program.exec_bind_ok h' (exec_fsCall h' _ s'), hstat', hsame]
  set u := (h (.symlinkMetadata stagingPath) s).2
  set u' := (h' (.symlinkMetadata stagingPath) s').2
  have hu : disk u = disk s := hsame₁
  have hu' : disk u' = disk s' := hsame₁'
  cases hmeta : (disk s).symlinkMetadata stagingPath with
  | error e =>
      rw [hmeta] at hrun
      cases e with
      | notFound =>
          obtain ⟨hpresent, -⟩ := Prod.mk.inj hrun
          obtain rfl := Except.ok.inj hpresent
          exact ⟨u', rfl, hu'⟩
      | _ => simp at hrun
  | ok metadata =>
      rw [hmeta] at hrun
      obtain ⟨node, len⟩ := metadata
      cases node with
      | symlink _ | file _ | other => simp at hrun
      | directory =>
          obtain ⟨hopen, -⟩ := hdisk (.openNoFollow stagingPath) u
          obtain ⟨hopen', hafter'⟩ := hdisk' (.openNoFollow stagingPath) u'
          have hanswer : (h (.openNoFollow stagingPath) u).1 = .ok ⟨.directory, len⟩ := by
            rw [hopen, hu]
            simp [Disk.perform, Disk.openNoFollow, hmeta]
          have hanswer' : (h' (.openNoFollow stagingPath) u').1 = .ok ⟨.directory, len⟩ := by
            rw [hopen', hu']
            simp [Disk.perform, Disk.openNoFollow, hsame, hmeta]
          dsimp only at hrun ⊢
          rw [openValidatedStagingDirectory.openDirectory,
            Program.exec_bind_ok h (exec_fsCall h _ u), hanswer] at hrun
          rw [openValidatedStagingDirectory.openDirectory,
            Program.exec_bind_ok h' (exec_fsCall h' _ u'), hanswer']
          obtain ⟨hpresent, -⟩ := Prod.mk.inj hrun
          obtain rfl := Except.ok.inj hpresent
          exact ⟨_, rfl, hafter'.trans hu'⟩

/-- Staging that has been purged can be purged again. -/
theorem exec_purge_again {w w₁ w' : TreeWorld} (uuids' : UuidSource)
    (hrun : Program.exec (treeHandler (.faultless uuids)) (onStore purgeExistingStaging) w =
      (.ok (), w₁)) (hstore : w'.store = w₁.store) :
    ∃ w'', Program.exec (treeHandler (.faultless uuids')) (onStore purgeExistingStaging) w' =
      (.ok (), w'') := by
  obtain ⟨-, hsame, hpurged⟩ := exec_purge uuids hrun
  have hpurged := hpurged rfl
  have hstat : w'.store.symlinkMetadata stagingPath = w.store.symlinkMetadata stagingPath := by
    rw [hstore]
    refine Disk.symlinkMetadata_congr hsame.files fun q hq => ?_
    rw [hpurged, if_neg]
    rintro ⟨hpre, hne⟩
    exact hne (hq.eq_of_length_le hpre.length_le)
  rw [onStore, Program.exec_embedT, purgeExistingStaging, Program.exec_bind_eq_ok] at hrun
  obtain ⟨present, u, hopen, -⟩ := hrun
  obtain ⟨u', hopen', hdisk'⟩ := exec_openValidatedStagingDirectory_congr
    (answeredBy_store uuids) (answeredBy_store uuids') hstat hopen
  rw [onStore, Program.exec_embedT, purgeExistingStaging, Program.exec_bind_ok _ hopen']
  cases present with
  | false => exact ⟨u', rfl⟩
  | true =>
      have hempty : u'.store.entriesBelow stagingPath = [] := by
        rw [List.eq_nil_iff_forall_not_mem]
        intro q hq
        obtain ⟨hsome, hbelow⟩ := Disk.mem_entriesBelow.mp hq
        rw [hdisk', hstore, hpurged, if_pos hbelow] at hsome
        simp at hsome
      obtain ⟨hentries, -⟩ := answeredBy_store uuids' (.entriesBelow stagingPath) u'
      rw [if_pos rfl, Program.exec_bind_ok _ (exec_fsCall _ _ u'), hentries]
      change ∃ w'', Program.exec _ (expectOk (.ok (u'.store.entriesBelow stagingPath)) _ >>= _) _ =
        (.ok (), w'')
      rw [hempty]
      exact ⟨_, rfl⟩

theorem meets_checkTelemetry {P : TreeWorld → Prop} (hw : P w)
    (hnext : P ⟨w.browse, w.store, w.calls + 1⟩) :
    Meets (treeHandler (.faultless uuids)) P checkTelemetry w
      (fun _ v => v = ⟨w.browse, w.store, w.calls + 1⟩) (fun _ _ => False) :=
  Program.meets_requestT_bind hw (Program.meets_pure hnext rfl)

/-- Purging staging leaves the tree alone. -/
theorem meets_purge {w w₁ : TreeWorld}
    (hrun : Program.exec (treeHandler (.faultless uuids)) (onStore purgeExistingStaging) w =
      (.ok (), w₁)) :
    Meets (treeHandler (.faultless uuids)) (fun v => v.browse = w.browse)
      (onStore purgeExistingStaging) w (fun _ v => v = w₁) (fun _ _ => False) := by
  rw [onStore, Program.exec_embedT] at hrun
  refine Program.meets_embedT ⟨Program.throughout_of_preserved _ (fun _ _ h => h) _ rfl, ?_⟩
  rw [hrun]

/-- A link that is in place is left alone. -/
theorem meets_applyLink_kept {link : DesiredLink} {target : Bytes} {tree : BrowseTree}
    (hw : w.browse = tree) (hlook : tree.tree.lookup link.outputPath = some (.symlink target))
    (hsame : samePath target link.targetText) :
    Meets (treeHandler (.faultless uuids)) (fun v => v.browse = tree) (applyLink link) w
      (fun _ v => v.browse = tree) (fun _ _ => False) := by
  refine (meets_checkTelemetry uuids hw hw).bind (fun _ v hv _ => ?_) fun _ _ h => h
  refine Program.meets_requestT_bind hv ?_
  have hstat : (treeHandler (.faultless uuids) (.tree (.symlinkMetadata link.outputPath)) v).1 =
      .ok ⟨.symlink target, tree.len (.symlink target)⟩ := by
    change v.browse.symlinkMetadata link.outputPath = _
    rw [hv, Disk.symlinkMetadata_of_lookup hlook]
  rw [hstat]
  dsimp only
  rw [if_pos hsame]
  exact Program.meets_pure hv hv

/-- A plan with nothing to do is applied without a change of the tree. -/
theorem meets_apply_settled {tree : BrowseTree} (hw : w.browse = tree)
    (hsettled : Settled config p.desired tree) (hstale : p.staleOwned = [])
    (hcreate : p.directoriesToCreate = []) (hprune : p.directoriesToPrune = []) :
    Meets (treeHandler (.faultless uuids)) (fun v => v.browse = tree) (apply p) w
      (fun _ v => v.browse = tree) (fun _ _ => False) := by
  unfold apply
  rw [hstale, hcreate, hprune]
  simp only [List.forM_nil, pure_bind]
  refine Meets.bind (Program.meets_forM (fun _ v => v.browse = tree) hw (fun _ h => h)
    fun done link rest v hl hv => ?_) (fun _ v hv _ => Program.meets_pure hv hv) fun _ _ h => h
  obtain ⟨target, hlook, hsame⟩ := hsettled.linked link (by rw [hl]; simp)
  exact meets_applyLink_kept uuids hv hlook hsame

/-- What comes before a plan is applied only looks. -/
theorem meets_planAndApply {P Q : TreeWorld → Prop} {E : String → TreeWorld → Prop}
    (hdry : config.dryRun = false) (hplan : plan config c w.store w.browse = .ok p)
    (hw : ∀ calls, P ⟨w.browse, w.store, calls⟩)
    (happly : ∀ calls, Meets (treeHandler (.faultless uuids)) P (apply p)
      ⟨w.browse, w.store, calls⟩ (fun _ v => Q v) E) :
    Meets (treeHandler (.faultless uuids)) P (planAndApply config c) w
      (fun report v => report = p.report ∧ Q v) E := by
  have hviewed : plan config c (treeHandler (.faultless uuids) .view w).1.1
      (treeHandler (.faultless uuids) .view w).1.2 = .ok p := hplan
  refine Program.meets_requestT_bind (hw _) ?_
  change Meets _ _ (checkTelemetry >>= _) _ _ _
  refine (meets_checkTelemetry uuids (w := ⟨w.browse, w.store, w.calls + 1⟩) (hw _) (hw _)).bind
    (fun _ v _ hv => ?_) fun _ _ h => h.elim
  subst hv
  rw [hviewed]
  dsimp only
  refine (meets_checkTelemetry uuids (w := ⟨w.browse, w.store, w.calls + 1 + 1⟩) (hw _) (hw _)).bind
    (fun _ v _ hv => ?_) fun _ _ h => h.elim
  subst hv
  rw [hdry, if_neg Bool.false_ne_true]
  refine (meets_checkTelemetry uuids (w := ⟨w.browse, w.store, w.calls + 1 + 1 + 1⟩) (hw _)
    (hw _)).bind (fun _ v _ hv => ?_) fun _ _ h => h.elim
  subst hv
  dsimp only
  exact (happly _).bind (fun _ v hv hq => Program.meets_pure hv ⟨rfl, hq⟩) fun _ _ h => h

end Again

/-- A run that succeeds has purged staging, and does nothing else to the store. -/
theorem exists_purge {config : BuildTreeConfig} {c : Catalog} (uuids : UuidSource)
    {w w' : TreeWorld} {report : BuildTreeReport}
    (hroot : validateBrowseTreeRoot w.browse = .ok ()) (hdry : config.dryRun = false)
    (hrun : Program.exec (treeHandler (.faultless uuids)) (buildTree config c) w =
      (.ok report, w')) :
    ∃ w₁, Program.exec (treeHandler (.faultless uuids)) (onStore purgeExistingStaging) w =
      (.ok (), w₁) ∧ w'.store = w₁.store := by
  obtain ⟨p, -, hplan, hshadow, -⟩ := exec_buildTree_ok uuids hroot hdry hrun
  rw [buildTree, purgeUnlessDryRun, hdry, if_neg Bool.false_ne_true,
    Program.exec_bind_eq_ok] at hrun
  obtain ⟨_, w₁, hpurge, hrest⟩ := hrun
  obtain ⟨hbrowse₁, hsame₁, -⟩ := exec_purge uuids hpurge
  refine ⟨w₁, hpurge, ?_⟩
  rw [exec_planAndApply, hbrowse₁, plan_congr hsame₁, hplan] at hrest
  dsimp only at hrest
  rw [hdry, if_neg Bool.false_ne_true] at hrest
  obtain ⟨w₂, happly, -, hstore₂⟩ := exec_apply uuids
    (w := ⟨w.browse, w₁.store, w₁.calls + 1 + 1 + 1 + 1⟩) (plan_sound hroot hplan) hshadow
  rw [happly] at hrest
  obtain ⟨-, rfl⟩ := Prod.mk.inj hrest
  exact hstore₂

/-- The second of two runs with the same inputs succeeds. No call of it changes the tree, and
it reports every link as unchanged and nothing else. -/
theorem buildTree_idempotent (config : BuildTreeConfig) (c : Catalog) (uuids uuids' : UuidSource)
    (w w' : TreeWorld) (report : BuildTreeReport) (hnames : ∀ n ∈ config.storeRoot, IsName n)
    (hroot : validateBrowseTreeRoot w.browse = .ok ()) (hdry : config.dryRun = false)
    (hrun : Program.exec (treeHandler (.faultless uuids)) (buildTree config c) w =
      (.ok report, w')) :
    (∀ n, (Program.after (treeHandler (.faultless uuids')) n
        (ExceptT.run (buildTree config c)) w').browse = w'.browse) ∧
      ∃ w'', Program.exec (treeHandler (.faultless uuids')) (buildTree config c) w' =
        (.ok { dryRun := false
               desiredLinks := report.desiredLinks
               linksCreated := 0
               linksUnchanged := report.desiredLinks
               linksReplaced := 0
               staleLinksRemoved := 0
               directoriesCreated := 0
               directoriesPruned := 0 }, w'') := by
  obtain ⟨p, -, hplan, hshadow, rfl, -, -, -, -, hafter, -⟩ :=
    exec_buildTree_ok uuids hroot hdry hrun
  obtain ⟨-, entries, -, -, -, -, he, -⟩ := plan_eq_ok_iff.mp hplan
  have hsettled := settled_applied hnames hroot hplan he hshadow hafter
  have hroot' : validateBrowseTreeRoot w'.browse = .ok () := by
    simp [validateBrowseTreeRoot, hsettled.root]
  -- both runs purge staging, and the second one finds nothing in it
  obtain ⟨w₁, hpurge, hstore⟩ := exists_purge uuids hroot hdry hrun
  have hplan₁ : plan config c w'.store w.browse = .ok p := by
    obtain ⟨-, hsame₁, -⟩ := exec_purge uuids hpurge
    rw [hstore, plan_congr hsame₁, hplan]
  obtain ⟨p', hplan', hdesired, hstale, hcreate, hprune, hreport⟩ :=
    plan_settled hplan₁ hroot' hsettled
  have hmeets : Meets (treeHandler (.faultless uuids')) (fun v => v.browse = w'.browse)
      (buildTree config c) w' (fun report v => report = p'.report ∧ v.browse = w'.browse)
      (fun _ _ => False) := by
    obtain ⟨v, hagain⟩ := exec_purge_again uuids uuids' hpurge hstore
    obtain ⟨hbrowse, hsame, -⟩ := exec_purge uuids' hagain
    rw [buildTree, purgeUnlessDryRun, hdry, if_neg Bool.false_ne_true]
    refine (meets_purge uuids' hagain).bind (fun _ u _ hu => ?_) fun _ _ h => h.elim
    subst hu
    have hplanu : plan config c u.store u.browse = .ok p' := by
      rw [hbrowse, plan_congr hsame, hplan']
    exact meets_planAndApply uuids' hdry hplanu (fun _ => hbrowse)
      fun _ => meets_apply_settled uuids' hbrowse (hdesired ▸ hsettled) hstale hcreate hprune
  have hdesiredLinks : p.report.desiredLinks = p.desired.length := by
    obtain ⟨actions, -, hp⟩ := report_of_plan hplan
    rw [hp]
  refine ⟨fun n => Program.after_of_throughout _ n hmeets.throughout, ?_⟩
  have hend := hmeets.2
  rcases hexec : Program.exec (treeHandler (.faultless uuids')) (buildTree config c) w' with
    ⟨e | report', w''⟩
  · rw [hexec] at hend
    exact hend.elim
  · rw [hexec] at hend
    refine ⟨w'', ?_⟩
    rw [hend.1, hreport, hdry, hdesiredLinks]

/-- The tree that the run on `photosWorld` leaves is kept by the next run. -/
theorem buildTree_idempotent_photos :
    ∃ w'', Program.exec (treeHandler (.faultless .longest))
      (buildTree (exampleConfig 6) (exampleCatalog ["photos/x"])) (photosRun 6).2 =
        (.ok ⟨false, 1, 0, 1, 0, 0, 0, 0⟩, w'') := by
  obtain ⟨report, hrun⟩ := photosRun_ok 6 (by decide +kernel)
  obtain ⟨w'', hagain⟩ := (buildTree_idempotent _ _ _ .longest photosWorld _ report
    (isName_of_mem_exampleStoreRoot 6) (by decide +kernel) rfl hrun).2
  have hlinks : (photosRun 6).1.map (·.desiredLinks) = .ok 1 := by decide +kernel
  rw [photosRun, hrun] at hlinks
  have hone : report.desiredLinks = 1 := Except.ok.inj hlinks
  rw [hone] at hagain
  exact ⟨w'', hagain⟩

end MediaImporter
