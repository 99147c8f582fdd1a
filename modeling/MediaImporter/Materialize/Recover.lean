import MediaImporter.Materialize.Replan

/-!
# Running again after an interruption

A run that is stopped leaves a tree in which every path is as it was, or as it would have
become, or is a link that was going to be moved over another. There is a plan for every such
tree, so the command succeeds when it is run again.

The second run learns which directories to prune from the stale links that are left. It
finishes what the first one began unless the first one was stopped after it had removed the
last stale link below a directory and before it removed the directory.

## Main definitions

* `Plan.Between` — what a stopped run leaves behind.
* `Recoverable` — every directory that was going to be pruned still has a stale link below it.
* `recovers_iff` — when the second run leaves what the first one would have left.
-/

namespace MediaImporter

open Utf8 UnixPath PathOrder
open Program (Meets)

/-! ## What a stopped run leaves behind -/

/-- A link that was made beside an output and has not been moved over it. -/
def Plan.Temporary (p : Plan) (mid : TreeLookup) (q : List Name) : Prop :=
  q ∉ p.directoriesToCreate ∧ ∃ link ∈ p.desired, ∃ name,
    q = link.outputPath.dropLast ++ [name] ∧ mid q = some (.symlink link.targetText)

/-- Every path is as it was, or as it will be, or has a temporary link. -/
def Plan.Between (p : Plan) (before after mid : TreeLookup) : Prop :=
  ∀ q, mid q = before q ∨ mid q = after q ∨ before q = none ∧ p.Temporary mid q

section Between

variable {p : Plan} {tree : BrowseTree} {mid : TreeLookup}

/-- A directory that is created stays. -/
theorem applied_create (hs : p.Sound tree) (hshadow : p.NoShadow) {d : List Name}
    (hd : d ∈ p.directoriesToCreate) : p.applied tree.tree.lookup d = some .directory := by
  have hfree := (hs.create d hd).1
  have hcreated : created p.directoriesToCreate tree.tree.lookup d = some .directory := if_pos hd
  have hstale : d ∉ p.staleOwned := by
    intro hmem
    obtain ⟨⟨target, hlink⟩, -⟩ := hs.stale d hmem
    simp [hfree] at hlink
  have hprune : d ∉ p.directoriesToPrune := by
    intro hmem
    simp [(hs.prune d hmem).2.1] at hfree
  rw [Plan.applied, pruned, if_neg fun h => hprune h.1, Plan.cleaned, unlinked, if_neg hstale,
    linked_of_not_mem (not_mem_outputs hs hshadow hcreated), hcreated]

/-- What no loop touches. -/
theorem applied_kept {look : TreeLookup} {q : List Name} (hout : q ∉ p.desired.map (·.outputPath))
    (hcreate : q ∉ p.directoriesToCreate) (hstale : q ∉ p.staleOwned)
    (hprune : ¬ (q ∈ p.directoriesToPrune ∧ ¬ ∃ link ∈ p.desired, q <+: link.outputPath)) :
    p.applied look q = look q := by
  rw [Plan.applied, pruned, if_neg hprune, Plan.cleaned, unlinked, if_neg hstale,
    linked_of_not_mem hout, created, if_neg hcreate]

theorem applied_pruned {look : TreeLookup} {q : List Name}
    (hprune : q ∈ p.directoriesToPrune ∧ ¬ ∃ link ∈ p.desired, q <+: link.outputPath) :
    p.applied look q = none := if_pos hprune

/-- Nothing comes from nothing but outputs and directories to create. -/
theorem applied_absent {look : TreeLookup} {q : List Name}
    (hout : q ∉ p.desired.map (·.outputPath)) (hcreate : q ∉ p.directoriesToCreate)
    (hlook : look q = none) : p.applied look q = none := by
  rw [Plan.applied, pruned, Plan.cleaned, unlinked, linked_of_not_mem hout, created,
    if_neg hcreate, hlook, ite_self, ite_self]

/-- The trees that a plan passes through are between the first and the last. -/
theorem between_of_passes (hs : p.Sound tree) (hshadow : p.NoShadow)
    (h : p.Passes tree.tree.lookup mid) :
    p.Between tree.tree.lookup (p.applied tree.tree.lookup) mid := by
  set look := tree.tree.lookup with hlookdef
  -- the state of a path before and after its own turn in each of the loops
  have hcreated : ∀ done, done <+: p.directoriesToCreate → ∀ q,
      created done look q = look q ∨ created done look q = p.applied look q := by
    intro done hdone q
    by_cases hq : q ∈ done
    · exact .inr (by rw [created, if_pos hq, applied_create hs hshadow (hdone.subset hq)])
    · exact .inl (if_neg hq)
  have hlinked : ∀ done, done <+: p.desired → ∀ q,
      linked done (created p.directoriesToCreate look) q = look q ∨
        linked done (created p.directoriesToCreate look) q = p.applied look q := by
    intro done hdone q
    by_cases hq : q ∈ done.map (·.outputPath)
    · obtain ⟨link, hlink, rfl⟩ := List.mem_map.mp hq
      have hmem := hdone.subset hlink
      have hcreated' : created p.directoriesToCreate look link.outputPath =
          look link.outputPath := if_neg (hshadow link hmem)
      refine .inr ?_
      rw [linked_output ((hdone.sublist.map _).nodup hs.distinct) hlink,
        applied_output hs hshadow hmem]
      simp only [linkTarget, hcreated']
      rfl
    · rw [linked_of_not_mem hq]
      exact hcreated _ List.prefix_rfl q
  have hunlinked : ∀ done, done <+: p.staleOwned → ∀ q,
      unlinked done (linked p.desired (created p.directoriesToCreate look)) q = look q ∨
        unlinked done (linked p.desired (created p.directoriesToCreate look)) q =
          p.applied look q := by
    intro done hdone q
    by_cases hq : q ∈ done
    · exact .inr (by rw [unlinked, if_pos hq, applied_stale (hdone.subset hq)])
    · rw [unlinked, if_neg hq]
      exact hlinked _ List.prefix_rfl q
  intro q
  cases h with
  | create done hdone =>
      rcases hcreated done hdone q with h | h
      · exact .inl h
      · exact .inr (.inl h)
  | link done hdone =>
      rcases hlinked done hdone q with h | h
      · exact .inl h
      · exact .inr (.inl h)
  | replace done link hdone name target hlink hfree =>
      by_cases hq : q = link.outputPath.dropLast ++ [name]
      · subst hq
        have hnot : link.outputPath.dropLast ++ [name] ∉ done.map (·.outputPath) := by
          intro hmem
          obtain ⟨target, htarget⟩ : ∃ target, linked done
              (created p.directoriesToCreate look) _ = some (.symlink target) := linked_of_mem hmem
          simp [htarget] at hfree
        rw [linked_of_not_mem hnot, created] at hfree
        split_ifs at hfree with hcreate
        exact .inr (.inr ⟨hfree, hcreate, link, hdone.subset (by simp), name, rfl, if_pos rfl⟩)
      · rw [placed, if_neg hq]
        rcases hlinked done ((List.prefix_append done [link]).trans hdone) q with h | h
        · exact .inl h
        · exact .inr (.inl h)
  | remove done hdone =>
      rcases hunlinked done hdone q with h | h
      · exact .inl h
      · exact .inr (.inl h)
  | prune done hdone =>
      by_cases hq : q ∈ done ∧ ¬ ∃ link ∈ p.desired, q <+: link.outputPath
      · rw [pruned, if_pos hq]
        exact .inr (.inl (applied_pruned ⟨hdone.subset hq.1, hq.2⟩).symm)
      · rw [pruned, if_neg hq]
        rcases hunlinked _ List.prefix_rfl q with h | h
        · exact .inl h
        · exact .inr (.inl h)

end Between

/-! ## Planning in a tree in between -/

/-- A run with these inputs ends with `after`, and one that was stopped left `mid`. -/
structure Interrupted (config : BuildTreeConfig) (c : Catalog) (store : Store)
    (entries : List LiveMaterializationEntry) (p : Plan) (tree after mid : BrowseTree) : Prop where
  names : ∀ n ∈ config.storeRoot, IsName n
  root : validateBrowseTreeRoot tree = .ok ()
  plan : plan config c store tree = .ok p
  live : liveMaterializationEntries c = .ok entries
  shadow : p.NoShadow
  applied : ∀ q, after.tree.lookup q = p.applied tree.tree.lookup q
  between : p.Between tree.tree.lookup after.tree.lookup mid.tree.lookup

namespace Interrupted

variable {config : BuildTreeConfig} {c : Catalog} {store : Store}
  {entries : List LiveMaterializationEntry} {p p' : Plan} {tree after mid : BrowseTree}

theorem sound (h : Interrupted config c store entries p tree after mid) : p.Sound tree :=
  plan_sound h.root h.plan

theorem settled (h : Interrupted config c store entries p tree after mid) :
    Settled config p.desired after :=
  settled_applied h.names h.root h.plan h.live h.shadow h.applied

/-- Whether a link leads into the CAS can be seen from the link. -/
theorem isOwnedSymlink_congr {q : List Name} (hlook : mid.tree.lookup q = tree.tree.lookup q) :
    isOwnedSymlink config mid q = isOwnedSymlink config tree q := by
  unfold isOwnedSymlink
  rw [hlook]

/-- Every desired link is the link of a live entry. -/
theorem exists_entry (h : Interrupted config c store entries p tree after mid) {link : DesiredLink}
    (hlink : link ∈ p.desired) : ∃ e ∈ entries, link.outputPath = e.output config ∧
      e.targetText config = .ok link.targetText := by
  obtain ⟨e, hem, he⟩ := ((mem_desired_of_plan h.plan h.live).2 link).mp hlink
  exact ⟨e, hem, outputPath_of_desiredLink he, targetText_of_desiredLink he⟩

/-- A temporary link leads into the CAS. -/
theorem owned_temporary (h : Interrupted config c store entries p tree after mid) {q : List Name}
    (htemp : p.Temporary mid.tree.lookup q) : isOwnedSymlink config mid q = .ok true := by
  obtain ⟨-, link, hlink, name, rfl, hlook⟩ := htemp
  obtain ⟨e, -, hout, htext⟩ := h.exists_entry hlink
  have hsame : samePath link.targetText link.targetText := rfl
  have hinside := pointsInsideBlobs_of_samePath h.names htext hsame
  rw [← hout] at hinside
  simpa [isOwnedSymlink, hlook] using hinside

/-- Two links in one directory that mean the same path have the same text. -/
theorem targetText_eq (h : Interrupted config c store entries p tree after mid)
    {a b : DesiredLink} (ha : a ∈ p.desired) (hb : b ∈ p.desired)
    (hdir : a.outputPath.dropLast = b.outputPath.dropLast)
    (hsame : samePath a.targetText b.targetText) : a.targetText = b.targetText := by
  obtain ⟨e, -, houta, htexta⟩ := h.exists_entry ha
  obtain ⟨f, -, houtb, htextb⟩ := h.exists_entry hb
  rw [LiveMaterializationEntry.targetText, ← houta, hdir] at htexta
  rw [LiveMaterializationEntry.targetText, ← houtb] at htextb
  have hnames : ∀ hash : BlobHash, ∀ n ∈ config.storeRoot ++ blobPath hash, IsName n := by
    intro hash n hn
    rcases List.mem_append.mp hn with hn | hn
    · exact h.names n hn
    · exact isName_of_mem_blobPath hn
  obtain ⟨dest, hdest, htarget⟩ := normalizedSymlinkTarget_relative (hnames _) htexta
  obtain ⟨dest', hdest', htarget'⟩ := normalizedSymlinkTarget_relative (hnames _) htextb
  rw [normalizedSymlinkTarget_congr hsame, htarget'] at htarget
  rw [hdest, ← Except.ok.inj htarget, ← hdest'] at htexta
  exact Except.ok.inj (htexta.symm.trans htextb)

/-- What is found at an output, and what becomes of it. -/
theorem output (h : Interrupted config c store entries p tree after mid) {link : DesiredLink}
    (hlink : link ∈ p.desired) :
    (mid.tree.lookup link.outputPath = none ∨
      ∃ target, mid.tree.lookup link.outputPath = some (.symlink target) ∧
        isOwnedSymlink config mid link.outputPath = .ok true) ∧
    linkTarget mid.tree.lookup link = linkTarget tree.tree.lookup link := by
  have hafter := (h.applied _).trans (applied_output h.sound h.shadow hlink)
  rcases h.between link.outputPath with hmid | hmid | ⟨hfree, htemp⟩
  · refine ⟨?_, by simp only [linkTarget, hmid]⟩
    rcases h.sound.output link hlink with hnone | ⟨target, hlook⟩
    · exact .inl (hmid.trans hnone)
    · refine .inr ⟨target, hmid.trans hlook, ?_⟩
      rw [isOwnedSymlink_congr hmid]
      exact owned_output h.plan hlink hlook
  · refine ⟨.inr ⟨_, hmid.trans hafter, ?_⟩, ?_⟩
    · rw [isOwnedSymlink_congr hmid]
      exact (h.settled.owned _).mpr (List.mem_map_of_mem hlink)
    · have hsame := samePath_linkTarget tree.tree.lookup link
      rw [linkTarget, hmid, hafter]
      dsimp only
      rw [if_pos hsame]
  · have howned := h.owned_temporary htemp
    obtain ⟨-, other, hother, name, hpath, hlook⟩ := htemp
    refine ⟨.inr ⟨_, hlook, howned⟩, ?_⟩
    have hdir : other.outputPath.dropLast = link.outputPath.dropLast := by simp [hpath]
    have hnew : linkTarget tree.tree.lookup link = link.targetText := by
      simp [linkTarget, hfree]
    rw [hnew, linkTarget, hlook]
    dsimp only
    split_ifs with hsame
    · exact h.targetText_eq hother hlink hdir hsame
    · rfl

/-- Above an output there is nothing in the way. -/
theorem above (h : Interrupted config c store entries p tree after mid) {link : DesiredLink}
    (hlink : link ∈ p.desired) {a : List Name} (ha : a <+: link.outputPath)
    (hne : a ≠ link.outputPath) :
    mid.tree.lookup a = none ∨ mid.tree.lookup a = some .directory := by
  have hafter : after.tree.lookup a = some .directory := by
    obtain ⟨target, hlook, -⟩ := h.settled.linked link hlink
    exact FileTree.lookup_of_isPrefix (by simp [hlook]) ha hne
  rcases h.between a with hmid | hmid | ⟨hfree, hcreate, -⟩
  · rcases h.sound.above link hlink a ha hne with hmem | hdir
    · exact .inl (hmid.trans (h.sound.create a hmem).1)
    · exact .inr (hmid.trans hdir)
  · exact .inr (hmid.trans hafter)
  · rcases h.sound.above link hlink a ha hne with hmem | hdir
    · exact absurd hmem hcreate
    · simp [hfree] at hdir

theorem root_mid (h : Interrupted config c store entries p tree after mid) :
    validateBrowseTreeRoot mid = .ok () := by
  have hlook : mid.tree.lookup [] = none ∨ mid.tree.lookup [] = some .directory := by
    rcases h.between [] with hmid | hmid | ⟨-, -, link, -, name, hnil, -⟩
    · rw [hmid]
      exact lookup_root h.root
    · exact .inr (hmid.trans h.settled.root)
    · simp at hnil
  rcases hlook with hlook | hlook
  · simp [validateBrowseTreeRoot, hlook]
  · simp [validateBrowseTreeRoot, hlook]

/-- A path above an output can be looked at. -/
theorem stat_above (h : Interrupted config c store entries p tree after mid) {link : DesiredLink}
    (hlink : link ∈ p.desired) {a : List Name} (ha : a <+: link.outputPath)
    (hlook : mid.tree.lookup a = none) : statOutput mid a = .error .notFound := by
  have hpass : ¬ ∃ name ∈ a, 0 ∈ name := by
    rintro ⟨name, hname, hzero⟩
    exact passable_output h.plan hlink ⟨name, ha.subset hname, hzero⟩
  rw [statOutput, if_neg hpass]
  refine Disk.symlinkMetadata_of_absent hlook fun q hq node hnode => ?_
  by_cases hqa : q = a
  · simp [hqa, hlook] at hnode
  · have hne : q ≠ link.outputPath := by
      rintro rfl
      exact hqa (hq.eq_of_length_le ha.length_le)
    rcases h.above hlink (hq.trans ha) hne with hnone | hdir
    · simp [hnone] at hnode
    · exact (Option.some.inj (hdir.symm.trans hnode)).symm

/-- There is a plan for the tree that was left behind. -/
theorem replan (h : Interrupted config c store entries p tree after mid) :
    ∃ p', MediaImporter.plan config c store mid = .ok p' ∧ p'.desired = p.desired := by
  refine MediaImporter.replan h.plan (fun q => ?_) (fun link hlink => ?_) fun link hlink a ha => ?_
  · rcases h.between q with hmid | hmid | ⟨-, htemp⟩
    · rw [isOwnedSymlink_congr hmid]
      exact isOwnedSymlink_ok_of_plan h.root h.plan q
    · rw [isOwnedSymlink_congr hmid]
      exact h.settled.readable q
    · exact ⟨true, h.owned_temporary htemp⟩
  · rcases (h.output hlink).1 with hnone | ⟨target, hlook, howned⟩
    · have hstat := h.stat_above hlink List.prefix_rfl hnone
      exact ⟨.create, by simp [linkAction, hstat]⟩
    · exact ⟨_, linkAction_of_symlink (passable_output h.plan hlink) hlook howned⟩
  · obtain ⟨hpre, hne, -⟩ := mem_ancestors.mp ha
    rcases h.above hlink hpre hne with hnone | hdir
    · have hstat := h.stat_above hlink hpre hnone
      exact ⟨true, by simp [isMissingDirectory, hstat]⟩
    · refine ⟨false, isMissingDirectory_of_directory ?_ hdir⟩
      rintro ⟨name, hname, hzero⟩
      exact passable_output h.plan hlink ⟨name, hpre.subset hname, hzero⟩

/-! ## What the second plan does -/

theorem shadow_again (h : Interrupted config c store entries p tree after mid)
    (hplan' : MediaImporter.plan config c store mid = .ok p') (hdesired : p'.desired = p.desired) :
    p'.NoShadow := by
  have hno := (noShadow_iff h.sound).mp h.shadow
  rw [noShadow_iff (plan_sound h.root_mid hplan')]
  unfold Plan.NoOutputAbove
  rwa [hdesired]

/-- What happens to a path that is no output. -/
theorem after_cases (h : Interrupted config c store entries p tree after mid) {q : List Name}
    (hout : q ∉ p.desired.map (·.outputPath)) :
    q ∈ p.directoriesToCreate ∨
    after.tree.lookup q = none ∧ (q ∈ p.staleOwned ∨ q ∈ p.directoriesToPrune ∧
      ¬ ∃ link ∈ p.desired, q <+: link.outputPath) ∨
    after.tree.lookup q = tree.tree.lookup q := by
  by_cases hcreate : q ∈ p.directoriesToCreate
  · exact .inl hcreate
  by_cases hstale : q ∈ p.staleOwned
  · exact .inr (.inl ⟨(h.applied q).trans (applied_stale hstale), .inl hstale⟩)
  by_cases hprune : q ∈ p.directoriesToPrune ∧ ¬ ∃ link ∈ p.desired, q <+: link.outputPath
  · exact .inr (.inl ⟨(h.applied q).trans (applied_pruned hprune), .inr hprune⟩)
  · exact .inr (.inr ((h.applied q).trans (applied_kept hout hcreate hstale hprune)))

/-- A directory to create is the root or is above an output. -/
theorem above_of_create (h : Interrupted config c store entries p tree after mid) {q : List Name}
    (hne : q ≠ []) (hq : q ∈ p.directoriesToCreate) :
    ∃ link ∈ p.desired, q <+: link.outputPath := by
  obtain ⟨link, hlink, hpre, -⟩ := (h.sound.create_below q hq).resolve_left hne
  exact ⟨link, hlink, hpre⟩

/-- A directory above a temporary link is above an output. -/
theorem above_of_temporary (_h : Interrupted config c store entries p tree after mid)
    {d q : List Name} (hdir : mid.tree.lookup d = some .directory) (hdq : d <+: q)
    (htemp : p.Temporary mid.tree.lookup q) : ∃ link ∈ p.desired, d <+: link.outputPath := by
  obtain ⟨-, link, hlink, name, rfl, hlook⟩ := htemp
  rcases List.prefix_concat_iff.mp hdq with rfl | hpre
  · simp [hdir] at hlook
  · exact ⟨link, hlink, hpre.trans (List.dropLast_prefix _)⟩

/-- What is found at a path that has no output at or below it. -/
theorem clear_cases (h : Interrupted config c store entries p tree after mid) {q : List Name}
    (hne : q ≠ []) (hclear : ¬ ∃ link ∈ p.desired, q <+: link.outputPath) :
    mid.tree.lookup q = tree.tree.lookup q ∨
    mid.tree.lookup q = none ∧ (q ∈ p.staleOwned ∨ q ∈ p.directoriesToPrune) ∨
    p.Temporary mid.tree.lookup q := by
  have hout : q ∉ p.desired.map (·.outputPath) := by
    intro hmem
    obtain ⟨link, hlink, rfl⟩ := List.mem_map.mp hmem
    exact hclear ⟨link, hlink, List.prefix_rfl⟩
  rcases h.between q with hmid | hmid | ⟨-, htemp⟩
  · exact .inl hmid
  · rcases h.after_cases hout with hcreate | ⟨hgone, hwhy⟩ | hsame
    · exact absurd (h.above_of_create hne hcreate) hclear
    · exact .inr (.inl ⟨hmid.trans hgone, hwhy.imp_right And.left⟩)
    · exact .inl (hmid.trans hsame)
  · exact .inr (.inr htemp)

/-- A stale link of the second run was one of the first, or is temporary. -/
theorem stale_of_stale_again (h : Interrupted config c store entries p tree after mid)
    {s : List Name} (hs : Stale config mid entries s) :
    s ∈ p.staleOwned ∧ mid.tree.lookup s = tree.tree.lookup s ∨
      p.Temporary mid.tree.lookup s := by
  obtain ⟨hne, howned, hout⟩ := hs
  rcases h.between s with hmid | hmid | ⟨-, htemp⟩
  · refine .inl ⟨(mem_staleOwned_iff h.plan h.live).mpr ⟨hne, ?_, hout⟩, hmid⟩
    rwa [← isOwnedSymlink_congr hmid]
  · rw [isOwnedSymlink_congr hmid, h.settled.owned, mem_outputs_of_plan h.plan h.live] at howned
    obtain ⟨e, he, heq⟩ := howned
    exact absurd heq (hout e he)
  · exact .inr htemp

/-- A stale link that is still there is stale for the second run. -/
theorem stale_again (h : Interrupted config c store entries p tree after mid) {s : List Name}
    (hs : s ∈ p.staleOwned) (hmid : mid.tree.lookup s = tree.tree.lookup s) :
    Stale config mid entries s := by
  obtain ⟨hne, howned, hout⟩ := (mem_staleOwned_iff h.plan h.live).mp hs
  refine ⟨hne, ?_, hout⟩
  rwa [isOwnedSymlink_congr hmid]

theorem stale_of_temporary (h : Interrupted config c store entries p tree after mid)
    {q : List Name} (hout : q ∉ p.desired.map (·.outputPath))
    (htemp : p.Temporary mid.tree.lookup q) : Stale config mid entries q := by
  refine ⟨?_, h.owned_temporary htemp, fun e hem heq => ?_⟩
  · obtain ⟨-, link, -, name, rfl, -⟩ := htemp
    simp
  · exact hout ((mem_outputs_of_plan h.plan h.live).mpr ⟨e, hem, heq⟩)

/-- The second run prunes only what the first one would have pruned. -/
theorem prune_of_prune_again (h : Interrupted config c store entries p tree after mid)
    (hplan' : MediaImporter.plan config c store mid = .ok p') {d : List Name}
    (hclear : ¬ ∃ link ∈ p.desired, d <+: link.outputPath) (hd : d ∈ p'.directoriesToPrune) :
    d ∈ p.directoriesToPrune := by
  obtain ⟨hne, hdir, hall⟩ := (mem_directoriesToPrune_of_plan h.root_mid hplan').mp hd
  have hbelow : ∀ q, d <+: q → ¬ ∃ link ∈ p.desired, q <+: link.outputPath := by
    rintro q hdq ⟨link, hlink, hpre⟩
    exact hclear ⟨link, hlink, hdq.trans hpre⟩
  have hnil : ∀ q, d <+: q → q ≠ [] := by
    rintro q hdq rfl
    exact hne (List.prefix_nil.mp hdq)
  refine (mem_directoriesToPrune_of_plan h.root h.plan).mpr ⟨hne, ?_, fun q hq hdq => ?_⟩
  · rcases h.clear_cases hne hclear with hmid | ⟨hgone, -⟩ | ⟨-, link, -, name, -, hlook⟩
    · exact hmid.symm.trans hdir
    · simp [hgone] at hdir
    · simp [hdir] at hlook
  · have hstale : (mid.tree.lookup q).isSome → ∃ s ∈ p.staleOwned, q <+: s := by
      intro hsome
      obtain ⟨s, hs, hqs⟩ := hall q hsome hdq
      rcases h.stale_of_stale_again ((mem_staleOwned_iff hplan' h.live).mp hs) with hs | htemp
      · exact ⟨s, hs.1, hqs⟩
      · exact absurd (h.above_of_temporary hdir (hdq.trans hqs) htemp) hclear
    rcases h.clear_cases (hnil q hdq) (hbelow q hdq) with hmid | ⟨-, hstale' | hprune⟩ | htemp
    · exact hstale (hmid ▸ hq)
    · exact ⟨q, hstale', List.prefix_rfl⟩
    · exact ((mem_directoriesToPrune_of_plan h.root h.plan).mp hprune).2.2 q hq List.prefix_rfl
    · exact absurd (h.above_of_temporary hdir hdq htemp) hclear

/-- A path that the first run would not have pruned becomes what it would have become. -/
theorem applied_again (h : Interrupted config c store entries p tree after mid)
    (hplan' : MediaImporter.plan config c store mid = .ok p') (hdesired : p'.desired = p.desired)
    {q : List Name} (hkept : ¬ (q ∈ p.directoriesToPrune ∧
      ¬ ∃ link ∈ p.desired, q <+: link.outputPath)) :
    p'.applied mid.tree.lookup q = after.tree.lookup q := by
  have hs' := plan_sound h.root_mid hplan'
  by_cases hout : q ∈ p.desired.map (·.outputPath)
  · -- an output
    obtain ⟨link, hlink, rfl⟩ := List.mem_map.mp hout
    rw [h.applied, applied_output h.sound h.shadow hlink, applied_output hs'
      (h.shadow_again hplan' hdesired) (hdesired ▸ hlink), (h.output hlink).2]
  have hout' : q ∉ p'.desired.map (·.outputPath) := hdesired ▸ hout
  have hcreate' : q ∈ p'.directoriesToCreate → mid.tree.lookup q = none ∧
      (q = [] ∨ ∃ link ∈ p.desired, q <+: link.outputPath ∧ q ≠ link.outputPath) := by
    intro hmem
    exact ⟨(hs'.create q hmem).1, hdesired ▸ hs'.create_below q hmem⟩
  by_cases hcreate : q ∈ p.directoriesToCreate
  · -- a directory that the first run creates
    have hafter := (h.applied q).trans (applied_create h.sound h.shadow hcreate)
    rw [hafter]
    by_cases hmem : q ∈ p'.directoriesToCreate
    · exact applied_create hs' (h.shadow_again hplan' hdesired) hmem
    · have hdir : mid.tree.lookup q = some .directory := by
        rcases h.between q with hmid | hmid | ⟨-, hnot, -⟩
        · -- it is still missing, so the second run creates it too
          have hnone := hmid.trans (h.sound.create q hcreate).1
          rcases h.sound.create_below q hcreate with rfl | ⟨link, hlink, hpre, hne⟩
          · exact absurd (root_mem_toCreate hplan' hnone) hmem
          · have habove := hs'.above link (hdesired ▸ hlink) q hpre hne
            exact absurd (habove.resolve_left hmem) (by simp [hnone])
        · exact hmid.trans hafter
        · exact absurd hcreate hnot
      have hstale : q ∉ p'.staleOwned := by
        intro hmem
        obtain ⟨⟨target, hlink⟩, -⟩ := hs'.stale q hmem
        simp [hdir] at hlink
      rw [applied_kept hout' hmem hstale, hdir]
      rintro ⟨hprune, hclear⟩
      rw [hdesired] at hclear
      exact hclear (h.above_of_create (hs'.prune q hprune).1 hcreate)
  have hcreate_iff : q ∈ p'.directoriesToCreate → tree.tree.lookup q = some .directory := by
    intro hmem
    rcases (hcreate' hmem).2 with rfl | ⟨link, hlink, hpre, hne⟩
    · rcases lookup_root h.root with hr | hr
      · exact absurd (root_mem_toCreate h.plan hr) hcreate
      · exact hr
    · exact (h.sound.above link hlink q hpre hne).resolve_left hcreate
  by_cases hstale : q ∈ p.staleOwned
  · -- a link that the first run removes
    rw [h.applied, applied_stale hstale]
    obtain ⟨⟨target, hlink⟩, -⟩ := h.sound.stale q hstale
    have hmem : q ∉ p'.directoriesToCreate := by
      intro hmem
      simp [hcreate_iff hmem] at hlink
    rcases h.between q with hmid | hmid | ⟨hfree, -⟩
    · exact applied_stale ((mem_staleOwned_iff hplan' h.live).mpr (h.stale_again hstale hmid))
    · exact applied_absent hout' hmem
        (hmid.trans ((h.applied q).trans (applied_stale hstale)))
    · simp [hfree] at hlink
  -- a path that the first run leaves alone
  have hafter : after.tree.lookup q = tree.tree.lookup q :=
    (h.applied q).trans (applied_kept hout hcreate hstale hkept)
  rw [hafter]
  have hmid : mid.tree.lookup q = tree.tree.lookup q ∨
      tree.tree.lookup q = none ∧ p.Temporary mid.tree.lookup q := by
    rcases h.between q with hmid | hmid | htemp
    · exact .inl hmid
    · exact .inl (hmid.trans hafter)
    · exact .inr htemp
  rcases hmid with hmid | ⟨hfree, htemp⟩
  · have hmem : q ∉ p'.directoriesToCreate := by
      intro hmem
      have hnone := (hcreate' hmem).1
      simp [hmid, hcreate_iff hmem] at hnone
    have hstale' : q ∉ p'.staleOwned := by
      intro hmem
      obtain ⟨hne, howned, hlive⟩ := (mem_staleOwned_iff hplan' h.live).mp hmem
      rw [isOwnedSymlink_congr hmid] at howned
      exact hstale ((mem_staleOwned_iff h.plan h.live).mpr ⟨hne, howned, hlive⟩)
    rw [applied_kept hout' hmem hstale', hmid]
    rintro ⟨hprune, hclear⟩
    rw [hdesired] at hclear
    exact hkept ⟨h.prune_of_prune_again hplan' hclear hprune, hclear⟩
  · rw [hfree]
    exact applied_stale ((mem_staleOwned_iff hplan' h.live).mpr (h.stale_of_temporary hout htemp))

/-- A directory that the first run would have pruned is gone after the second run when it was
gone before, or when the second run prunes it. -/
theorem applied_again_pruned (h : Interrupted config c store entries p tree after mid)
    (hplan' : MediaImporter.plan config c store mid = .ok p') (hdesired : p'.desired = p.desired)
    {d : List Name} (hd : d ∈ p.directoriesToPrune)
    (hclear : ¬ ∃ link ∈ p.desired, d <+: link.outputPath) :
    p'.applied mid.tree.lookup d = after.tree.lookup d ↔
      (mid.tree.lookup d = some .directory → d ∈ p'.directoriesToPrune) := by
  have hs' := plan_sound h.root_mid hplan'
  obtain ⟨hne, hdir, -⟩ := h.sound.prune d hd
  have hout' : d ∉ p'.desired.map (·.outputPath) := by
    rw [hdesired]
    intro hmem
    obtain ⟨link, hlink, rfl⟩ := List.mem_map.mp hmem
    exact hclear ⟨link, hlink, List.prefix_rfl⟩
  have hmem : d ∉ p'.directoriesToCreate := by
    intro hmem
    obtain ⟨link, hlink, hpre, -⟩ := (hs'.create_below d hmem).resolve_left hne
    exact hclear ⟨link, hdesired ▸ hlink, hpre⟩
  have hafter : after.tree.lookup d = none := (h.applied d).trans (applied_pruned ⟨hd, hclear⟩)
  rw [hafter]
  have hmid : mid.tree.lookup d = some .directory ∨ mid.tree.lookup d = none := by
    rcases h.between d with hmid | hmid | ⟨hfree, -⟩
    · exact .inl (hmid.trans hdir)
    · exact .inr (hmid.trans hafter)
    · simp [hfree] at hdir
  rcases hmid with hmid | hmid
  · by_cases hprune : d ∈ p'.directoriesToPrune
    · exact iff_of_true (applied_pruned ⟨hprune, hdesired ▸ hclear⟩) fun _ => hprune
    · have hstale : d ∉ p'.staleOwned := by
        intro hmem
        obtain ⟨⟨target, hlink⟩, -⟩ := hs'.stale d hmem
        simp [hmid] at hlink
      rw [applied_kept hout' hmem hstale fun hboth => hprune hboth.1, hmid]
      simpa using hprune
  · exact iff_of_true (applied_absent hout' hmem hmid) fun hdir' => by simp [hmid] at hdir'

end Interrupted

/-! ## When the second run finishes the first -/

/-- Every directory that a run with these entries prunes, and that is still there, has a stale
link at or below it. -/
def Recoverable (config : BuildTreeConfig) (entries : List LiveMaterializationEntry)
    (before stop : BrowseTree) : Prop :=
  ∀ d ∈ before.tree.paths, d ≠ [] → before.tree.lookup d = some .directory →
    stop.tree.lookup d = some .directory → ¬ HoldsOther config before entries d →
    (∀ e ∈ entries, ¬ d <+: e.output config) →
    ∃ s ∈ stop.tree.paths, d <+: s ∧ Stale config stop entries s

instance (config : BuildTreeConfig) (entries : List LiveMaterializationEntry)
    (before stop : BrowseTree) : Decidable (Recoverable config entries before stop) := by
  unfold Recoverable; infer_instance

namespace Interrupted

variable {config : BuildTreeConfig} {c : Catalog} {store : Store}
  {entries : List LiveMaterializationEntry} {p p' : Plan} {tree after mid : BrowseTree}

/-- No output is at or below a path. -/
theorem clear_iff (h : Interrupted config c store entries p tree after mid) {d : List Name} :
    (¬ ∃ link ∈ p.desired, d <+: link.outputPath) ↔ ∀ e ∈ entries, ¬ d <+: e.output config := by
  constructor
  · rintro hclear e hem hpre
    obtain ⟨link, hlink, hout, -⟩ := exists_link_of_plan h.plan h.live hem
    exact hclear ⟨link, hlink, hout ▸ hpre⟩
  · rintro hnone ⟨link, hlink, hpre⟩
    obtain ⟨e, hem, hout, -⟩ := h.exists_entry hlink
    exact hnone e hem (hout ▸ hpre)

/-- A directory that still has a stale link below it, like all those below it, is pruned by
the second run. -/
theorem prune_again (h : Interrupted config c store entries p tree after mid)
    (hplan' : MediaImporter.plan config c store mid = .ok p')
    (hrecover : Recoverable config entries tree mid) {d : List Name}
    (hd : d ∈ p.directoriesToPrune) (hclear : ¬ ∃ link ∈ p.desired, d <+: link.outputPath)
    (hmid : mid.tree.lookup d = some .directory) : d ∈ p'.directoriesToPrune := by
  have hne := (h.sound.prune d hd).1
  have hall := ((mem_directoriesToPrune_of_plan h.root h.plan).mp hd).2.2
  refine (mem_directoriesToPrune_of_plan h.root_mid hplan').mpr ⟨hne, hmid, fun q hq hdq => ?_⟩
  have hqne : q ≠ [] := by
    rintro rfl
    exact hne (List.prefix_nil.mp hdq)
  have hqclear : ¬ ∃ link ∈ p.desired, q <+: link.outputPath := by
    rintro ⟨link, hlink, hpre⟩
    exact hclear ⟨link, hlink, hdq.trans hpre⟩
  rcases h.clear_cases hqne hqclear with hsame | ⟨hgone, -⟩ | htemp
  · obtain ⟨s, hs, hqs⟩ := hall q (hsame ▸ hq) hdq
    by_cases heq : q = s
    · subst heq
      exact ⟨q, (mem_staleOwned_iff hplan' h.live).mpr (h.stale_again hs hsame), List.prefix_rfl⟩
    · -- a directory on the way to a stale link is pruned too
      obtain ⟨⟨target, hlink⟩, -⟩ := h.sound.stale s hs
      have hdir : tree.tree.lookup q = some .directory :=
        FileTree.lookup_of_isPrefix (by simp [hlink]) hqs heq
      have hprune := (mem_directoriesToPrune_of_plan h.root h.plan).mpr
        ⟨hqne, hdir, fun r hr hqr => hall r hr (hdq.trans hqr)⟩
      obtain ⟨-, -, hother⟩ :=
        (mem_directoriesToPrune_iff_holdsOther h.root h.plan h.live).mp hprune
      obtain ⟨s', -, hqs', hs'⟩ := hrecover q (FileTree.mem_paths.mpr (by simp [hdir])) hqne hdir
        (hsame.trans hdir) hother (h.clear_iff.mp hqclear)
      exact ⟨s', (mem_staleOwned_iff hplan' h.live).mpr hs', hqs'⟩
  · simp [hgone] at hq
  · exact absurd (h.above_of_temporary hmid hdq htemp) hclear

/-- The second run leaves what the first one would have left exactly when the tree is
recoverable. -/
theorem applied_again_iff (h : Interrupted config c store entries p tree after mid)
    (hplan' : MediaImporter.plan config c store mid = .ok p') (hdesired : p'.desired = p.desired) :
    (∀ q, p'.applied mid.tree.lookup q = after.tree.lookup q) ↔
      Recoverable config entries tree mid := by
  constructor
  · intro hsame d hd hne hdir hmid hother hlive
    have hclear := h.clear_iff.mpr hlive
    have hprune := (mem_directoriesToPrune_iff_holdsOther h.root h.plan h.live).mpr
      ⟨hne, hdir, hother⟩
    have hagain := (h.applied_again_pruned hplan' hdesired hprune hclear).mp (hsame d) hmid
    obtain ⟨-, -, hall⟩ := (mem_directoriesToPrune_of_plan h.root_mid hplan').mp hagain
    obtain ⟨s, hs, hds⟩ := hall d (by simp [hmid]) List.prefix_rfl
    obtain ⟨⟨target, hlink⟩, -⟩ := (plan_sound h.root_mid hplan').stale s hs
    exact ⟨s, FileTree.mem_paths.mpr (by simp [hlink]), hds,
      (mem_staleOwned_iff hplan' h.live).mp hs⟩
  · intro hrecover q
    by_cases hprune : q ∈ p.directoriesToPrune ∧ ¬ ∃ link ∈ p.desired, q <+: link.outputPath
    · exact (h.applied_again_pruned hplan' hdesired hprune.1 hprune.2).mpr
        (h.prune_again hplan' hrecover hprune.1 hprune.2)
    · exact h.applied_again hplan' hdesired hprune

end Interrupted

/-! ## The two runs -/

/-- A run of which purging staging is done has made a plan, and is applying it. -/
theorem interrupted_of_after {config : BuildTreeConfig} {c : Catalog} (uuids : UuidSource)
    {w w' : TreeWorld} {report : BuildTreeReport} {entries : List LiveMaterializationEntry}
    (hnames : ∀ n ∈ config.storeRoot, IsName n)
    (hroot : validateBrowseTreeRoot w.browse = .ok ()) (hdry : config.dryRun = false)
    (hrun : Program.exec (treeHandler (.faultless uuids)) (buildTree config c) w =
      (.ok report, w')) (he : liveMaterializationEntries c = .ok entries) (n : ℕ) :
    ∃ p, Interrupted config c w.store entries p w.browse w'.browse
      (Program.after (treeHandler (.faultless uuids)) n
        (ExceptT.run (buildTree config c)) w).browse := by
  obtain ⟨p, w₁, hplan, hshadow, -, hbrowse, hsame, -, -, hafter, -⟩ :=
    exec_buildTree_ok uuids hroot hdry hrun
  have hs := plan_sound hroot hplan
  refine ⟨p, hnames, hroot, hplan, he, hshadow, hafter, ?_⟩
  have happlied : w'.browse.tree.lookup = p.applied w.browse.tree.lookup := funext hafter
  rw [happlied]
  obtain ⟨u, hpurge, -⟩ := exists_purge uuids hroot hdry hrun
  obtain ⟨hu, husame, -⟩ := exec_purge uuids hpurge
  have hkept : p.Between w.browse.tree.lookup (p.applied w.browse.tree.lookup)
      w.browse.tree.lookup := fun _ => .inl rfl
  have hmeets : Meets (treeHandler (.faultless uuids)) (fun v => p.Between w.browse.tree.lookup
      (p.applied w.browse.tree.lookup) v.browse.tree.lookup) (buildTree config c) w
      (fun _ _ => True) (fun _ _ => False) := by
    rw [buildTree, purgeUnlessDryRun, hdry, if_neg Bool.false_ne_true]
    refine ((meets_purge uuids hpurge).safe fun v hv => ?_).bind (fun _ v _ hv => ?_)
      fun _ _ h => h
    · rw [hv]
      exact hkept
    subst hv
    have hplanv : plan config c v.store v.browse = .ok p := by
      rw [hu, plan_congr husame, hplan]
    refine (meets_planAndApply uuids (Q := fun _ => True) hdry hplanv
      (fun _ => by rw [hu]; exact hkept) fun calls => ?_).mono (fun _ _ _ => trivial) fun _ _ h => h
    refine ((meets_apply uuids (w := ⟨v.browse, v.store, calls⟩) (hu ▸ hs) hshadow).safe
      fun t ht => ?_).mono (fun _ _ _ => trivial) fun _ _ h => h
    rw [hu] at ht
    exact between_of_passes hs hshadow ht
  exact Program.after_of_throughout _ n hmeets.throughout

/-- A run that is stopped while it applies its plan can be run again. The second run succeeds,
and it leaves the tree that the first one would have left exactly when every directory that the
first one was going to prune is gone or still has a stale link below it. -/
theorem recovers_iff (config : BuildTreeConfig) (c : Catalog) (uuids uuids' : UuidSource)
    (w w' stop : TreeWorld) (report : BuildTreeReport) (entries : List LiveMaterializationEntry)
    (n : ℕ) (hnames : ∀ n ∈ config.storeRoot, IsName n)
    (hroot : validateBrowseTreeRoot w.browse = .ok ()) (hdry : config.dryRun = false)
    (hrun : Program.exec (treeHandler (.faultless uuids)) (buildTree config c) w =
      (.ok report, w')) (he : liveMaterializationEntries c = .ok entries)
    (hstop : Program.after (treeHandler (.faultless uuids)) n
      (ExceptT.run (buildTree config c)) w = stop) (hpurged : stop.store = w'.store) :
    ∃ report' w'', Program.exec (treeHandler (.faultless uuids')) (buildTree config c) stop =
        (.ok report', w'') ∧
      ((∀ q, w''.browse.tree.lookup q = w'.browse.tree.lookup q) ↔
        Recoverable config entries w.browse stop.browse) := by
  obtain ⟨p, h⟩ := interrupted_of_after uuids hnames hroot hdry hrun he n
  rw [hstop] at h
  obtain ⟨-, w₁, -, -, -, -, hsame, -, -, -, hstore⟩ := exec_buildTree_ok uuids hroot hdry hrun
  obtain ⟨p', hplan', hdesired⟩ := h.replan
  obtain ⟨u, hpurge, hustore⟩ := exists_purge uuids hroot hdry hrun
  obtain ⟨v, hagain⟩ := exec_purge_again uuids uuids' hpurge (hpurged.trans hustore)
  obtain ⟨hbrowse, hvsame, -⟩ := exec_purge uuids' hagain
  have hplanv : plan config c v.store stop.browse = .ok p' := by
    rw [plan_congr hvsame, hpurged, hstore, plan_congr hsame, hplan']
  have hs' := plan_sound h.root_mid hplan'
  obtain ⟨w'', hend, hlook, -⟩ := exec_apply uuids'
    (w := ⟨stop.browse, v.store, v.calls + 1 + 1 + 1 + 1⟩) hs' (h.shadow_again hplan' hdesired)
  refine ⟨p'.report, w'', ?_, ?_⟩
  · rw [buildTree, purgeUnlessDryRun, hdry, if_neg Bool.false_ne_true,
      Program.exec_bind_ok _ hagain, exec_planAndApply, hbrowse, hplanv]
    dsimp only
    rw [hdry, if_neg Bool.false_ne_true, hend]
    rfl
  · rw [← h.applied_again_iff hplan' hdesired]
    exact forall_congr' fun q => by rw [hlook]

/-! ## A directory that is left -/

/-- How the command ends on `photosWorld` when the catalog has no live entry. -/
def emptiedRun : Except String BuildTreeReport × TreeWorld :=
  Program.exec (treeHandler (.faultless .longest))
    (buildTree (exampleConfig 6) (exampleCatalog [])) photosWorld

/-- The same run, stopped after its first seven calls: the stale link is gone. -/
def stoppedWorld : TreeWorld :=
  Program.after (treeHandler (.faultless .longest)) 7
    (ExceptT.run (buildTree (exampleConfig 6) (exampleCatalog []))) photosWorld

theorem recovers_iff_photos : ∃ report entries report' w'',
    Program.exec (treeHandler (.faultless .longest))
      (buildTree (exampleConfig 6) (exampleCatalog [])) photosWorld = (.ok report, emptiedRun.2) ∧
    liveMaterializationEntries (exampleCatalog []) = .ok entries ∧
    Program.exec (treeHandler (.faultless .longest))
      (buildTree (exampleConfig 6) (exampleCatalog [])) stoppedWorld = (.ok report', w'') ∧
    ((∀ q, w''.browse.tree.lookup q = emptiedRun.2.browse.tree.lookup q) ↔
      Recoverable (exampleConfig 6) entries photosTree stoppedWorld.browse) := by
  obtain ⟨report, hreport⟩ : ∃ report, emptiedRun.1 = .ok report :=
    Except.exists_of_isOk (by decide +kernel)
  obtain ⟨entries, he⟩ : ∃ entries, liveMaterializationEntries (exampleCatalog []) =
      .ok entries := Except.exists_of_isOk (by decide +kernel)
  have hrun : Program.exec (treeHandler (.faultless .longest))
      (buildTree (exampleConfig 6) (exampleCatalog [])) photosWorld = (.ok report, emptiedRun.2) :=
    Prod.ext hreport rfl
  obtain ⟨report', w'', hagain⟩ := recovers_iff _ _ .longest .longest photosWorld _ stoppedWorld
    report entries 7 (isName_of_mem_exampleStoreRoot 6) (by decide +kernel) rfl hrun he rfl rfl
  exact ⟨report, entries, report', w'', hrun, he, hagain⟩

/-- The first run would have removed the directory, and the second one leaves it. -/
theorem not_recovers_photos : ∃ report report' w'',
    Program.exec (treeHandler (.faultless .longest))
      (buildTree (exampleConfig 6) (exampleCatalog [])) photosWorld = (.ok report, emptiedRun.2) ∧
    stoppedWorld.store = emptiedRun.2.store ∧
    Program.exec (treeHandler (.faultless .longest))
      (buildTree (exampleConfig 6) (exampleCatalog [])) stoppedWorld = (.ok report', w'') ∧
    emptiedRun.2.browse.tree.lookup [photosName] = none ∧
    w''.browse.tree.lookup [photosName] = some .directory := by
  obtain ⟨report, hreport⟩ : ∃ report, emptiedRun.1 = .ok report :=
    Except.exists_of_isOk (by decide +kernel)
  obtain ⟨report', hagain⟩ : ∃ report', (Program.exec (treeHandler (.faultless .longest))
      (buildTree (exampleConfig 6) (exampleCatalog [])) stoppedWorld).1 = .ok report' :=
    Except.exists_of_isOk (by decide +kernel)
  exact ⟨report, report', _, Prod.ext hreport rfl, rfl, Prod.ext hagain rfl, by decide +kernel,
    by decide +kernel⟩

end MediaImporter
