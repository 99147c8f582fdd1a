import MediaImporter.Materialize.Plan

/-!
# What a plan has checked

A plan that is made has looked at every path it is going to touch. `Plan.Sound` collects
what it found there, as statements about the tree alone: the paths to create are free, the
directories above a desired link are there or will be created, a desired link finds a free
path or another link, and a stale path is a link.

## Main definitions

* `plan_eq_ok_iff`, `desiredByOutput_spec` — the parts of a plan.
* `Plan.Sound`, `plan_sound` — what holds of every plan that is made.
-/

namespace MediaImporter

open Utf8 UnixPath PathOrder

/-! ## The parts of a plan -/

theorem openForMaterialization_ok {c c' : Catalog} (h : openForMaterialization c = .ok c') :
    c' = c := by
  unfold openForMaterialization at h
  split_ifs at h
  exact (Except.ok.inj h).symm

/-- The plan is put together from what was read. -/
def assemblePlan (config : BuildTreeConfig) (tree : BrowseTree) (desired : List DesiredLink)
    (owned : List (List Name)) (actions : List LinkAction) (toCreate : List (List Name)) :
    Plan :=
  let desiredPaths := desired.map (·.outputPath)
  let staleOwned := owned.filter (· ∉ desiredPaths)
  let toPrune := MediaImporter.directoriesToPrune tree staleOwned desiredPaths
  { desired
    staleOwned
    directoriesToCreate := toCreate
    directoriesToPrune := toPrune
    report := {
      dryRun := config.dryRun
      desiredLinks := desired.length
      linksCreated := actions.count .create
      linksUnchanged := actions.count .keep
      linksReplaced := actions.count .replace
      staleLinksRemoved := staleOwned.length
      directoriesCreated := toCreate.length
      directoriesPruned := toPrune.length } }

theorem plan_eq_ok_iff {config : BuildTreeConfig} {c : Catalog} {store : Store}
    {tree : BrowseTree} {p : Plan} : plan config c store tree = .ok p ↔
      openForMaterialization c = .ok c ∧
      ∃ entries desired owned actions toCreate,
        liveMaterializationEntries c = .ok entries ∧
        desiredByOutput config store entries = .ok desired ∧
        collectOwnedSymlinks config tree = .ok owned ∧
        desired.mapM (linkAction config tree) = .ok actions ∧
        directoriesToCreate tree desired = .ok toCreate ∧
        p = assemblePlan config tree desired owned actions toCreate := by
  simp only [plan, Except.bind_eq_ok, Except.pure_eq_ok, Except.ok.injEq]
  constructor
  · rintro ⟨c', hc, entries, he, desired, hd, owned, ho, actions, ha, toCreate, ht, rfl⟩
    obtain rfl := openForMaterialization_ok hc
    exact ⟨hc, entries, desired, owned, actions, toCreate, he, hd, ho, ha, ht, rfl⟩
  · rintro ⟨hc, entries, desired, owned, actions, toCreate, he, hd, ho, ha, ht, rfl⟩
    exact ⟨c, hc, entries, he, desired, hd, owned, ho, actions, ha, toCreate, ht, rfl⟩

/-- The output path of a live entry. -/
def LiveMaterializationEntry.output (config : BuildTreeConfig)
    (entry : LiveMaterializationEntry) : List Name :=
  outputRelativePath entry.relativePath entry.blobHash config.hashDigits

theorem outputPath_of_desiredLink {config : BuildTreeConfig} {store : Store}
    {entry : LiveMaterializationEntry} {link : DesiredLink}
    (h : desiredLink config store entry = .ok link) : link.outputPath = entry.output config := by
  simp only [desiredLink, Except.bind_eq_ok, Except.pure_eq_ok, Except.ok.injEq] at h
  obtain ⟨-, -, targetText, -, rfl⟩ := h
  rfl

theorem foldlM_addDesired {config : BuildTreeConfig} {store : Store}
    {entries : List LiveMaterializationEntry} {before after : List DesiredLink}
    (h : entries.foldlM (addDesired config store) before = .ok after)
    (hbefore : (before.map (·.outputPath)).Nodup) :
    (after.map (·.outputPath)).Nodup ∧
      after.map (·.outputPath) = before.map (·.outputPath) ++ entries.map (·.output config) := by
  induction entries generalizing before with
  | nil =>
      obtain rfl : before = after := by simpa using h
      exact ⟨hbefore, by simp⟩
  | cons entry entries ih =>
      rw [List.foldlM_cons, Except.bind_eq_ok] at h
      obtain ⟨next, hnext, hrest⟩ := h
      simp only [addDesired, Except.bind_eq_ok, Except.pure_eq_ok, Except.ok.injEq,
        Except.ensure_eq_ok_iff] at hnext
      obtain ⟨link, hlink, -, hfresh, rfl⟩ := hnext
      have hout := outputPath_of_desiredLink hlink
      obtain ⟨hnodup, hmap⟩ := ih hrest (by
        rw [List.map_append, List.nodup_append']
        refine ⟨hbefore, by simp, ?_⟩
        intro q hq hq'
        obtain ⟨existing, hmem, rfl⟩ := List.mem_map.mp hq
        exact hfresh existing hmem (by simpa using hq'))
      exact ⟨hnodup, by simp [hmap, hout]⟩

/-- The desired links are those of the live entries, at different paths. -/
theorem desiredByOutput_spec {config : BuildTreeConfig} {store : Store}
    {entries : List LiveMaterializationEntry} {desired : List DesiredLink}
    (h : desiredByOutput config store entries = .ok desired) :
    (desired.map (·.outputPath)).Nodup ∧
      ∀ q, q ∈ desired.map (·.outputPath) ↔ ∃ e ∈ entries, e.output config = q := by
  simp only [desiredByOutput, Except.bind_eq_ok, Except.pure_eq_ok, Except.ok.injEq] at h
  obtain ⟨links, hlinks, rfl⟩ := h
  obtain ⟨hnodup, hmap⟩ := foldlM_addDesired hlinks (by simp)
  have hperm := (List.perm_insertionSort
    (fun a b : DesiredLink => a.outputPath ≤ b.outputPath) links).map (·.outputPath)
  refine ⟨hperm.nodup_iff.mpr hnodup, fun q => ?_⟩
  rw [hperm.mem_iff, hmap]
  simp

theorem mem_foldlM_addDesired {config : BuildTreeConfig} {store : Store}
    {entries : List LiveMaterializationEntry} {before after : List DesiredLink}
    (h : entries.foldlM (addDesired config store) before = .ok after) :
    (∀ e ∈ entries, ∃ link, desiredLink config store e = .ok link) ∧
      ∀ link, link ∈ after ↔
        link ∈ before ∨ ∃ e ∈ entries, desiredLink config store e = .ok link := by
  induction entries generalizing before with
  | nil =>
      obtain rfl : before = after := by simpa using h
      simp
  | cons entry entries ih =>
      rw [List.foldlM_cons, Except.bind_eq_ok] at h
      obtain ⟨next, hnext, hrest⟩ := h
      simp only [addDesired, Except.bind_eq_ok, Except.pure_eq_ok, Except.ok.injEq] at hnext
      obtain ⟨added, hadded, -, -, rfl⟩ := hnext
      obtain ⟨hall, hmem⟩ := ih hrest
      refine ⟨List.forall_mem_cons.mpr ⟨⟨added, hadded⟩, hall⟩, fun link => ?_⟩
      rw [hmem, List.mem_append, List.mem_singleton, or_assoc, List.exists_mem_cons_iff, hadded,
        Except.ok.injEq]
      exact or_congr_right (or_congr_left eq_comm)

/-- Every live entry has a desired link, and there are no others. -/
theorem mem_desiredByOutput {config : BuildTreeConfig} {store : Store}
    {entries : List LiveMaterializationEntry} {desired : List DesiredLink}
    (h : desiredByOutput config store entries = .ok desired) :
    (∀ e ∈ entries, ∃ link, desiredLink config store e = .ok link) ∧
      ∀ link, link ∈ desired ↔ ∃ e ∈ entries, desiredLink config store e = .ok link := by
  simp only [desiredByOutput, Except.bind_eq_ok, Except.pure_eq_ok, Except.ok.injEq] at h
  obtain ⟨links, hlinks, rfl⟩ := h
  obtain ⟨hall, hmem⟩ := mem_foldlM_addDesired hlinks
  refine ⟨hall, fun link => ?_⟩
  rw [List.mem_insertionSort, hmem]
  simp

/-! ## What was found in the tree -/

/-- What a plan promises about the tree it was made for. -/
structure Plan.Sound (tree : BrowseTree) (p : Plan) : Prop where
  sorted : p.directoriesToCreate.Pairwise (· < ·)
  /-- A path to create is free, and everything above it is there or will be created. -/
  create : ∀ d ∈ p.directoriesToCreate, tree.tree.lookup d = none ∧
    ∀ a, a <+: d → a ≠ d → a ∈ p.directoriesToCreate ∨ tree.tree.lookup a = some .directory
  create_below : ∀ d ∈ p.directoriesToCreate, d = [] ∨
    ∃ link ∈ p.desired, d <+: link.outputPath ∧ d ≠ link.outputPath
  above : ∀ link ∈ p.desired, ∀ a, a <+: link.outputPath → a ≠ link.outputPath →
    a ∈ p.directoriesToCreate ∨ tree.tree.lookup a = some .directory
  distinct : (p.desired.map (·.outputPath)).Nodup
  output_ne_nil : ∀ link ∈ p.desired, link.outputPath ≠ []
  output : ∀ link ∈ p.desired, tree.tree.lookup link.outputPath = none ∨
    ∃ target, tree.tree.lookup link.outputPath = some (.symlink target)
  stale : ∀ q ∈ p.staleOwned, (∃ target, tree.tree.lookup q = some (.symlink target)) ∧
    q ∉ p.desired.map (·.outputPath)
  stale_nodup : p.staleOwned.Nodup
  prune_sorted : p.directoriesToPrune.Pairwise (· > ·)
  /-- In a directory to prune there is nothing but stale links and directories to prune. -/
  prune : ∀ d ∈ p.directoriesToPrune, d ≠ [] ∧ tree.tree.lookup d = some .directory ∧
    ∀ q ∈ tree.tree.children d, q ∈ p.staleOwned ∨ q ∈ p.directoriesToPrune

theorem lookup_root {tree : BrowseTree} (h : validateBrowseTreeRoot tree = .ok ()) :
    tree.tree.lookup [] = none ∨ tree.tree.lookup [] = some .directory := by
  unfold validateBrowseTreeRoot at h
  split at h
  · simp at h
  · exact .inr ‹_›
  · exact .inl ‹_›
  · simp at h

theorem statOutput_eq {tree : BrowseTree} {p : List Name} {r : Except IoError (Metadata Bytes)}
    (h : statOutput tree p = r) (hr : r ≠ .error .fault) : tree.symlinkMetadata p = r := by
  unfold statOutput at h
  split_ifs at h
  · exact absurd h.symm hr
  · exact h

/-- A path checked for a missing directory is free or a directory, if nothing above it is a
link. -/
theorem isMissingDirectory_spec {tree : BrowseTree} {dir : List Name} {missing : Bool}
    (h : isMissingDirectory tree dir = .ok missing) :
    (missing = true ∧ tree.tree.lookup dir = none) ∨
    (missing = false ∧ ∀ _ : tree.tree.Stays dir, tree.tree.lookup dir = some .directory) := by
  unfold isMissingDirectory at h
  split at h
  · simp at h
  · rename_i len hstat
    refine .inr ⟨(Except.ok.inj h).symm, fun hstays => ?_⟩
    exact Disk.lookup_of_symlinkMetadata hstays (statOutput_eq hstat (by simp))
  · simp at h
  · rename_i hstat
    refine .inl ⟨(Except.ok.inj h).symm, ?_⟩
    exact Disk.lookup_of_symlinkMetadata_notFound (statOutput_eq hstat (by simp))
  · simp at h

/-- A path that is checked is no link. -/
theorem isMissingDirectory_ne_symlink {tree : BrowseTree} {dir : List Name} {missing : Bool}
    (h : isMissingDirectory tree dir = .ok missing) (target : Bytes) :
    tree.tree.lookup dir ≠ some (.symlink target) := by
  intro hlink
  unfold isMissingDirectory statOutput at h
  rw [Disk.symlinkMetadata_of_lookup hlink] at h
  split_ifs at h

theorem linkAction_spec {config : BuildTreeConfig} {tree : BrowseTree} {link : DesiredLink}
    {action : LinkAction} (h : linkAction config tree link = .ok action)
    (hstays : tree.tree.Stays link.outputPath) :
    tree.tree.lookup link.outputPath = none ∨
      ∃ target, tree.tree.lookup link.outputPath = some (.symlink target) := by
  unfold linkAction at h
  split at h
  · rename_i target len hstat
    exact .inr ⟨target, Disk.lookup_of_symlinkMetadata hstays (statOutput_eq hstat (by simp))⟩
  · simp at h
  · rename_i hstat
    exact .inl (Disk.lookup_of_symlinkMetadata_notFound (statOutput_eq hstat (by simp)))
  · simp at h

theorem mem_collectOwnedSymlinks {config : BuildTreeConfig} {tree : BrowseTree}
    {owned : List (List Name)} (h : collectOwnedSymlinks config tree = .ok owned)
    {q : List Name} : q ∈ owned ↔ q ≠ [] ∧ isOwnedSymlink config tree q = .ok true := by
  unfold collectOwnedSymlinks at h
  split_ifs at h with hroot
  · obtain rfl := Except.ok.inj h
    refine iff_of_false (by simp) ?_
    rintro ⟨hne, hq⟩
    have hq' : tree.tree.lookup q = none := by
      by_contra hsome
      have := FileTree.lookup_of_isPrefix (Option.isSome_iff_ne_none.mpr hsome)
        (List.nil_prefix (l := q)) hne.symm
      simp [hroot] at this
    simp [isOwnedSymlink, hq'] at hq
  · rw [Except.mem_of_filterOk h, List.mem_filter, FileTree.mem_paths]
    simp only [decide_eq_true_eq]
    constructor
    · rintro ⟨⟨-, hne⟩, hq⟩
      exact ⟨hne, hq⟩
    · rintro ⟨hne, hq⟩
      refine ⟨⟨?_, hne⟩, hq⟩
      by_contra hsome
      rw [Option.not_isSome_iff_eq_none] at hsome
      simp [isOwnedSymlink, hsome] at hq

theorem nodup_collectOwnedSymlinks {config : BuildTreeConfig} {tree : BrowseTree}
    {owned : List (List Name)} (h : collectOwnedSymlinks config tree = .ok owned) :
    owned.Nodup := by
  unfold collectOwnedSymlinks at h
  split_ifs at h
  · obtain rfl := Except.ok.inj h
    exact List.nodup_nil
  · obtain ⟨-, rfl⟩ := Except.filterOk_eq_ok_iff.mp h
    exact ((FileTree.nodup_paths _).filter _).filter _

theorem lookup_of_isOwnedSymlink {config : BuildTreeConfig} {tree : BrowseTree} {q : List Name}
    (h : isOwnedSymlink config tree q = .ok true) :
    ∃ target, tree.tree.lookup q = some (.symlink target) := by
  unfold isOwnedSymlink at h
  split at h
  · rename_i target hq
    exact ⟨target, hq⟩
  · simp at h

section DirectoriesToCreate

variable {tree : BrowseTree} {desired : List DesiredLink} {toCreate : List (List Name)}

theorem directoriesToCreate_spec (h : directoriesToCreate tree desired = .ok toCreate) :
    (∀ link ∈ desired, ∀ a ∈ ancestors link.outputPath, ∃ b, isMissingDirectory tree a = .ok b) ∧
      toCreate.Pairwise (· < ·) ∧
      ∀ d, d ∈ toCreate ↔ (d = [] ∧ tree.tree.lookup [] = none) ∨
        ∃ link ∈ desired, d ∈ ancestors link.outputPath ∧ isMissingDirectory tree d = .ok true := by
  simp only [directoriesToCreate, Except.bind_eq_ok, Except.pure_eq_ok, Except.ok.injEq] at h
  obtain ⟨missing, hmissing, rfl⟩ := h
  refine ⟨?_, pairwise_sortPaths _, fun d => ?_⟩
  · intro link hlink a ha
    exact (Except.filterOk_eq_ok_iff.mp hmissing).1 a (List.mem_flatMap.mpr ⟨link, hlink, ha⟩)
  · rw [mem_sortPaths, List.mem_append, Except.mem_of_filterOk hmissing, List.mem_flatMap]
    refine or_congr ?_ ?_
    · by_cases hroot : tree.tree.lookup [] = none
      · simp [hroot]
      · simp [hroot]
    · constructor
      · rintro ⟨⟨link, hlink, hd⟩, hm⟩; exact ⟨link, hlink, hd, hm⟩
      · rintro ⟨link, hlink, hd, hm⟩; exact ⟨⟨link, hlink, hd⟩, hm⟩

/-- Nothing above a desired link is a link. -/
theorem stays_output (hroot : validateBrowseTreeRoot tree = .ok ())
    (h : directoriesToCreate tree desired = .ok toCreate) {link : DesiredLink}
    (hlink : link ∈ desired) : tree.tree.Stays link.outputPath := by
  intro a ha hne target hsymlink
  by_cases hnil : a = []
  · subst hnil
    rcases lookup_root hroot with hr | hr
    · simp [hr] at hsymlink
    · simp [hr] at hsymlink
  · obtain ⟨b, hb⟩ := (directoriesToCreate_spec h).1 link hlink a
      (mem_ancestors.mpr ⟨ha, hne, hnil⟩)
    exact isMissingDirectory_ne_symlink hb target hsymlink

/-- Every path above a desired link is a directory or will be created as one. -/
theorem directory_or_mem_toCreate (hroot : validateBrowseTreeRoot tree = .ok ())
    (h : directoriesToCreate tree desired = .ok toCreate) {link : DesiredLink}
    (hlink : link ∈ desired) {a : List Name} (ha : a <+: link.outputPath)
    (hne : a ≠ link.outputPath) :
    a ∈ toCreate ∨ tree.tree.lookup a = some .directory := by
  obtain ⟨hchecked, -, hmem⟩ := directoriesToCreate_spec h
  by_cases hnil : a = []
  · subst hnil
    rcases lookup_root hroot with hr | hr
    · exact .inl ((hmem _).mpr (.inl ⟨rfl, hr⟩))
    · exact .inr hr
  · have hanc : a ∈ ancestors link.outputPath := mem_ancestors.mpr ⟨ha, hne, hnil⟩
    obtain ⟨b, hb⟩ := hchecked link hlink a hanc
    rcases isMissingDirectory_spec hb with ⟨rfl, -⟩ | ⟨-, hdir⟩
    · exact .inl ((hmem _).mpr (.inr ⟨link, hlink, hanc, hb⟩))
    · refine .inr (hdir fun q hq hqne => stays_output hroot h hlink q (hq.trans ha) ?_)
      rintro rfl
      exact hqne (hq.eq_of_length_le ha.length_le)

end DirectoriesToCreate

section DirectoriesToPrune

variable {tree : BrowseTree} {stale desiredPaths prunable : List (List Name)}

theorem wouldBeEmptyAfterCleanup_iff {entries : List (List Name)} :
    wouldBeEmptyAfterCleanup stale desiredPaths prunable entries = true ↔
      ∀ q ∈ entries, q ∈ stale ∨ q ∈ prunable := by
  induction entries with
  | nil => simp [wouldBeEmptyAfterCleanup]
  | cons q entries ih =>
      unfold wouldBeEmptyAfterCleanup
      rw [List.forall_mem_cons, ← ih]
      by_cases hq : q ∈ stale ∨ q ∈ prunable
      · simp [hq]
      · rw [if_neg hq, ite_self]
        simp [hq]

theorem lt_of_mem_children {d q : List Name} (h : q ∈ tree.tree.children d) : d < q := by
  obtain ⟨-, hne, rfl⟩ := FileTree.mem_children.mp h
  exact lt_of_isPrefix (List.dropLast_prefix q) (dropLast_ne hne)

/-- A candidate is chosen when each of its entries is stale or chosen itself. The entries
of a directory come before it, so they are decided by then. -/
theorem mem_foldl_addPrunable {candidates : List (List Name)}
    (h : candidates.Pairwise (· > ·)) :
    (candidates.foldl (addPrunable tree stale desiredPaths) []).Sublist candidates ∧
      ∀ d, d ∈ candidates.foldl (addPrunable tree stale desiredPaths) [] ↔
        d ∈ candidates ∧ ∀ q ∈ tree.tree.children d,
          q ∈ stale ∨ q ∈ candidates.foldl (addPrunable tree stale desiredPaths) [] := by
  induction candidates using List.reverseRecOn with
  | nil => simp
  | append_singleton candidates x ih =>
      rw [List.pairwise_append] at h
      obtain ⟨hsub, hmem⟩ := ih h.1
      have hlt : ∀ d ∈ candidates, x < d := fun d hd => h.2.2 d hd x (by simp)
      rw [List.foldl_append, List.foldl_cons, List.foldl_nil]
      set chosen := candidates.foldl (addPrunable tree stale desiredPaths) [] with hchosen
      have hx : x ∉ chosen := fun hx => lt_irrefl x (hlt x (hsub.subset hx))
      -- an entry of a candidate is never the last candidate, which is the smallest
      have hchild : ∀ d, d = x ∨ d ∈ candidates → ∀ q ∈ tree.tree.children d,
          (q ∈ addPrunable tree stale desiredPaths chosen x ↔ q ∈ chosen) := by
        intro d hd q hq
        have hxq : q ≠ x := by
          rintro rfl
          have hdq := lt_of_mem_children hq
          rcases hd with rfl | hd
          · exact lt_irrefl _ hdq
          · exact lt_irrefl _ (hdq.trans (hlt d hd))
        unfold addPrunable
        split_ifs
        · simp [hxq]
        · rfl
      constructor
      · unfold addPrunable
        split_ifs
        · exact hsub.append (List.Sublist.refl _)
        · exact hsub.trans (List.sublist_append_left _ _)
      · intro d
        by_cases hd : d = x
        · subst hd
          have hall : (∀ q ∈ tree.tree.children d, q ∈ stale ∨
              q ∈ addPrunable tree stale desiredPaths chosen d) ↔
              ∀ q ∈ tree.tree.children d, q ∈ stale ∨ q ∈ chosen :=
            forall₂_congr fun q hq => or_congr_right (hchild d (.inl rfl) q hq)
          rw [hall, ← @wouldBeEmptyAfterCleanup_iff stale desiredPaths]
          by_cases hempty : wouldBeEmptyAfterCleanup stale desiredPaths chosen
              (tree.tree.children d) = true
          · simp [addPrunable, hempty]
          · simp [addPrunable, hempty, hx]
        · have hsame : d ∈ addPrunable tree stale desiredPaths chosen x ↔ d ∈ chosen := by
            unfold addPrunable
            split_ifs
            · simp [hd]
            · rfl
          rw [hsame, hmem]
          simp only [List.mem_append, List.mem_singleton, hd, or_false]
          refine and_congr_right fun hdc => forall₂_congr fun q hq => ?_
          exact or_congr_right (hchild d (.inr hdc) q hq).symm

theorem mem_directoriesToPrune {d : List Name} :
    d ∈ directoriesToPrune tree stale desiredPaths ↔
      (∃ s ∈ stale, d ∈ ancestors s) ∧ ∀ q ∈ tree.tree.children d,
        q ∈ stale ∨ q ∈ directoriesToPrune tree stale desiredPaths := by
  unfold directoriesToPrune
  rw [(mem_foldl_addPrunable (pairwise_reverse_sortPaths _)).2 d]
  simp

theorem pairwise_directoriesToPrune :
    (directoriesToPrune tree stale desiredPaths).Pairwise (· > ·) :=
  (pairwise_reverse_sortPaths _).sublist (mem_foldl_addPrunable (pairwise_reverse_sortPaths _)).1

end DirectoriesToPrune

/-- The output paths of a plan are those of the live entries. -/
theorem mem_outputs_of_plan {config : BuildTreeConfig} {c : Catalog} {store : Store}
    {tree : BrowseTree} {p : Plan} {entries : List LiveMaterializationEntry}
    (h : plan config c store tree = .ok p) (he : liveMaterializationEntries c = .ok entries)
    {q : List Name} : q ∈ p.desired.map (·.outputPath) ↔ ∃ e ∈ entries, e.output config = q := by
  obtain ⟨-, entries', desired, owned, actions, toCreate, he', hdesired, -, -, -, rfl⟩ :=
    plan_eq_ok_iff.mp h
  obtain rfl : entries = entries' := Except.ok.inj (he.symm.trans he')
  exact (desiredByOutput_spec hdesired).2 q

/-- Every plan that is made is sound. -/
theorem plan_sound {config : BuildTreeConfig} {c : Catalog} {store : Store} {tree : BrowseTree}
    {p : Plan} (hroot : validateBrowseTreeRoot tree = .ok ())
    (h : plan config c store tree = .ok p) : p.Sound tree := by
  obtain ⟨-, entries, desired, owned, actions, toCreate, -, hdesired, howned, hactions, hcreate,
    rfl⟩ := plan_eq_ok_iff.mp h
  obtain ⟨hdistinct, houtputs⟩ := desiredByOutput_spec hdesired
  obtain ⟨-, hsorted, hmem⟩ := directoriesToCreate_spec hcreate
  refine ⟨hsorted, ?_, ?_, ?_, hdistinct, ?_, ?_, ?_, ?_, pairwise_directoriesToPrune, ?_⟩
  · intro d hd
    rcases (hmem d).mp hd with ⟨rfl, hfree⟩ | ⟨link, hlink, hanc, hm⟩
    · refine ⟨hfree, fun a ha hne => ?_⟩
      exact absurd (List.prefix_nil.mp ha) hne
    · rcases isMissingDirectory_spec hm with ⟨-, hfree⟩ | ⟨hfalse, -⟩
      · refine ⟨hfree, fun a ha hne => ?_⟩
        obtain ⟨hpre, hdne, -⟩ := mem_ancestors.mp hanc
        refine directory_or_mem_toCreate hroot hcreate hlink (ha.trans hpre) ?_
        rintro rfl
        exact hne (ha.eq_of_length_le hpre.length_le)
      · simp at hfalse
  · intro d hd
    rcases (hmem d).mp hd with ⟨hnil, -⟩ | ⟨link, hlink, hanc, -⟩
    · exact .inl hnil
    · obtain ⟨hpre, hne, -⟩ := mem_ancestors.mp hanc
      exact .inr ⟨link, hlink, hpre, hne⟩
  · intro link hlink a ha hne
    exact directory_or_mem_toCreate hroot hcreate hlink ha hne
  · intro link hlink
    obtain ⟨e, -, he⟩ := (houtputs _).mp (List.mem_map.mpr ⟨link, hlink, rfl⟩)
    rw [← he]
    exact outputRelativePath_ne_nil _ _ _
  · intro link hlink
    obtain ⟨action, haction⟩ : ∃ a, linkAction config tree link = .ok a := by
      have hall := Except.mapM_eq_ok_iff.mp hactions
      obtain ⟨i, hi, rfl⟩ := List.getElem_of_mem hlink
      exact ⟨_, hall.get hi (hall.length_eq ▸ hi)⟩
    exact linkAction_spec haction (stays_output hroot hcreate hlink)
  · intro q hq
    obtain ⟨hq, hout⟩ := List.mem_filter.mp hq
    exact ⟨lookup_of_isOwnedSymlink ((mem_collectOwnedSymlinks howned).mp hq).2,
      of_decide_eq_true hout⟩
  · exact (nodup_collectOwnedSymlinks howned).filter _
  · intro d hd
    obtain ⟨⟨s, hs, hanc⟩, hall⟩ := mem_directoriesToPrune.mp hd
    obtain ⟨target, hlink⟩ := lookup_of_isOwnedSymlink
      ((mem_collectOwnedSymlinks howned).mp (List.mem_filter.mp hs).1).2
    obtain ⟨hpre, hne, hnil⟩ := mem_ancestors.mp hanc
    exact ⟨hnil, FileTree.lookup_of_isPrefix (by simp [hlink]) hpre hne, hall⟩

end MediaImporter
