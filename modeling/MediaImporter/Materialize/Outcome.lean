import MediaImporter.Materialize.PlanSound
import MediaImporter.Materialize.Apply

/-!
# What applying a plan leaves behind

Without faults, each of the four loops of `apply` does what the plan says about the paths
it touches and leaves the others alone. `Plan.applied` is the tree after all four loops, as
a function of the tree before them; it says nothing of the order of the steps.

The one conflict a sound plan can still hold is a desired link at a path that is also to be
created as a directory: then the loop over the links fails.

## Main definitions

* `created`, `linked`, `unlinked`, `pruned`, `Plan.applied` — the effects of the loops.
* `Plan.Passes` — the trees between two steps.
* `meets_apply`, `exec_apply` — a plan without shadowed links is applied.
* `exec_apply_ne_ok` — a plan with a shadowed link is not.
-/

namespace MediaImporter

open Utf8 UnixPath PathOrder
open Program (Meets)

/-- What a tree answers for every path. -/
abbrev TreeLookup := List Name → Option (FileNode ℕ Bytes)

/-! ## The effects of the loops -/

def created (dirs : List (List Name)) (look : TreeLookup) : TreeLookup := fun q =>
  if q ∈ dirs then some .directory else look q

/-- The text of a link after the run: one that means the same path is kept. -/
def linkTarget (look : TreeLookup) (link : DesiredLink) : Bytes :=
  match look link.outputPath with
  | some (.symlink existing) =>
      if samePath existing link.targetText then existing else link.targetText
  | _ => link.targetText

def linked (links : List DesiredLink) (look : TreeLookup) : TreeLookup := fun q =>
  match links.find? (·.outputPath = q) with
  | some link => some (.symlink (linkTarget look link))
  | none => look q

def unlinked (paths : List (List Name)) (look : TreeLookup) : TreeLookup := fun q =>
  if q ∈ paths then none else look q

/-- Directories above a desired link stay. -/
def pruned (links : List DesiredLink) (dirs : List (List Name)) (look : TreeLookup) :
    TreeLookup := fun q =>
  if q ∈ dirs ∧ ¬ ∃ link ∈ links, q <+: link.outputPath then none else look q

/-- The tree before directories are pruned. -/
def Plan.cleaned (p : Plan) (look : TreeLookup) : TreeLookup :=
  unlinked p.staleOwned (linked p.desired (created p.directoriesToCreate look))

/-- The tree after a plan is applied. -/
def Plan.applied (p : Plan) (look : TreeLookup) : TreeLookup :=
  pruned p.desired p.directoriesToPrune (p.cleaned look)

/-- The tree with a link that is going to be moved. -/
def placed (temp : List Name) (text : Bytes) (look : TreeLookup) : TreeLookup := fun q =>
  if q = temp then some (.symlink text) else look q

/-- The trees that applying a plan passes through. -/
inductive Plan.Passes (p : Plan) (look : TreeLookup) : TreeLookup → Prop
  | create (done : List (List Name)) (hdone : done <+: p.directoriesToCreate) :
      p.Passes look (created done look)
  | link (done : List DesiredLink) (hdone : done <+: p.desired) :
      p.Passes look (linked done (created p.directoriesToCreate look))
  /-- A link is made beside the one that it is going to replace. -/
  | replace (done : List DesiredLink) (link : DesiredLink) (hdone : done ++ [link] <+: p.desired)
      (name : Name) (target : Bytes)
      (hlink : linked done (created p.directoriesToCreate look) link.outputPath =
        some (.symlink target))
      (hfree : linked done (created p.directoriesToCreate look)
        (link.outputPath.dropLast ++ [name]) = none) :
      p.Passes look (placed (link.outputPath.dropLast ++ [name]) link.targetText
        (linked done (created p.directoriesToCreate look)))
  | remove (done : List (List Name)) (hdone : done <+: p.staleOwned) :
      p.Passes look (unlinked done (linked p.desired (created p.directoriesToCreate look)))
  | prune (done : List (List Name)) (hdone : done <+: p.directoriesToPrune) :
      p.Passes look (pruned p.desired done (p.cleaned look))

theorem created_append (dirs : List (List Name)) (d : List Name) (look : TreeLookup) :
    created (dirs ++ [d]) look = created [d] (created dirs look) := by
  ext1 q
  by_cases hq : q = d
  · simp [created, hq]
  · simp [created, hq]

theorem linked_of_not_mem {links : List DesiredLink} {look : TreeLookup} {q : List Name}
    (h : q ∉ links.map (·.outputPath)) : linked links look q = look q := by
  have hfind : links.find? (·.outputPath = q) = none := by
    rw [List.find?_eq_none]
    intro link hlink heq
    exact h (List.mem_map.mpr ⟨link, hlink, by simpa using heq⟩)
  simp [linked, hfind]

theorem linked_append {links : List DesiredLink} {link : DesiredLink} {look : TreeLookup}
    (h : link.outputPath ∉ links.map (·.outputPath)) :
    linked (links ++ [link]) look =
      placed link.outputPath (linkTarget look link) (linked links look) := by
  ext1 q
  rw [placed]
  by_cases hq : q = link.outputPath
  · subst hq
    have hfind : links.find? (·.outputPath = link.outputPath) = none := by
      rw [List.find?_eq_none]
      intro other hother heq
      exact h (List.mem_map.mpr ⟨other, hother, by simpa using heq⟩)
    simp [linked, List.find?_append, hfind]
  · have hne : ¬ link.outputPath = q := fun heq => hq heq.symm
    simp [linked, List.find?_append, hq, hne]

theorem linked_output {links : List DesiredLink} (hdistinct : (links.map (·.outputPath)).Nodup)
    {link : DesiredLink} (hlink : link ∈ links) (look : TreeLookup) :
    linked links look link.outputPath = some (.symlink (linkTarget look link)) := by
  have hfind : links.find? (·.outputPath = link.outputPath) = some link := by
    cases hfind : links.find? (·.outputPath = link.outputPath) with
    | none =>
        have hnone := List.find?_eq_none.mp hfind link hlink
        simp at hnone
    | some other =>
        have hout : other.outputPath = link.outputPath := by simpa using List.find?_some hfind
        rw [List.inj_on_of_nodup_map hdistinct (List.mem_of_find?_eq_some hfind) hlink hout]
  simp [linked, hfind]

/-- At a desired path there is a link. -/
theorem linked_of_mem {links : List DesiredLink} {look : TreeLookup} {q : List Name}
    (h : q ∈ links.map (·.outputPath)) :
    ∃ target, linked links look q = some (.symlink target) := by
  obtain ⟨link, hlink, heq⟩ := List.mem_map.mp h
  cases hfind : links.find? (·.outputPath = q) with
  | none =>
      rw [List.find?_eq_none] at hfind
      exact absurd heq (by simpa using hfind link hlink)
  | some link' => exact ⟨linkTarget look link', by simp [linked, hfind]⟩

theorem unlinked_append (paths : List (List Name)) (p : List Name) (look : TreeLookup) :
    unlinked (paths ++ [p]) look = unlinked [p] (unlinked paths look) := by
  ext1 q
  by_cases hq : q = p
  · simp [unlinked, hq]
  · simp [unlinked, hq]

/-! ## One step of each loop -/

section Steps

variable (uuids : UuidSource) {w : TreeWorld}

/-- A call to the tree is answered by the tree, without faults. -/
theorem exec_treeCall_bind {α : Type} (call : DirectoryCall)
    (f : FsAnswer call → TreeProgram α) (w : TreeWorld) :
    Program.exec (treeHandler (.faultless uuids)) (treeCall (.tree call) >>= f) w =
      Program.exec (treeHandler (.faultless uuids)) (f (w.browse.perform call).1)
        ⟨(w.browse.perform call).2, w.store, w.calls + 1⟩ := rfl

theorem exec_newUuid_bind {α : Type} (f : Text → TreeProgram α) (w : TreeWorld) :
    Program.exec (treeHandler (.faultless uuids)) (treeCall .newUuid >>= f) w =
      Program.exec (treeHandler (.faultless uuids)) (f (uuids.new w.browse))
        ⟨w.browse, w.store, w.calls + 1⟩ := rfl

theorem exec_checkTelemetry_bind {α : Type} (f : Unit → TreeProgram α) (w : TreeWorld) :
    Program.exec (treeHandler (.faultless uuids)) (checkTelemetry >>= f) w =
      Program.exec (treeHandler (.faultless uuids)) (f ()) ⟨w.browse, w.store, w.calls + 1⟩ :=
  rfl

section Meets

variable {α : Type} {P : TreeLookup → Prop} {Q : α → TreeWorld → Prop}
  {E : String → TreeWorld → Prop}

theorem meets_checkTelemetry_bind {f : Unit → TreeProgram α} (hw : P w.browse.tree.lookup)
    (hf : Meets (treeHandler (.faultless uuids)) (fun v => P v.browse.tree.lookup) (f ())
      ⟨w.browse, w.store, w.calls + 1⟩ Q E) :
    Meets (treeHandler (.faultless uuids)) (fun v => P v.browse.tree.lookup)
      (checkTelemetry >>= f) w Q E :=
  Program.meets_requestT_bind hw hf

/-- A call to the tree, and what follows on its answer. -/
theorem meets_treeCall_bind {call : DirectoryCall} {answer : FsAnswer call} {b d : BrowseTree}
    {store : Store} {calls : ℕ} {f : FsAnswer call → TreeProgram α}
    (hcall : b.perform call = (answer, d)) (hw : P b.tree.lookup)
    (hf : Meets (treeHandler (.faultless uuids)) (fun v => P v.browse.tree.lookup) (f answer)
      ⟨d, store, calls + 1⟩ Q E) :
    Meets (treeHandler (.faultless uuids)) (fun v => P v.browse.tree.lookup)
      (treeCall (.tree call) >>= f) ⟨b, store, calls⟩ Q E := by
  refine Program.meets_requestT_bind hw ?_
  change Meets _ _ (f (b.perform call).1) ⟨(b.perform call).2, store, calls + 1⟩ Q E
  rw [hcall]
  exact hf

end Meets

variable {P : TreeLookup → Prop}

theorem meets_createDirectory {d : List Name} (hfree : w.browse.tree.lookup d = none)
    (hin : w.browse.tree.inDirectory d) (hw : P w.browse.tree.lookup)
    (hend : P (created [d] w.browse.tree.lookup)) :
    Meets (treeHandler (.faultless uuids)) (fun v => P v.browse.tree.lookup) (createDirectory d) w
      (fun _ v => v.browse.tree.lookup = created [d] w.browse.tree.lookup ∧ v.store = w.store)
      (fun _ _ => False) := by
  obtain ⟨d', hd'⟩ : ∃ d', w.browse.createDir d = .ok d' := Disk.create_ok hfree hin
  have hcall : w.browse.perform (.createDir d) = (.ok (), d') := by
    simp [Disk.perform, Disk.perform.unitAnswer, hd']
  have hlook : d'.tree.lookup = created [d] w.browse.tree.lookup := by
    ext1 q
    rw [(Disk.create_spec hd').2.1]
    simp [created]
  apply meets_checkTelemetry_bind uuids hw
  apply meets_treeCall_bind uuids hcall hw
  exact Program.meets_pure (by rwa [hlook]) ⟨hlook, rfl⟩

theorem meets_removeStale {p : List Name} {target : Bytes}
    (hlink : w.browse.tree.lookup p = some (.symlink target)) (hw : P w.browse.tree.lookup)
    (hend : P (unlinked [p] w.browse.tree.lookup)) :
    Meets (treeHandler (.faultless uuids)) (fun v => P v.browse.tree.lookup) (removeStale p) w
      (fun _ v => v.browse.tree.lookup = unlinked [p] w.browse.tree.lookup ∧ v.store = w.store)
      (fun _ _ => False) := by
  obtain ⟨d', hd'⟩ := Disk.removeFile_ok hlink (by simp)
  have hcall : w.browse.perform (.removeFile p) = (.ok (), d') := by
    simp [Disk.perform, Disk.perform.unitAnswer, hd']
  have hlook : d'.tree.lookup = unlinked [p] w.browse.tree.lookup := by
    ext1 q
    rw [(Disk.removeFile_spec hd').1]
    simp [unlinked]
  apply meets_checkTelemetry_bind uuids hw
  apply meets_treeCall_bind uuids hcall hw
  exact Program.meets_pure (by rwa [hlook]) ⟨hlook, rfl⟩

/-- What removing a directory comes to when one that is not empty is left alone. -/
def prunedAt (tree : BrowseTree) (d : List Name) : TreeLookup := fun q =>
  if q = d ∧ tree.tree.vacant d then none else tree.tree.lookup q

/-- A directory is removed when it is empty, and left alone otherwise. -/
theorem meets_pruneDirectory {d : List Name} (hdir : w.browse.tree.lookup d = some .directory)
    (hw : P w.browse.tree.lookup) (hend : P (prunedAt w.browse d)) :
    Meets (treeHandler (.faultless uuids)) (fun v => P v.browse.tree.lookup) (pruneDirectory d) w
      (fun _ v => v.browse.tree.lookup = prunedAt w.browse d ∧ v.store = w.store)
      (fun _ _ => False) := by
  apply meets_checkTelemetry_bind uuids hw
  by_cases hv : w.browse.tree.vacant d
  · obtain ⟨d', hd'⟩ := Disk.removeDir_ok hdir hv
    have hcall : w.browse.perform (.removeDir d) = (.ok (), d') := by
      simp [Disk.perform, Disk.perform.unitAnswer, hd']
    have hlook : d'.tree.lookup = prunedAt w.browse d := by
      ext1 q
      rw [(Disk.removeDir_spec hd').1, prunedAt]
      simp [hv]
    apply meets_treeCall_bind uuids hcall hw
    exact Program.meets_pure (by rwa [hlook]) ⟨hlook, rfl⟩
  · have hcall : w.browse.perform (.removeDir d) = (.error .directoryNotEmpty, w.browse) := by
      simp [Disk.perform, Disk.perform.unitAnswer, Disk.removeDir_of_not_vacant hdir hv]
    have hlook : w.browse.tree.lookup = prunedAt w.browse d := by
      ext1 q
      simp [prunedAt, hv]
    apply meets_treeCall_bind uuids hcall hw
    exact Program.meets_pure hw ⟨hlook, rfl⟩

/-- The link is made beside the one that is there and moved over it. -/
theorem meets_replaceLink {link : DesiredLink} {target : Bytes} (hne : link.outputPath ≠ [])
    (hlink : w.browse.tree.lookup link.outputPath = some (.symlink target))
    (hw : P w.browse.tree.lookup)
    (htemp : ∀ name, w.browse.tree.lookup (link.outputPath.dropLast ++ [name]) = none →
      P (placed (link.outputPath.dropLast ++ [name]) link.targetText w.browse.tree.lookup))
    (hend : P (placed link.outputPath link.targetText w.browse.tree.lookup)) :
    Meets (treeHandler (.faultless uuids)) (fun v => P v.browse.tree.lookup) (replaceLink link) w
      (fun _ v => v.browse.tree.lookup =
        placed link.outputPath link.targetText w.browse.tree.lookup ∧ v.store = w.store)
      (fun _ _ => False) := by
  set temp := link.outputPath.dropLast ++
    [temporaryName (linkFileName link) (uuids.new w.browse)] with htempdef
  have hfree : w.browse.tree.lookup temp = none := uuids.fresh _ _ _
  have hparent : w.browse.tree.lookup link.outputPath.dropLast = some .directory :=
    FileTree.lookup_dropLast (by simp [hlink]) hne
  obtain ⟨d₁, hd₁⟩ : ∃ d, w.browse.symlink link.targetText temp = .ok d :=
    Disk.create_ok hfree (FileTree.inDirectory_append.mpr hparent)
  have hlook₁ : d₁.tree.lookup = placed temp link.targetText w.browse.tree.lookup := by
    ext1 q
    rw [(Disk.create_spec hd₁).2.1, placed]
  have htne : temp ≠ link.outputPath := by
    intro heq
    rw [heq, hlink] at hfree
    simp at hfree
  have hdest : d₁.tree.lookup link.outputPath = some (.symlink target) := by
    rw [hlook₁, placed, if_neg htne.symm, hlink]
  have hsource : d₁.tree.lookup temp = some (.symlink link.targetText) := by
    rw [hlook₁, placed, if_pos rfl]
  obtain ⟨d₂, hd₂⟩ : ∃ d, d₁.rename temp link.outputPath = .ok d :=
    Disk.rename_ok hsource (by simp) (by simp [hdest])
      (FileTree.inDirectory_of_lookup (by simp [hdest]))
  have hlook₂ : d₂.tree.lookup =
      placed link.outputPath link.targetText w.browse.tree.lookup := by
    ext1 q
    rw [(Disk.rename_spec htne hd₂).1, hsource, hlook₁, placed, placed]
    by_cases hq : q = link.outputPath
    · simp [hq]
    · rw [if_neg hq, if_neg hq]
      by_cases hqt : q = temp
      · rw [if_pos hqt, hqt, hfree]
      · rw [if_neg hqt, if_neg hqt]
  have hcall₁ : w.browse.perform (.symlink link.targetText temp) = (.ok (), d₁) := by
    simp [Disk.perform, Disk.perform.unitAnswer, hd₁]
  have hcall₂ : d₁.perform (.rename temp link.outputPath) = (.ok (), d₂) := by
    simp [Disk.perform, Disk.perform.unitAnswer, hd₂]
  have hP₁ : P d₁.tree.lookup := by
    rw [hlook₁]
    exact htemp _ hfree
  refine Program.meets_requestT_bind hw ?_
  apply meets_treeCall_bind uuids hcall₁ hw
  apply meets_treeCall_bind uuids hcall₂ hP₁
  exact Program.meets_pure (by rwa [hlook₂]) ⟨hlook₂, rfl⟩

/-- A desired link whose path is free or a link is put in place. -/
theorem meets_applyLink {link : DesiredLink} (hne : link.outputPath ≠ [])
    (hparent : w.browse.tree.lookup link.outputPath.dropLast = some .directory)
    (hpath : w.browse.tree.lookup link.outputPath = none ∨
      ∃ target, w.browse.tree.lookup link.outputPath = some (.symlink target))
    (hw : P w.browse.tree.lookup)
    (htemp : ∀ name target,
      w.browse.tree.lookup link.outputPath = some (.symlink target) →
      w.browse.tree.lookup (link.outputPath.dropLast ++ [name]) = none →
      P (placed (link.outputPath.dropLast ++ [name]) link.targetText w.browse.tree.lookup))
    (hend : P (placed link.outputPath (linkTarget w.browse.tree.lookup link)
      w.browse.tree.lookup)) :
    Meets (treeHandler (.faultless uuids)) (fun v => P v.browse.tree.lookup) (applyLink link) w
      (fun _ v => v.browse.tree.lookup = placed link.outputPath
        (linkTarget w.browse.tree.lookup link) w.browse.tree.lookup ∧ v.store = w.store)
      (fun _ _ => False) := by
  apply meets_checkTelemetry_bind uuids hw
  rcases hpath with hfree | ⟨existing, hlink⟩
  · have htarget : linkTarget w.browse.tree.lookup link = link.targetText := by
      simp [linkTarget, hfree]
    rw [htarget] at hend ⊢
    have hstat : w.browse.perform (.symlinkMetadata link.outputPath) =
        (.error .notFound, w.browse) := by
      rw [Disk.perform, Disk.symlinkMetadata_of_free hne hparent hfree]
    obtain ⟨d', hd'⟩ : ∃ d', w.browse.symlink link.targetText link.outputPath = .ok d' :=
      Disk.create_ok hfree (.inr hparent)
    have hcall : w.browse.perform (.symlink link.targetText link.outputPath) = (.ok (), d') := by
      simp [Disk.perform, Disk.perform.unitAnswer, hd']
    have hlook : d'.tree.lookup =
        placed link.outputPath link.targetText w.browse.tree.lookup := by
      ext1 q
      rw [(Disk.create_spec hd').2.1, placed]
    apply meets_treeCall_bind uuids hstat hw
    apply meets_treeCall_bind uuids hcall hw
    exact Program.meets_pure (by rwa [hlook]) ⟨hlook, rfl⟩
  · have hstat : w.browse.perform (.symlinkMetadata link.outputPath) =
        (.ok ⟨.symlink existing, w.browse.len (.symlink existing)⟩, w.browse) := by
      rw [Disk.perform, Disk.symlinkMetadata_of_lookup hlink]
    apply meets_treeCall_bind uuids hstat hw
    dsimp only
    by_cases hsame : samePath existing link.targetText
    · have hkept : w.browse.tree.lookup = placed link.outputPath
          (linkTarget w.browse.tree.lookup link) w.browse.tree.lookup := by
        ext1 q
        by_cases hq : q = link.outputPath
        · simp [hq, placed, linkTarget, hlink, hsame]
        · simp [hq, placed]
      rw [if_pos hsame]
      exact Program.meets_pure hw ⟨hkept, rfl⟩
    · have htarget : linkTarget w.browse.tree.lookup link = link.targetText := by
        simp [linkTarget, hlink, hsame]
      rw [htarget] at hend ⊢
      rw [if_neg hsame]
      exact meets_replaceLink uuids (w := ⟨w.browse, w.store, w.calls + 1 + 1⟩) hne hlink hw
        (fun name hname => htemp name existing hlink hname) hend

end Steps

/-! ## The loops -/

section Loops

variable (uuids : UuidSource) {p : Plan} {tree : BrowseTree} {w : TreeWorld}

/-- The directories are created from the outermost on. -/
theorem meets_createDirectories (hs : p.Sound tree) (hw : w.browse.tree.lookup = tree.tree.lookup) :
    Meets (treeHandler (.faultless uuids)) (fun v => p.Passes tree.tree.lookup v.browse.tree.lookup)
      (forM p.directoriesToCreate createDirectory) w
      (fun _ v => v.browse.tree.lookup = created p.directoriesToCreate tree.tree.lookup ∧
        v.store = w.store) (fun _ _ => False) := by
  refine Program.meets_forM (fun done (v : TreeWorld) =>
    v.browse.tree.lookup = created done tree.tree.lookup ∧ v.store = w.store)
    ⟨by rw [hw]; ext1 q; simp [created], rfl⟩ ?_ ?_
  · rintro v ⟨hlook, -⟩
    rw [hlook]
    exact .create _ List.prefix_rfl
  intro done d rest v hsplit ⟨hlook, hstore⟩
  have hd : d ∈ p.directoriesToCreate := by simp [hsplit]
  have hdone : d ∉ done := by
    have hnodup := hs.sorted.imp (fun h => ne_of_lt h)
    rw [hsplit] at hnodup
    intro hmem
    exact (List.pairwise_append.mp hnodup).2.2 d hmem d (by simp) rfl
  obtain ⟨hfree, habove⟩ := hs.create d hd
  have hin : v.browse.tree.inDirectory d := by
    by_cases hnil : d = []
    · exact .inl hnil
    · have hne := dropLast_ne hnil
      refine .inr ?_
      rw [hlook]
      rcases habove d.dropLast (List.dropLast_prefix d) hne with hmem | hdir
      · have := mem_left_of_lt hs.sorted hsplit hmem (lt_of_isPrefix (List.dropLast_prefix d) hne)
        simp [created, this]
      · simp [created, hdir]
  have hnext : created [d] v.browse.tree.lookup = created (done ++ [d]) tree.tree.lookup := by
    rw [hlook, created_append]
  refine (meets_createDirectory uuids (w := v) (by rw [hlook, created, if_neg hdone, hfree]) hin
    ?_ ?_).mono (fun _ u hu => ⟨hu.1.trans hnext, hu.2.trans hstore⟩) fun _ _ h => h
  · rw [hlook]
    exact .create _ ⟨d :: rest, hsplit.symm⟩
  · rw [hnext]
    exact .create _ ⟨rest, by simp [hsplit]⟩

/-- No desired link is at a path that is to be created as a directory. -/
def Plan.NoShadow (p : Plan) : Prop :=
  ∀ link ∈ p.desired, link.outputPath ∉ p.directoriesToCreate

/-- Where a desired link goes, the loops before see what the plan saw. -/
theorem created_output (hs : p.Sound tree) (hshadow : p.NoShadow) {link : DesiredLink}
    (hlink : link ∈ p.desired) :
    created p.directoriesToCreate tree.tree.lookup link.outputPath = none ∨
      ∃ target, created p.directoriesToCreate tree.tree.lookup link.outputPath =
        some (.symlink target) := by
  simpa [created, hshadow link hlink] using hs.output link hlink

/-- A path above a desired link is a directory once the directories are created. -/
theorem created_above (hs : p.Sound tree) {link : DesiredLink} (hlink : link ∈ p.desired)
    {a : List Name} (ha : a <+: link.outputPath) (hne : a ≠ link.outputPath) :
    created p.directoriesToCreate tree.tree.lookup a = some .directory := by
  unfold created
  rcases hs.above link hlink a ha hne with hmem | hdir
  · rw [if_pos hmem]
  · rw [hdir, ite_self]

/-- A directory is no output path of a desired link. -/
theorem not_mem_outputs (hs : p.Sound tree) (hshadow : p.NoShadow) {q : List Name}
    (hq : created p.directoriesToCreate tree.tree.lookup q = some .directory) :
    q ∉ p.desired.map (·.outputPath) := by
  intro hmem
  obtain ⟨link, hlink, rfl⟩ := List.mem_map.mp hmem
  rcases created_output hs hshadow hlink with h | ⟨target, h⟩
  · simp [h] at hq
  · simp [h] at hq

theorem meets_applyLinks (hs : p.Sound tree) (hshadow : p.NoShadow)
    (hw : w.browse.tree.lookup = created p.directoriesToCreate tree.tree.lookup) :
    Meets (treeHandler (.faultless uuids)) (fun v => p.Passes tree.tree.lookup v.browse.tree.lookup)
      (forM p.desired applyLink) w
      (fun _ v => v.browse.tree.lookup =
        linked p.desired (created p.directoriesToCreate tree.tree.lookup) ∧ v.store = w.store)
      (fun _ _ => False) := by
  set look := created p.directoriesToCreate tree.tree.lookup with hlookdef
  refine Program.meets_forM (fun done (v : TreeWorld) => v.browse.tree.lookup = linked done look ∧
    v.store = w.store) ⟨by rw [hw]; ext1 q; simp [linked], rfl⟩ ?_ ?_
  · rintro v ⟨hlook, -⟩
    rw [hlook]
    exact .link _ List.prefix_rfl
  intro done link rest v hsplit ⟨hlook, hstore⟩
  have hlink : link ∈ p.desired := by simp [hsplit]
  have hsub : ∀ q, q ∉ p.desired.map (·.outputPath) → q ∉ done.map (·.outputPath) := by
    intro q hq hmem
    exact hq (by rw [hsplit, List.map_append]; exact List.mem_append_left _ hmem)
  have hfresh : link.outputPath ∉ done.map (·.outputPath) := by
    have hnodup := hs.distinct
    rw [hsplit, List.map_append, List.map_cons] at hnodup
    exact fun hmem => (List.nodup_append.mp hnodup).2.2 _ hmem _ (by simp) rfl
  have hne := hs.output_ne_nil link hlink
  have hdir : look link.outputPath.dropLast = some .directory :=
    created_above hs hlink (List.dropLast_prefix _) (dropLast_ne hne)
  have hparent : v.browse.tree.lookup link.outputPath.dropLast = some .directory := by
    rw [hlook, linked_of_not_mem (hsub _ (not_mem_outputs hs hshadow hdir)), hdir]
  have hpath : v.browse.tree.lookup link.outputPath = look link.outputPath := by
    rw [hlook, linked_of_not_mem hfresh]
  have htarget : linkTarget v.browse.tree.lookup link = linkTarget look link := by
    simp only [linkTarget, hpath]
  have hnext : placed link.outputPath (linkTarget v.browse.tree.lookup link)
      v.browse.tree.lookup = linked (done ++ [link]) look := by
    rw [htarget, hlook, linked_append hfresh]
  have hdone : done ++ [link] <+: p.desired := ⟨rest, by simp [hsplit]⟩
  refine (meets_applyLink uuids (w := v) hne hparent
    (by rw [hpath]; exact created_output hs hshadow hlink) ?_ ?_ ?_).mono
    (fun _ u hu => ⟨hu.1.trans hnext, hu.2.trans hstore⟩) fun _ _ h => h
  · rw [hlook]
    exact .link _ ⟨link :: rest, hsplit.symm⟩
  · intro name target hold hfree
    rw [hlook] at hold hfree ⊢
    exact .replace done link hdone name target hold hfree
  · rw [hnext]
    exact .link _ hdone

/-- A stale link is still there when the loop over the stale links starts. -/
theorem linked_stale (hs : p.Sound tree) {q : List Name} (hq : q ∈ p.staleOwned) :
    ∃ target, linked p.desired (created p.directoriesToCreate tree.tree.lookup) q =
      some (.symlink target) := by
  obtain ⟨⟨target, hlink⟩, hout⟩ := hs.stale q hq
  have hnot : q ∉ p.directoriesToCreate := by
    intro hmem
    simp [(hs.create q hmem).1] at hlink
  exact ⟨target, by rw [linked_of_not_mem hout, created, if_neg hnot, hlink]⟩

theorem meets_removeStales (hs : p.Sound tree)
    (hw : w.browse.tree.lookup =
      linked p.desired (created p.directoriesToCreate tree.tree.lookup)) :
    Meets (treeHandler (.faultless uuids)) (fun v => p.Passes tree.tree.lookup v.browse.tree.lookup)
      (forM p.staleOwned removeStale) w
      (fun _ v => v.browse.tree.lookup = p.cleaned tree.tree.lookup ∧ v.store = w.store)
      (fun _ _ => False) := by
  set look := linked p.desired (created p.directoriesToCreate tree.tree.lookup) with hlookdef
  refine Program.meets_forM (fun done (v : TreeWorld) =>
    v.browse.tree.lookup = unlinked done look ∧ v.store = w.store)
    ⟨by rw [hw]; ext1 q; simp [unlinked], rfl⟩ ?_ ?_
  · rintro v ⟨hlook, -⟩
    rw [hlook]
    exact .remove _ List.prefix_rfl
  intro done q rest v hsplit ⟨hlook, hstore⟩
  have hq : q ∈ p.staleOwned := by simp [hsplit]
  have hdone : q ∉ done := by
    have hnodup := hs.stale_nodup
    rw [hsplit] at hnodup
    exact fun hmem => (List.nodup_append.mp hnodup).2.2 q hmem q (by simp) rfl
  obtain ⟨target, htarget⟩ := linked_stale hs hq
  have hlink : v.browse.tree.lookup q = some (.symlink target) := by
    rw [hlook, unlinked, if_neg hdone, hlookdef, htarget]
  have hnext : unlinked [q] v.browse.tree.lookup = unlinked (done ++ [q]) look := by
    rw [hlook, unlinked_append]
  refine (meets_removeStale uuids hlink ?_ ?_).mono
    (fun _ u hu => ⟨hu.1.trans hnext, hu.2.trans hstore⟩) fun _ _ h => h
  · rw [hlook]
    exact .remove _ ⟨q :: rest, hsplit.symm⟩
  · rw [hnext]
    exact .remove _ ⟨rest, by simp [hsplit]⟩

/-- A desired link stays when the stale links are removed. -/
theorem cleaned_output (hs : p.Sound tree) {link : DesiredLink} (hlink : link ∈ p.desired) :
    ∃ target, p.cleaned tree.tree.lookup link.outputPath = some (.symlink target) := by
  have hmem : link.outputPath ∈ p.desired.map (·.outputPath) :=
    List.mem_map.mpr ⟨link, hlink, rfl⟩
  have hstale : link.outputPath ∉ p.staleOwned := fun h => (hs.stale _ h).2 hmem
  obtain ⟨target, htarget⟩ :
      ∃ target, linked p.desired (created p.directoriesToCreate tree.tree.lookup)
        link.outputPath = some (.symlink target) := linked_of_mem hmem
  exact ⟨target, by rw [Plan.cleaned, unlinked, if_neg hstale, htarget]⟩

/-- A directory that is there at the start is there until directories are pruned. -/
theorem cleaned_directory (hs : p.Sound tree) (hshadow : p.NoShadow) {d : List Name}
    (hd : tree.tree.lookup d = some .directory) :
    p.cleaned tree.tree.lookup d = some .directory := by
  have hcreated : created p.directoriesToCreate tree.tree.lookup d = some .directory := by
    rw [created, hd, ite_self]
  have hstale : d ∉ p.staleOwned := by
    intro hmem
    obtain ⟨⟨target, hlink⟩, -⟩ := hs.stale d hmem
    simp [hd] at hlink
  rw [Plan.cleaned, unlinked, if_neg hstale,
    linked_of_not_mem (not_mem_outputs hs hshadow hcreated), hcreated]

/-- Whatever is new after the links are made is above or at a desired path. -/
theorem below_of_cleaned (hs : p.Sound tree) {q : List Name} (hne : q ≠ [])
    (hold : tree.tree.lookup q = none) (hnew : p.cleaned tree.tree.lookup q ≠ none) :
    ∃ link ∈ p.desired, q <+: link.outputPath := by
  by_cases hout : q ∈ p.desired.map (·.outputPath)
  · obtain ⟨link, hlink, rfl⟩ := List.mem_map.mp hout
    exact ⟨link, hlink, List.prefix_rfl⟩
  · rw [Plan.cleaned, unlinked, linked_of_not_mem hout, created, hold] at hnew
    by_cases hdir : q ∈ p.directoriesToCreate
    · obtain ⟨link, hlink, hpre, -⟩ := (hs.create_below q hdir).resolve_left hne
      exact ⟨link, hlink, hpre⟩
    · simp [hdir] at hnew

theorem pruned_append (links : List DesiredLink) (dirs : List (List Name)) (d : List Name)
    (look : TreeLookup) (q : List Name) : pruned links (dirs ++ [d]) look q =
      if q = d ∧ ¬ ∃ link ∈ links, d <+: link.outputPath then none
      else pruned links dirs look q := by
  unfold pruned
  by_cases hq : q = d
  · subst hq
    by_cases hlink : ∃ link ∈ links, q <+: link.outputPath
    · simp [hlink]
    · rw [if_pos ⟨by simp, hlink⟩, if_pos ⟨rfl, hlink⟩]
  · simp [hq]

/-- When it is its turn, a directory to prune is empty unless a desired link is below it. -/
theorem vacant_iff_of_pruned (hs : p.Sound tree) {t : FileTree Name ℕ Bytes}
    {done rest : List (List Name)} {d : List Name}
    (hsplit : p.directoriesToPrune = done ++ d :: rest)
    (hlook : ∀ q, t.lookup q = pruned p.desired done (p.cleaned tree.tree.lookup) q) :
    t.vacant d ↔ ¬ ∃ link ∈ p.desired, d <+: link.outputPath := by
  obtain ⟨-, hdir, hentries⟩ := hs.prune d (by simp [hsplit])
  rw [FileTree.vacant_iff]
  constructor
  · rintro hempty ⟨link, hlink, r, hr⟩
    obtain ⟨target, htarget⟩ := cleaned_output hs hlink
    have hout : t.lookup link.outputPath = some (.symlink target) := by
      rw [hlook, pruned, if_neg, htarget]
      exact fun h => h.2 ⟨link, hlink, List.prefix_rfl⟩
    cases r with
    | nil =>
        rw [List.append_nil] at hr
        rcases hs.output link hlink with h | ⟨_, h⟩
        · simp [← hr, hdir] at h
        · simp [← hr, hdir] at h
    | cons n r =>
        -- the first name below the directory on the way to the link
        have hpre : d ++ [n] <+: link.outputPath := ⟨r, by simpa using hr⟩
        have hnext := hempty n
        by_cases heq : d ++ [n] = link.outputPath
        · simp [heq, hout] at hnext
        · have := FileTree.lookup_of_isPrefix (t := t) (by simp [hout]) hpre heq
          simp [this] at hnext
  · intro hnone n
    have hbelow : ¬ ∃ link ∈ p.desired, d ++ [n] <+: link.outputPath := by
      rintro ⟨link, hlink, hpre⟩
      exact hnone ⟨link, hlink, (List.prefix_append d [n]).trans hpre⟩
    rw [hlook]
    cases hold : tree.tree.lookup (d ++ [n]) with
    | none =>
        by_contra hsome
        refine hbelow (below_of_cleaned hs (by simp) hold fun hcleaned => hsome ?_)
        rw [pruned, hcleaned, ite_self]
    | some node =>
        have hchild : d ++ [n] ∈ tree.tree.children d :=
          FileTree.append_mem_children.mpr (by simp [hold])
        rcases hentries _ hchild with hstale | hprune
        · rw [pruned, Plan.cleaned, unlinked, if_pos hstale, ite_self]
        · have hmem := mem_left_of_gt hs.prune_sorted hsplit hprune (lt_of_mem_children hchild)
          rw [pruned, if_pos ⟨hmem, hbelow⟩]

/-- Directories are pruned from the innermost on. -/
theorem meets_pruneDirectories (hs : p.Sound tree) (hshadow : p.NoShadow)
    (hw : w.browse.tree.lookup = p.cleaned tree.tree.lookup) :
    Meets (treeHandler (.faultless uuids)) (fun v => p.Passes tree.tree.lookup v.browse.tree.lookup)
      (forM p.directoriesToPrune pruneDirectory) w
      (fun _ v => v.browse.tree.lookup = p.applied tree.tree.lookup ∧ v.store = w.store)
      (fun _ _ => False) := by
  refine Program.meets_forM (fun done (v : TreeWorld) => v.browse.tree.lookup =
    pruned p.desired done (p.cleaned tree.tree.lookup) ∧ v.store = w.store)
    ⟨by rw [hw]; ext1 q; simp [pruned], rfl⟩ ?_ ?_
  · rintro v ⟨hlook, -⟩
    rw [hlook]
    exact .prune _ List.prefix_rfl
  intro done d rest v hsplit ⟨hlook, hstore⟩
  obtain ⟨-, hdir, -⟩ := hs.prune d (by simp [hsplit])
  have hdone : d ∉ done := by
    have hsorted := hs.prune_sorted
    rw [hsplit] at hsorted
    intro hmem
    exact lt_irrefl d ((List.pairwise_append.mp hsorted).2.2 d hmem d (by simp))
  have hcurrent : v.browse.tree.lookup d = some .directory := by
    rw [hlook, pruned, if_neg (fun h => hdone h.1), cleaned_directory hs hshadow hdir]
  have hnext : prunedAt v.browse d =
      pruned p.desired (done ++ [d]) (p.cleaned tree.tree.lookup) := by
    ext1 q
    rw [prunedAt, pruned_append, hlook]
    simp only [vacant_iff_of_pruned hs hsplit (fun q => congrFun hlook q)]
  refine (meets_pruneDirectory uuids (w := v) hcurrent ?_ ?_).mono
    (fun _ u hu => ⟨hu.1.trans hnext, hu.2.trans hstore⟩) fun _ _ h => h
  · rw [hlook]
    exact .prune _ ⟨d :: rest, hsplit.symm⟩
  · rw [hnext]
    exact .prune _ ⟨rest, by simp [hsplit]⟩

/-- A sound plan without shadowed links is applied. -/
theorem meets_apply (hs : p.Sound w.browse) (hshadow : p.NoShadow) :
    Meets (treeHandler (.faultless uuids))
      (fun v => p.Passes w.browse.tree.lookup v.browse.tree.lookup) (apply p) w
      (fun _ v => v.browse.tree.lookup = p.applied w.browse.tree.lookup ∧ v.store = w.store)
      (fun _ _ => False) := by
  refine (meets_createDirectories uuids hs rfl).bind (fun _ w₁ _ h₁ => ?_) fun _ _ h => h
  refine (meets_applyLinks uuids hs hshadow h₁.1).bind (fun _ w₂ _ h₂ => ?_) fun _ _ h => h
  refine (meets_removeStales uuids hs h₂.1).bind (fun _ w₃ _ h₃ => ?_) fun _ _ h => h
  refine (meets_pruneDirectories uuids hs hshadow h₃.1).mono (fun _ w₄ h₄ => ⟨h₄.1, ?_⟩)
    fun _ _ h => h
  rw [h₄.2, h₃.2, h₂.2, h₁.2]

theorem exec_apply (hs : p.Sound w.browse) (hshadow : p.NoShadow) :
    ∃ w', Program.exec (treeHandler (.faultless uuids)) (apply p) w = (.ok (), w') ∧
      (∀ q, w'.browse.tree.lookup q = p.applied w.browse.tree.lookup q) ∧
      w'.store = w.store := by
  obtain ⟨_, w', hrun, hlook, hstore⟩ := (meets_apply uuids hs hshadow).exists_ok
  exact ⟨w', hrun, congrFun hlook, hstore⟩

/-! ## The conflict that is left -/

/-- A link that is made never takes the place of a directory. -/
theorem applyLink_keeps_directory {link : DesiredLink} {w' : TreeWorld} {q : List Name}
    (hrun : Program.exec (treeHandler (.faultless uuids)) (applyLink link) w = (.ok (), w'))
    (hq : w.browse.tree.lookup q = some .directory) :
    w'.browse.tree.lookup q = some .directory := by
  rw [applyLink, exec_checkTelemetry_bind, applyDesiredLink, exec_treeCall_bind] at hrun
  dsimp only [Disk.perform] at hrun
  split at hrun
  · split_ifs at hrun
    · obtain rfl := congrArg Prod.snd hrun
      exact hq
    · rw [replaceLink, exec_newUuid_bind, exec_treeCall_bind, Program.exec_bind_eq_ok] at hrun
      obtain ⟨⟨⟩, v, hv, hrun⟩ := hrun
      obtain ⟨-, rfl⟩ := (exec_expectOk_eq_ok _).mp hv
      rw [exec_treeCall_bind] at hrun
      split at hrun
      · obtain rfl := congrArg Prod.snd hrun
        exact Disk.rename_keeps_directory (Disk.symlink_keeps_directory hq)
      · rw [exec_treeCall_bind] at hrun
        simp at hrun
  · simp at hrun
  · rw [exec_treeCall_bind] at hrun
    obtain ⟨-, rfl⟩ := (exec_expectOk_eq_ok _).mp hrun
    exact Disk.symlink_keeps_directory hq
  · simp at hrun

/-- A link is not made where there is a directory. -/
theorem applyLink_of_directory {link : DesiredLink}
    (hdir : w.browse.tree.lookup link.outputPath = some .directory) (w' : TreeWorld) :
    Program.exec (treeHandler (.faultless uuids)) (applyLink link) w ≠ (.ok (), w') := by
  have hstat : w.browse.perform (.symlinkMetadata link.outputPath) =
      (.ok ⟨.directory, w.browse.len .directory⟩, w.browse) := by
    rw [Disk.perform, Disk.symlinkMetadata_of_lookup hdir]
  rw [applyLink, exec_checkTelemetry_bind, applyDesiredLink, exec_treeCall_bind, hstat]
  simp

/-- A sound plan with a shadowed link is not applied. -/
theorem exec_apply_ne_ok (hs : p.Sound w.browse) (hshadow : ¬ p.NoShadow) (w' : TreeWorld) :
    Program.exec (treeHandler (.faultless uuids)) (apply p) w ≠ (.ok (), w') := by
  unfold Plan.NoShadow at hshadow
  push Not at hshadow
  obtain ⟨link, hlink, hcreate⟩ := hshadow
  obtain ⟨_, w₁, hrun₁, hlook₁, -⟩ := (meets_createDirectories uuids hs rfl).exists_ok
  have hdir : w₁.browse.tree.lookup link.outputPath = some .directory := by
    rw [hlook₁, created, if_pos hcreate]
  intro hrun
  unfold apply at hrun
  rw [Program.exec_bind_eq_ok] at hrun
  obtain ⟨⟨⟩, u, hu, hrest⟩ := hrun
  obtain rfl : w₁ = u := congrArg Prod.snd (hrun₁.symm.trans hu)
  rw [Program.exec_bind_eq_ok] at hrest
  obtain ⟨⟨⟩, v, hv, -⟩ := hrest
  exact Program.exec_forM_ne_ok (treeHandler (.faultless uuids)) (f := applyLink) (x := link)
    (fun v => v.browse.tree.lookup link.outputPath = some .directory) hdir
    (fun _ _ _ hv hx => applyLink_keeps_directory uuids hx hv) hlink
    (fun _ t hv => applyLink_of_directory uuids hv t) v hv

end Loops

end MediaImporter
