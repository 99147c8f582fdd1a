import MediaImporter.Materialize.Prune

/-!
# What a successful run leaves behind

After a run that succeeds, the links of the tree that lead into the CAS are one for each
live entry, and nothing else of the tree has changed except the directories around them.
The text of a new or replaced link is the relative text that leads to the blob. A link that
was there already is kept when its text has the same components, so a text with a doubled
slash, an inner `.` or a trailing slash survives although it is not that relative text.

## Main definitions

* `Built` — the links, the rest of the tree and the store after a run.
* `KeepsCanonical` — no link with another text for the same path is kept.
* `built_iff` — a run leaves this behind exactly under that condition.
-/

namespace MediaImporter

open Utf8 UnixPath PathOrder

/-! ## Links that lead into the CAS -/

/-- Hexadecimal digits make a file name. -/
theorem isName_of_isLowerHex {text : Text} (hne : text ≠ []) (h : ∀ c ∈ text, isLowerHex c) :
    IsName (utf8 text) := by
  have hdot : ∀ skipped : Text, '.' ∈ skipped → utf8 text ≠ utf8 skipped := by
    intro skipped hmem heq
    rw [← utf8_inj.mp heq] at hmem
    exact absurd (h '.' hmem) (by decide)
  refine ⟨⟨fun hnil => hne (utf8_inj.mp hnil), ?_, hdot ['.'] (by simp)⟩,
    hdot ['.', '.'] (by simp)⟩
  intro hslash
  have hmem : '/' ∈ text := (mem_utf8_iff '/' (by decide) text).mp hslash
  exact absurd (h '/' hmem) (by decide)

theorem isName_of_mem_blobPath {hash : BlobHash} {n : Name} (h : n ∈ blobPath hash) : IsName n := by
  have hhex := hash.valid.2
  have hlen := hash.valid.1
  have hsub : ∀ text : Text, text ≠ [] → text ⊆ hash.text → IsName (utf8 text) :=
    fun text hne hsub => isName_of_isLowerHex hne fun c hc => hhex c (hsub hc)
  have hne : ∀ text : Text, 0 < text.length → text ≠ [] :=
    fun text hpos => List.length_pos_iff.mp hpos
  simp only [blobPath, blobNames, List.mem_cons, List.not_mem_nil, or_false] at h
  rcases h with rfl | rfl | rfl | rfl
  · exact ⟨⟨by decide, by decide, by decide⟩, by decide⟩
  · exact hsub _ (hne _ (by rw [List.length_take]; omega)) (List.take_subset _ _)
  · refine hsub _ (hne _ (by rw [List.length_take, List.length_drop]; omega)) ?_
    exact List.Subset.trans (List.take_subset _ _) (List.drop_subset _ _)
  · exact hsub _ (hne _ (by omega)) (List.Subset.refl _)

/-- The relative text that leads from the output of an entry to its blob. -/
def LiveMaterializationEntry.targetText (config : BuildTreeConfig)
    (entry : LiveMaterializationEntry) : Except String Bytes :=
  relativeSymlinkTarget (config.browseTreeRoot ++ (entry.output config).dropLast)
    (config.storeRoot ++ blobPath entry.blobHash)

/-- A text with the components of the relative text leads into the CAS. -/
theorem pointsInsideBlobs_of_samePath {config : BuildTreeConfig} {e : LiveMaterializationEntry}
    {text target : Bytes} (hnames : ∀ n ∈ config.storeRoot, IsName n)
    (htext : e.targetText config = .ok text) (hsame : samePath target text) :
    pointsInsideBlobs (config.browseTreeRoot ++ (e.output config).dropLast) target
      config.blobsDir = .ok true := by
  obtain ⟨dest, hdest, htarget⟩ := normalizedSymlinkTarget_relative (by
    intro n hn
    rcases List.mem_append.mp hn with hn | hn
    · exact hnames n hn
    · exact isName_of_mem_blobPath hn) htext
  have hinside : config.blobsDir <+: dest.map utf8 := by
    rw [← hdest, BuildTreeConfig.blobsDir, blobPath]
    exact ⟨blobNames e.blobHash, by simp⟩
  rw [pointsInsideBlobs, normalizedSymlinkTarget_congr hsame, htarget, Except.ok_bind]
  simp [hinside]

/-! ## The postcondition -/

/-- What a run leaves behind. -/
structure Built (config : BuildTreeConfig) (entries : List LiveMaterializationEntry)
    (before after : TreeWorld) : Prop where
  /-- At every output path is a link with exactly the relative text that leads to the blob. -/
  linked : ∀ e ∈ entries, ∃ text, e.targetText config = .ok text ∧
    after.browse.tree.lookup (e.output config) = some (.symlink text)
  /-- No other link leads into the CAS. -/
  owned : ∀ q, isOwnedSymlink config after.browse q = .ok true ↔
    ∃ e ∈ entries, e.output config = q
  /-- Files, other links and special entries are unchanged. -/
  kept : ∀ q node, before.browse.tree.lookup q = some node → node ≠ .directory →
    isOwnedSymlink config before.browse q ≠ .ok true → after.browse.tree.lookup q = some node
  files : before.browse.SameFiles after.browse
  /-- A directory stays, or it is removed from above a removed link. -/
  directories : ∀ q, before.browse.tree.lookup q = some .directory →
    after.browse.tree.lookup q = some .directory ∨
      q ≠ [] ∧ after.browse.tree.lookup q = none ∧
        ∃ s, isOwnedSymlink config before.browse s = .ok true ∧
          after.browse.tree.lookup s = none ∧ q <+: s
  /-- What is new is an output, or the root or a directory above an output. -/
  added : ∀ q, before.browse.tree.lookup q = none → after.browse.tree.lookup q ≠ none →
    (∃ e ∈ entries, e.output config = q) ∨
      after.browse.tree.lookup q = some .directory ∧
        (q = [] ∨ ∃ e ∈ entries, q <+: e.output config)
  /-- The store loses what is below staging and nothing else. -/
  store : Purged before.store after.store
  storeFiles : before.store.SameFiles after.store

/-- A link at an output path whose text has the components of the relative text has that
text. -/
def KeepsCanonical (config : BuildTreeConfig) (tree : BrowseTree)
    (entries : List LiveMaterializationEntry) : Prop :=
  ∀ e ∈ entries, ∀ target text, tree.tree.lookup (e.output config) = some (.symlink target) →
    e.targetText config = .ok text → samePath target text → target = text

/-! ## Applying a plan changes no file -/

/-- The call fills no file of the tree. -/
def TreeCall.KeepsFiles : TreeCall → Prop
  | .tree call => call.KeepsFiles
  | _ => True

/-- A program that fills no file of the tree. -/
abbrev KeepingFiles (p : TreeProgram Unit) : Prop :=
  Program.ObeysT (fun _ _ => True) TreeCall.KeepsFiles (fun _ => True) p

theorem keepingFiles_bind {call : TreeCall} {f : TreeAnswer call → TreeProgram Unit}
    (hcall : call.KeepsFiles) (hf : ∀ r, KeepingFiles (f r)) :
    KeepingFiles (treeCall call >>= f) :=
  (Program.obeysT_requestT hcall).bind fun r _ => hf r

theorem keepingFiles_expectOk (answer : Except IoError Unit) (context : String) :
    KeepingFiles (expectOk answer context) := by
  cases answer with
  | error e => exact Program.obeysT_throw _
  | ok u => exact Program.obeysT_pure trivial

theorem keepingFiles_checkTelemetry {f : Unit → TreeProgram Unit} (hf : KeepingFiles (f ())) :
    KeepingFiles (checkTelemetry >>= f) := by
  have hcheck : KeepingFiles checkTelemetry := by
    refine keepingFiles_bind trivial fun failed => ?_
    split
    · exact Program.obeysT_throw _
    · exact Program.obeysT_pure trivial
  exact hcheck.bind fun _ _ => hf

theorem keepingFiles_replaceLink (link : DesiredLink) : KeepingFiles (replaceLink link) := by
  refine keepingFiles_bind trivial fun uuid => keepingFiles_bind trivial fun made => ?_
  refine (keepingFiles_expectOk made _).bind fun _ _ => keepingFiles_bind trivial fun moved => ?_
  split
  · exact Program.obeysT_pure trivial
  · exact keepingFiles_bind trivial fun _ => Program.obeysT_throw _

theorem keepingFiles_applyLink (link : DesiredLink) : KeepingFiles (applyLink link) := by
  refine keepingFiles_checkTelemetry (keepingFiles_bind trivial fun metadata => ?_)
  split
  · split
    · exact Program.obeysT_pure trivial
    · exact keepingFiles_replaceLink link
  · exact Program.obeysT_throw _
  · exact keepingFiles_bind trivial fun made => keepingFiles_expectOk made _
  · exact Program.obeysT_throw _

theorem keepingFiles_pruneDirectory (dir : List Name) : KeepingFiles (pruneDirectory dir) := by
  refine keepingFiles_checkTelemetry (keepingFiles_bind trivial fun removed => ?_)
  split
  · exact Program.obeysT_pure trivial
  · exact Program.obeysT_pure trivial
  · exact Program.obeysT_pure trivial
  · exact Program.obeysT_throw _

theorem keepingFiles_apply (p : Plan) : KeepingFiles (apply p) := by
  have hcreate : ∀ dir, KeepingFiles (createDirectory dir) := fun dir =>
    keepingFiles_checkTelemetry (keepingFiles_bind trivial fun made => keepingFiles_expectOk made _)
  have hstale : ∀ path, KeepingFiles (removeStale path) := fun path =>
    keepingFiles_checkTelemetry (keepingFiles_bind trivial fun gone => keepingFiles_expectOk gone _)
  refine (Program.obeysT_forM fun dir _ => hcreate dir).bind fun _ _ => ?_
  refine (Program.obeysT_forM fun link _ => keepingFiles_applyLink link).bind fun _ _ => ?_
  refine (Program.obeysT_forM fun path _ => hstale path).bind fun _ _ => ?_
  exact Program.obeysT_forM fun dir _ => keepingFiles_pruneDirectory dir

theorem sameFiles_apply (uuids : UuidSource) {p : Plan} {w w' : TreeWorld}
    {r : Except String Unit}
    (hrun : Program.exec (treeHandler (.faultless uuids)) (apply p) w = (r, w')) :
    w.browse.SameFiles w'.browse := by
  obtain rfl : _ = w' := congrArg Prod.snd hrun
  refine Program.ObeysT.exec_snd _ (P := fun v : TreeWorld => w.browse.SameFiles v.browse)
    (fun _ _ _ => trivial) ?_ (keepingFiles_apply p) (Disk.SameFiles.refl _)
  intro call v hcall hv
  cases call with
  | tree call => exact hv.trans (Disk.sameFiles_perform hcall)
  | store _ | view | newUuid | telemetryFailed => exact hv

/-! ## The links after a run -/

section Links

variable {config : BuildTreeConfig} {c : Catalog} {store : Store} {tree : BrowseTree} {p : Plan}
  {entries : List LiveMaterializationEntry}

theorem targetText_of_desiredLink {e : LiveMaterializationEntry} {link : DesiredLink}
    (h : desiredLink config store e = .ok link) : e.targetText config = .ok link.targetText := by
  simp only [desiredLink, Except.bind_eq_ok, Except.pure_eq_ok, Except.ok.injEq] at h
  obtain ⟨-, -, targetText, htext, rfl⟩ := h
  exact htext

theorem mem_desired_of_plan (hplan : plan config c store tree = .ok p)
    (he : liveMaterializationEntries c = .ok entries) :
    (∀ e ∈ entries, ∃ link, desiredLink config store e = .ok link) ∧
      ∀ link, link ∈ p.desired ↔ ∃ e ∈ entries, desiredLink config store e = .ok link := by
  obtain ⟨-, entries', desired, owned, actions, toCreate, he', hdesired, -, -, -, rfl⟩ :=
    plan_eq_ok_iff.mp hplan
  obtain rfl : entries = entries' := Except.ok.inj (he.symm.trans he')
  exact mem_desiredByOutput hdesired

/-- Every live entry has its link in the plan. -/
theorem exists_link_of_plan (hplan : plan config c store tree = .ok p)
    (he : liveMaterializationEntries c = .ok entries) {e : LiveMaterializationEntry}
    (hem : e ∈ entries) : ∃ link ∈ p.desired, link.outputPath = e.output config ∧
      e.targetText config = .ok link.targetText := by
  obtain ⟨hall, hmem⟩ := mem_desired_of_plan hplan he
  obtain ⟨link, hlink⟩ := hall e hem
  exact ⟨link, (hmem link).mpr ⟨e, hem, hlink⟩, outputPath_of_desiredLink hlink,
    targetText_of_desiredLink hlink⟩

/-- The link at an output path leads into the CAS already before the run. -/
theorem owned_output (hplan : plan config c store tree = .ok p) {link : DesiredLink}
    (hlink : link ∈ p.desired) {target : Bytes}
    (hlook : tree.tree.lookup link.outputPath = some (.symlink target)) :
    isOwnedSymlink config tree link.outputPath = .ok true := by
  obtain ⟨-, entries, desired, owned, actions, toCreate, -, -, -, hactions, -, rfl⟩ :=
    plan_eq_ok_iff.mp hplan
  obtain ⟨action, haction⟩ : ∃ a, linkAction config tree link = .ok a := by
    have hall := Except.mapM_eq_ok_iff.mp hactions
    obtain ⟨i, hi, rfl⟩ := List.getElem_of_mem hlink
    exact ⟨_, hall.get hi (hall.length_eq ▸ hi)⟩
  unfold linkAction statOutput at haction
  split_ifs at haction with hname
  rw [Disk.symlinkMetadata_of_lookup hlook] at haction
  simp only [Except.bind_eq_ok, Except.ensure_eq_ok_iff] at haction
  obtain ⟨inside, hinside, -, rfl, -⟩ := haction
  simpa [isOwnedSymlink, hlook] using hinside

/-- At an output path there is its link. -/
theorem applied_output (hs : p.Sound tree) (hshadow : p.NoShadow) {link : DesiredLink}
    (hlink : link ∈ p.desired) : p.applied tree.tree.lookup link.outputPath =
      some (.symlink (linkTarget tree.tree.lookup link)) := by
  have hstale : link.outputPath ∉ p.staleOwned :=
    fun h => (hs.stale _ h).2 (List.mem_map_of_mem hlink)
  have hcreated : created p.directoriesToCreate tree.tree.lookup link.outputPath =
      tree.tree.lookup link.outputPath := if_neg (hshadow link hlink)
  rw [Plan.applied, pruned, if_neg fun h => h.2 ⟨link, hlink, List.prefix_rfl⟩, Plan.cleaned,
    unlinked, if_neg hstale, linked_output hs.distinct hlink]
  simp only [linkTarget, hcreated]

/-- What is no directory and neither an output nor stale is left alone. -/
theorem applied_other (hs : p.Sound tree) {q : List Name}
    (hout : q ∉ p.desired.map (·.outputPath)) (hstale : q ∉ p.staleOwned)
    {node : FileNode ℕ Bytes} (hnode : node ≠ .directory) :
    p.applied tree.tree.lookup q = some node ↔ tree.tree.lookup q = some node := by
  have hprune : q ∈ p.directoriesToPrune → tree.tree.lookup q = some .directory :=
    fun hq => (hs.prune q hq).2.1
  rw [Plan.applied, pruned, Plan.cleaned, unlinked, if_neg hstale, linked_of_not_mem hout, created]
  by_cases hcreate : q ∈ p.directoriesToCreate
  · rw [if_pos hcreate, (hs.create q hcreate).1]
    refine iff_of_false ?_ (by simp)
    split_ifs
    · simp
    · simpa using hnode.symm
  · rw [if_neg hcreate]
    by_cases hq : q ∈ p.directoriesToPrune ∧ ¬ ∃ link ∈ p.desired, q <+: link.outputPath
    · rw [if_pos hq, hprune hq.1]
      simpa using hnode.symm
    · rw [if_neg hq]

/-- A stale link is gone. -/
theorem applied_stale {q : List Name} (hq : q ∈ p.staleOwned) :
    p.applied tree.tree.lookup q = none := by
  rw [Plan.applied, pruned, Plan.cleaned, unlinked, if_pos hq, ite_self]

/-- After the run the links that lead into the CAS are those at the output paths. -/
theorem owned_applied_iff {after : BrowseTree} (hnames : ∀ n ∈ config.storeRoot, IsName n)
    (hroot : validateBrowseTreeRoot tree = .ok ()) (hplan : plan config c store tree = .ok p)
    (he : liveMaterializationEntries c = .ok entries) (hshadow : p.NoShadow)
    (hafter : ∀ q, after.tree.lookup q = p.applied tree.tree.lookup q) (q : List Name) :
    isOwnedSymlink config after q = .ok true ↔ ∃ e ∈ entries, e.output config = q := by
  have hs := plan_sound hroot hplan
  constructor
  · intro howned
    obtain ⟨target, hlook⟩ := lookup_of_isOwnedSymlink howned
    rw [← mem_outputs_of_plan hplan he]
    by_contra hout
    have hstale : q ∉ p.staleOwned := by
      intro hmem
      simp [hafter, applied_stale hmem] at hlook
    have hbefore : tree.tree.lookup q = some (.symlink target) :=
      (applied_other hs hout hstale (by simp)).mp ((hafter q).symm.trans hlook)
    -- the link was there before, so it is stale
    refine hstale ((mem_staleOwned_iff hplan he).mpr ⟨?_, ?_, fun e hem heq => ?_⟩)
    · rintro rfl
      rcases lookup_root hroot with h | h
      · simp [h] at hbefore
      · simp [h] at hbefore
    · simpa [isOwnedSymlink, hlook, hbefore] using howned
    · exact hout ((mem_outputs_of_plan hplan he).mpr ⟨e, hem, heq⟩)
  · rintro ⟨e, hem, rfl⟩
    obtain ⟨link, hlink, hout, htext⟩ := exists_link_of_plan hplan he hem
    have hlook := (hafter _).trans (applied_output hs hshadow hlink)
    rw [hout] at hlook
    have hsame : samePath (linkTarget tree.tree.lookup link) link.targetText := by
      unfold linkTarget
      split
      · split_ifs with hsame
        · exact hsame
        · rfl
      · rfl
    simpa [isOwnedSymlink, hlook] using pointsInsideBlobs_of_samePath hnames htext hsame

/-- The text of every link is the relative text exactly when no other text is kept. -/
theorem linked_iff {after : BrowseTree} (hroot : validateBrowseTreeRoot tree = .ok ())
    (hplan : plan config c store tree = .ok p) (he : liveMaterializationEntries c = .ok entries)
    (hshadow : p.NoShadow) (hafter : ∀ q, after.tree.lookup q = p.applied tree.tree.lookup q) :
    (∀ e ∈ entries, ∃ text, e.targetText config = .ok text ∧
      after.tree.lookup (e.output config) = some (.symlink text)) ↔
      KeepsCanonical config tree entries := by
  have hlook : ∀ e ∈ entries, ∃ link : DesiredLink, link.outputPath = e.output config ∧
      e.targetText config = .ok link.targetText ∧
      after.tree.lookup (e.output config) =
        some (.symlink (linkTarget tree.tree.lookup link)) := by
    intro e hem
    obtain ⟨link, hlink, hout, htext⟩ := exists_link_of_plan hplan he hem
    refine ⟨link, hout, htext, ?_⟩
    rw [hafter, ← hout, applied_output (plan_sound hroot hplan) hshadow hlink]
  constructor
  · intro hlinked e hem target text hbefore htext hsame
    obtain ⟨link, hout, hlinkText, hlink⟩ := hlook e hem
    obtain ⟨text', htext', hafter'⟩ := hlinked e hem
    obtain rfl : link.targetText = text := Except.ok.inj (hlinkText.symm.trans htext)
    obtain rfl : link.targetText = text' := Except.ok.inj (hlinkText.symm.trans htext')
    have hkept : linkTarget tree.tree.lookup link = target := by
      simp [linkTarget, hout, hbefore, hsame]
    rw [hlink, hkept] at hafter'
    simpa using hafter'
  · intro hkeeps e hem
    obtain ⟨link, hout, htext, hlink⟩ := hlook e hem
    refine ⟨link.targetText, htext, ?_⟩
    rw [hlink]
    unfold linkTarget
    split
    · rename_i existing hbefore
      split_ifs with hsame
      · rw [hkeeps e hem existing _ (hout ▸ hbefore) htext hsame]
      · rfl
    · rfl

/-- A directory stays, or it is removed from above a removed link. -/
theorem directory_applied (hroot : validateBrowseTreeRoot tree = .ok ())
    (hplan : plan config c store tree = .ok p) (he : liveMaterializationEntries c = .ok entries)
    (hshadow : p.NoShadow) {q : List Name} (hq : tree.tree.lookup q = some .directory) :
    p.applied tree.tree.lookup q = some .directory ∨
      q ≠ [] ∧ p.applied tree.tree.lookup q = none ∧
        ∃ s, isOwnedSymlink config tree s = .ok true ∧
          p.applied tree.tree.lookup s = none ∧ q <+: s := by
  have hs := plan_sound hroot hplan
  rw [Plan.applied, pruned, cleaned_directory hs hshadow hq]
  by_cases hprune : q ∈ p.directoriesToPrune ∧ ¬ ∃ link ∈ p.desired, q <+: link.outputPath
  · rw [if_pos hprune]
    have hchosen := hprune.1
    rw [directoriesToPrune_of_plan hplan] at hchosen
    obtain ⟨⟨s, hstale, hanc⟩, -⟩ := mem_directoriesToPrune.mp hchosen
    exact .inr ⟨(hs.prune q hprune.1).1, rfl, s, ((mem_staleOwned_iff hplan he).mp hstale).2.1,
      applied_stale hstale, (mem_ancestors.mp hanc).1⟩
  · rw [if_neg hprune]
    exact .inl rfl

/-- What is new is an output, or the root or a directory above an output. -/
theorem added_applied (hroot : validateBrowseTreeRoot tree = .ok ())
    (hplan : plan config c store tree = .ok p) (he : liveMaterializationEntries c = .ok entries)
    {q : List Name} (hq : tree.tree.lookup q = none)
    (hnew : p.applied tree.tree.lookup q ≠ none) :
    (∃ e ∈ entries, e.output config = q) ∨
      p.applied tree.tree.lookup q = some .directory ∧
        (q = [] ∨ ∃ e ∈ entries, q <+: e.output config) := by
  have hs := plan_sound hroot hplan
  rw [← mem_outputs_of_plan hplan he]
  by_cases hout : q ∈ p.desired.map (·.outputPath)
  · exact .inl hout
  · have hprune : q ∉ p.directoriesToPrune := by
      intro hmem
      simp [(hs.prune q hmem).2.1] at hq
    have hstale : q ∉ p.staleOwned := fun hmem => hnew (applied_stale hmem)
    have happlied : p.applied tree.tree.lookup q =
        created p.directoriesToCreate tree.tree.lookup q := by
      rw [Plan.applied, pruned, if_neg fun h => hprune h.1, Plan.cleaned, unlinked, if_neg hstale,
        linked_of_not_mem hout]
    rw [happlied, created, hq] at hnew
    rw [happlied, created]
    by_cases hcreate : q ∈ p.directoriesToCreate
    · refine .inr ⟨if_pos hcreate, (hs.create_below q hcreate).imp id ?_⟩
      rintro ⟨link, hlink, hpre, -⟩
      obtain ⟨e, hem, heq⟩ := (mem_outputs_of_plan hplan he).mp (List.mem_map_of_mem hlink)
      exact ⟨e, hem, heq ▸ hpre⟩
    · simp [hcreate] at hnew

/-- Files, links that lead elsewhere and special entries are left alone. -/
theorem kept_applied (hroot : validateBrowseTreeRoot tree = .ok ())
    (hplan : plan config c store tree = .ok p) (he : liveMaterializationEntries c = .ok entries)
    {q : List Name} {node : FileNode ℕ Bytes} (hq : tree.tree.lookup q = some node)
    (hnode : node ≠ .directory) (howned : isOwnedSymlink config tree q ≠ .ok true) :
    p.applied tree.tree.lookup q = some node := by
  have hs := plan_sound hroot hplan
  refine (applied_other hs ?_ ?_ hnode).mpr hq
  · intro hout
    obtain ⟨link, hlink, rfl⟩ := List.mem_map.mp hout
    rcases hs.output link hlink with hfree | ⟨target, hlook⟩
    · simp [hfree] at hq
    · exact howned (owned_output hplan hlink hlook)
  · intro hstale
    exact howned ((mem_staleOwned_iff hplan he).mp hstale).2.1

end Links

/-- A run that succeeds leaves exactly one link for each live entry that leads into the CAS,
with exactly the relative text that leads to the blob, and changes nothing else but the
directories around the links and staging, exactly when no link is kept whose text differs
from that text and has the same components. -/
theorem built_iff (config : BuildTreeConfig) (c : Catalog) (uuids : UuidSource)
    (w w' : TreeWorld) (report : BuildTreeReport) (entries : List LiveMaterializationEntry)
    (hnames : ∀ n ∈ config.storeRoot, IsName n)
    (hroot : validateBrowseTreeRoot w.browse = .ok ()) (hdry : config.dryRun = false)
    (hrun : Program.exec (treeHandler (.faultless uuids)) (buildTree config c) w =
      (.ok report, w'))
    (he : liveMaterializationEntries c = .ok entries) :
    Built config entries w w' ↔ KeepsCanonical config w.browse entries := by
  obtain ⟨p, w₁, hplan, hshadow, -, hbrowse, hsame, hpurged, happly, hafter, hstore⟩ :=
    exec_buildTree_ok uuids hroot hdry hrun
  rw [← linked_iff hroot hplan he hshadow hafter]
  constructor
  · intro hbuilt
    exact hbuilt.linked
  · intro hlinked
    refine ⟨hlinked, owned_applied_iff hnames hroot hplan he hshadow hafter, ?_,
      hbrowse ▸ sameFiles_apply uuids happly, ?_, ?_, hstore ▸ hpurged, hstore ▸ hsame.files⟩
    · intro q node hq hnode howned
      rw [hafter]
      exact kept_applied hroot hplan he hq hnode howned
    · intro q hq
      simp only [hafter]
      exact directory_applied hroot hplan he hshadow hq
    · intro q hq hnew
      rw [hafter] at hnew ⊢
      exact added_applied hroot hplan he hq hnew

/-! ## A link with a doubled slash -/

theorem isName_of_mem_exampleStoreRoot (hashDigits : ℕ) :
    ∀ n ∈ (exampleConfig hashDigits).storeRoot, IsName n := by
  intro n hn
  obtain rfl : n = utf8 ['s'] := by simpa [exampleConfig] using hn
  exact ⟨⟨by decide, by decide, by decide⟩, by decide⟩

/-- The link for `photos/x` is up to date, and nothing changes. -/
theorem built_iff_photos : ∃ (report : BuildTreeReport) (entries : _),
    Program.exec (treeHandler (.faultless .longest))
      (buildTree (exampleConfig 6) (exampleCatalog ["photos/x"])) photosWorld =
        (.ok report, (photosRun 6).2) ∧
    (Built (exampleConfig 6) entries photosWorld (photosRun 6).2 ↔
      KeepsCanonical (exampleConfig 6) photosTree entries) := by
  obtain ⟨report, hrun⟩ := photosRun_ok 6 (by decide +kernel)
  obtain ⟨entries, he⟩ : ∃ entries, liveMaterializationEntries (exampleCatalog ["photos/x"]) =
      .ok entries := Except.exists_of_isOk (by decide +kernel)
  exact ⟨report, entries, hrun, built_iff _ _ _ photosWorld _ report entries
    (isName_of_mem_exampleStoreRoot 6) (by decide +kernel) rfl hrun he⟩

/-- The relative text of the link for `photos/x`, with one slash too many. -/
def doubledTarget : Bytes := utf8 "../../s//blobs/aa/aa/".toList ++ utf8 exampleHash.text

def doubledTree : BrowseTree := .ofEntries
  [([], .directory), ([photosName], .directory),
   ([photosName, utf8 "x_aaaaaa".toList], .symlink doubledTarget)]
  [] (by decide +kernel) (by decide +kernel) (by decide +kernel)

def doubledWorld : TreeWorld := ⟨doubledTree, exampleStore, 0⟩

/-- How the command ends on that tree. -/
def doubledRun : Except String BuildTreeReport × TreeWorld :=
  Program.exec (treeHandler (.faultless .longest))
    (buildTree (exampleConfig 6) (exampleCatalog ["photos/x"])) doubledWorld

/-- The link with a doubled slash is reported as unchanged and kept, although its text is
not the relative text that leads to the blob. -/
theorem not_built_doubled : ∃ report entries,
    liveMaterializationEntries (exampleCatalog ["photos/x"]) = .ok entries ∧
    Program.exec (treeHandler (.faultless .longest))
      (buildTree (exampleConfig 6) (exampleCatalog ["photos/x"])) doubledWorld =
        (.ok report, doubledRun.2) ∧
    report.linksUnchanged = 1 ∧ ¬ Built (exampleConfig 6) entries doubledWorld doubledRun.2 := by
  obtain ⟨report, hreport⟩ : ∃ report, doubledRun.1 = .ok report :=
    Except.exists_of_isOk (by decide +kernel)
  have hunchanged : doubledRun.1.map (·.linksUnchanged) = .ok 1 := by decide +kernel
  have he : liveMaterializationEntries (exampleCatalog ["photos/x"]) =
      .ok [⟨⟨"photos/x".toList, by decide⟩, exampleHash, 0⟩] := by decide +kernel
  refine ⟨report, _, he, Prod.ext hreport rfl, ?_, fun hbuilt => ?_⟩
  · rw [hreport] at hunchanged
    exact Except.ok.inj hunchanged
  · obtain ⟨text, htext, hlook⟩ := hbuilt.linked _ (List.mem_singleton_self _)
    have hkept : doubledRun.2.browse.tree.lookup [photosName, utf8 "x_aaaaaa".toList] =
        some (.symlink doubledTarget) := by decide +kernel
    have hrelative : LiveMaterializationEntry.targetText (exampleConfig 6)
        ⟨⟨"photos/x".toList, by decide⟩, exampleHash, 0⟩ = .ok exampleTarget := by decide +kernel
    have hpath : LiveMaterializationEntry.output (exampleConfig 6)
        ⟨⟨"photos/x".toList, by decide⟩, exampleHash, 0⟩ =
          [photosName, utf8 "x_aaaaaa".toList] := by decide +kernel
    obtain rfl : exampleTarget = text := Except.ok.inj (hrelative.symm.trans htext)
    rw [hpath, hkept] at hlook
    have hne : doubledTarget ≠ exampleTarget := by decide +kernel
    exact hne (FileNode.symlink.inj (Option.some.inj hlook))

end MediaImporter
