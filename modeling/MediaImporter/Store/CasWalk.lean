import MediaImporter.Store.CasTree

/-!
# What a walk of the CAS reports

Where nothing fails to be read, a walk of the CAS directory visits every entry below it once.
It lists the files at the paths of their hashes, passes through the shard directories, and
has one finding for each other entry, whatever lies above or below it.

## Main definitions

* `ShardPath`, `Proper` — the entries that belong into the CAS.
* `Reports` — what an inspection lists and finds of a set of paths.
* `inspectCas_exact` — the walk is exact.
-/

namespace MediaImporter

open Utf8 UnixPath PathOrder

/-! ## The entries that belong into the CAS -/

/-- The path of the CAS directory, of a shard directory in it, or of one in that. -/
def ShardPath (relative : List Name) : Prop :=
  relative.length ≤ 2 ∧ ∀ name ∈ relative, validShard name = true

instance (relative : List Name) : Decidable (ShardPath relative) :=
  inferInstanceAs (Decidable (_ ∧ _))

/-- A shard directory, or a file at the path of a hash. -/
def Proper (relative : List Name) (node : FileNode ℕ Bytes) : Prop :=
  (node = .directory ∧ ShardPath relative) ∨
    ∃ hash inode, relative = blobNames hash ∧ node = .file inode

theorem shardPath_of_blobNames {parent : List Name} {name : Name} {hash : BlobHash}
    (h : parent ++ [name] = blobNames hash) : ShardPath parent := by
  have hlen : hash.text.length = 64 := hash.valid.1
  obtain ⟨rfl, -⟩ := List.append_inj' (h.trans (by rfl : blobNames hash =
    [utf8 (hash.text.take 2), utf8 ((hash.text.drop 2).take 2)] ++ [utf8 hash.text])) rfl
  refine ⟨le_rfl, ?_⟩
  intro n hn
  simp only [List.mem_cons, List.not_mem_nil, or_false] at hn
  rcases hn with rfl | rfl
  · exact validShard_utf8.2
      ⟨by simp [hlen], fun c hc => isLowerHex_of_mem (List.mem_of_mem_take hc)⟩
  · exact validShard_utf8.2 ⟨by simp [hlen], fun c hc =>
      isLowerHex_of_mem (List.mem_of_mem_drop (List.mem_of_mem_take hc))⟩

theorem shardPath_of_concat {parent : List Name} {name : Name} (h : ShardPath (parent ++ [name])) :
    ShardPath parent := by
  refine ⟨?_, fun n hn => h.2 n (List.mem_append_left _ hn)⟩
  have hlen := h.1
  rw [List.length_append] at hlen
  omega

/-- A file is a valid blob exactly at the path of its hash. -/
theorem classifyCasEntry_file_iff {components : List Name} {valid : Bool} {hash : BlobHash} :
    classifyCasEntry components .file valid = .validBlob hash ↔
      valid = true ∧ components = blobNames hash := by
  constructor
  · intro h
    obtain ⟨hnames, -⟩ := of_classify_validBlob
      (show classifyCasEntry components (.fromNode (.file 0)) valid = _ from h)
    refine ⟨?_, hnames⟩
    by_contra hvalid
    rw [Bool.not_eq_true] at hvalid
    simp [classifyCasEntry, hvalid] at h
  · rintro ⟨rfl, rfl⟩
    exact classifyCasEntry_blobNames hash

/-- A directory is valid exactly as a shard directory. -/
theorem classifyCasEntry_directory_iff {components : List Name} {valid : Bool} :
    classifyCasEntry components .directory valid = .validDirectory ↔
      valid = true ∧ ShardPath components := by
  unfold classifyCasEntry ShardPath
  cases valid with
  | false => simp
  | true =>
      simp only [Bool.true_eq_false, if_false, true_and, List.all_eq_true]
      split_ifs with h hdepth
      · exact iff_of_true rfl h
      · exact iff_of_false (by simp) h
      · exact iff_of_false (by simp) h

theorem not_validBlob_of_ne_file {components : List Name} {kind : EntryKind} {valid : Bool}
    {hash : BlobHash} (h : classifyCasEntry components kind valid = .validBlob hash) :
    kind = .file := by
  cases kind with
  | file => rfl
  | symlink | other => cases h
  | directory =>
      unfold classifyCasEntry at h
      dsimp only at h
      split_ifs at h

/-- An entry that the walk accepts below valid shards belongs into the CAS, and conversely. -/
theorem validEntry_iff_proper {p : List Name} {node : FileNode ℕ Bytes} :
    ValidEntry p node ↔ Proper p node := by
  constructor
  · intro hvalid
    cases hclass : classifyCasEntry p (.fromNode node) true with
    | invalid reason => exact absurd hclass (hvalid reason)
    | validDirectory =>
        obtain ⟨rfl, -⟩ := of_classify_validDirectory hclass
        exact .inl ⟨rfl, (classifyCasEntry_directory_iff.1 hclass).2⟩
    | validBlob hash =>
        obtain ⟨hnames, inode, hnode⟩ := of_classify_validBlob hclass
        exact .inr ⟨hash, inode, hnames, hnode⟩
  · rintro (⟨rfl, hshard⟩ | ⟨hash, inode, rfl, rfl⟩) reason h
    · rw [show EntryKind.fromNode .directory = .directory from rfl,
        classifyCasEntry_directory_iff.2 ⟨rfl, hshard⟩] at h
      cases h
    · rw [show EntryKind.fromNode (.file inode) = .file from rfl,
        classifyCasEntry_file_iff.2 ⟨rfl, rfl⟩] at h
      cases h

/-- In a CAS of valid entries a blob without an entry is not found. -/
theorem CasTree.symlinkMetadata_notFound {d : Store} (h : CasTree d) {hash : BlobHash}
    (hnone : d.tree.lookup (blobPath hash) = none) :
    d.symlinkMetadata (blobPath hash) = .error .notFound := by
  refine Disk.symlinkMetadata_of_absent hnone fun q hq node hnode => ?_
  cases q with
  | nil =>
      have hdir := FileTree.lookup_of_isPrefix (Option.isSome_of_eq_some h.root)
        List.nil_prefix (List.cons_ne_nil blobsName []).symm
      exact Option.some.inj (hnode.symm.trans hdir)
  | cons name q =>
      have hpre : name = blobsName ∧ q <+: blobNames hash := List.cons_prefix_cons.1 hq
      rw [hpre.1] at hnode
      refine h.directory hnode ?_
      by_contra hlong
      -- a prefix of three names is the whole path, where nothing lies
      have hlen : (blobNames hash).length = 3 := rfl
      have hle := hpre.2.length_le
      have hsame : q = blobNames hash := hpre.2.eq_of_length (by omega)
      rw [hsame] at hnode
      rw [show blobPath hash = blobsName :: blobNames hash from rfl, hnode] at hnone
      cases hnone

/-! ## Reports about sets of paths -/

/-- The inspection is complete and lists exactly the blobs and finds exactly the other
entries whose paths are covered, each of them once. -/
structure Reports (d : Store) (i : CasInspection) (covers : List Name → Prop) : Prop where
  complete : i.complete = true
  nodup : i.validBlobs.Nodup
  blobs : ∀ hash, hash ∈ i.validBlobs ↔
    covers (blobNames hash) ∧ ∃ inode, d.tree.lookup (blobPath hash) = some (.file inode)
  findings : ∃ reported : List (List Name × String), (reported.map Prod.fst).Nodup ∧
    i.findings = reported.map (fun entry =>
      .forPath .invalidCasEntry entry.1 ("reason=" ++ entry.2).toList) ∧
    ∀ p, p ∈ reported.map Prod.fst ↔
      covers p ∧ ∃ node, d.tree.lookup (blobsName :: p) = some node ∧ ¬ Proper p node

namespace Reports

variable {d : Store} {i j : CasInspection} {A B : List Name → Prop}

/-- Nothing is found where nothing lies. -/
theorem empty (h : ∀ p, A p → d.tree.lookup (blobsName :: p) = none) : Reports d .empty A := by
  refine ⟨rfl, List.nodup_nil, fun hash => ?_, [], List.nodup_nil, rfl, fun p => ?_⟩
  · refine iff_of_false List.not_mem_nil ?_
    rintro ⟨hA, inode, hlookup⟩
    rw [show blobPath hash = blobsName :: blobNames hash from rfl, h _ hA] at hlookup
    cases hlookup
  · refine iff_of_false List.not_mem_nil ?_
    rintro ⟨hA, node, hlookup, -⟩
    rw [h p hA] at hlookup
    cases hlookup

theorem append (hi : Reports d i A) (hj : Reports d j B) (hdisjoint : ∀ p, A p → ¬ B p) :
    Reports d (i.append j) fun p => A p ∨ B p := by
  obtain ⟨reported, hnodup, hfindings, hmem⟩ := hi.findings
  obtain ⟨reported', hnodup', hfindings', hmem'⟩ := hj.findings
  refine ⟨?_, ?_, fun hash => ?_, reported ++ reported', ?_, ?_, fun p => ?_⟩
  · rw [CasInspection.append, hi.complete, hj.complete]
    rfl
  · refine List.nodup_append.2 ⟨hi.nodup, hj.nodup, ?_⟩
    rintro a ha b hb rfl
    exact hdisjoint _ ((hi.blobs a).1 ha).1 ((hj.blobs a).1 hb).1
  · rw [CasInspection.append, List.mem_append, hi.blobs, hj.blobs, or_and_right]
  · rw [List.map_append]
    refine List.nodup_append.2 ⟨hnodup, hnodup', ?_⟩
    rintro a ha b hb rfl
    exact hdisjoint _ ((hmem a).1 ha).1 ((hmem' a).1 hb).1
  · rw [CasInspection.append, hfindings, hfindings', List.map_append]
  · rw [List.map_append, List.mem_append, hmem, hmem', or_and_right]

/-- Only the paths count at which something lies that would be listed or found. -/
theorem congr (h : Reports d i A) (hAB : ∀ p node, d.tree.lookup (blobsName :: p) = some node →
    (∃ inode, node = .file inode) ∨ ¬ Proper p node → (A p ↔ B p)) : Reports d i B := by
  obtain ⟨reported, hnodup, hfindings, hmem⟩ := h.findings
  refine ⟨h.complete, h.nodup, fun hash => ?_, reported, hnodup, hfindings, fun p => ?_⟩
  · rw [h.blobs]
    refine and_congr_left ?_
    rintro ⟨inode, hlookup⟩
    exact hAB _ _ hlookup (.inl ⟨inode, rfl⟩)
  · rw [hmem]
    refine and_congr_left ?_
    rintro ⟨node, hlookup, hnot⟩
    exact hAB _ _ hlookup (.inr hnot)

/-- One entry that does not belong into the CAS. -/
theorem finding {p : List Name} {node : FileNode ℕ Bytes} {reason : String}
    (hlookup : d.tree.lookup (blobsName :: p) = some node) (hnot : ¬ Proper p node) :
    Reports d ⟨[], [.forPath .invalidCasEntry p ("reason=" ++ reason).toList], true⟩ (· = p) := by
  refine ⟨rfl, List.nodup_nil, fun hash => ?_, [(p, reason)], List.nodup_singleton _, rfl,
    fun q => ?_⟩
  · refine iff_of_false List.not_mem_nil ?_
    rintro ⟨rfl, inode, hfile⟩
    exact hnot (.inr ⟨hash, inode, rfl, Option.some.inj (hlookup.symm.trans hfile)⟩)
  · rw [List.map_cons, List.map_nil, List.mem_singleton]
    constructor
    · rintro rfl
      exact ⟨rfl, node, hlookup, hnot⟩
    · exact And.left

/-- One file at the path of its hash. -/
theorem blob {hash : BlobHash} {inode : ℕ}
    (hlookup : d.tree.lookup (blobPath hash) = some (.file inode)) :
    Reports d ⟨[hash], [], true⟩ (· = blobNames hash) := by
  refine ⟨rfl, List.nodup_singleton _, fun hash' => ?_, [], List.nodup_nil, rfl, fun p => ?_⟩
  · rw [List.mem_singleton]
    constructor
    · rintro rfl
      exact ⟨rfl, inode, hlookup⟩
    · rintro ⟨hnames, -⟩
      exact blobPath_injective (congrArg (blobsName :: ·) hnames)
  · refine iff_of_false List.not_mem_nil ?_
    rintro ⟨rfl, node, hnode, hnot⟩
    exact hnot (.inr ⟨hash, inode, rfl, Option.some.inj (hnode.symm.trans hlookup)⟩)

end Reports

/-! ## The walk -/

section Walk

variable {r : StoreReader}

/-- Below what is not a directory nothing lies. -/
theorem lookup_eq_none_of_below {d : Store} {p q : List Name} {node : FileNode ℕ Bytes}
    (hlookup : d.tree.lookup (blobsName :: p) = some node) (hnode : node ≠ .directory)
    (hpq : p <+: q) (hne : q ≠ p) : d.tree.lookup (blobsName :: q) = none := by
  by_contra hsome
  have hdir := FileTree.lookup_of_isPrefix (Option.isSome_iff_ne_none.2 hsome)
    ((List.prefix_cons_inj blobsName).2 hpq) fun heq => hne (List.cons.inj heq).2.symm
  exact hnode (Option.some.inj (hlookup.symm.trans hdir))

/-- A visit reports about an entry and what lies below it. -/
theorem reports_visitEntry {walk : List Name → Bool → Except Text CasInspection}
    {parent : List Name} {name : Name} {node : FileNode ℕ Bytes} {valid : Bool}
    (hfails : ∀ call, r.fails call = false) (hvalid : valid = true ↔ ShardPath parent)
    (hlookup : r.store.tree.lookup (blobsName :: (parent ++ [name])) = some node)
    (hwalk : ∀ valid, (valid = true ↔ ShardPath (parent ++ [name])) → node = .directory →
      ∃ i, walk (parent ++ [name]) valid = .ok i ∧
        Reports r.store i fun q => parent ++ [name] <+: q ∧ q ≠ parent ++ [name]) :
    Reports r.store (visitEntry r walk valid (parent ++ [name])) (parent ++ [name] <+: ·) := by
  set p := parent ++ [name] with hp
  have hstat : r.symlinkMetadata (blobsName :: p) = .ok ⟨node, r.store.len node⟩ := by
    rw [StoreReader.symlinkMetadata, hfails, if_neg Bool.false_ne_true]
    exact Disk.symlinkMetadata_of_lookup hlookup
  -- an entry is covered itself, and what is covered else lies below it
  have hsplit (q : List Name) : p <+: q ↔ q = p ∨ (p <+: q ∧ q ≠ p) := by
    by_cases hq : q = p
    · subst hq
      simp
    · simp [hq]
  have hbelow (hnode : node ≠ .directory) :
      Reports r.store .empty fun q => p <+: q ∧ q ≠ p :=
    .empty fun q hq => lookup_eq_none_of_below hlookup hnode hq.1 hq.2
  rw [visitEntry, hstat]
  dsimp only
  cases hclass : classifyCasEntry p (.fromNode node) valid with
  | validDirectory =>
      obtain ⟨rfl, -⟩ := of_classify_validDirectory hclass
      obtain ⟨-, hshard⟩ := classifyCasEntry_directory_iff.1 hclass
      obtain ⟨i, hi, hreports⟩ := hwalk true (iff_of_true rfl hshard) rfl
      rw [hi]
      refine hreports.congr fun q node' hq hkind => Iff.trans ?_ (hsplit q).symm
      refine ⟨.inr, fun hor => hor.resolve_left ?_⟩
      rintro rfl
      obtain rfl := Option.some.inj (hlookup.symm.trans hq)
      rcases hkind with ⟨inode, hfile⟩ | hnot
      · cases hfile
      · exact hnot (.inl ⟨rfl, hshard⟩)
  | validBlob hash =>
      obtain ⟨hnames, inode, rfl⟩ := of_classify_validBlob hclass
      have hblob : r.store.tree.lookup (blobPath hash) = some (.file inode) := by
        rw [blobPath, ← hnames, hlookup]
      refine (Reports.blob hblob).congr fun q node' hq _ => ?_
      rw [hsplit q, ← hnames]
      refine ⟨.inl, fun hor => hor.resolve_right fun hlow => ?_⟩
      rw [lookup_eq_none_of_below hlookup (by simp) hlow.1 hlow.2] at hq
      cases hq
  | invalid reason =>
      have hnot : ¬ Proper p node := by
        rintro (⟨rfl, hshard⟩ | ⟨hash, inode, hnames, rfl⟩)
        · have hdir := classifyCasEntry_directory_iff.2
            ⟨hvalid.2 (shardPath_of_concat hshard), hshard⟩
          rw [show EntryKind.fromNode .directory = .directory from rfl, hdir] at hclass
          cases hclass
        · have hfile := classifyCasEntry_file_iff.2
            ⟨hvalid.2 (shardPath_of_blobNames hnames), hnames⟩
          rw [show EntryKind.fromNode (.file inode) = .file from rfl, hfile] at hclass
          cases hclass
      have hrest : Reports r.store (if node = .directory then .ofWalk p (walk p false) else .empty)
          fun q => p <+: q ∧ q ≠ p := by
        by_cases hdir : node = .directory
        · have hshard : ¬ ShardPath p := fun hshard => hnot (.inl ⟨hdir, hshard⟩)
          obtain ⟨i, hi, hreports⟩ := hwalk false (iff_of_false Bool.false_ne_true hshard) hdir
          rw [if_pos hdir, hi]
          exact hreports
        · rw [if_neg hdir]
          exact hbelow hdir
      refine ((Reports.finding hlookup hnot).append hrest fun q hq hlow => hlow.2 hq).congr ?_
      intro q node' _ _
      exact (hsplit q).symm

/-- The visits of the entries of a directory, one after the other. -/
theorem reports_foldr (visit : List Name → CasInspection) {relative : List Name}
    {entries : List (List Name)} (hnodup : entries.Nodup)
    (hvisit : ∀ p ∈ entries, ∃ name, p = relative ++ [name] ∧
      Reports r.store (visit p) (p <+: ·)) :
    Reports r.store ((entries.map visit).foldr .append .empty)
      fun q => ∃ p ∈ entries, p <+: q := by
  induction entries with
  | nil => exact .empty fun q hq => by simp at hq
  | cons p entries ih =>
      rw [List.nodup_cons] at hnodup
      rw [List.forall_mem_cons] at hvisit
      obtain ⟨⟨name, rfl, hfirst⟩, hrest⟩ := hvisit
      refine (hfirst.append (ih hnodup.2 hrest) ?_).congr fun q _ _ _ => by simp
      rintro q hq ⟨p', hp', hq'⟩
      obtain ⟨name', rfl, -⟩ := hrest p' hp'
      have hsame : relative ++ [name] = relative ++ [name'] := by
        rw [List.prefix_iff_eq_take.1 hq, List.prefix_iff_eq_take.1 hq']
        simp
      exact hnodup.1 (hsame ▸ hp')

/-- A walk reports about everything below its directory. -/
theorem reports_walkCas (hfails : ∀ call, r.fails call = false) (depth : ℕ) :
    ∀ (relative : List Name) (valid : Bool), r.depth ≤ relative.length + depth →
      (valid = true ↔ ShardPath relative) →
      r.store.tree.lookup (blobsName :: relative) = some .directory →
      ∃ i, walkCas r depth relative valid = .ok i ∧
        Reports r.store i fun q => relative <+: q ∧ q ≠ relative := by
  induction depth with
  | zero =>
      intro relative valid hdepth _ _
      refine ⟨.empty, rfl, .empty fun q hq => ?_⟩
      by_contra hsome
      have hlen := length_le_depth (Option.isSome_iff_ne_none.2 hsome)
      have hle := hq.1.length_le
      rw [List.length_cons] at hlen
      omega
  | succ depth ih =>
      intro relative valid hdepth hvalid hdir
      have hread : r.readDir (blobsName :: relative) =
          .ok (sortPaths (r.store.tree.children (blobsName :: relative))) := by
        rw [StoreReader.readDir, hfails, hfails, hdir]
        rfl
      refine ⟨_, by rw [walkCas, hread]; rfl, ?_⟩
      have hentries {p : List Name} :
          p ∈ sortPaths (r.store.tree.children (blobsName :: relative)) ↔
          ∃ name, p = blobsName :: (relative ++ [name]) ∧ (r.store.tree.lookup p).isSome :=
        mem_readDir hread
      have htails : ((sortPaths (r.store.tree.children (blobsName :: relative))).map
          List.tail).Nodup := by
        refine List.Nodup.map_on ?_ (nodup_sortPaths _)
        intro p hp p' hp' htail
        obtain ⟨name, rfl, -⟩ := hentries.1 hp
        obtain ⟨name', rfl, -⟩ := hentries.1 hp'
        rw [show relative ++ [name] = relative ++ [name'] from htail]
      have hall := reports_foldr (r := r) (visitEntry r (walkCas r depth) valid) htails (by
          intro p hp
          obtain ⟨p', hp', rfl⟩ := List.mem_map.1 hp
          obtain ⟨name, rfl, hsome⟩ := hentries.1 hp'
          obtain ⟨node, hnode⟩ := Option.isSome_iff_exists.1 hsome
          refine ⟨name, rfl, reports_visitEntry hfails hvalid hnode ?_⟩
          rintro valid' hvalid' rfl
          exact ih _ _ (by rw [List.length_append, List.length_singleton]; omega) hvalid' hnode)
      rw [List.map_map] at hall
      refine hall.congr fun q node hq _ => ?_
      constructor
      · rintro ⟨p, hp, hpq⟩
        obtain ⟨p', hp', rfl⟩ := List.mem_map.1 hp
        obtain ⟨name, rfl, -⟩ := hentries.1 hp'
        refine ⟨(List.prefix_append relative [name]).trans hpq, ?_⟩
        rintro rfl
        have hle := hpq.length_le
        rw [List.tail_cons, List.length_append, List.length_singleton] at hle
        omega
      · rintro ⟨⟨below, rfl⟩, hne⟩
        obtain ⟨name, rest, rfl⟩ : ∃ name rest, below = name :: rest :=
          List.exists_cons_of_ne_nil fun hnil => hne (by rw [hnil, List.append_nil])
        have hsome : (r.store.tree.lookup (blobsName :: (relative ++ [name]))).isSome := by
          by_cases hrest : rest = []
          · subst hrest
            rw [hq]
            rfl
          · rw [lookup_of_below hrest (Option.isSome_of_eq_some hq)]
            rfl
        exact ⟨relative ++ [name], List.mem_map.2 ⟨_, hentries.2 ⟨name, rfl, hsome⟩, rfl⟩, rest,
          by simp⟩

end Walk

/-- The whole walk reports about everything below the CAS directory. -/
theorem reports_inspectCas {r : StoreReader} (hfails : ∀ call, r.fails call = false)
    (hroot : r.store.tree.lookup [blobsName] = some .directory) :
    Reports r.store (inspectCas r) (· ≠ []) := by
  obtain ⟨i, hi, hreports⟩ := reports_walkCas hfails (r.depth + 1) [] true (by
    rw [List.length_nil]
    omega) (iff_of_true rfl ⟨Nat.zero_le _, fun _ h => absurd h List.not_mem_nil⟩) hroot
  rw [inspectCas, hi]
  exact hreports.congr fun q _ _ _ => ⟨And.right, fun hne => ⟨List.nil_prefix, hne⟩⟩

/-- **The walk of the CAS is exact.** Where nothing fails to be read, the blobs that a walk
lists are the regular files at the paths of hashes, each of them once; every other entry below
the CAS directory that is no shard directory is the subject of exactly one finding; and there
is nothing else. Of a regular file, the classification says that it is the blob of a hash
exactly at the path of the hash below valid shards. -/
theorem inspectCas_exact (r : StoreReader) (hfails : ∀ call, r.fails call = false)
    (hroot : r.store.tree.lookup [blobsName] = some .directory) :
    (∀ hash, hash ∈ (inspectCas r).validBlobs ↔
      ∃ inode, r.store.tree.lookup (blobPath hash) = some (.file inode)) ∧
    (inspectCas r).validBlobs.Nodup ∧ (inspectCas r).complete = true ∧
    (∃ reported : List (List Name × String), (reported.map Prod.fst).Nodup ∧
      (inspectCas r).findings = reported.map (fun entry =>
        .forPath .invalidCasEntry entry.1 ("reason=" ++ entry.2).toList) ∧
      ∀ p, p ∈ reported.map Prod.fst ↔
        p ≠ [] ∧ ∃ node, r.store.tree.lookup (blobsName :: p) = some node ∧ ¬ Proper p node) ∧
    ∀ (components : List Name) (kind : EntryKind) (valid : Bool) (hash : BlobHash),
      classifyCasEntry components kind valid = .validBlob hash ↔
        kind = .file ∧ valid = true ∧ components = blobNames hash := by
  have hreports := reports_inspectCas hfails hroot
  refine ⟨fun hash => ?_, hreports.nodup, hreports.complete, hreports.findings, ?_⟩
  · rw [hreports.blobs]
    exact and_iff_right (List.cons_ne_nil _ _)
  · intro components kind valid hash
    constructor
    · intro h
      obtain rfl := not_validBlob_of_ne_file h
      exact ⟨rfl, classifyCasEntry_file_iff.1 h⟩
    · rintro ⟨rfl, h⟩
      exact classifyCasEntry_file_iff.2 h

/-! ## A stray file -/

def strayHash : BlobHash := ⟨List.replicate 64 'd', by decide⟩

/-- A blob, and a file in a directory that is no shard. -/
def strayReader : StoreReader where
  store := .ofEntries
    [([], .directory), ([blobsName], .directory), ((blobPath strayHash).take 2, .directory),
     ((blobPath strayHash).take 3, .directory), (blobPath strayHash, .file 0),
     ([blobsName, utf8 "zz".toList], .directory),
     ([blobsName, utf8 "zz".toList, utf8 "x".toList], .file 1)]
    [[], []] (by decide +kernel) (by decide +kernel) (by decide +kernel)
  fails _ := false

theorem inspectCas_strayReader :
    strayHash ∈ (inspectCas strayReader).validBlobs ∧ (inspectCas strayReader).complete = true ∧
    ∃ reported : List (List Name × String),
      (inspectCas strayReader).findings = reported.map (fun entry =>
        .forPath .invalidCasEntry entry.1 ("reason=" ++ entry.2).toList) ∧
      [utf8 "zz".toList, utf8 "x".toList] ∈ reported.map Prod.fst := by
  obtain ⟨hblobs, -, hcomplete, ⟨reported, -, hfindings, hmem⟩, -⟩ :=
    inspectCas_exact strayReader (fun _ => rfl) (by decide +kernel)
  refine ⟨(hblobs strayHash).2 ⟨0, by decide +kernel⟩, hcomplete, reported, hfindings, ?_⟩
  refine (hmem _).2 ⟨List.cons_ne_nil _ _, .file 1, by decide +kernel, ?_⟩
  rintro (⟨hdir, -⟩ | ⟨hash, inode, hnames, -⟩)
  · cases hdir
  · have hlen := congrArg List.length hnames
    simp [blobNames] at hlen

end MediaImporter
