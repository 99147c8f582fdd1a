import MediaImporter.Store.Inspect

/-!
# What a walk of the CAS has seen

A walk without findings has read every entry below the CAS directory, and each of them is a
shard directory or a blob file at the path of its hash. Where nothing fails to be read this
is the only thing a walk can object to. The blobs it lists are the files at the paths of
their hashes.

## Main definitions

* `ValidEntry`, `CasTree` — stores whose CAS holds valid entries only.
* `casTree_of_findings`, `findings_of_casTree` — what a walk without findings says.
* `mem_validBlobs_inspectCas` — the blobs it lists.
-/

namespace MediaImporter

open Utf8 UnixPath PathOrder

/-- The entry belongs into the CAS. -/
def ValidEntry (relative : List Name) (node : FileNode ℕ Bytes) : Prop :=
  ∀ reason, classifyCasEntry relative (.fromNode node) true ≠ .invalid reason

/-- The CAS directory is there and holds valid entries only. -/
structure CasTree (d : Store) : Prop where
  root : d.tree.lookup [blobsName] = some .directory
  entries : ∀ relative node, relative ≠ [] →
    d.tree.lookup (blobsName :: relative) = some node → ValidEntry relative node

/-! ## Classification -/

theorem isLowerHex_of_mem {h : BlobHash} {c : Char} (hc : c ∈ h.text) : isLowerHex c :=
  h.valid.2 c hc

theorem validShard_utf8 {s : Text} : validShard (utf8 s) = true ↔
    s.length = 2 ∧ ∀ c ∈ s, isLowerHex c := by
  simp [validShard]

/-- The names of a blob are shards and a hash. -/
theorem classifyCasEntry_blobNames (h : BlobHash) :
    classifyCasEntry (blobNames h) .file true = .validBlob h := by
  have hlen : h.text.length = 64 := h.valid.1
  have hfirst : validShard (utf8 (h.text.take 2)) = true :=
    validShard_utf8.mpr ⟨by simp [hlen], fun c hc => isLowerHex_of_mem (List.mem_of_mem_take hc)⟩
  have hsecond : validShard (utf8 ((h.text.drop 2).take 2)) = true :=
    validShard_utf8.mpr ⟨by simp [hlen], fun c hc =>
      isLowerHex_of_mem (List.mem_of_mem_drop (List.mem_of_mem_take hc))⟩
  simp [classifyCasEntry, blobNames, classifyBlobFile, hfirst, hsecond]

/-- A valid blob is a file at the path of its hash. -/
theorem of_classify_validBlob {relative : List Name} {node : FileNode ℕ Bytes} {valid : Bool}
    {h : BlobHash} (hclass : classifyCasEntry relative (.fromNode node) valid = .validBlob h) :
    relative = blobNames h ∧ ∃ inode, node = .file inode := by
  cases node with
  | directory =>
      simp only [EntryKind.fromNode, classifyCasEntry] at hclass
      split at hclass
      · simp at hclass
      · split at hclass
        · simp at hclass
        · split at hclass <;> simp at hclass
  | symlink target => simp [EntryKind.fromNode, classifyCasEntry] at hclass
  | other => simp [EntryKind.fromNode, classifyCasEntry] at hclass
  | file inode =>
      refine ⟨?_, inode, rfl⟩
      simp only [EntryKind.fromNode, classifyCasEntry] at hclass
      split at hclass
      · simp at hclass
      · split at hclass
        · unfold classifyBlobFile at hclass
          split at hclass
          · simp at hclass
          · split at hclass
            · simp at hclass
            · split at hclass
              · simp at hclass
              · split at hclass
                · rename_i hnames
                  obtain rfl := CasClassification.validBlob.inj hclass
                  exact hnames
                · simp at hclass
        · simp at hclass

/-- A valid directory is one of the two shards. -/
theorem of_classify_validDirectory {relative : List Name} {node : FileNode ℕ Bytes} {valid : Bool}
    (hclass : classifyCasEntry relative (.fromNode node) valid = .validDirectory) :
    node = .directory ∧ relative.length ≤ 2 := by
  cases node with
  | directory =>
      refine ⟨rfl, ?_⟩
      simp only [EntryKind.fromNode, classifyCasEntry] at hclass
      split at hclass
      · simp at hclass
      · split at hclass
        · rename_i hshards
          exact hshards.1
        · split at hclass <;> simp at hclass
  | symlink target => simp [EntryKind.fromNode, classifyCasEntry] at hclass
  | other => simp [EntryKind.fromNode, classifyCasEntry] at hclass
  | file inode =>
      simp only [EntryKind.fromNode, classifyCasEntry] at hclass
      split at hclass
      · simp at hclass
      · split at hclass
        · unfold classifyBlobFile at hclass
          split at hclass
          · simp at hclass
          · split at hclass
            · simp at hclass
            · split at hclass
              · simp at hclass
              · split at hclass <;> simp at hclass
        · simp at hclass

/-- An entry above the blobs of a valid tree is a directory. -/
theorem CasTree.directory {d : Store} (h : CasTree d) {relative : List Name}
    {node : FileNode ℕ Bytes} (hlookup : d.tree.lookup (blobsName :: relative) = some node)
    (hlen : relative.length ≤ 2) : node = .directory := by
  by_cases hnil : relative = []
  · subst hnil
    exact Option.some.inj (hlookup.symm.trans h.root)
  · have hvalid := h.entries relative node hnil hlookup
    cases hclass : classifyCasEntry relative (.fromNode node) true with
    | validDirectory => exact (of_classify_validDirectory hclass).1
    | invalid reason => exact absurd hclass (hvalid reason)
    | validBlob hash =>
        obtain ⟨rfl, -⟩ := of_classify_validBlob hclass
        simp [blobNames] at hlen

/-! ## One directory of the walk -/

section Walk

variable {r : StoreReader}

theorem findings_foldr {l : List CasInspection} :
    (l.foldr CasInspection.append .empty).findings = [] ↔ ∀ i ∈ l, i.findings = [] := by
  induction l with
  | nil => simp [CasInspection.empty]
  | cons i l ih => simp [CasInspection.append, ih]

theorem mem_validBlobs_foldr {l : List CasInspection} {h : BlobHash} :
    h ∈ (l.foldr CasInspection.append .empty).validBlobs ↔ ∃ i ∈ l, h ∈ i.validBlobs := by
  induction l with
  | nil => simp [CasInspection.empty]
  | cons i l ih => simp [CasInspection.append, ih]

/-- The paths that a walk visits in a directory. -/
theorem mem_readDir {path : List Name} {entries : List (List Name)}
    (h : r.readDir path = .ok entries) {p : List Name} :
    p ∈ entries ↔ ∃ name, p = path ++ [name] ∧ (r.store.tree.lookup p).isSome := by
  unfold StoreReader.readDir at h
  split at h
  · simp at h
  · split at h
    · simp at h
    · obtain rfl := Except.ok.inj h
      rw [mem_sortPaths, FileTree.mem_children]
      constructor
      · rintro ⟨hsome, hne, rfl⟩
        exact ⟨p.getLast hne, (List.dropLast_append_getLast hne).symm, hsome⟩
      · rintro ⟨name, rfl, hsome⟩
        exact ⟨hsome, by simp, by simp⟩

/-- What a walk of a directory visits, relative to the CAS directory. -/
theorem walkCas_succ {depth : ℕ} {relative : List Name} {valid : Bool} {i : CasInspection}
    (h : walkCas r (depth + 1) relative valid = .ok i) :
    (i.findings = [] ↔ ∀ name, (r.store.tree.lookup (blobsName :: (relative ++ [name]))).isSome →
      (visitEntry r (walkCas r depth) valid (relative ++ [name])).findings = []) ∧
    ∀ hash, hash ∈ i.validBlobs ↔
      ∃ name, (r.store.tree.lookup (blobsName :: (relative ++ [name]))).isSome ∧
        hash ∈ (visitEntry r (walkCas r depth) valid (relative ++ [name])).validBlobs := by
  simp only [walkCas, Except.bind_eq_ok, Except.pure_eq_ok, Except.ok.injEq] at h
  obtain ⟨entries, hread, rfl⟩ := h
  rw [findings_foldr]
  constructor
  · constructor
    · intro hall name hsome
      refine hall _ (List.mem_map.mpr ⟨blobsName :: (relative ++ [name]), ?_, rfl⟩)
      exact (mem_readDir hread).mpr ⟨name, rfl, hsome⟩
    · intro hall i hi
      obtain ⟨p, hp, rfl⟩ := List.mem_map.mp hi
      obtain ⟨name, rfl, hsome⟩ := (mem_readDir hread).mp hp
      exact hall name hsome
  · intro hash
    rw [mem_validBlobs_foldr]
    constructor
    · rintro ⟨i, hi, hmem⟩
      obtain ⟨p, hp, rfl⟩ := List.mem_map.mp hi
      obtain ⟨name, rfl, hsome⟩ := (mem_readDir hread).mp hp
      exact ⟨name, hsome, hmem⟩
    · rintro ⟨name, hsome, hmem⟩
      refine ⟨_, List.mem_map.mpr ⟨blobsName :: (relative ++ [name]), ?_, rfl⟩, hmem⟩
      exact (mem_readDir hread).mpr ⟨name, rfl, hsome⟩

/-- The metadata of an entry is that of its node. -/
theorem node_of_symlinkMetadata {path : List Name} {node : FileNode ℕ Bytes}
    {metadata : Metadata Bytes} (hstat : r.symlinkMetadata path = .ok metadata)
    (hlookup : r.store.tree.lookup path = some node) : metadata.node = node := by
  unfold StoreReader.symlinkMetadata at hstat
  split at hstat
  · simp at hstat
  · rw [Disk.symlinkMetadata_of_lookup hlookup] at hstat
    exact congrArg Metadata.node (Except.ok.inj hstat).symm

/-- A visit without findings is that of a valid entry. -/
theorem visitEntry_of_findings {walk : List Name → Bool → Except Text CasInspection}
    {relative : List Name} {node : FileNode ℕ Bytes}
    (hlookup : r.store.tree.lookup (blobsName :: relative) = some node)
    (h : (visitEntry r walk true relative).findings = []) : ValidEntry relative node ∧
      (node = .directory → ∃ i, walk relative true = .ok i ∧ i.findings = [] ∧
        visitEntry r walk true relative = i) := by
  unfold visitEntry at h ⊢
  cases hstat : r.symlinkMetadata (blobsName :: relative) with
  | error e =>
      rw [hstat] at h
      simp [CasInspection.ioError] at h
  | ok metadata =>
      have hnode := node_of_symlinkMetadata hstat hlookup
      rw [hstat] at h
      simp only [hnode] at h ⊢
      cases hclass : classifyCasEntry relative (.fromNode node) true with
      | invalid reason =>
          rw [hclass] at h
          simp [CasInspection.append] at h
      | validBlob hash =>
          refine ⟨fun reason => by simp [hclass], fun hdir => ?_⟩
          obtain ⟨-, inode, hfile⟩ := of_classify_validBlob hclass
          simp [hdir] at hfile
      | validDirectory =>
          rw [hclass] at h
          refine ⟨fun reason => by simp [hclass], fun _ => ?_⟩
          dsimp only at h ⊢
          cases hwalk : walk relative true with
          | error context =>
              rw [hwalk] at h
              simp [CasInspection.ofWalk, CasInspection.ioError] at h
          | ok i =>
              rw [hwalk] at h
              exact ⟨i, rfl, h, rfl⟩

/-- The file at the path of a hash is listed. -/
theorem mem_visitEntry_blob {walk : List Name → Bool → Except Text CasInspection}
    {hash : BlobHash} {inode : ℕ}
    (hlookup : r.store.tree.lookup (blobPath hash) = some (.file inode))
    (h : (visitEntry r walk true (blobNames hash)).findings = []) :
    hash ∈ (visitEntry r walk true (blobNames hash)).validBlobs := by
  unfold visitEntry at h ⊢
  cases hstat : r.symlinkMetadata (blobsName :: blobNames hash) with
  | error e =>
      rw [hstat] at h
      simp [CasInspection.ioError] at h
  | ok metadata =>
      have hnode := node_of_symlinkMetadata hstat hlookup
      simp only [hnode, EntryKind.fromNode, classifyCasEntry_blobNames]
      exact List.mem_singleton_self hash

end Walk

/-! ## The whole walk -/

section Inspect

variable {r : StoreReader}

theorem length_le_depth {p : List Name} (h : (r.store.tree.lookup p).isSome) :
    p.length ≤ r.depth := by
  have hmem : p.length ∈ r.store.tree.paths.map List.length :=
    List.mem_map_of_mem (FileTree.mem_paths.mpr h)
  unfold StoreReader.depth
  generalize r.store.tree.paths.map List.length = lengths at hmem
  induction lengths with
  | nil => simp at hmem
  | cons n lengths ih =>
      rw [List.foldr_cons]
      rcases List.mem_cons.mp hmem with heq | hmem
      · omega
      · have hle := ih hmem
        omega

/-- Where an entry lies below a directory, the walk of the directory goes on. -/
theorem exists_succ_of_lookup {relative below : List Name} {depth : ℕ} (hne : below ≠ [])
    (hdepth : r.depth ≤ relative.length + depth)
    (h : (r.store.tree.lookup (blobsName :: (relative ++ below))).isSome) :
    ∃ n, depth = n + 1 := by
  have hlen := length_le_depth h
  have hpos := List.length_pos_iff.mpr hne
  rw [List.length_cons, List.length_append] at hlen
  exact Nat.exists_eq_succ_of_ne_zero (by omega)

/-- An entry with something below it is a directory. -/
theorem lookup_of_below {relative : List Name} {name : Name} {below : List Name}
    (hne : below ≠ [])
    (h : (r.store.tree.lookup (blobsName :: (relative ++ name :: below))).isSome) :
    r.store.tree.lookup (blobsName :: (relative ++ [name])) = some .directory := by
  refine FileTree.lookup_of_isPrefix h ⟨below, by simp⟩ ?_
  intro heq
  apply hne
  simpa using heq

/-- The walk of a directory without findings has seen everything below it. -/
theorem seen_of_walkCas {depth : ℕ} {relative : List Name} {i : CasInspection}
    (h : walkCas r depth relative true = .ok i) (hnil : i.findings = [])
    (hdepth : r.depth ≤ relative.length + depth) {below : List Name} (hne : below ≠ [])
    {node : FileNode ℕ Bytes}
    (hlookup : r.store.tree.lookup (blobsName :: (relative ++ below)) = some node) :
    ValidEntry (relative ++ below) node ∧
      ∀ hash, relative ++ below = blobNames hash → (∃ inode, node = .file inode) →
        hash ∈ i.validBlobs := by
  induction below generalizing depth relative i with
  | nil => exact absurd rfl hne
  | cons name below ih =>
      obtain ⟨depth, rfl⟩ := exists_succ_of_lookup hne hdepth (by simp [hlookup])
      obtain ⟨hfindings, hblobs⟩ := walkCas_succ h
      by_cases hlast : below = []
      · subst hlast
        have hsome : (r.store.tree.lookup (blobsName :: (relative ++ [name]))).isSome := by
          simp [hlookup]
        have hvisit := hfindings.mp hnil name hsome
        refine ⟨(visitEntry_of_findings hlookup hvisit).1, fun hash hnames hfile => ?_⟩
        refine (hblobs hash).mpr ⟨name, hsome, ?_⟩
        obtain ⟨inode, rfl⟩ := hfile
        rw [hnames] at hlookup hvisit ⊢
        exact mem_visitEntry_blob hlookup hvisit
      · have hdir := lookup_of_below hlast (Option.isSome_of_eq_some hlookup)
        have hsome : (r.store.tree.lookup (blobsName :: (relative ++ [name]))).isSome := by
          simp [hdir]
        obtain ⟨j, hwalk, hj, hvisit⟩ :=
          (visitEntry_of_findings hdir (hfindings.mp hnil name hsome)).2 rfl
        have hdeep : r.depth ≤ (relative ++ [name]).length + depth := by
          rw [List.length_append, List.length_singleton]
          omega
        have hnext := ih hwalk hj hdeep hlast (by simpa using hlookup)
        rw [List.append_assoc, List.singleton_append] at hnext
        refine ⟨hnext.1, fun hash hnames hfile => (hblobs hash).mpr ⟨name, hsome, ?_⟩⟩
        rw [hvisit]
        exact hnext.2 hash hnames hfile

/-- A walk that has no findings has walked a valid tree. -/
theorem casTree_of_findings (h : (inspectCas r).findings = []) : CasTree r.store := by
  unfold inspectCas at h
  cases hwalk : walkCas r (r.depth + 1) [] true with
  | error context =>
      rw [hwalk] at h
      simp [CasInspection.ofWalk, CasInspection.ioError] at h
  | ok i =>
      rw [hwalk] at h
      constructor
      · simp only [walkCas, Except.bind_eq_ok] at hwalk
        obtain ⟨entries, hread, -⟩ := hwalk
        unfold StoreReader.readDir at hread
        split at hread
        · simp at hread
        · rename_i hdir
          by_contra hnot
          exact hdir (.inr hnot)
      · intro relative node hne hlookup
        exact (seen_of_walkCas hwalk h (by rw [List.length_nil]; omega) hne hlookup).1

/-- What a walk lists is there. -/
theorem lookup_of_mem_walkCas {depth : ℕ} {relative : List Name} {valid : Bool}
    {i : CasInspection} (h : walkCas r depth relative valid = .ok i) {hash : BlobHash}
    (hmem : hash ∈ i.validBlobs) :
    ∃ inode, r.store.tree.lookup (blobPath hash) = some (.file inode) := by
  induction depth generalizing relative valid i with
  | zero =>
      obtain rfl : CasInspection.empty = i := Except.ok.inj h
      simp [CasInspection.empty] at hmem
  | succ depth ih =>
      obtain ⟨name, hsome, hmem⟩ := ((walkCas_succ h).2 hash).mp hmem
      obtain ⟨node, hlookup⟩ := Option.isSome_iff_exists.mp hsome
      have hbelow : ∀ valid, hash ∈ (CasInspection.ofWalk (relative ++ [name])
          (walkCas r depth (relative ++ [name]) valid)).validBlobs →
          ∃ inode, r.store.tree.lookup (blobPath hash) = some (.file inode) := by
        intro valid hin
        cases hwalk : walkCas r depth (relative ++ [name]) valid with
        | error context =>
            rw [hwalk] at hin
            simp [CasInspection.ofWalk, CasInspection.ioError] at hin
        | ok j =>
            rw [hwalk] at hin
            exact ih hwalk hin
      unfold visitEntry at hmem
      cases hstat : r.symlinkMetadata (blobsName :: (relative ++ [name])) with
      | error e =>
          rw [hstat] at hmem
          simp [CasInspection.ioError] at hmem
      | ok metadata =>
          have hnode := node_of_symlinkMetadata hstat hlookup
          rw [hstat] at hmem
          simp only [hnode] at hmem
          cases hclass : classifyCasEntry (relative ++ [name]) (.fromNode node) valid with
          | validDirectory =>
              rw [hclass] at hmem
              exact hbelow true hmem
          | validBlob hash' =>
              rw [hclass] at hmem
              obtain rfl := List.mem_singleton.mp hmem
              obtain ⟨hnames, inode, rfl⟩ := of_classify_validBlob hclass
              rw [hnames] at hlookup
              exact ⟨inode, hlookup⟩
          | invalid reason =>
              rw [hclass] at hmem
              dsimp only [CasInspection.append] at hmem
              rw [List.nil_append] at hmem
              by_cases hdir : node = .directory
              · rw [if_pos hdir] at hmem
                exact hbelow false hmem
              · rw [if_neg hdir] at hmem
                simp [CasInspection.empty] at hmem

theorem lookup_of_mem_validBlobs {hash : BlobHash} (h : hash ∈ (inspectCas r).validBlobs) :
    ∃ inode, r.store.tree.lookup (blobPath hash) = some (.file inode) := by
  unfold inspectCas at h
  cases hwalk : walkCas r (r.depth + 1) [] true with
  | error context =>
      rw [hwalk] at h
      simp [CasInspection.ofWalk, CasInspection.ioError] at h
  | ok i =>
      rw [hwalk] at h
      exact lookup_of_mem_walkCas hwalk h

/-- A walk without findings lists the files at the paths of their hashes. -/
theorem mem_validBlobs_inspectCas (h : (inspectCas r).findings = []) {hash : BlobHash} :
    hash ∈ (inspectCas r).validBlobs ↔
      ∃ inode, r.store.tree.lookup (blobPath hash) = some (.file inode) := by
  refine ⟨lookup_of_mem_validBlobs, ?_⟩
  rintro ⟨inode, hlookup⟩
  unfold inspectCas at h ⊢
  cases hwalk : walkCas r (r.depth + 1) [] true with
  | error context =>
      rw [hwalk] at h
      simp [CasInspection.ofWalk, CasInspection.ioError] at h
  | ok i =>
      rw [hwalk] at h
      exact (seen_of_walkCas hwalk h (by rw [List.length_nil]; omega)
        (by simp) hlookup).2 hash rfl ⟨inode, rfl⟩

/-- Where every read succeeds, a valid tree is walked without findings. -/
theorem findings_of_casTree (hfails : ∀ call, r.fails call = false) (h : CasTree r.store) :
    (inspectCas r).findings = [] := by
  have hwalk : ∀ depth relative, r.store.tree.lookup (blobsName :: relative) = some .directory →
      ∃ i, walkCas r depth relative true = .ok i ∧ i.findings = [] := by
    intro depth
    induction depth with
    | zero => exact fun relative _ => ⟨.empty, rfl, rfl⟩
    | succ depth ih =>
        intro relative hdir
        have hread : r.readDir (blobsName :: relative) =
            .ok (sortPaths (r.store.tree.children (blobsName :: relative))) := by
          simp [StoreReader.readDir, hfails, hdir]
        obtain ⟨i, hi⟩ : ∃ i, walkCas r (depth + 1) relative true = .ok i := by
          rw [walkCas, hread]
          exact ⟨_, rfl⟩
        refine ⟨i, hi, (walkCas_succ hi).1.mpr fun name hsome => ?_⟩
        obtain ⟨node, hlookup⟩ := Option.isSome_iff_exists.mp hsome
        have hvalid := h.entries (relative ++ [name]) node (by simp) hlookup
        unfold visitEntry
        rw [StoreReader.symlinkMetadata, hfails, if_neg Bool.false_ne_true,
          Disk.symlinkMetadata_of_lookup hlookup]
        dsimp only
        cases hclass : classifyCasEntry (relative ++ [name]) (.fromNode node) true with
        | invalid reason => exact absurd hclass (hvalid reason)
        | validBlob hash => rfl
        | validDirectory =>
            obtain rfl := (of_classify_validDirectory hclass).1
            obtain ⟨j, hj, hnil⟩ := ih (relative ++ [name]) hlookup
            dsimp only
            rw [hj]
            exact hnil
  obtain ⟨i, hi, hnil⟩ := hwalk (r.depth + 1) [] h.root
  rw [inspectCas, hi]
  exact hnil

end Inspect

end MediaImporter
