import Mathlib

/-!
# Finite file trees

A file tree is a finite map from paths to nodes in which every entry lies in a
directory; a tree that breaks this cannot be built. Names, inodes and link texts are
arbitrary types. The operations are the ones a program can ask of a file system, with
their failures: they test the tree alone, so a failure that has no cause in the tree (an
I/O fault) is not theirs to report.

A path that leads through a symbolic link leaves the tree. What the operating system
answers for such a path is a parameter of `stat`; an operation that would change
something there reports `IoError.elsewhere`.

Everything that is proved about an operation is a statement about `lookup`: what the
tree after it answers for every path.

## Main definitions

* `FileNode`, `FileTree`, `FileTree.lookup`, `FileTree.paths` — trees and their content.
* `FileTree.stat`, `FileTree.children` — inspection.
* `FileTree.create`, `FileTree.removeFile`, `FileTree.removeDir`, `FileTree.rename` —
  the operations, each with its `lookup` lemma and its condition of success.
* `FileTree.lookup_of_isPrefix` — every proper ancestor of an entry is a directory.
-/

/-- What a path names. -/
inductive FileNode (ι τ : Type)
  | directory
  | file (inode : ι)
  | symlink (target : τ)
  | other
  deriving DecidableEq, Repr

/-- Why an operation on a file tree fails. -/
inductive IoError
  | notFound
  | alreadyExists
  | notADirectory
  | isADirectory
  | directoryNotEmpty
  /-- The path leads through a symbolic link, out of the modelled tree. -/
  | elsewhere
  /-- A failure that no state of the tree explains. -/
  | fault
  deriving DecidableEq, Repr

/-- A finite map from paths to nodes in which every entry lies in a directory. -/
structure FileTree (ν ι τ : Type) [DecidableEq ν] where
  entries : AList fun _ : List ν => FileNode ι τ
  parent_directory : ∀ p n, p ++ [n] ∈ entries → entries.lookup p = some .directory

namespace FileTree

variable {ν ι τ : Type} [DecidableEq ν]

/-- The node at a path, reached through directories only. -/
def lookup (t : FileTree ν ι τ) (p : List ν) : Option (FileNode ι τ) := t.entries.lookup p

/-- The paths of all entries, in no particular order. -/
def paths (t : FileTree ν ι τ) : List (List ν) := t.entries.keys

/-- The tree without entries, in which not even the root exists. -/
def empty : FileTree ν ι τ := ⟨∅, by simp⟩

/-- The tree whose only entry is the root directory. -/
def bare : FileTree ν ι τ :=
  ⟨AList.singleton [] .directory, by intro p n h; simp [AList.mem_keys] at h⟩

/-- The tree with the listed entries, each of which lies in a listed directory. -/
def ofEntries (l : List (List ν × FileNode ι τ)) (hkeys : (l.map Prod.fst).Nodup)
    (hparent : ∀ e ∈ l, e.1 = [] ∨ (e.1.dropLast, FileNode.directory) ∈ l) :
    FileTree ν ι τ where
  entries := ⟨l.map fun e => ⟨e.1, e.2⟩, by
    rw [List.NodupKeys, List.keys, List.map_map]
    exact hkeys⟩
  parent_directory := by
    intro p n hmem
    obtain ⟨s, hs, hp⟩ := List.mem_map.mp (AList.mem_keys.mp hmem)
    obtain ⟨e, he, rfl⟩ := List.mem_map.mp hs
    dsimp only at hp
    rcases hparent e he with hnil | hdir
    · simp [hnil] at hp
    · rw [hp, List.dropLast_concat] at hdir
      exact AList.mem_lookup_iff.mpr (List.mem_map.mpr ⟨_, hdir, rfl⟩)

theorem mem_of_lookup_ofEntries {l : List (List ν × FileNode ι τ)} {hkeys hparent} {p : List ν}
    {n : FileNode ι τ} (h : (ofEntries l hkeys hparent).lookup p = some n) : (p, n) ∈ l := by
  obtain ⟨e, he, heq⟩ := List.mem_map.mp (AList.mem_lookup_iff.mp h)
  cases heq
  exact he

/-- Two trees hold the same entries. -/
def Same (t t' : FileTree ν ι τ) : Prop := ∀ p, t.lookup p = t'.lookup p

@[simp] theorem lookup_empty (p : List ν) : (empty : FileTree ν ι τ).lookup p = none := rfl

theorem mem_paths {t : FileTree ν ι τ} {p : List ν} : p ∈ t.paths ↔ (t.lookup p).isSome := by
  rw [paths, ← AList.mem_keys, lookup, AList.lookup_isSome]

theorem nodup_paths (t : FileTree ν ι τ) : t.paths.Nodup := t.entries.keys_nodup

theorem lookup_parent {t : FileTree ν ι τ} {p : List ν} {n : ν}
    (h : (t.lookup (p ++ [n])).isSome) : t.lookup p = some .directory :=
  t.parent_directory p n (AList.lookup_isSome.mp h)

/-- Every proper ancestor of an entry is a directory. -/
theorem lookup_of_isPrefix {t : FileTree ν ι τ} {p q : List ν} (hq : (t.lookup q).isSome)
    (hpq : p <+: q) (hne : p ≠ q) : t.lookup p = some .directory := by
  obtain ⟨r, rfl⟩ := hpq
  induction r using List.reverseRecOn with
  | nil => simp at hne
  | append_singleton r n ih =>
      rw [← List.append_assoc] at hq
      have hparent := lookup_parent hq
      by_cases hr : r = []
      · simpa [hr] using hparent
      · exact ih (by simp [hparent]) (by simpa using hr)

theorem lookup_dropLast {t : FileTree ν ι τ} {p : List ν} (hp : (t.lookup p).isSome)
    (hne : p ≠ []) : t.lookup p.dropLast = some .directory := by
  rw [← List.dropLast_append_getLast hne] at hp
  exact lookup_parent hp

/-- Below an entry that is not a directory there is nothing. -/
theorem lookup_append_eq_none {t : FileTree ν ι τ} {p r : List ν}
    (hp : t.lookup p ≠ some .directory) (hr : r ≠ []) : t.lookup (p ++ r) = none := by
  by_contra h
  exact hp (lookup_of_isPrefix (Option.isSome_iff_ne_none.mpr h) (List.prefix_append p r)
    (by simpa using hr))

/-! ## Inspection -/

/-- Where the walk along a path that names nothing stops: at the deepest entry above it. -/
def missing (t : FileTree ν ι τ) (p : List ν) : IoError :=
  match p.inits.dropLast.reverse.findSome? t.lookup with
  | none | some .directory => .notFound
  | some (.symlink _) => .elsewhere
  | some _ => .notADirectory

/-- The node at a path, following symbolic links in its proper ancestors only. `beyond` is
the answer for a path that leaves the tree through one of them. -/
def stat (beyond : List ν → Except IoError (FileNode ι τ)) (t : FileTree ν ι τ) (p : List ν) :
    Except IoError (FileNode ι τ) :=
  match t.lookup p with
  | some n => .ok n
  | none => match t.missing p with
    | .elsewhere => beyond p
    | e => .error e

/-- The entries of the directory at a path. -/
def children (t : FileTree ν ι τ) (p : List ν) : List (List ν) :=
  t.paths.filter fun q => q ≠ [] ∧ q.dropLast = p

theorem mem_children {t : FileTree ν ι τ} {p q : List ν} :
    q ∈ t.children p ↔ (t.lookup q).isSome ∧ q ≠ [] ∧ q.dropLast = p := by
  simp [children, mem_paths]

theorem append_mem_children {t : FileTree ν ι τ} {p : List ν} {n : ν} :
    p ++ [n] ∈ t.children p ↔ (t.lookup (p ++ [n])).isSome := by
  simp [mem_children]

theorem children_eq_nil {t : FileTree ν ι τ} {p : List ν} :
    t.children p = [] ↔ ∀ n, t.lookup (p ++ [n]) = none := by
  rw [List.eq_nil_iff_forall_not_mem]
  constructor
  · intro h n
    have hn := h (p ++ [n])
    rwa [append_mem_children, Option.not_isSome_iff_eq_none] at hn
  · intro h q hq
    obtain ⟨hsome, hne, rfl⟩ := mem_children.mp hq
    have hn := h (q.getLast hne)
    rw [List.dropLast_append_getLast hne] at hn
    simp [hn] at hsome

theorem stat_of_lookup {beyond : List ν → Except IoError (FileNode ι τ)} {t : FileTree ν ι τ}
    {p : List ν} {n : FileNode ι τ} (h : t.lookup p = some n) : t.stat beyond p = .ok n := by
  simp [stat, h]

/-- Below directories, a path that names nothing is reported as not found. -/
theorem missing_of_parent {t : FileTree ν ι τ} {p : List ν} {n : ν}
    (h : t.lookup p = some .directory) : t.missing (p ++ [n]) = .notFound := by
  have hinits : (p ++ [n]).inits.dropLast = p.inits := by
    simp [List.inits_append, List.dropLast_append_of_ne_nil]
  have htails : p.inits.reverse = p.reverse.tails.map List.reverse := by
    simp [List.inits_eq_tails]
  unfold missing
  rw [hinits, htails]
  cases hr : p.reverse with
  | nil =>
      obtain rfl : p = [] := by simpa using hr
      simp [h]
  | cons m q =>
      have hp : (m :: q).reverse = p := by rw [← hr, List.reverse_reverse]
      simp only [List.tails_cons, List.map_cons, hp, List.findSome?_cons, h]

/-- The walk leaves the tree only through a symbolic link above the path. -/
theorem exists_symlink_of_missing {t : FileTree ν ι τ} {p : List ν}
    (h : t.missing p = .elsewhere) :
    ∃ q target, q <+: p ∧ q ≠ p ∧ t.lookup q = some (.symlink target) := by
  unfold missing at h
  cases hfind : p.inits.dropLast.reverse.findSome? t.lookup with
  | none => simp [hfind] at h
  | some node =>
      cases node with
      | symlink target =>
          obtain ⟨q, hq, hlookup⟩ := List.exists_of_findSome?_eq_some hfind
          rw [List.mem_reverse] at hq
          refine ⟨q, target, (List.mem_inits _ _).mp (List.mem_of_mem_dropLast hq), ?_, hlookup⟩
          rintro rfl
          obtain ⟨i, hi, hget⟩ := List.getElem_of_mem hq
          rw [List.getElem_dropLast] at hget
          have hlen := congrArg List.length hget
          simp at hlen hi
          omega
      | directory | file _ | other => simp [hfind] at h

theorem stat_of_missing {beyond : List ν → Except IoError (FileNode ι τ)} {t : FileTree ν ι τ}
    {p : List ν} {n : ν} (hp : t.lookup p = some .directory) (hn : t.lookup (p ++ [n]) = none) :
    t.stat beyond (p ++ [n]) = .error .notFound := by
  simp [stat, hn, missing_of_parent hp]

/-- No symbolic link above a path leads out of the tree. -/
def Stays (t : FileTree ν ι τ) (p : List ν) : Prop :=
  ∀ q, q <+: p → q ≠ p → ∀ target, t.lookup q ≠ some (.symlink target)

theorem lookup_of_stat {beyond : List ν → Except IoError (FileNode ι τ)} {t : FileTree ν ι τ}
    {p : List ν} {n : FileNode ι τ} (hp : t.Stays p) (h : t.stat beyond p = .ok n) :
    t.lookup p = some n := by
  unfold stat at h
  cases hl : t.lookup p with
  | some m => simpa [hl] using h
  | none =>
      rw [hl] at h
      by_cases he : t.missing p = .elsewhere
      · obtain ⟨q, target, hq, hne, hlink⟩ := exists_symlink_of_missing he
        exact absurd hlink (hp q hq hne target)
      · dsimp only at h
        split at h
        · exact absurd ‹_› he
        · simp at h

theorem lookup_of_stat_notFound {beyond : List ν → Except IoError (FileNode ι τ)}
    {t : FileTree ν ι τ} {p : List ν} (h : t.stat beyond p = .error .notFound) :
    t.lookup p = none := by
  cases hl : t.lookup p with
  | none => rfl
  | some n => simp [stat_of_lookup hl] at h

/-! ## Operations -/

/-- A new entry may be put at the path: its parent is a directory, or it is the root. -/
def inDirectory (t : FileTree ν ι τ) (p : List ν) : Prop :=
  p = [] ∨ t.lookup p.dropLast = some .directory

/-- The path has no entry below it. -/
def vacant (t : FileTree ν ι τ) (p : List ν) : Prop := t.children p = []

instance (t : FileTree ν ι τ) (p : List ν) [DecidableEq ι] [DecidableEq τ] :
    Decidable (t.inDirectory p) := inferInstanceAs (Decidable (_ ∨ _))

instance (t : FileTree ν ι τ) (p : List ν) : Decidable (t.vacant p) :=
  decidable_of_iff (t.children p).isEmpty List.isEmpty_iff

theorem vacant_iff {t : FileTree ν ι τ} {p : List ν} :
    t.vacant p ↔ ∀ n, t.lookup (p ++ [n]) = none := children_eq_nil

theorem vacant_of_lookup {t : FileTree ν ι τ} {p : List ν} (h : t.lookup p ≠ some .directory) :
    t.vacant p :=
  vacant_iff.mpr fun n => lookup_append_eq_none h (by simp)

theorem inDirectory_append {t : FileTree ν ι τ} {p : List ν} {n : ν} :
    t.inDirectory (p ++ [n]) ↔ t.lookup p = some .directory := by
  simp [inDirectory]

theorem inDirectory_of_lookup {t : FileTree ν ι τ} {p : List ν} (h : (t.lookup p).isSome) :
    t.inDirectory p := by
  by_cases hp : p = []
  · exact .inl hp
  · exact .inr (lookup_dropLast h hp)

/-- Bind a path to a node. -/
def insert (t : FileTree ν ι τ) (p : List ν) (node : FileNode ι τ) (hp : t.inDirectory p)
    (hv : t.vacant p) : FileTree ν ι τ where
  entries := t.entries.insert p node
  parent_directory := by
    intro q n hmem
    rcases AList.mem_insert t.entries |>.mp hmem with heq | hold
    · subst heq
      rw [AList.lookup_insert_ne (by simp)]
      exact inDirectory_append.mp hp
    · have hq := t.parent_directory q n hold
      by_cases heq : q = p
      · subst heq
        have hnone : q ++ [n] ∉ t.entries := AList.lookup_eq_none.mp (vacant_iff.mp hv n)
        exact absurd hold hnone
      · rwa [AList.lookup_insert_ne heq]

/-- Unbind a path below which there is nothing. -/
def erase (t : FileTree ν ι τ) (p : List ν) (hv : t.vacant p) : FileTree ν ι τ where
  entries := t.entries.erase p
  parent_directory := by
    intro q n hmem
    obtain ⟨-, hold⟩ := AList.mem_erase.mp hmem
    have hq := t.parent_directory q n hold
    by_cases heq : q = p
    · subst heq
      have hnone : q ++ [n] ∉ t.entries := AList.lookup_eq_none.mp (vacant_iff.mp hv n)
      exact absurd hold hnone
    · rwa [AList.lookup_erase_ne heq]

@[simp] theorem lookup_insert (t : FileTree ν ι τ) (p : List ν) (node : FileNode ι τ) (hp hv)
    (q : List ν) : (t.insert p node hp hv).lookup q = if q = p then some node else t.lookup q := by
  by_cases hq : q = p
  · subst hq; simp [lookup, insert]
  · simp [lookup, insert, hq]

@[simp] theorem lookup_erase (t : FileTree ν ι τ) (p : List ν) (hv) (q : List ν) :
    (t.erase p hv).lookup q = if q = p then none else t.lookup q := by
  by_cases hq : q = p
  · subst hq; simp [lookup, erase]
  · simp [lookup, erase, hq]

/-- `mkdir`, `symlink`, `link` and exclusive `open`: bind a free path to a node. -/
def create [DecidableEq ι] [DecidableEq τ] (t : FileTree ν ι τ) (p : List ν)
    (node : FileNode ι τ) : Except IoError (FileTree ν ι τ) :=
  if hfree : t.lookup p = none then
    if hp : t.inDirectory p then
      .ok (t.insert p node hp (vacant_of_lookup (by simp [hfree])))
    else .error (t.missing p)
  else .error .alreadyExists

/-- `unlink`: remove an entry that is not a directory. -/
def removeFile [DecidableEq ι] [DecidableEq τ] (t : FileTree ν ι τ) (p : List ν) :
    Except IoError (FileTree ν ι τ) :=
  if t.lookup p = none then .error (t.missing p)
  else if hdir : t.lookup p = some .directory then .error .isADirectory
  else .ok (t.erase p (vacant_of_lookup hdir))

/-- `rmdir`: remove an empty directory. -/
def removeDir [DecidableEq ι] [DecidableEq τ] (t : FileTree ν ι τ) (p : List ν) :
    Except IoError (FileTree ν ι τ) :=
  if t.lookup p = none then .error (t.missing p)
  else if t.lookup p = some .directory then
    if hv : t.vacant p then .ok (t.erase p hv) else .error .directoryNotEmpty
  else .error .notADirectory

theorem inDirectory_erase {t : FileTree ν ι τ} {p q : List ν} {hv} (hq : t.inDirectory q)
    (hp : t.lookup p ≠ some .directory) : (t.erase p hv).inDirectory q := by
  rcases hq with hq | hq
  · exact .inl hq
  · right
    rw [lookup_erase, if_neg, hq]
    rintro rfl
    exact hp hq

theorem vacant_erase {t : FileTree ν ι τ} {p q : List ν} {hv}
    (hq : t.lookup q ≠ some .directory) : (t.erase p hv).vacant q := by
  apply vacant_of_lookup
  rw [lookup_erase]
  split
  · simp
  · exact hq

/-- `rename` of an entry that is not a directory, over a free path or over another entry
that is not a directory. -/
def rename [DecidableEq ι] [DecidableEq τ] (t : FileTree ν ι τ) (src dst : List ν) :
    Except IoError (FileTree ν ι τ) :=
  match hsrc : t.lookup src with
  | none => .error (t.missing src)
  | some node =>
      if hdir : node = .directory ∨ t.lookup dst = some .directory then .error .isADirectory
      else if src = dst then .ok t
      else if hp : t.inDirectory dst then
        .ok ((t.erase src (vacant_of_lookup (by simp [hsrc, (not_or.mp hdir).1]))).insert dst node
          (inDirectory_erase hp (by simp [hsrc, (not_or.mp hdir).1]))
          (vacant_erase (not_or.mp hdir).2))
      else .error (t.missing dst)

/-! ## What the operations leave behind -/

section Operations

variable [DecidableEq ι] [DecidableEq τ] {t t' : FileTree ν ι τ} {p q : List ν}
  {node : FileNode ι τ}

theorem create_eq_ok_iff : t.create p node = .ok t' ↔
    t.lookup p = none ∧ ∃ hp hv, t' = t.insert p node hp hv := by
  unfold create
  split
  · rename_i hfree
    split
    · rename_i hp
      constructor
      · intro h; exact ⟨hfree, hp, vacant_of_lookup (by simp [hfree]), (Except.ok.inj h).symm⟩
      · rintro ⟨-, -, -, rfl⟩; rfl
    · rename_i hp
      refine iff_of_false (by simp) ?_
      rintro ⟨-, hp', -⟩
      exact hp hp'
  · rename_i hfree
    exact iff_of_false (by simp) fun h => hfree h.1

/-- A free path in a directory can be bound. -/
theorem create_ok (hfree : t.lookup p = none) (hp : t.inDirectory p) :
    ∃ t', t.create p node = .ok t' :=
  ⟨_, create_eq_ok_iff.mpr ⟨hfree, hp, vacant_of_lookup (by simp [hfree]), rfl⟩⟩

theorem lookup_of_create (h : t.create p node = .ok t') (q : List ν) :
    t'.lookup q = if q = p then some node else t.lookup q := by
  obtain ⟨-, hp, hv, rfl⟩ := create_eq_ok_iff.mp h
  exact lookup_insert t p node hp hv q

theorem free_of_create (h : t.create p node = .ok t') : t.lookup p = none :=
  (create_eq_ok_iff.mp h).1

theorem removeFile_eq_ok_iff : t.removeFile p = .ok t' ↔
    t.lookup p ≠ none ∧ t.lookup p ≠ some .directory ∧ ∃ hv, t' = t.erase p hv := by
  unfold removeFile
  split
  · rename_i h; simp [h]
  · rename_i h
    split
    · rename_i hdir; simp [hdir]
    · rename_i hdir
      constructor
      · intro heq; exact ⟨h, hdir, vacant_of_lookup hdir, (Except.ok.inj heq).symm⟩
      · rintro ⟨-, -, -, rfl⟩; rfl

/-- A file, a link or a special entry can be unlinked. -/
theorem removeFile_ok (h : t.lookup p = some node) (hdir : node ≠ .directory) :
    ∃ t', t.removeFile p = .ok t' := by
  have hp : t.lookup p ≠ some .directory := by simpa [h] using hdir
  exact ⟨_, removeFile_eq_ok_iff.mpr ⟨by simp [h], hp, vacant_of_lookup hp, rfl⟩⟩

theorem lookup_of_removeFile (h : t.removeFile p = .ok t') (q : List ν) :
    t'.lookup q = if q = p then none else t.lookup q := by
  obtain ⟨-, -, hv, rfl⟩ := removeFile_eq_ok_iff.mp h
  exact lookup_erase t p hv q

theorem removeDir_eq_ok_iff : t.removeDir p = .ok t' ↔
    t.lookup p = some .directory ∧ ∃ hv, t' = t.erase p hv := by
  unfold removeDir
  split
  · rename_i h; simp [h]
  · split
    · rename_i hdir
      split
      · rename_i hv
        constructor
        · intro heq; exact ⟨hdir, hv, (Except.ok.inj heq).symm⟩
        · rintro ⟨-, -, rfl⟩; rfl
      · rename_i hv
        refine iff_of_false (by simp) ?_
        rintro ⟨-, hv', -⟩
        exact hv hv'
    · rename_i hdir
      exact iff_of_false (by simp) fun h => hdir h.1

theorem lookup_of_removeDir (h : t.removeDir p = .ok t') (q : List ν) :
    t'.lookup q = if q = p then none else t.lookup q := by
  obtain ⟨-, hv, rfl⟩ := removeDir_eq_ok_iff.mp h
  exact lookup_erase t p hv q

/-- An empty directory can be removed. -/
theorem removeDir_ok (h : t.lookup p = some .directory) (hv : t.vacant p) :
    ∃ t', t.removeDir p = .ok t' :=
  ⟨_, removeDir_eq_ok_iff.mpr ⟨h, hv, rfl⟩⟩

theorem removeFile_notFound (h : t.removeFile p = .error .notFound) : t.lookup p = none := by
  unfold removeFile at h
  split_ifs at h with hfree
  · exact hfree
  · simp at h

theorem removeDir_notFound (h : t.removeDir p = .error .notFound) : t.lookup p = none := by
  unfold removeDir at h
  split_ifs at h with hfree
  · exact hfree
  · simp at h
  · simp at h

/-- A directory that still has entries is not removed. -/
theorem removeDir_of_not_vacant (h : t.lookup p = some .directory) (hv : ¬ t.vacant p) :
    t.removeDir p = .error .directoryNotEmpty := by
  simp [removeDir, h, hv]

/-- A link can be renamed over another link, or over a free path in a directory. -/
theorem rename_ok {src dst : List ν} (hsrc : t.lookup src = some node)
    (hnode : node ≠ .directory) (hdst : t.lookup dst ≠ some .directory)
    (hp : t.inDirectory dst) : ∃ t', t.rename src dst = .ok t' := by
  unfold rename
  split
  · rename_i h; simp [h] at hsrc
  · rename_i node' h
    obtain rfl : node' = node := by simpa [h] using hsrc
    rw [dif_neg (not_or.mpr ⟨hnode, hdst⟩)]
    by_cases heq : src = dst
    · exact ⟨t, if_pos heq⟩
    · exact ⟨_, (if_neg heq).trans (dif_pos hp)⟩

theorem lookup_of_rename {src dst : List ν} (h : t.rename src dst = .ok t') (hne : src ≠ dst)
    (q : List ν) : t'.lookup q =
      if q = dst then t.lookup src else if q = src then none else t.lookup q := by
  unfold rename at h
  split at h
  · simp at h
  · rename_i node hsrc
    by_cases hdir : node = .directory ∨ t.lookup dst = some .directory
    · rw [dif_pos hdir] at h; simp at h
    · rw [dif_neg hdir, if_neg hne] at h
      by_cases hp : t.inDirectory dst
      · rw [dif_pos hp] at h
        obtain rfl := Except.ok.inj h
        rw [lookup_insert, lookup_erase, hsrc]
      · rw [dif_neg hp] at h; simp at h

/-- A directory is not renamed over. -/
theorem dest_of_rename {src dst : List ν} (h : t.rename src dst = .ok t') :
    t.lookup dst ≠ some .directory := by
  intro hdst
  unfold rename at h
  split at h
  · simp at h
  · rw [dif_pos (.inr hdst)] at h
    simp at h

/-- A directory is not renamed. -/
theorem source_of_rename {src dst : List ν} (h : t.rename src dst = .ok t') :
    t.lookup src ≠ some .directory := by
  unfold rename at h
  split at h
  · rename_i hsrc; simp [hsrc]
  · rename_i node hsrc
    intro hdir
    rw [hsrc] at hdir
    rw [dif_pos (.inl (Option.some.inj hdir))] at h
    simp at h

/-- Renaming a path to itself changes nothing. -/
theorem rename_self (h : t.rename p p = .ok t') : t' = t := by
  unfold rename at h
  split at h
  · simp at h
  · rename_i node hsrc
    by_cases hdir : node = .directory ∨ t.lookup p = some .directory
    · rw [dif_pos hdir] at h; simp at h
    · rw [dif_neg hdir, if_pos rfl] at h
      exact (Except.ok.inj h).symm

end Operations

end FileTree
