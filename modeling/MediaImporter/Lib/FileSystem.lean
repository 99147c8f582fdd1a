import MediaImporter.Lib.FileTree
import MediaImporter.Lib.Program

/-!
# Calls to a file system

A `Disk` is a file tree with the content of its files. Files are inodes, so that two
entries can be links to one file; every inode of the tree is older than `nextInode`, so a
new file is a link to nothing else. `FsCall` are the calls a program makes, `fsHandler`
their answers.

What makes a call fail for no reason in the tree is a `FaultPlan`: it may name an error
for the n-th call, and whether the call took effect all the same. Without faults a call
does what `FileTree` says.

## Main definitions

* `Disk`, `FsCall`, `FsAnswer`, `Disk.perform` — the calls and their effect.
* `Fault`, `FaultPlan`, `fsHandler` — environments with faults.
* `Disk.lookup_perform`, `Disk.sameFiles_perform` — what a call leaves alone.
-/

variable {ν τ β : Type}

/-- A file tree with the content of its files. `beyond` is what the system finds at a path
that leads out of the tree through a symbolic link. -/
structure Disk (ν τ β : Type) [DecidableEq ν] where
  tree : FileTree ν ℕ τ
  data : ℕ → List β
  nextInode : ℕ
  beyond : List ν → Except IoError (FileNode ℕ τ)
  inode_lt : ∀ p i, tree.lookup p = some (.file i) → i < nextInode

/-- If the node is a file, its inode is below the bound. -/
def FileNode.InodeLt (bound : ℕ) : FileNode ℕ τ → Prop
  | .file i => i < bound
  | _ => True

instance (bound : ℕ) : (node : FileNode ℕ τ) → Decidable (node.InodeLt bound)
  | .file i => inferInstanceAs (Decidable (i < bound))
  | .directory | .symlink _ | .other => inferInstanceAs (Decidable True)

/-- The disk with the listed entries and file contents, and nothing beyond links. -/
def Disk.ofEntries [DecidableEq ν] (l : List (List ν × FileNode ℕ τ)) (contents : List (List β))
    (hkeys : (l.map Prod.fst).Nodup)
    (hparent : ∀ e ∈ l, e.1 = [] ∨ (e.1.dropLast, FileNode.directory) ∈ l)
    (hinodes : ∀ e ∈ l, e.2.InodeLt contents.length) : Disk ν τ β where
  tree := FileTree.ofEntries l hkeys hparent
  data i := contents.getD i []
  nextInode := contents.length
  beyond _ := .error .notFound
  inode_lt _ _ h := hinodes _ (FileTree.mem_of_lookup_ofEntries h)

/-- What `lstat` reports. -/
structure Metadata (τ : Type) where
  node : FileNode ℕ τ
  len : ℕ
  deriving DecidableEq

inductive FsCall (ν τ β : Type)
  /-- `lstat`. -/
  | symlinkMetadata (path : List ν)
  /-- `open` for reading with `O_NOFOLLOW`, and `fstat` of the handle. -/
  | openNoFollow (path : List ν)
  /-- `read` to the end of an open file. -/
  | readFile (inode : ℕ)
  /-- `open` with `O_CREAT | O_EXCL`. -/
  | createNew (path : List ν)
  /-- `write` at the end of an open file. -/
  | append (inode : ℕ) (bytes : List β)
  | createDir (path : List ν)
  | hardLink (original link : List ν)
  | symlink (target : τ) (path : List ν)
  | rename (source dest : List ν)
  | removeFile (path : List ν)
  | removeDir (path : List ν)
  /-- `fsync` of a directory handle. -/
  | syncDirectory (path : List ν)
  /-- Every path strictly below a directory, found by reading directories. -/
  | entriesBelow (path : List ν)

/-- The answer to a call. -/
abbrev FsAnswer : FsCall ν τ β → Type
  | .symlinkMetadata _ | .openNoFollow _ => Except IoError (Metadata τ)
  | .readFile _ => Except IoError (List β)
  | .createNew _ => Except IoError ℕ
  | .entriesBelow _ => Except IoError (List (List ν))
  | _ => Except IoError Unit

namespace Disk

variable [DecidableEq ν]

/-- The length a node is reported with. -/
def len (d : Disk ν τ β) : FileNode ℕ τ → ℕ
  | .file i => (d.data i).length
  | _ => 0

/-- `lstat`, without faults. -/
def symlinkMetadata (d : Disk ν τ β) (p : List ν) : Except IoError (Metadata τ) :=
  (d.tree.stat d.beyond p).map fun node => ⟨node, d.len node⟩

/-- Opening a symbolic link fails. -/
def openNoFollow (d : Disk ν τ β) (p : List ν) : Except IoError (Metadata τ) :=
  match d.symlinkMetadata p with
  | .ok ⟨.symlink _, _⟩ => .error .fault
  | r => r

/-- Put the tree an operation leaves behind in place. -/
def change (d : Disk ν τ β) (r : Except IoError (FileTree ν ℕ τ))
    (h : ∀ t, r = .ok t → ∀ p i, t.lookup p = some (.file i) → i < d.nextInode) :
    Except IoError (Disk ν τ β) :=
  match r, h with
  | .ok t, h => .ok { d with tree := t, inode_lt := h t rfl }
  | .error e, _ => .error e

theorem change_eq_ok_iff {d d' : Disk ν τ β} {r : Except IoError (FileTree ν ℕ τ)} {h} :
    d.change r h = .ok d' ↔ r = .ok d'.tree ∧ d'.data = d.data ∧ d'.nextInode = d.nextInode ∧
      d'.beyond = d.beyond := by
  unfold change
  split
  · rename_i t ht
    rcases d' with ⟨tree, data, nextInode, beyond, hlt⟩
    simp only [Except.ok.injEq, mk.injEq]
    constructor
    · rintro ⟨rfl, rfl, rfl, rfl⟩; exact ⟨rfl, rfl, rfl, rfl⟩
    · rintro ⟨rfl, rfl, rfl, rfl⟩; exact ⟨rfl, rfl, rfl, rfl⟩
  · simp

variable [DecidableEq τ]

/-- Bind a free path to a node that is not a new file. -/
def create (d : Disk ν τ β) (p : List ν) (node : FileNode ℕ τ)
    (hnode : ∀ i, node = .file i → i < d.nextInode) : Except IoError (Disk ν τ β) :=
  d.change (d.tree.create p node) fun t ht q i hq => by
    rw [FileTree.lookup_of_create ht] at hq
    split at hq
    · exact hnode i (Option.some.inj hq)
    · exact d.inode_lt q i hq

def createDir (d : Disk ν τ β) (p : List ν) : Except IoError (Disk ν τ β) :=
  d.create p .directory (by simp)

def symlink (d : Disk ν τ β) (target : τ) (p : List ν) : Except IoError (Disk ν τ β) :=
  d.create p (.symlink target) (by simp)

/-- `link`: a second entry for a file. -/
def hardLink (d : Disk ν τ β) (original link : List ν) : Except IoError (Disk ν τ β) :=
  match h : d.tree.lookup original with
  | none => .error (d.tree.missing original)
  | some .directory => .error .isADirectory
  | some node => d.create link node fun i hi => d.inode_lt original i (by rw [h, hi])

def removeFile (d : Disk ν τ β) (p : List ν) : Except IoError (Disk ν τ β) :=
  d.change (d.tree.removeFile p) fun t ht q i hq => by
    rw [FileTree.lookup_of_removeFile ht] at hq
    split at hq
    · simp at hq
    · exact d.inode_lt q i hq

def removeDir (d : Disk ν τ β) (p : List ν) : Except IoError (Disk ν τ β) :=
  d.change (d.tree.removeDir p) fun t ht q i hq => by
    rw [FileTree.lookup_of_removeDir ht] at hq
    split at hq
    · simp at hq
    · exact d.inode_lt q i hq

def rename (d : Disk ν τ β) (source dest : List ν) : Except IoError (Disk ν τ β) :=
  d.change (d.tree.rename source dest) fun t ht q i hq => by
    by_cases hne : source = dest
    · subst hne
      obtain rfl := FileTree.rename_self ht
      exact d.inode_lt q i hq
    · rw [FileTree.lookup_of_rename ht hne] at hq
      split at hq
      · exact d.inode_lt source i hq
      · split at hq
        · simp at hq
        · exact d.inode_lt q i hq

/-- A new empty file, with the next inode. -/
def createNew (d : Disk ν τ β) (p : List ν) : Except IoError (Disk ν τ β) :=
  match h : d.tree.create p (.file d.nextInode) with
  | .error e => .error e
  | .ok t => .ok
    { d with
      tree := t
      data := Function.update d.data d.nextInode []
      nextInode := d.nextInode + 1
      inode_lt := fun q i hq => by
        rw [FileTree.lookup_of_create h] at hq
        split at hq
        · have := FileNode.file.inj (Option.some.inj hq)
          omega
        · exact Nat.lt_succ_of_lt (d.inode_lt q i hq) }

def append (d : Disk ν τ β) (inode : ℕ) (bytes : List β) : Disk ν τ β :=
  { d with data := Function.update d.data inode (d.data inode ++ bytes) }

/-- The paths strictly below a path, deepest last. -/
def entriesBelow (d : Disk ν τ β) (p : List ν) : List (List ν) :=
  d.tree.paths.filter fun q => p <+: q ∧ q ≠ p

/-- The answer to a call and the disk after it, without faults. -/
def perform (d : Disk ν τ β) : (call : FsCall ν τ β) → FsAnswer call × Disk ν τ β
  | .symlinkMetadata p => (d.symlinkMetadata p, d)
  | .openNoFollow p => (d.openNoFollow p, d)
  | .readFile inode => (.ok (d.data inode), d)
  | .createNew p => match d.createNew p with
    | .ok d' => (.ok d.nextInode, d')
    | .error e => (.error e, d)
  | .append inode bytes => (.ok (), d.append inode bytes)
  | .createDir p => unitAnswer (d.createDir p)
  | .hardLink original link => unitAnswer (d.hardLink original link)
  | .symlink target p => unitAnswer (d.symlink target p)
  | .rename source dest => unitAnswer (d.rename source dest)
  | .removeFile p => unitAnswer (d.removeFile p)
  | .removeDir p => unitAnswer (d.removeDir p)
  | .syncDirectory p => (match d.symlinkMetadata p with
      | .ok ⟨.directory, _⟩ => .ok ()
      | .ok _ => .error .notADirectory
      | .error e => .error e, d)
  | .entriesBelow p => (.ok (d.entriesBelow p), d)
where
  unitAnswer (r : Except IoError (Disk ν τ β)) : Except IoError Unit × Disk ν τ β :=
    match r with
    | .ok d' => (.ok (), d')
    | .error e => (.error e, d)

end Disk

namespace Disk

variable [DecidableEq ν]

/-- Two disks agree on everything but the tree. -/
def SameFiles (d d' : Disk ν τ β) : Prop :=
  d'.data = d.data ∧ d'.nextInode = d.nextInode ∧ d'.beyond = d.beyond

theorem SameFiles.refl (d : Disk ν τ β) : d.SameFiles d := ⟨rfl, rfl, rfl⟩

theorem SameFiles.trans {d d' d'' : Disk ν τ β} (h : d.SameFiles d') (h' : d'.SameFiles d'') :
    d.SameFiles d'' :=
  ⟨h'.1.trans h.1, h'.2.1.trans h.2.1, h'.2.2.trans h.2.2⟩

theorem change_ok {d : Disk ν τ β} {r : Except IoError (FileTree ν ℕ τ)} {h}
    {t : FileTree ν ℕ τ} (hr : r = .ok t) :
    ∃ d', d.change r h = .ok d' ∧ d'.tree = t ∧ d.SameFiles d' := by
  subst hr
  exact ⟨_, rfl, rfl, rfl, rfl, rfl⟩

theorem change_spec {d d' : Disk ν τ β} {r : Except IoError (FileTree ν ℕ τ)} {h}
    (hd : d.change r h = .ok d') : r = .ok d'.tree ∧ d.SameFiles d' := by
  obtain ⟨hr, hrest⟩ := change_eq_ok_iff.mp hd
  exact ⟨hr, hrest⟩

theorem symlinkMetadata_of_lookup {d : Disk ν τ β} {p : List ν} {node : FileNode ℕ τ}
    (h : d.tree.lookup p = some node) : d.symlinkMetadata p = .ok ⟨node, d.len node⟩ := by
  simp [symlinkMetadata, FileTree.stat_of_lookup h, Except.map]

theorem symlinkMetadata_of_missing {d : Disk ν τ β} {p : List ν} {n : ν}
    (hp : d.tree.lookup p = some .directory) (hn : d.tree.lookup (p ++ [n]) = none) :
    d.symlinkMetadata (p ++ [n]) = .error .notFound := by
  simp [symlinkMetadata, FileTree.stat_of_missing hp hn, Except.map]

theorem symlinkMetadata_of_free {d : Disk ν τ β} {p : List ν} (hne : p ≠ [])
    (hp : d.tree.lookup p.dropLast = some .directory) (hn : d.tree.lookup p = none) :
    d.symlinkMetadata p = .error .notFound := by
  rw [← List.dropLast_append_getLast hne] at hn ⊢
  exact symlinkMetadata_of_missing hp hn

/-- A path below directories that names nothing is not found. -/
theorem symlinkMetadata_of_absent {d : Disk ν τ β} {p : List ν} (hp : d.tree.lookup p = none)
    (h : ∀ q, q <+: p → ∀ node, d.tree.lookup q = some node → node = .directory) :
    d.symlinkMetadata p = .error .notFound := by
  have hmissing : d.tree.missing p = .notFound := by
    unfold FileTree.missing
    cases hfind : p.inits.dropLast.reverse.findSome? d.tree.lookup with
    | none => rfl
    | some node =>
        obtain ⟨q, hq, hlookup⟩ := List.exists_of_findSome?_eq_some hfind
        have hprefix : q <+: p :=
          (List.mem_inits _ _).mp (List.mem_of_mem_dropLast (List.mem_reverse.mp hq))
        rw [h q hprefix node hlookup]
  simp [symlinkMetadata, FileTree.stat, hp, hmissing, Except.map]

theorem lookup_of_symlinkMetadata {d : Disk ν τ β} {p : List ν} {m : Metadata τ}
    (hp : d.tree.Stays p) (h : d.symlinkMetadata p = .ok m) :
    d.tree.lookup p = some m.node := by
  unfold symlinkMetadata at h
  cases hs : d.tree.stat d.beyond p with
  | error e => simp [hs, Except.map] at h
  | ok n =>
      obtain rfl : _ = m := by simpa [hs, Except.map] using h
      exact FileTree.lookup_of_stat hp hs

theorem lookup_of_symlinkMetadata_notFound {d : Disk ν τ β} {p : List ν}
    (h : d.symlinkMetadata p = .error .notFound) : d.tree.lookup p = none := by
  unfold symlinkMetadata at h
  cases hs : d.tree.stat d.beyond p with
  | ok n => simp [hs, Except.map] at h
  | error e =>
      obtain rfl : e = .notFound := by simpa [hs, Except.map] using h
      exact FileTree.lookup_of_stat_notFound hs

theorem mem_entriesBelow {d : Disk ν τ β} {p q : List ν} :
    q ∈ d.entriesBelow p ↔ (d.tree.lookup q).isSome ∧ p <+: q ∧ q ≠ p := by
  simp [entriesBelow, FileTree.mem_paths]

variable [DecidableEq τ]

theorem create_spec {d d' : Disk ν τ β} {p : List ν} {node : FileNode ℕ τ} {h}
    (hd : d.create p node h = .ok d') : d.tree.lookup p = none ∧
      (∀ q, d'.tree.lookup q = if q = p then some node else d.tree.lookup q) ∧
      d.SameFiles d' := by
  obtain ⟨ht, hsame⟩ := change_spec hd
  exact ⟨FileTree.free_of_create ht, FileTree.lookup_of_create ht, hsame⟩

/-- A directory or a link can be made at a free path. -/
theorem create_ok {d : Disk ν τ β} {p : List ν} {node : FileNode ℕ τ} {h}
    (hfree : d.tree.lookup p = none) (hp : d.tree.inDirectory p) :
    ∃ d', d.create p node h = .ok d' := by
  obtain ⟨t, ht⟩ : ∃ t, d.tree.create p node = .ok t := FileTree.create_ok hfree hp
  obtain ⟨d', hd', -⟩ := change_ok (d := d) (h := fun t ht q i hq => by
    rw [FileTree.lookup_of_create ht] at hq
    split at hq
    · exact h i (Option.some.inj hq)
    · exact d.inode_lt q i hq) ht
  exact ⟨d', hd'⟩

theorem removeFile_spec {d d' : Disk ν τ β} {p : List ν} (hd : d.removeFile p = .ok d') :
    (∀ q, d'.tree.lookup q = if q = p then none else d.tree.lookup q) ∧ d.SameFiles d' := by
  obtain ⟨ht, hsame⟩ := change_spec hd
  exact ⟨FileTree.lookup_of_removeFile ht, hsame⟩

theorem removeFile_ok {d : Disk ν τ β} {p : List ν} {node : FileNode ℕ τ}
    (h : d.tree.lookup p = some node) (hdir : node ≠ .directory) :
    ∃ d', d.removeFile p = .ok d' := by
  obtain ⟨t, ht⟩ := FileTree.removeFile_ok h hdir
  obtain ⟨d', hd', -⟩ := change_ok (d := d) (h := fun t ht q i hq => by
    rw [FileTree.lookup_of_removeFile ht] at hq
    split at hq
    · simp at hq
    · exact d.inode_lt q i hq) ht
  exact ⟨d', hd'⟩

theorem removeDir_spec {d d' : Disk ν τ β} {p : List ν} (hd : d.removeDir p = .ok d') :
    (∀ q, d'.tree.lookup q = if q = p then none else d.tree.lookup q) ∧ d.SameFiles d' := by
  obtain ⟨ht, hsame⟩ := change_spec hd
  exact ⟨FileTree.lookup_of_removeDir ht, hsame⟩

theorem removeDir_ok {d : Disk ν τ β} {p : List ν} (h : d.tree.lookup p = some .directory)
    (hv : d.tree.vacant p) : ∃ d', d.removeDir p = .ok d' := by
  obtain ⟨t, ht⟩ := FileTree.removeDir_ok h hv
  obtain ⟨d', hd', -⟩ := change_ok (d := d) (h := fun t ht q i hq => by
    rw [FileTree.lookup_of_removeDir ht] at hq
    split at hq
    · simp at hq
    · exact d.inode_lt q i hq) ht
  exact ⟨d', hd'⟩

theorem removeDir_of_not_vacant {d : Disk ν τ β} {p : List ν}
    (h : d.tree.lookup p = some .directory) (hv : ¬ d.tree.vacant p) :
    d.removeDir p = .error .directoryNotEmpty := by
  have ht := FileTree.removeDir_of_not_vacant h hv
  unfold removeDir change
  split
  · rename_i hok _; rw [ht] at hok; simp at hok
  · rename_i herr _; rw [ht] at herr; exact congrArg _ (Except.error.inj herr).symm

theorem rename_spec {d d' : Disk ν τ β} {source dest : List ν} (hne : source ≠ dest)
    (hd : d.rename source dest = .ok d') :
    (∀ q, d'.tree.lookup q =
      if q = dest then d.tree.lookup source else if q = source then none
      else d.tree.lookup q) ∧ d.SameFiles d' := by
  obtain ⟨ht, hsame⟩ := change_spec hd
  exact ⟨FileTree.lookup_of_rename ht hne, hsame⟩

/-- Making a link does not take a directory away. -/
theorem symlink_keeps_directory {d : Disk ν τ β} {target : τ} {p q : List ν}
    (hq : d.tree.lookup q = some .directory) :
    (d.perform (.symlink target p)).2.tree.lookup q = some .directory := by
  cases hd : d.symlink target p with
  | error e => simpa [perform, perform.unitAnswer, hd] using hq
  | ok d' =>
      obtain ⟨hfree, hlook, -⟩ := create_spec hd
      have hne : q ≠ p := by rintro rfl; simp [hfree] at hq
      simp [perform, perform.unitAnswer, hd, hlook, hne, hq]

theorem dest_of_rename {d d' : Disk ν τ β} {source dest : List ν}
    (hd : d.rename source dest = .ok d') : d.tree.lookup dest ≠ some .directory :=
  FileTree.dest_of_rename (change_spec hd).1

/-- Renaming what is not a directory does not take a directory away. -/
theorem rename_keeps_directory {d : Disk ν τ β} {source dest q : List ν}
    (hq : d.tree.lookup q = some .directory) :
    (d.perform (.rename source dest)).2.tree.lookup q = some .directory := by
  cases hd : d.rename source dest with
  | error e => simpa [perform, perform.unitAnswer, hd] using hq
  | ok d' =>
      have hdest : q ≠ dest := by rintro rfl; exact dest_of_rename hd hq
      have hsource : q ≠ source := by
        rintro rfl; exact FileTree.source_of_rename (change_spec hd).1 hq
      have hlook : d'.tree.lookup q = d.tree.lookup q := by
        by_cases hsame : source = dest
        · subst hsame
          rw [FileTree.rename_self (change_spec hd).1]
        · rw [(rename_spec hsame hd).1, if_neg hdest, if_neg hsource]
      simp [perform, perform.unitAnswer, hd, hlook, hq]

theorem rename_ok {d : Disk ν τ β} {source dest : List ν} {node : FileNode ℕ τ}
    (hsource : d.tree.lookup source = some node) (hnode : node ≠ .directory)
    (hdest : d.tree.lookup dest ≠ some .directory) (hp : d.tree.inDirectory dest) :
    ∃ d', d.rename source dest = .ok d' := by
  obtain ⟨t, ht⟩ := FileTree.rename_ok hsource hnode hdest hp
  rcases hr : d.rename source dest with e | d'
  · unfold rename at hr
    obtain ⟨d', hd', -⟩ := change_ok (d := d) (h := _) ht
    rw [hd'] at hr
    simp at hr
  · exact ⟨d', rfl⟩

/-! ## What a call leaves alone -/

theorem hardLink_spec {d d' : Disk ν τ β} {original link : List ν}
    (hd : d.hardLink original link = .ok d') : d.tree.lookup link = none ∧
      (∀ q, d'.tree.lookup q =
        if q = link then d.tree.lookup original else d.tree.lookup q) ∧ d.SameFiles d' := by
  unfold hardLink at hd
  split at hd
  · simp at hd
  · simp at hd
  · rename_i node _ horiginal
    rw [horiginal]
    exact create_spec hd

theorem createNew_spec {d d' : Disk ν τ β} {p : List ν} (hd : d.createNew p = .ok d') :
    d.tree.lookup p = none ∧
      (∀ q, d'.tree.lookup q = if q = p then some (.file d.nextInode) else d.tree.lookup q) ∧
      d'.data = Function.update d.data d.nextInode [] ∧ d'.nextInode = d.nextInode + 1 ∧
      d'.beyond = d.beyond := by
  unfold createNew at hd
  split at hd
  · simp at hd
  · rename_i t ht
    obtain rfl := Except.ok.inj hd
    exact ⟨FileTree.free_of_create ht, FileTree.lookup_of_create ht, rfl, rfl, rfl⟩

end Disk

/-- The paths a call can bind or unbind. -/
def FsCall.changes : FsCall ν τ β → List (List ν)
  | .createNew p | .createDir p | .symlink _ p | .removeFile p | .removeDir p => [p]
  | .hardLink _ link => [link]
  | .rename source dest => [source, dest]
  | _ => []

/-- The call changes no file content and makes no file. -/
def FsCall.KeepsFiles : FsCall ν τ β → Prop
  | .createNew _ | .append _ _ => False
  | _ => True

namespace Disk

variable [DecidableEq ν] [DecidableEq τ]

omit [DecidableEq τ] in
theorem snd_unitAnswer {d : Disk ν τ β} {r : Except IoError (Disk ν τ β)} {P : Disk ν τ β → Prop}
    (hd : P d) (hr : ∀ d', r = .ok d' → P d') : P (perform.unitAnswer d r).2 := by
  unfold perform.unitAnswer
  split
  · exact hr _ rfl
  · exact hd

/-- A call leaves every other path alone. -/
theorem lookup_perform {d : Disk ν τ β} {call : FsCall ν τ β} {q : List ν}
    (hq : q ∉ call.changes) : (d.perform call).2.tree.lookup q = d.tree.lookup q := by
  cases call with
  | symlinkMetadata _ | openNoFollow _ | readFile _ | append _ _ | syncDirectory _
  | entriesBelow _ => rfl
  | createNew p =>
      rw [perform]
      split
      · rename_i d' hd'
        rw [(createNew_spec hd').2.1, if_neg (by simpa [FsCall.changes] using hq)]
      · rfl
  | createDir p | symlink target p =>
      refine snd_unitAnswer (P := fun d' => d'.tree.lookup q = d.tree.lookup q) rfl fun d' hd' => ?_
      rw [(create_spec hd').2.1, if_neg (by simpa [FsCall.changes] using hq)]
  | hardLink original link =>
      refine snd_unitAnswer (P := fun d' => d'.tree.lookup q = d.tree.lookup q) rfl fun d' hd' => ?_
      rw [(hardLink_spec hd').2.1, if_neg (by simpa [FsCall.changes] using hq)]
  | rename source dest =>
      have hq' : q ≠ source ∧ q ≠ dest := by simpa [FsCall.changes] using hq
      refine snd_unitAnswer (P := fun d' => d'.tree.lookup q = d.tree.lookup q) rfl fun d' hd' => ?_
      by_cases hsame : source = dest
      · subst hsame
        rw [FileTree.rename_self (change_spec hd').1]
      · rw [(rename_spec hsame hd').1, if_neg hq'.2, if_neg hq'.1]
  | removeFile p =>
      refine snd_unitAnswer (P := fun d' => d'.tree.lookup q = d.tree.lookup q) rfl fun d' hd' => ?_
      rw [(removeFile_spec hd').1, if_neg (by simpa [FsCall.changes] using hq)]
  | removeDir p =>
      refine snd_unitAnswer (P := fun d' => d'.tree.lookup q = d.tree.lookup q) rfl fun d' hd' => ?_
      rw [(removeDir_spec hd').1, if_neg (by simpa [FsCall.changes] using hq)]

omit [DecidableEq τ] in
theorem change_error {d : Disk ν τ β} {r : Except IoError (FileTree ν ℕ τ)} {h} {e : IoError}
    (hd : d.change r h = .error e) : r = .error e := by
  unfold change at hd
  split at hd
  · simp at hd
  · rw [Except.error.inj hd]

omit [DecidableEq τ] in
/-- What is removed, or was not there to be removed, is gone. -/
theorem lookup_of_unitAnswer {d : Disk ν τ β} {r : Except IoError (Disk ν τ β)} {p : List ν}
    (hok : ∀ d', r = .ok d' →
      ∀ q, d'.tree.lookup q = if q = p then none else d.tree.lookup q)
    (hmissing : r = .error .notFound → d.tree.lookup p = none)
    (h : (perform.unitAnswer d r).1 = .ok () ∨ (perform.unitAnswer d r).1 = .error .notFound)
    (q : List ν) : (perform.unitAnswer d r).2.tree.lookup q =
      if q = p then none else d.tree.lookup q := by
  cases r with
  | ok d' => exact hok d' rfl q
  | error e =>
      obtain rfl : e = .notFound := by simpa [perform.unitAnswer] using h
      by_cases hq : q = p
      · rw [if_pos hq, hq]
        exact hmissing rfl
      · rw [if_neg hq]
        rfl

theorem lookup_of_perform_removeFile {d : Disk ν τ β} {p : List ν}
    (h : (d.perform (.removeFile p)).1 = .ok () ∨
      (d.perform (.removeFile p)).1 = .error .notFound) (q : List ν) :
    (d.perform (.removeFile p)).2.tree.lookup q = if q = p then none else d.tree.lookup q :=
  lookup_of_unitAnswer (fun _ hd => (removeFile_spec hd).1)
    (fun hd => FileTree.removeFile_notFound (change_error hd)) h q

theorem lookup_of_perform_removeDir {d : Disk ν τ β} {p : List ν}
    (h : (d.perform (.removeDir p)).1 = .ok () ∨
      (d.perform (.removeDir p)).1 = .error .notFound) (q : List ν) :
    (d.perform (.removeDir p)).2.tree.lookup q = if q = p then none else d.tree.lookup q :=
  lookup_of_unitAnswer (fun _ hd => (removeDir_spec hd).1)
    (fun hd => FileTree.removeDir_notFound (change_error hd)) h q

/-- A call that neither makes nor fills a file leaves the files alone. -/
theorem sameFiles_perform {d : Disk ν τ β} {call : FsCall ν τ β} (h : call.KeepsFiles) :
    d.SameFiles (d.perform call).2 := by
  cases call with
  | symlinkMetadata _ | openNoFollow _ | readFile _ | syncDirectory _ | entriesBelow _ =>
      exact SameFiles.refl d
  | createNew _ | append _ _ => exact h.elim
  | createDir p | symlink target p =>
      exact snd_unitAnswer (SameFiles.refl d) fun d' hd' => (create_spec hd').2.2
  | hardLink original link =>
      exact snd_unitAnswer (SameFiles.refl d) fun d' hd' => (hardLink_spec hd').2.2
  | rename source dest =>
      exact snd_unitAnswer (SameFiles.refl d) fun d' hd' => (change_spec hd').2
  | removeFile p =>
      exact snd_unitAnswer (SameFiles.refl d) fun d' hd' => (removeFile_spec hd').2
  | removeDir p =>
      exact snd_unitAnswer (SameFiles.refl d) fun d' hd' => (removeDir_spec hd').2

omit [DecidableEq τ] in
/-- What is found at a path depends on the entries at and above it. -/
theorem symlinkMetadata_congr {d d' : Disk ν τ β} {p : List ν} (hfiles : d.SameFiles d')
    (h : ∀ q, q <+: p → d'.tree.lookup q = d.tree.lookup q) :
    d'.symlinkMetadata p = d.symlinkMetadata p := by
  have hmissing : d'.tree.missing p = d.tree.missing p := by
    unfold FileTree.missing
    have hfind : ∀ l : List (List ν), (∀ q ∈ l, q <+: p) →
        l.findSome? d'.tree.lookup = l.findSome? d.tree.lookup := by
      intro l hl
      induction l with
      | nil => rfl
      | cons q l ih =>
          rw [List.findSome?_cons, List.findSome?_cons, h q (hl q (by simp)),
            ih fun r hr => hl r (by simp [hr])]
    rw [hfind]
    intro q hq
    exact (List.mem_inits _ _).mp (List.mem_of_mem_dropLast (List.mem_reverse.mp hq))
  have hlen : ∀ node : FileNode ℕ τ, d'.len node = d.len node := by
    intro node
    cases node <;> simp [len, hfiles.1]
  simp only [symlinkMetadata, FileTree.stat, h p List.prefix_rfl, hmissing, hfiles.2.2, hlen]

end Disk

/-! ## Environments with faults -/

/-- A failure that no state of the disk explains. A call may take effect and still be
reported as failed. -/
structure Fault where
  error : IoError
  performed : Bool

/-- The fault, if any, with which a call is answered when some number of calls precede. -/
abbrev FaultPlan (ν τ β : Type) := FsCall ν τ β → ℕ → Option Fault

/-- No call fails without a reason in the tree. -/
def FaultPlan.none : FaultPlan ν τ β := fun _ _ => Option.none

/-- The answer that reports an error. -/
def failedAnswer : (call : FsCall ν τ β) → IoError → FsAnswer call
  | .symlinkMetadata _, e | .openNoFollow _, e => Except.error e
  | .readFile _, e => Except.error e
  | .createNew _, e => Except.error e
  | .append _ _, e | .createDir _, e | .hardLink _ _, e | .symlink _ _, e | .rename _ _, e
  | .removeFile _, e | .removeDir _, e | .syncDirectory _, e => Except.error e
  | .entriesBelow _, e => Except.error e

section Handler

variable [DecidableEq ν] [DecidableEq τ]

/-- Answer the call that comes after `calls` others. -/
def Disk.answer (faults : FaultPlan ν τ β) (calls : ℕ) (d : Disk ν τ β) (call : FsCall ν τ β) :
    FsAnswer call × Disk ν τ β :=
  match faults call calls with
  | none => d.perform call
  | some f => (failedAnswer call f.error, if f.performed then (d.perform call).2 else d)

@[simp] theorem Disk.answer_none (calls : ℕ) (d : Disk ν τ β) (call : FsCall ν τ β) :
    d.answer .none calls call = d.perform call := rfl

/-- The calls are answered by the disk in the state, without faults. -/
def FsCall.AnsweredBy {σ : Type} (h : Program.Handler (FsCall ν τ β) FsAnswer σ)
    (disk : σ → Disk ν τ β) : Prop :=
  ∀ call s, (h call s).1 = ((disk s).perform call).1 ∧
    disk (h call s).2 = ((disk s).perform call).2

/-- A fault leaves behind what the call would have done, or nothing. -/
theorem Disk.answer_snd (faults : FaultPlan ν τ β) (calls : ℕ) (d : Disk ν τ β)
    (call : FsCall ν τ β) : (d.answer faults calls call).2 = (d.perform call).2 ∨
      (d.answer faults calls call).2 = d := by
  unfold answer
  split
  · exact .inl rfl
  · split
    · exact .inl rfl
    · exact .inr rfl

end Handler
