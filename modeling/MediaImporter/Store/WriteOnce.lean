import MediaImporter.Gc.Safety
import MediaImporter.Store.Install

/-!
# A blob is written once

Imports that run side by side share a store. Each knows that its staged file is its own, as
long as no other path names the same file, and the steps of the others leave it alone. The
files of the CAS are only added: a link is made where there is nothing, by one import.

## Main definitions

* `CasOfValidFiles`, `IngestInvariant` — what holds in every state.
* `KeepsOthers` — what a step of an import leaves alone.
* `Finished`, `WrittenOnce` — what an import ends with, and all of them.
-/

namespace MediaImporter

open Utf8 UnixPath Interleave

/-! ## What holds in every state -/

/-- Each file of the CAS has the content of its name, below directories. -/
structure CasOfValidFiles (digest : Bytes → BlobHash) (d : Store) : Prop where
  file : ∀ hash node, d.tree.lookup (blobPath hash) = some node →
    ∃ i, node = .file i ∧ digest (d.data i) = hash
  directory : ∀ hash p node, p <+: blobPath hash → p ≠ blobPath hash →
    d.tree.lookup p = some node → node = .directory

namespace IngestWorld

abbrev lookup (s : IngestWorld) (p : List Name) : Option (FileNode ℕ Bytes) := s.disk.tree.lookup p

abbrev data (s : IngestWorld) (i : ℕ) : Bytes := s.disk.data i

end IngestWorld

/-- The CAS is valid, and each of its files was there or was linked once. -/
structure IngestInvariant (digest : Bytes → BlobHash) (start : Store) (n : ℕ)
    (s : IngestWorld) : Prop where
  cas : CasOfValidFiles digest s.disk
  linked : ∀ e ∈ s.linked, e.1 < n ∧ ∃ hash, e.2 = blobPath hash ∧
    start.tree.lookup (blobPath hash) = none ∧ s.lookup (blobPath hash) ≠ none
  once : (s.linked.map Prod.snd).Nodup
  known : ∀ hash, s.lookup (blobPath hash) ≠ none →
    start.tree.lookup (blobPath hash) = none → ∃ k, (k, blobPath hash) ∈ s.linked
  kept : ∀ hash, start.tree.lookup (blobPath hash) ≠ none → s.lookup (blobPath hash) ≠ none

/-- What a step of the import with the number and the staged file leaves alone. -/
structure KeepsOthers (own : List Name) (k : ℕ) (s t : IngestWorld) : Prop where
  lookup : ∀ p ≠ own, ∀ node, s.lookup p = some node → t.lookup p = some node
  staging : ∀ p, stagingPath <+: p → p ≠ own → t.lookup p = s.lookup p
  file : ∀ p i, t.lookup p = some (.file i) →
    s.lookup p = some (.file i) ∨ s.lookup own = some (.file i) ∨ s.disk.nextInode ≤ i
  data : ∀ p ≠ own, ∀ i, s.lookup p = some (.file i) → t.data i = s.data i
  linked : ∀ e, e.1 ≠ k → (e ∈ t.linked ↔ e ∈ s.linked)

/-- Each import leaves alone what is not its own. -/
def Guarantees (names : List Name) (k : ℕ) (s t : IngestWorld) : Prop :=
  ∃ name, names[k]? = some name ∧ KeepsOthers (stagingFile name) k s t

/-! ## What an import knows -/

section Knows

variable (own : List Name) (k : ℕ)

/-- The file of which the path is the only name. -/
def Private (i : ℕ) (s : IngestWorld) : Prop :=
  s.lookup own = some (.file i) ∧ ∀ p, s.lookup p = some (.file i) → p = own

/-- The import has linked nothing. -/
def LinksNothing (s : IngestWorld) : Prop := ∀ p, (k, p) ∉ s.linked

/-- The import has linked the path of the hash, and no other. -/
def Installed (hash : BlobHash) (s : IngestWorld) : Prop :=
  ∀ p, (k, p) ∈ s.linked ↔ p = blobPath hash

/-- The CAS has a file of the size for the hash. -/
def Stored (hash : BlobHash) (size : ℕ) (s : IngestWorld) : Prop :=
  ∃ i, s.lookup (blobPath hash) = some (.file i) ∧ (s.data i).length = size

/-- The staged file has the content, and is not linked yet. -/
def Holding (i : ℕ) (content : Bytes) (s : IngestWorld) : Prop :=
  Private own i s ∧ s.data i = content ∧ LinksNothing k s

/-- The CAS and the links of the import are the same. -/
structure SamePublic (s t : IngestWorld) : Prop where
  blob : ∀ hash i, s.lookup (blobPath hash) = some (.file i) →
    t.lookup (blobPath hash) = some (.file i) ∧ t.data i = s.data i
  linked : ∀ p, (k, p) ∈ t.linked ↔ (k, p) ∈ s.linked

/-- The staged file is the same. -/
structure SameOwn (s t : IngestWorld) : Prop where
  lookup : t.lookup own = s.lookup own
  file : ∀ i, Private own i s → Private own i t ∧ t.data i = s.data i

/-- What depends on the CAS and the links of the import alone. -/
def Public (P : IngestWorld → Prop) : Prop := ∀ s t, SamePublic k s t → P s → P t

/-- What depends on the staged file, too. -/
def Undisturbed (P : IngestWorld → Prop) : Prop :=
  ∀ s t, SamePublic k s t → SameOwn own s t → P s → P t

variable {own k} {P P' : IngestWorld → Prop}

theorem Public.undisturbed (h : Public k P) : Undisturbed own k P :=
  fun s t hpublic _ => h s t hpublic

theorem Public.and (h : Public k P) (h' : Public k P') : Public k fun s => P s ∧ P' s :=
  fun s t hsame hs => ⟨h s t hsame hs.1, h' s t hsame hs.2⟩

theorem Undisturbed.and (h : Undisturbed own k P) (h' : Undisturbed own k P') :
    Undisturbed own k fun s => P s ∧ P' s :=
  fun s t hpublic hown hs => ⟨h s t hpublic hown hs.1, h' s t hpublic hown hs.2⟩

theorem Undisturbed.exists {γ : Type} {P : γ → IngestWorld → Prop}
    (h : ∀ c, Undisturbed own k (P c)) :
    Undisturbed own k fun s => ∃ c, P c s :=
  fun s t hpublic hown ⟨c, hs⟩ => ⟨c, h c s t hpublic hown hs⟩

theorem public_const (φ : Prop) : Public k fun _ => φ := fun _ _ _ hφ => hφ

theorem public_linksNothing : Public k (LinksNothing k) := by
  intro s t hsame hs p hp
  exact hs p ((hsame.linked p).1 hp)

theorem public_installed (hash : BlobHash) : Public k (Installed k hash) := by
  intro s t hsame hs p
  rw [hsame.linked p]
  exact hs p

theorem public_stored (hash : BlobHash) (size : ℕ) : Public k (Stored hash size) := by
  rintro s t hsame ⟨i, hi, hsize⟩
  obtain ⟨hblob, hdata⟩ := hsame.blob hash i hi
  exact ⟨i, hblob, by rw [hdata, hsize]⟩

theorem undisturbed_lookup (Q : Option (FileNode ℕ Bytes) → Prop) :
    Undisturbed own k fun s => Q (s.lookup own) := by
  intro s t _ hown hs
  rw [hown.lookup]
  exact hs

theorem undisturbed_holding (i : ℕ) (content : Bytes) :
    Undisturbed own k (Holding own k i content) := by
  intro s t hpublic hown hs
  obtain ⟨hprivate, hdata, hlinksNothing⟩ := hs
  obtain ⟨hprivate', hdata'⟩ := hown.file i hprivate
  exact ⟨hprivate', hdata'.trans hdata, public_linksNothing s t hpublic hlinksNothing⟩

end Knows

/-! ## Steps of the others -/

section Others

variable {digest : Bytes → BlobHash} {start : Store} {n : ℕ} {name name' : Name} {j k : ℕ}
  {s t : IngestWorld}

theorem prefix_stagingFile (name : Name) : stagingPath <+: stagingFile name := ⟨[name], rfl⟩

theorem ne_stagingFile {hash : BlobHash} {p : List Name} (hp : p <+: blobPath hash) :
    p ≠ stagingFile name := by
  intro heq
  exact not_staging_of_prefix_blobPath hp (heq ▸ prefix_stagingFile name)

theorem KeepsOthers.samePublic (h : KeepsOthers (stagingFile name') j s t) (hjk : k ≠ j) :
    SamePublic k s t := by
  refine ⟨fun hash i hi => ?_, fun p => h.linked (k, p) hjk⟩
  have hne : blobPath hash ≠ stagingFile name' := ne_stagingFile List.prefix_rfl
  exact ⟨h.lookup _ hne _ hi, h.data _ hne i hi⟩

theorem KeepsOthers.sameOwn (h : KeepsOthers (stagingFile name') j s t) (hne : name ≠ name') :
    SameOwn (stagingFile name) s t := by
  have hown : stagingFile name ≠ stagingFile name' := by simpa [stagingFile] using hne
  have hlookup := h.staging _ (prefix_stagingFile name) hown
  refine ⟨hlookup, fun i hprivate => ⟨⟨?_, fun p hp => ?_⟩, h.data _ hown i hprivate.1⟩⟩
  · rw [hlookup]
    exact hprivate.1
  · rcases h.file p i hp with hold | hother | hnew
    · exact hprivate.2 p hold
    · exact absurd (hprivate.2 _ hother) hown.symm
    · have hlt : i < s.disk.nextInode := s.disk.inode_lt _ i hprivate.1
      omega

/-- What is undisturbed stays when the other imports go on. -/
theorem Undisturbed.stable {names : List Name} {P : IngestWorld → Prop} (hnames : names.Nodup)
    (hname : names[k]? = some name) (h : Undisturbed (stagingFile name) k P) :
    Stable (IngestInvariant digest start n) (Guarantees names) k P := by
  intro j hj s t _ _ hguar hs
  obtain ⟨name', hname', hkeeps⟩ := hguar
  have hne : name ≠ name' := by
    intro heq
    subst heq
    obtain ⟨hk, hnamek⟩ := List.getElem?_eq_some_iff.1 hname
    obtain ⟨hj', hnamej⟩ := List.getElem?_eq_some_iff.1 hname'
    exact hj ((hnames.getElem_inj_iff).1 (hnamej.trans hnamek.symm))
  exact h s t (hkeeps.samePublic (Ne.symm hj)) (hkeeps.sameOwn hne) hs

end Others

/-! ## Steps of the import itself -/

section Own

variable {digest : Bytes → BlobHash} {start : Store} {n : ℕ} {name : Name} {k : ℕ}
  {s t : IngestWorld}

/-- The CAS is the same but for new directories in it. -/
structure SameCas (s t : IngestWorld) : Prop where
  lookup : ∀ hash p, p <+: blobPath hash →
    t.lookup p = s.lookup p ∨ (t.lookup p = some .directory ∧ p ≠ blobPath hash)
  data : ∀ hash i, s.lookup (blobPath hash) = some (.file i) → t.data i = s.data i
  linked : t.linked = s.linked

theorem SameCas.blobPath (h : SameCas s t) (hash : BlobHash) :
    t.lookup (blobPath hash) = s.lookup (blobPath hash) := by
  rcases h.lookup hash _ List.prefix_rfl with heq | hdir
  · exact heq
  · exact absurd rfl hdir.2

theorem SameCas.samePublic (h : SameCas s t) : SamePublic k s t := by
  refine ⟨fun hash i hi => ?_, fun p => by rw [h.linked]⟩
  rw [h.blobPath]
  exact ⟨hi, h.data hash i hi⟩

theorem SameCas.invariant (h : SameCas s t) (hs : IngestInvariant digest start n s) :
    IngestInvariant digest start n t := by
  refine ⟨⟨fun hash node hnode => ?_, fun hash p node hp hne hnode => ?_⟩, ?_, ?_, ?_, ?_⟩
  · have hnode : s.lookup (MediaImporter.blobPath hash) = some node := by
      rw [← h.blobPath]
      exact hnode
    obtain ⟨i, rfl, hi⟩ := hs.cas.file hash node hnode
    have hdata : t.data i = s.data i := h.data hash i hnode
    exact ⟨i, rfl, (congrArg digest hdata).trans hi⟩
  · rcases h.lookup hash p hp with heq | ⟨hdir, -⟩
    · exact hs.cas.directory hash p node hp hne (heq.symm.trans hnode)
    · exact Option.some.inj (hnode.symm.trans hdir)
  · rw [h.linked]
    intro e he
    obtain ⟨hn, hash, hpath, hstart, hthere⟩ := hs.linked e he
    exact ⟨hn, hash, hpath, hstart, by rwa [h.blobPath]⟩
  · rw [h.linked]
    exact hs.once
  · intro hash hthere hstart
    rw [h.linked]
    exact hs.known hash (h.blobPath hash ▸ hthere) hstart
  · intro hash hthere
    rw [h.blobPath]
    exact hs.kept hash hthere

/-- Nothing happens but that a directory of the CAS can be made. -/
structure Quiet (s t : IngestWorld) : Prop where
  lookup : ∀ p, t.lookup p = s.lookup p ∨ s.lookup p = none ∧ t.lookup p = some .directory ∧
    ¬ stagingPath <+: p ∧ ∀ hash, p ≠ blobPath hash
  data : ∀ i, t.data i = s.data i
  linked : t.linked = s.linked

theorem Quiet.refl (s : IngestWorld) : Quiet s s := ⟨fun _ => .inl rfl, fun _ => rfl, rfl⟩

namespace Quiet

variable (h : Quiet s t)
include h

theorem file {p : List Name} {i : ℕ} (hp : t.lookup p = some (.file i)) :
    s.lookup p = some (.file i) := by
  rcases h.lookup p with heq | ⟨-, hdir, -⟩
  · rwa [← heq]
  · simp [hdir] at hp

theorem staging {p : List Name} (hp : stagingPath <+: p) : t.lookup p = s.lookup p := by
  rcases h.lookup p with heq | ⟨-, -, hstaging, -⟩
  · exact heq
  · exact absurd hp hstaging

theorem sameCas : SameCas s t := by
  refine ⟨fun hash p _ => ?_, fun _ i _ => h.data i, h.linked⟩
  rcases h.lookup p with heq | ⟨-, hdir, -, hne⟩
  · exact .inl heq
  · exact .inr ⟨hdir, hne hash⟩

theorem keepsOthers (own : List Name) : KeepsOthers own k s t := by
  refine ⟨fun p _ node hp => ?_, fun p hp _ => h.staging hp, fun p i hp => .inl (h.file hp),
    fun _ _ i _ => h.data i, fun e _ => by rw [h.linked]⟩
  rcases h.lookup p with heq | ⟨hnone, -⟩
  · rwa [heq]
  · simp [hnone] at hp

theorem sameOwn : SameOwn (stagingFile name) s t := by
  have hlookup := h.staging (prefix_stagingFile name)
  refine ⟨hlookup, fun i hprivate => ⟨⟨?_, fun p hp => hprivate.2 p (h.file hp)⟩, h.data i⟩⟩
  rw [hlookup]
  exact hprivate.1

end Quiet

/-- The call looks at the store, or makes a directory of the CAS. -/
def QuietCall : DirectoryCall → Prop
  | .symlinkMetadata _ | .openNoFollow _ => True
  | .createDir p => ∃ hash, p <+: blobPath hash ∧ p ≠ blobPath hash
  | _ => False

theorem quiet_createDir {p : List Name} (hp : ∃ hash, p <+: blobPath hash ∧ p ≠ blobPath hash) :
    Quiet s (s.perform k (.createDir p)) := by
  obtain ⟨hash, hprefix, hne⟩ := hp
  cases hd : s.disk.createDir p with
  | error e =>
      have hdisk : (s.perform k (.createDir p)).disk = s.disk := by
        simp [IngestWorld.perform, Disk.perform, Disk.perform.unitAnswer, hd]
      exact ⟨fun q => .inl (by rw [IngestWorld.lookup, hdisk]),
        fun i => by rw [IngestWorld.data, hdisk], rfl⟩
  | ok d' =>
      have hdisk : (s.perform k (.createDir p)).disk = d' := by
        simp [IngestWorld.perform, Disk.perform, Disk.perform.unitAnswer, hd]
      obtain ⟨hfree, hlookup, hfiles⟩ := Disk.create_spec hd
      refine ⟨fun q => ?_, fun i => by rw [IngestWorld.data, hdisk, hfiles.1], rfl⟩
      rw [IngestWorld.lookup, hdisk, hlookup]
      by_cases hq : q = p
      · subst hq
        refine .inr ⟨hfree, if_pos rfl, not_staging_of_prefix_blobPath hprefix, fun hash' heq => ?_⟩
        apply hne
        apply hprefix.eq_of_length
        rw [heq]
        rfl
      · exact .inl (if_neg hq)

theorem quiet_of_answered {call : DirectoryCall} {a : FsAnswer call} (hcall : QuietCall call)
    (h : Answered k call s a t) : Quiet s t := by
  cases h with
  | performed =>
      cases call with
      | symlinkMetadata p | openNoFollow p => exact Quiet.refl s
      | createDir p => exact quiet_createDir hcall
      | _ => exact hcall.elim
  | failed => exact Quiet.refl s
  | madeDirectory p => exact quiet_createDir hcall
  | wrote => exact hcall.elim

/-- The staged file is made where nothing was. -/
theorem createNew_cases {a : FsAnswer (.createNew (stagingFile name))}
    (h : Answered k (.createNew (stagingFile name)) s a t) :
    (∃ e, a = .error e ∧ t = s) ∨
    (a = .ok s.disk.nextInode ∧ s.lookup (stagingFile name) = none ∧ t.linked = s.linked ∧
      (∀ q, t.lookup q = if q = stagingFile name then some (.file s.disk.nextInode)
        else s.lookup q) ∧
      t.disk.data = Function.update s.disk.data s.disk.nextInode []) := by
  cases h with
  | failed _ _ e => exact .inl ⟨e, rfl, rfl⟩
  | performed =>
      cases hd : s.disk.createNew (stagingFile name) with
      | error e =>
          refine .inl ⟨e, by simp [Disk.perform, hd], ?_⟩
          simp [IngestWorld.perform, Disk.perform, hd, linkedBy]
      | ok d' =>
          obtain ⟨hfree, hlookup, hdata, -⟩ := Disk.createNew_spec hd
          have hdisk : (s.perform k (.createNew (stagingFile name))).disk = d' := by
            simp [IngestWorld.perform, Disk.perform, hd]
          refine .inr ⟨by simp [Disk.perform, hd], hfree, rfl, fun q => ?_, ?_⟩
          · rw [IngestWorld.lookup, hdisk, hlookup]
          · rw [hdisk, hdata]

/-- The bytes, or some of them, come after what the file has. -/
theorem append_cases {inode : ℕ} {bytes : Bytes} {a : FsAnswer (.append inode bytes)}
    (h : Answered k (.append inode bytes) s a t) :
    ∃ written, t = ⟨s.disk.append inode written, s.linked⟩ ∧ (a = .ok () → written = bytes) := by
  cases h with
  | performed => exact ⟨bytes, rfl, fun _ => rfl⟩
  | failed _ _ e =>
      refine ⟨[], ?_, fun hok => by simp [failedAnswer] at hok⟩
      have hsame : s.disk.append inode [] = s.disk := by simp [Disk.append]
      rw [hsame]
  | wrote _ _ m _ e => exact ⟨bytes.take m, rfl, fun hok => by simp [failedAnswer] at hok⟩

/-- What is not a directory is removed. -/
theorem removeFile_cases {p : List Name} {a : FsAnswer (.removeFile p)}
    (h : Answered k (.removeFile p) s a t) (hdir : s.lookup p ≠ some .directory) :
    (∀ q, t.lookup q = if q = p then none else s.lookup q) ∧ t.disk.data = s.disk.data ∧
      t.linked = s.linked ∧ (s.lookup p ≠ none → a = .ok ()) := by
  cases h with
  | failed _ _ _ hcall => exact absurd rfl (hcall p)
  | performed =>
      cases hd : s.disk.removeFile p with
      | ok d' =>
          have hdisk : (s.perform k (.removeFile p)).disk = d' := by
            simp [IngestWorld.perform, Disk.perform, Disk.perform.unitAnswer, hd]
          obtain ⟨hlookup, hfiles⟩ := Disk.removeFile_spec hd
          refine ⟨fun q => ?_, by rw [hdisk, hfiles.1], rfl, fun _ => ?_⟩
          · rw [IngestWorld.lookup, hdisk, hlookup]
          · simp [Disk.perform, Disk.perform.unitAnswer, hd]
      | error e =>
          have hnone : s.lookup p = none := by
            cases hnode : s.lookup p with
            | none => rfl
            | some node =>
                obtain ⟨d', hok⟩ := Disk.removeFile_ok hnode fun heq => hdir (heq ▸ hnode)
                rw [hd] at hok
                simp at hok
          have hdisk : (s.perform k (.removeFile p)).disk = s.disk := by
            simp [IngestWorld.perform, Disk.perform, Disk.perform.unitAnswer, hd]
          refine ⟨fun q => ?_, by rw [hdisk], rfl, fun hthere => absurd hnone hthere⟩
          rw [IngestWorld.lookup, hdisk]
          by_cases hq : q = p
          · rw [if_pos hq, hq, ← hnone]
          · rw [if_neg hq]

/-- The link is made where nothing was. -/
theorem hardLink_cases {p q : List Name} {a : FsAnswer (.hardLink p q)}
    (h : Answered k (.hardLink p q) s a t) :
    (∃ e, a = .error e ∧ t = s) ∨
    (a = .ok () ∧ s.lookup q = none ∧
      (∀ r, t.lookup r = if r = q then s.lookup p else s.lookup r) ∧
      t.disk.data = s.disk.data ∧ t.linked = (k, q) :: s.linked) := by
  cases h with
  | failed _ _ e => exact .inl ⟨e, rfl, rfl⟩
  | performed =>
      cases hd : s.disk.hardLink p q with
      | error e =>
          refine .inl ⟨e, by simp [Disk.perform, Disk.perform.unitAnswer, hd], ?_⟩
          simp [IngestWorld.perform, Disk.perform, Disk.perform.unitAnswer, hd, linkedBy]
      | ok d' =>
          have hdisk : (s.perform k (.hardLink p q)).disk = d' := by
            simp [IngestWorld.perform, Disk.perform, Disk.perform.unitAnswer, hd]
          obtain ⟨hfree, hlookup, hfiles⟩ := Disk.hardLink_spec hd
          refine .inr ⟨by simp [Disk.perform, Disk.perform.unitAnswer, hd], hfree, fun r => ?_,
            by rw [hdisk, hfiles.1], ?_⟩
          · rw [IngestWorld.lookup, hdisk, hlookup]
          · simp [IngestWorld.perform, Disk.perform, Disk.perform.unitAnswer, hd, linkedBy]

/-- A new link to a file that has the content of the hash keeps the invariant. -/
theorem invariant_of_linked {p : List Name} {i : ℕ} {hash : BlobHash} (hk : k < n)
    (hs : IngestInvariant digest start n s) (hp : s.lookup p = some (.file i))
    (hhash : digest (s.data i) = hash) (hfree : s.lookup (blobPath hash) = none)
    (hlookup : ∀ r, t.lookup r = if r = blobPath hash then s.lookup p else s.lookup r)
    (hdata : t.disk.data = s.disk.data) (hlinked : t.linked = (k, blobPath hash) :: s.linked) :
    IngestInvariant digest start n t := by
  have hother : ∀ r, r ≠ blobPath hash → t.lookup r = s.lookup r := by
    intro r hr
    rw [hlookup, if_neg hr]
  have hthere : t.lookup (blobPath hash) = some (.file i) := by
    rw [hlookup, if_pos rfl, hp]
  have hkept : ∀ r, s.lookup r ≠ none → t.lookup r ≠ none := by
    intro r hr
    by_cases heq : r = blobPath hash
    · simp [heq, hthere]
    · rwa [hother r heq]
  refine ⟨⟨fun hash' node hnode => ?_, fun hash' r node hr hne hnode => ?_⟩, ?_, ?_, ?_, ?_⟩
  · by_cases heq : hash' = hash
    · subst heq
      obtain rfl : FileNode.file i = node := Option.some.inj (hthere.symm.trans hnode)
      exact ⟨i, rfl, by rw [hdata]; exact hhash⟩
    · have hold := (hother (blobPath hash') (by simpa using heq)).symm.trans hnode
      obtain ⟨j, rfl, hj⟩ := hs.cas.file hash' node hold
      exact ⟨j, rfl, by rw [hdata]; exact hj⟩
  · have hrne : r ≠ blobPath hash := by
      intro heq
      apply hne
      apply hr.eq_of_length
      rw [heq]
      rfl
    exact hs.cas.directory hash' r node hr hne ((hother r hrne).symm.trans hnode)
  · intro e he
    rw [hlinked] at he
    rcases List.mem_cons.1 he with rfl | hold
    · refine ⟨hk, hash, rfl, ?_, by simp [hthere]⟩
      by_contra hstart
      exact hs.kept hash hstart hfree
    · obtain ⟨hn, hash', hpath, hstart, hhas⟩ := hs.linked e hold
      exact ⟨hn, hash', hpath, hstart, hkept _ hhas⟩
  · rw [hlinked, List.map_cons, List.nodup_cons]
    refine ⟨fun hmem => ?_, hs.once⟩
    obtain ⟨e, he, hpath⟩ := List.mem_map.1 hmem
    obtain ⟨-, hash', hpath', -, hhas⟩ := hs.linked e he
    rw [← hpath', hpath] at hhas
    exact hhas hfree
  · intro hash' hhas hstart
    rw [hlinked]
    by_cases heq : hash' = hash
    · exact ⟨k, by simp [heq]⟩
    · rw [hother (blobPath hash') (by simpa using heq)] at hhas
      obtain ⟨j, hj⟩ := hs.known hash' hhas hstart
      exact ⟨j, List.mem_cons_of_mem _ hj⟩
  · intro hash' hstart
    exact hkept _ (hs.kept hash' hstart)

theorem keepsOthers_of_linked {p : List Name} {hash : BlobHash}
    (hfree : s.lookup (blobPath hash) = none)
    (hlookup : ∀ r, t.lookup r = if r = blobPath hash then s.lookup p else s.lookup r)
    (hdata : t.disk.data = s.disk.data) (hlinked : t.linked = (k, blobPath hash) :: s.linked) :
    KeepsOthers p k s t := by
  refine ⟨fun r _ node hr => ?_, fun r hr _ => ?_, fun r i hr => ?_, fun _ _ i _ => ?_,
    fun e he => ?_⟩
  · rw [hlookup, if_neg, hr]
    intro heq
    simp [heq, hfree] at hr
  · rw [hlookup, if_neg]
    intro heq
    exact not_staging_of_prefix_blobPath List.prefix_rfl (heq ▸ hr)
  · rw [hlookup] at hr
    split at hr
    · exact .inr (.inl hr)
    · exact .inl hr
  · rw [IngestWorld.data, hdata]
  · rw [hlinked, List.mem_cons]
    constructor
    · intro hmem
      rcases hmem with heq | hold
      · exact absurd (congrArg Prod.fst heq) he
      · exact hold
    · exact .inr

/-- The staged file changes, and nothing else. -/
structure OwnChange (own : List Name) (s t : IngestWorld) : Prop where
  lookup : ∀ p ≠ own, t.lookup p = s.lookup p
  data : ∀ p ≠ own, ∀ i, s.lookup p = some (.file i) → t.data i = s.data i
  linked : t.linked = s.linked
  file : ∀ i, t.lookup own = some (.file i) →
    s.lookup own = some (.file i) ∨ s.disk.nextInode ≤ i

theorem OwnChange.sameCas (h : OwnChange (stagingFile name) s t) : SameCas s t :=
  ⟨fun _ p hp => .inl (h.lookup p (ne_stagingFile hp)),
    fun _ i hi => h.data _ (ne_stagingFile List.prefix_rfl) i hi, h.linked⟩

theorem OwnChange.keepsOthers {own : List Name} (h : OwnChange own s t) :
    KeepsOthers own k s t := by
  refine ⟨fun p hp node hnode => ?_, fun p _ hp => h.lookup p hp, fun p i hi => ?_, h.data,
    fun e _ => by rw [h.linked]⟩
  · rw [h.lookup p hp]
    exact hnode
  · by_cases hp : p = own
    · subst hp
      rcases h.file i hi with hold | hnew
      · exact .inl hold
      · exact .inr (.inr hnew)
    · rw [h.lookup p hp] at hi
      exact .inl hi

end Own

/-! ## What the parts of an import uphold -/

/-- What the import with the number knows, guarantees and ends with. -/
abbrev IngestUpholds {α : Type} (digest : Bytes → BlobHash) (start : Store) (names : List Name)
    (k : ℕ) (P : IngestWorld → Prop) (p : FsProgram α) (Q : α → IngestWorld → Prop)
    (E : String → IngestWorld → Prop) : Prop :=
  UpholdsT Answered (IngestInvariant digest start names.length) (Guarantees names) k P p Q E

section Parts

variable {digest : Bytes → BlobHash} {start : Store} {names : List Name} {name : Name} {k : ℕ}
  {α : Type} {P : IngestWorld → Prop} {Q : α → IngestWorld → Prop}
  {E : String → IngestWorld → Prop}

theorem upholds_expectOk {answer : Except IoError α} {context : String}
    (hok : ∀ a s, answer = .ok a → P s → Q a s) (herror : ∀ s, P s → E context s) :
    IngestUpholds digest start names k P (expectOk answer context) Q E := by
  cases answer with
  | ok a => exact upholdsT_pure fun s _ hs => hok a s rfl hs
  | error e => exact upholdsT_throw fun s _ hs => herror s hs

theorem upholds_liftExcept {r : Except String α} (hok : ∀ a s, r = .ok a → P s → Q a s)
    (herror : ∀ e s, P s → E e s) :
    IngestUpholds digest start names k P (liftExcept r) Q E := by
  cases r with
  | ok a => exact upholdsT_pure fun s _ hs => hok a s rfl hs
  | error e => exact upholdsT_throw fun s _ hs => herror e s hs

variable (hnames : names.Nodup) (hname : names[k]? = some name)
include hnames hname

/-- A call that leaves the others alone, and what is known after it. -/
theorem upholds_fsCall {call : DirectoryCall} {Q : FsAnswer call → IngestWorld → Prop}
    (h : ∀ s a t, IngestInvariant digest start names.length s → P s → Answered k call s a t →
      IngestInvariant digest start names.length t ∧ KeepsOthers (stagingFile name) k s t ∧ Q a t)
    (hQ : ∀ a, Undisturbed (stagingFile name) k (Q a)) :
    IngestUpholds digest start names k P (fsCall call) Q E := by
  refine upholdsT_requestT (fun s a t hs hP hanswer => ?_) fun a => (hQ a).stable hnames hname
  obtain ⟨ht, hkeeps, hQt⟩ := h s a t hs hP hanswer
  exact ⟨ht, ⟨name, hname, hkeeps⟩, hQt⟩

theorem upholds_quiet (call : DirectoryCall) (hP : Undisturbed (stagingFile name) k P)
    (hcall : QuietCall call) :
    IngestUpholds digest start names k P (fsCall call) (fun _ => P) E := by
  refine upholds_fsCall hnames hname (fun s a t hs hPs hanswer => ?_) fun _ => hP
  have hquiet := quiet_of_answered hcall hanswer
  exact ⟨hquiet.sameCas.invariant hs, hquiet.keepsOthers _,
    hP s t hquiet.sameCas.samePublic hquiet.sameOwn hPs⟩

theorem upholds_ensureBlobParent (hP : Undisturbed (stagingFile name) k P) (hash : BlobHash) :
    IngestUpholds digest start names k P (ensureBlobParent (some hash)) (fun _ => P)
      (fun _ => P) := by
  refine upholdsT_forM fun p hp => ?_
  have hparent : ∃ hash, p <+: blobPath hash ∧ p ≠ blobPath hash := by
    refine ⟨hash, ?_⟩
    simp only [List.mem_cons, List.not_mem_nil, or_false] at hp
    rcases hp with rfl | rfl | rfl
    · exact ⟨⟨blobNames hash, rfl⟩, by simp [blobPath, blobNames]⟩
    · exact ⟨List.take_prefix _ _, by simp [blobPath, blobNames]⟩
    · exact ⟨List.take_prefix _ _, by simp [blobPath, blobNames]⟩
  refine (upholds_quiet hnames hname (.symlinkMetadata p) hP trivial).bind fun metadata => ?_
  have hopen : ∀ f : Except IoError (Metadata Bytes) → FsProgram Unit,
      (∀ opened, f opened = pure () ∨
        f opened = throw "open CAS directory without following links") →
      IngestUpholds digest start names k P (fsCall (.openNoFollow p) >>= f) (fun _ => P)
        (fun _ => P) := by
    intro f hf
    refine (upholds_quiet hnames hname (.openNoFollow p) hP trivial).bind fun opened => ?_
    rcases hf opened with hpure | hthrow
    · rw [hpure]
      exact upholdsT_pure fun _ _ hs => hs
    · rw [hthrow]
      exact upholdsT_throw fun _ _ hs => hs
  split
  · exact upholdsT_throw fun _ _ hs => hs
  · exact hopen _ fun opened => by split <;> simp
  · exact upholdsT_throw fun _ _ hs => hs
  · refine (upholds_quiet hnames hname (.createDir p) hP hparent).bind fun created => ?_
    split
    · exact hopen _ fun opened => by split <;> simp
    · exact hopen _ fun opened => by split <;> simp
    · exact upholdsT_throw fun _ _ hs => hs
  · exact upholdsT_throw fun _ _ hs => hs

/-! ### The staged file -/

omit hnames hname in
/-- The staged file goes, and nothing else. -/
theorem removed {s t : IngestWorld} {a : FsAnswer (.removeFile (stagingFile name))}
    (hs : IngestInvariant digest start names.length s) (hP : Public k P) (hPs : P s)
    (hdir : s.lookup (stagingFile name) ≠ some .directory)
    (h : Answered k (.removeFile (stagingFile name)) s a t) :
    IngestInvariant digest start names.length t ∧ KeepsOthers (stagingFile name) k s t ∧
      P t ∧ t.lookup (stagingFile name) = none := by
  obtain ⟨hlookup, hdata, hlinked, -⟩ := removeFile_cases h hdir
  have hgone : t.lookup (stagingFile name) = none := by rw [hlookup, if_pos rfl]
  have hchange : OwnChange (stagingFile name) s t := by
    refine ⟨fun p hp => by rw [hlookup, if_neg hp], fun _ _ i _ => ?_, hlinked, fun i hi => ?_⟩
    · rw [IngestWorld.data, hdata]
    · simp [hgone] at hi
  exact ⟨hchange.sameCas.invariant hs, hchange.keepsOthers,
    hP s t hchange.sameCas.samePublic hPs, hgone⟩

theorem upholds_removeStagingBestEffort (hP : Public k P) :
    IngestUpholds digest start names k
      (fun s => P s ∧ s.lookup (stagingFile name) ≠ some .directory)
      (removeStagingBestEffort (stagingFile name))
      (fun _ s => P s ∧ s.lookup (stagingFile name) = none) E := by
  have hremove : IngestUpholds digest start names k
      (fun s => P s ∧ s.lookup (stagingFile name) ≠ some .directory)
      (fsCall (.removeFile (stagingFile name)))
      (fun _ s => P s ∧ s.lookup (stagingFile name) = none) E :=
    upholds_fsCall hnames hname
      (fun s a t hs hPs hanswer => removed hs hP hPs.1 hPs.2 hanswer) fun _ =>
        hP.undisturbed.and (undisturbed_lookup (· = none))
  exact hremove.bind fun _ => upholdsT_pure fun _ _ hs => hs

/-- A staged file that is there is removed. -/
theorem upholds_removeStaged (hP : Public k P) (i : ℕ) (context : String) :
    IngestUpholds digest start names k
      (fun s => P s ∧ s.lookup (stagingFile name) = some (.file i))
      (removeStaged (stagingFile name) context)
      (fun _ s => P s ∧ s.lookup (stagingFile name) = none) E := by
  have hremove : IngestUpholds digest start names k
      (fun s => P s ∧ s.lookup (stagingFile name) = some (.file i))
      (fsCall (.removeFile (stagingFile name)))
      (fun a s => (P s ∧ s.lookup (stagingFile name) = none) ∧ a = .ok ()) E := by
    refine upholds_fsCall hnames hname (fun s a t hs hPs hanswer => ?_) fun a =>
      (hP.undisturbed.and (undisturbed_lookup (· = none))).and (public_const _).undisturbed
    have hdir : s.lookup (stagingFile name) ≠ some .directory := by simp [hPs.2]
    obtain ⟨-, -, -, hok⟩ := removeFile_cases hanswer hdir
    obtain ⟨ht, hkeeps, hPt, hgone⟩ := removed hs hP hPs.1 hdir hanswer
    exact ⟨ht, hkeeps, ⟨hPt, hgone⟩, hok (by simp [hPs.2])⟩
  refine hremove.bind fun a => ?_
  refine UpholdsT.of_fact (fun s _ hs => hs.2) fun hok => ?_
  subst hok
  exact upholdsT_pure fun _ _ hs => hs.1

/-- What an import fails with: nothing is linked, and the staged file can be removed. -/
def Aborted (own : List Name) (k : ℕ) (s : IngestWorld) : Prop :=
  LinksNothing k s ∧ s.lookup own ≠ some .directory

omit hnames hname in
theorem Holding.aborted {own : List Name} {i : ℕ} {content : Bytes} {s : IngestWorld}
    (h : Holding own k i content s) : Aborted own k s :=
  ⟨h.2.2, by simp [h.1.1]⟩

theorem upholds_removeAndThrow (message : String) :
    IngestUpholds digest start names k (Aborted (stagingFile name) k) (do
      removeStagingBestEffort (stagingFile name)
      throw message) Q (fun _ => Aborted (stagingFile name) k) := by
  refine (upholds_removeStagingBestEffort hnames hname public_linksNothing).bind fun _ => ?_
  exact upholdsT_throw fun s _ hs => ⟨hs.1, by simp [hs.2]⟩

theorem upholds_bailIf {c : Prop} [Decidable c] (message : String)
    (hP : ∀ s, P s → Aborted (stagingFile name) k s) :
    IngestUpholds digest start names k P (bailIf c (stagingFile name) message)
      (fun _ s => P s ∧ ¬ c) (fun _ => Aborted (stagingFile name) k) := by
  by_cases hc : c
  · simp only [bailIf, if_pos hc]
    exact (upholds_removeAndThrow hnames hname message).of_imp fun s _ hs => hP s hs
  · simp only [bailIf, if_neg hc]
    exact upholdsT_pure fun _ _ hs => ⟨hs, hc⟩

theorem upholds_orRemove {p : FsProgram α} (context : String)
    (h : IngestUpholds digest start names k P p Q (fun _ => Aborted (stagingFile name) k)) :
    IngestUpholds digest start names k P (orRemove (stagingFile name) context p) Q
      (fun _ => Aborted (stagingFile name) k) :=
  h.tryCatch fun _ => upholds_removeAndThrow hnames hname _

theorem upholds_createNew :
    IngestUpholds digest start names k
      (fun s => s.lookup (stagingFile name) = start.tree.lookup (stagingFile name) ∧
        LinksNothing k s)
      (fsCall (.createNew (stagingFile name)))
      (fun a s => match a with
        | .ok i => Holding (stagingFile name) k i [] s ∧
            start.tree.lookup (stagingFile name) = none
        | .error _ => s.lookup (stagingFile name) = start.tree.lookup (stagingFile name) ∧
            LinksNothing k s) E := by
  refine upholds_fsCall hnames hname (fun s a t hs hPs hanswer => ?_) fun a => ?_
  · rcases createNew_cases hanswer with ⟨e, rfl, rfl⟩ | ⟨rfl, hfree, hlinked, hlookup, hdata⟩
    · exact ⟨hs, (Quiet.refl t).keepsOthers _, hPs⟩
    · have hown : t.lookup (stagingFile name) = some (.file s.disk.nextInode) := by
        rw [hlookup, if_pos rfl]
      have hold : ∀ p i, s.lookup p = some (.file i) → i ≠ s.disk.nextInode := by
        intro p i hi heq
        have hlt := s.disk.inode_lt p i hi
        omega
      have hchange : OwnChange (stagingFile name) s t := by
        refine ⟨fun p hp => by rw [hlookup, if_neg hp], fun p _ i hi => ?_, hlinked,
          fun i hi => ?_⟩
        · rw [IngestWorld.data, hdata, Function.update_of_ne (hold p i hi)]
        · right
          rw [hown] at hi
          have heq := FileNode.file.inj (Option.some.inj hi)
          omega
      refine ⟨hchange.sameCas.invariant hs, hchange.keepsOthers, ⟨⟨hown, fun p hp => ?_⟩, ?_,
        public_linksNothing s t hchange.sameCas.samePublic hPs.2⟩, hPs.1 ▸ hfree⟩
      · by_contra hne
        rw [hchange.lookup p hne] at hp
        exact hold p _ hp rfl
      · rw [IngestWorld.data, hdata, Function.update_self]
  · cases a with
    | ok i => exact (undisturbed_holding i []).and (public_const _).undisturbed
    | error e => exact (undisturbed_lookup (· = _)).and public_linksNothing.undisturbed

theorem upholds_append (i : ℕ) (content bytes : Bytes) :
    IngestUpholds digest start names k (Holding (stagingFile name) k i content)
      (fsCall (.append i bytes))
      (fun a s => ∃ written, Holding (stagingFile name) k i (content ++ written) s ∧
        (a = .ok () → written = bytes)) E := by
  refine upholds_fsCall hnames hname (fun s a t hs hPs hanswer => ?_) fun a =>
    Undisturbed.exists fun written => (undisturbed_holding i _).and (public_const _).undisturbed
  obtain ⟨written, rfl, hok⟩ := append_cases hanswer
  obtain ⟨hprivate, hdata, hlinksNothing⟩ := hPs
  have hchange : OwnChange (stagingFile name) s ⟨s.disk.append i written, s.linked⟩ := by
    refine ⟨fun _ _ => rfl, fun p hp j hj => ?_, rfl, fun j hj => .inl hj⟩
    have hne : j ≠ i := by
      intro heq
      subst heq
      exact hp (hprivate.2 p hj)
    exact Function.update_of_ne hne _ _
  refine ⟨hchange.sameCas.invariant hs, hchange.keepsOthers, written, ⟨hprivate, ?_, hlinksNothing⟩,
    hok⟩
  have hupdate : (s.disk.append i written).data i = s.data i ++ written :=
    Function.update_self i _ _
  rw [← hdata]
  exact hupdate

/-- The staged file has the content that was hashed. -/
def Staged (digest : Bytes → BlobHash) (own : List Name) (k i : ℕ) (result : HashResult)
    (s : IngestWorld) : Prop :=
  ∃ content, Holding own k i content s ∧ result = ⟨digest content, content.length⟩

omit hnames hname in
theorem Staged.aborted {own : List Name} {i : ℕ} {result : HashResult} {s : IngestWorld}
    (h : Staged digest own k i result s) : Aborted own k s := by
  obtain ⟨content, hholding, -⟩ := h
  exact hholding.aborted

omit hnames hname in
theorem undisturbed_staged {own : List Name} {i : ℕ} {result : HashResult} :
    Undisturbed own k (Staged digest own k i result) :=
  Undisturbed.exists fun content => (undisturbed_holding i content).and (public_const _).undisturbed

/-- Each chunk is hashed and written, so that the two agree in the end. -/
theorem upholds_hashReaderToWriter (i : ℕ) (reads : List SourceRead) (hasher : BlobHasher)
    (hsize : hasher.sizeBytes = hasher.input.length) :
    IngestUpholds digest start names k (Holding (stagingFile name) k i hasher.input)
      (hashReaderToWriter digest i reads hasher) (Staged digest (stagingFile name) k i)
      (fun _ => Aborted (stagingFile name) k) := by
  have hfinish : ∀ s, Holding (stagingFile name) k i hasher.input s →
      Staged digest (stagingFile name) k i (hasher.finish digest) s := by
    intro s hs
    refine ⟨hasher.input, hs, ?_⟩
    rw [BlobHasher.finish, hsize]
  induction reads generalizing hasher with
  | nil => exact upholdsT_pure fun s _ hs => hfinish s hs
  | cons read reads ih =>
      have hbytes : IngestUpholds digest start names k (Holding (stagingFile name) k i hasher.input)
          (expectOk read.bytes "read source stream")
          (fun _ => Holding (stagingFile name) k i hasher.input)
          (fun _ => Aborted (stagingFile name) k) :=
        upholds_expectOk (fun _ _ _ hs => hs) fun _ hs => hs.aborted
      refine hbytes.bind fun bytes => ?_
      split
      · exact upholdsT_pure fun s _ hs => hfinish s hs
      have hupdate : IngestUpholds digest start names k
          (Holding (stagingFile name) k i hasher.input) (liftExcept (hasher.update bytes))
          (fun hasher' s => Holding (stagingFile name) k i hasher.input s ∧
            hasher' = ⟨hasher.input ++ bytes, hasher.sizeBytes + bytes.length⟩)
          (fun _ => Aborted (stagingFile name) k) := by
        refine upholds_liftExcept (fun hasher' s hok hs => ⟨hs, ?_⟩) fun _ _ hs => hs.aborted
        unfold BlobHasher.update at hok
        split at hok
        · exact (Except.ok.inj hok).symm
        · simp at hok
      refine hupdate.bind fun hasher' => ?_
      refine UpholdsT.of_fact (fun s _ hs => hs.2) fun hhasher => ?_
      subst hhasher
      refine UpholdsT.bind (.of_imp (upholds_append hnames hname i hasher.input bytes)
        fun _ _ hs => hs.1) fun written => ?_
      have hwritten : IngestUpholds digest start names k
          (fun s => ∃ w, Holding (stagingFile name) k i (hasher.input ++ w) s ∧
            (written = .ok () → w = bytes)) (expectOk written "write staging stream")
          (fun _ => Holding (stagingFile name) k i (hasher.input ++ bytes))
          (fun _ => Aborted (stagingFile name) k) := by
        refine upholds_expectOk (fun _ s hok hs => ?_) fun s hs => ?_
        · obtain ⟨w, hholding, hw⟩ := hs
          exact hw hok ▸ hholding
        · obtain ⟨w, hholding, -⟩ := hs
          exact hholding.aborted
      refine hwritten.bind fun _ => ?_
      have hobserved : IngestUpholds digest start names k
          (Holding (stagingFile name) k i (hasher.input ++ bytes)) (liftExcept read.observed)
          (fun _ => Holding (stagingFile name) k i (hasher.input ++ bytes))
          (fun _ => Aborted (stagingFile name) k) :=
        upholds_liftExcept (fun _ _ _ hs => hs) fun _ _ hs => hs.aborted
      refine hobserved.bind fun _ => ?_
      have hsize' : hasher.sizeBytes + bytes.length = (hasher.input ++ bytes).length := by
        rw [hsize, List.length_append]
      refine ih ⟨hasher.input ++ bytes, hasher.sizeBytes + bytes.length⟩ hsize' fun s hs => ?_
      refine ⟨hasher.input ++ bytes, hs, ?_⟩
      rw [BlobHasher.finish, hsize']

theorem upholds_stageSource (i : ℕ) (source : SourceAnswers) (before : SourceMetadata)
    (expectedSize : ℕ) :
    IngestUpholds digest start names k (Holding (stagingFile name) k i [])
      (stageSource digest (stagingFile name) i source before expectedSize)
      (fun result s => Staged digest (stagingFile name) k i result s ∧
        result.sizeBytes = expectedSize) (fun _ => Aborted (stagingFile name) k) := by
  have hbuffer : IngestUpholds digest start names k (Holding (stagingFile name) k i [])
      (expectOk source.buffer "allocate copy buffer")
      (fun _ => Holding (stagingFile name) k i []) (fun _ => Aborted (stagingFile name) k) :=
    upholds_expectOk (fun _ _ _ hs => hs) fun _ hs => hs.aborted
  have hstream := upholds_orRemove hnames hname "stream source into staging"
    (hbuffer.bind fun _ => upholds_hashReaderToWriter hnames hname i source.reads .new rfl)
  refine hstream.bind fun result => ?_
  refine (upholds_bailIf hnames hname _ fun s hs => hs.aborted).bind fun _ => ?_
  have hafter : IngestUpholds digest start names k
      (fun s => Staged digest (stagingFile name) k i result s ∧ ¬ result.sizeBytes ≠ expectedSize)
      (expectOk source.after "read source handle metadata after import")
      (fun _ s => Staged digest (stagingFile name) k i result s ∧ result.sizeBytes = expectedSize)
      (fun _ => Aborted (stagingFile name) k) :=
    upholds_expectOk (fun _ _ _ hs => ⟨hs.1, not_not.1 hs.2⟩) fun _ hs => hs.1.aborted
  refine hafter.bind fun after => ?_
  refine (upholds_bailIf hnames hname _ fun s hs => hs.1.aborted).bind fun _ => ?_
  refine (upholds_bailIf hnames hname _ fun s hs => hs.1.1.aborted).bind fun _ => ?_
  exact upholdsT_pure fun s _ hs => hs.1.1

/-! ### The link -/

/-- What an import tells of itself: a blob of the size that was expected is in the CAS, and was
linked by this import if it says so. -/
def TellsTruth (k expectedSize : ℕ) : Except String StoredBlob → IngestWorld → Prop
  | .error _, s => LinksNothing k s
  | .ok ⟨hash, sizeBytes, .created⟩, s =>
      sizeBytes = expectedSize ∧ Stored hash sizeBytes s ∧ Installed k hash s
  | .ok ⟨hash, sizeBytes, .reused⟩, s =>
      sizeBytes = expectedSize ∧ Stored hash sizeBytes s ∧ LinksNothing k s

omit hnames hname in
theorem public_tellsTruth {expectedSize : ℕ} (r : Except String StoredBlob) :
    Public k (TellsTruth k expectedSize r) := by
  rcases r with e | ⟨hash, sizeBytes, outcome⟩
  · exact public_linksNothing
  · cases outcome with
    | created =>
        exact (public_const _).and ((public_stored hash sizeBytes).and (public_installed hash))
    | reused => exact (public_const _).and ((public_stored hash sizeBytes).and public_linksNothing)

theorem upholds_openBlob (hash : BlobHash) (hP : Undisturbed (stagingFile name) k P) :
    IngestUpholds digest start names k P (fsCall (.openNoFollow (blobPath hash)))
      (fun a s => P s ∧ ∀ i len, a = .ok ⟨.file i, len⟩ → Stored hash len s) E := by
  refine upholds_fsCall hnames hname (fun s a t hs hPs hanswer => ?_) fun a =>
    hP.and (Public.undisturbed fun s t hsame hstored i len ha =>
      public_stored hash len s t hsame (hstored i len ha))
  have hquiet : Quiet s t := quiet_of_answered (by trivial) hanswer
  refine ⟨hquiet.sameCas.invariant hs, hquiet.keepsOthers _,
    hP s t hquiet.sameCas.samePublic hquiet.sameOwn hPs, fun i len ha => ?_⟩
  refine public_stored (k := k) hash len s t hquiet.sameCas.samePublic ?_
  cases hanswer with
  | failed => simp [failedAnswer] at ha
  | performed =>
      have hmetadata : s.disk.symlinkMetadata (blobPath hash) = .ok ⟨.file i, len⟩ := by
        simp only [Disk.perform, Disk.openNoFollow] at ha
        split at ha
        · simp at ha
        · exact ha
      have hstays : s.disk.tree.Stays (blobPath hash) := by
        intro p hp hne target hlink
        simpa using hs.cas.directory hash p _ hp hne hlink
      have hlookup := Disk.lookup_of_symlinkMetadata hstays hmetadata
      rw [Disk.symlinkMetadata_of_lookup hlookup] at hmetadata
      have hlen := congrArg Metadata.len (Except.ok.inj hmetadata)
      exact ⟨i, hlookup, hlen⟩

theorem upholds_verifyAndMakeExistingBlobReadonly (hash : BlobHash) (size : ℕ)
    (existing : Except IoError Unit) (hP : Undisturbed (stagingFile name) k P)
    (haborted : ∀ s, P s → Aborted (stagingFile name) k s) :
    IngestUpholds digest start names k P
      (verifyAndMakeExistingBlobReadonly (blobPath hash) size existing)
      (fun _ s => P s ∧ Stored hash size s) (fun _ => Aborted (stagingFile name) k) := by
  refine (upholds_openBlob hnames hname hash hP).bind fun opened => ?_
  have hopened : IngestUpholds digest start names k
      (fun s => P s ∧ ∀ i len, opened = .ok ⟨.file i, len⟩ → Stored hash len s)
      (expectOk opened "open existing blob without following links")
      (fun metadata s => P s ∧ ∀ i len, metadata = ⟨.file i, len⟩ → Stored hash len s)
      (fun _ => Aborted (stagingFile name) k) :=
    upholds_expectOk (fun metadata s hok hs => ⟨hs.1, fun i len hm => hs.2 i len (hm ▸ hok)⟩)
      fun s hs => haborted s hs.1
  refine hopened.bind fun metadata => ?_
  split
  · rename_i i len
    split
    · exact upholdsT_throw fun s _ hs => haborted s hs.1
    · rename_i hsize
      obtain rfl : len = size := not_not.1 hsize
      exact upholds_expectOk (fun _ s _ hs => ⟨hs.1, hs.2 i len rfl⟩) fun s hs => haborted s hs.1
  · exact upholdsT_throw fun s _ hs => haborted s hs.1

/-- The link publishes the staged file, or there is a file already. -/
theorem upholds_hardLink (i : ℕ) (result : HashResult) :
    IngestUpholds digest start names k (Staged digest (stagingFile name) k i result)
      (fsCall (.hardLink (stagingFile name) (blobPath result.hash)))
      (fun a s => match a with
        | .ok () => (Stored result.hash result.sizeBytes s ∧ Installed k result.hash s) ∧
            s.lookup (stagingFile name) = some (.file i)
        | .error _ => Staged digest (stagingFile name) k i result s) E := by
  refine upholds_fsCall hnames hname (fun s a t hs hPs hanswer => ?_) fun a => ?_
  · rcases hardLink_cases hanswer with ⟨e, rfl, rfl⟩ | ⟨rfl, hfree, hlookup, hdata, hlinked⟩
    · exact ⟨hs, (Quiet.refl t).keepsOthers _, hPs⟩
    · obtain ⟨content, ⟨hprivate, hcontent, hlinksNothing⟩, rfl⟩ := hPs
      have hown : t.lookup (stagingFile name) = some (.file i) := by
        rw [hlookup, if_neg (ne_stagingFile List.prefix_rfl).symm]
        exact hprivate.1
      have hblob : t.lookup (blobPath (digest content)) = some (.file i) := by
        rw [hlookup, if_pos rfl]
        exact hprivate.1
      have hbytes : t.data i = content := by
        rw [IngestWorld.data, hdata]
        exact hcontent
      refine ⟨?_, ?_, ⟨⟨i, hblob, by rw [hbytes]⟩, fun p => ?_⟩, hown⟩
      · exact invariant_of_linked (List.getElem?_eq_some_iff.1 hname).1 hs hprivate.1
          (congrArg digest hcontent) hfree hlookup hdata hlinked
      · exact keepsOthers_of_linked hfree hlookup hdata hlinked
      · rw [hlinked]
        constructor
        · intro hp
          rcases List.mem_cons.1 hp with heq | hold
          · exact congrArg Prod.snd heq
          · exact absurd hold (hlinksNothing p)
        · rintro rfl
          exact List.mem_cons_self
  · rcases a with e | ⟨⟩
    · exact undisturbed_staged
    · exact ((public_stored _ _).and (public_installed _)).undisturbed.and
        (undisturbed_lookup (· = _))

theorem upholds_installStaged (i : ℕ) (result : HashResult) (existing : Except IoError Unit) :
    IngestUpholds digest start names k (Staged digest (stagingFile name) k i result)
      (installStaged (stagingFile name) result existing)
      (fun blob s => TellsTruth k result.sizeBytes (.ok blob) s ∧
        s.lookup (stagingFile name) ≠ some .directory)
      (fun _ => Aborted (stagingFile name) k) := by
  refine (upholds_hardLink hnames hname i result).bind fun installed => ?_
  rcases installed with e | ⟨⟩
  · have habort : IngestUpholds digest start names k
        (Staged digest (stagingFile name) k i result) (do
          removeStagingBestEffort (stagingFile name)
          throw "install staging file")
        (fun blob s => TellsTruth k result.sizeBytes (.ok blob) s ∧
          s.lookup (stagingFile name) ≠ some .directory)
        (fun _ => Aborted (stagingFile name) k) :=
      (upholds_removeAndThrow hnames hname _).of_imp fun _ _ hs => hs.aborted
    cases e with
    | alreadyExists =>
        refine (upholds_verifyAndMakeExistingBlobReadonly hnames hname result.hash
          result.sizeBytes existing undisturbed_staged fun _ hs => hs.aborted).bind fun _ => ?_
        have hpublic : Public k fun s => Stored result.hash result.sizeBytes s ∧
            LinksNothing k s :=
          (public_stored _ _).and public_linksNothing
        refine UpholdsT.bind (.of_imp (upholds_removeStaged hnames hname hpublic i
          "remove reused staging file") fun s _ hs => ?_) fun _ => ?_
        · obtain ⟨⟨content, ⟨hprivate, -, hlinksNothing⟩, -⟩, hstored⟩ := hs
          exact ⟨⟨hstored, hlinksNothing⟩, hprivate.1⟩
        · exact upholdsT_pure fun s _ hs => ⟨⟨rfl, hs.1⟩, by simp [hs.2]⟩
    | notFound | notADirectory | isADirectory | directoryNotEmpty | elsewhere | fault =>
        exact habort
  · refine (upholds_removeStaged hnames hname
      ((public_stored result.hash result.sizeBytes).and (public_installed result.hash)) i
      "remove installed staging file").bind fun _ => ?_
    exact upholdsT_pure fun s _ hs => ⟨⟨rfl, hs.1⟩, by simp [hs.2]⟩

/-- What an import ends with: its report is true, and staging is as it was for its name. -/
def Finished (start : Store) (own : List Name) (k expectedSize : ℕ)
    (r : Except String StoredBlob) (s : IngestWorld) : Prop :=
  TellsTruth k expectedSize r s ∧ s.lookup own = start.tree.lookup own

/-- Whatever the program ends with, the staged file is gone after it. -/
theorem upholds_stagingCleanup {p : FsProgram StoredBlob} {expectedSize : ℕ}
    (hstart : start.tree.lookup (stagingFile name) = none)
    (h : IngestUpholds digest start names k P p
      (fun blob s => TellsTruth k expectedSize (.ok blob) s ∧
        s.lookup (stagingFile name) ≠ some .directory) (fun _ => Aborted (stagingFile name) k)) :
    IngestUpholds digest start names k P (stagingCleanup (stagingFile name) p)
      (fun blob => Finished start (stagingFile name) k expectedSize (.ok blob))
      (fun e => Finished start (stagingFile name) k expectedSize (.error e)) := by
  refine Upholds.bind h fun r => ?_
  have hpublic : Public k (TellsTruth k expectedSize r) := public_tellsTruth r
  have hgone : ∀ s, TellsTruth k expectedSize r s ∧ s.lookup (stagingFile name) = none →
      Finished start (stagingFile name) k expectedSize r s :=
    fun s hs => ⟨hs.1, hs.2.trans hstart.symm⟩
  have hlast : Upholds Answered (IngestInvariant digest start names.length) (Guarantees names) k
      (fun r s => match r with
        | .ok blob => Finished start (stagingFile name) k expectedSize (.ok blob) s
        | .error e => Finished start (stagingFile name) k expectedSize (.error e) s)
      ((removeStagingBestEffort (stagingFile name)).run >>= fun _ => pure r)
      (fun s => TellsTruth k expectedSize r s ∧
        s.lookup (stagingFile name) ≠ some .directory) := by
    refine Upholds.bind (upholds_removeStagingBestEffort (E := fun _ s =>
      TellsTruth k expectedSize r s ∧ s.lookup (stagingFile name) = none) hnames hname hpublic)
        fun removed => ?_
    intro s _ hs
    cases r with
    | ok blob => cases removed <;> exact hgone s hs
    | error e => cases removed <;> exact hgone s hs
  cases r with
  | ok blob => exact hlast
  | error e => exact hlast

/-- **An import** ends with a true report, whatever the other imports do. -/
theorem upholds_ingestFile (source : SourceAnswers) (expectedSize : ℕ) :
    IngestUpholds digest start names k
      (fun s => s.lookup (stagingFile name) = start.tree.lookup (stagingFile name) ∧
        LinksNothing k s)
      (ingestFile digest name source expectedSize)
      (fun blob => Finished start (stagingFile name) k expectedSize (.ok blob))
      (fun e => Finished start (stagingFile name) k expectedSize (.error e)) := by
  have hstop : ∀ (e : String) s,
      s.lookup (stagingFile name) = start.tree.lookup (stagingFile name) ∧ LinksNothing k s →
        Finished start (stagingFile name) k expectedSize (.error e) s :=
    fun e s hs => ⟨hs.2, hs.1⟩
  have hexpect : ∀ {γ : Type} (answer : Except IoError γ) (context : String),
      IngestUpholds digest start names k
        (fun s => s.lookup (stagingFile name) = start.tree.lookup (stagingFile name) ∧
          LinksNothing k s) (expectOk answer context)
        (fun _ s => s.lookup (stagingFile name) = start.tree.lookup (stagingFile name) ∧
          LinksNothing k s)
        (fun e => Finished start (stagingFile name) k expectedSize (.error e)) :=
    fun answer context => upholds_expectOk (fun _ _ _ hs => hs) fun s hs => hstop _ s hs
  refine (hexpect source.before _).bind fun before => ?_
  split
  · exact upholdsT_throw fun s _ hs => hstop _ s hs
  refine (hexpect source.opened _).bind fun _ => ?_
  refine (hexpect source.openedMetadata _).bind fun opened => ?_
  split
  · exact upholdsT_throw fun s _ hs => hstop _ s hs
  refine (upholds_createNew hnames hname).bind fun staging => ?_
  rcases staging with e | i
  · exact upholdsT_throw fun s _ hs => hstop _ s hs
  refine UpholdsT.of_fact (fun s _ hs => hs.2) fun hstart => ?_
  refine upholds_stagingCleanup hnames hname hstart ?_
  refine UpholdsT.bind (.of_imp (upholds_stageSource hnames hname i source before expectedSize)
    fun s _ hs => hs.1) fun result => ?_
  refine UpholdsT.of_fact (fun s _ hs => hs.2) fun hsize => ?_
  have hstaged : IngestUpholds digest start names k
      (fun s => Staged digest (stagingFile name) k i result s ∧ result.sizeBytes = expectedSize)
      (expectOk source.staged "make staged blob read-only")
      (fun _ => Staged digest (stagingFile name) k i result)
      (fun _ => Aborted (stagingFile name) k) :=
    upholds_expectOk (fun _ _ _ hs => hs.1) fun _ hs => hs.1.aborted
  refine hstaged.bind fun _ => ?_
  refine UpholdsT.bind (upholds_orRemove hnames hname _ (.mono
    (upholds_ensureBlobParent hnames hname undisturbed_staged result.hash)
    (fun _ _ _ hs => hs) fun _ _ _ hs => hs.aborted)) fun _ => ?_
  rw [← hsize]
  exact upholds_installStaged hnames hname i result source.existing

end Parts

/-! ## All imports -/

section Together

/-- The import has ended with the result. -/
def Ended (c : Ingests) (k : ℕ) (r : Except String StoredBlob) : Prop :=
  c.threads[k]? = some (.done r)

/-- The import has ended, and says that it made the blob of the hash. -/
def TellsCreated (c : Ingests) (k : ℕ) (hash : BlobHash) : Prop :=
  ∃ size, Ended c k (.ok ⟨hash, size, .created⟩)

/-- What holds in each state that the imports reach. -/
structure WrittenOnce (digest : Bytes → BlobHash) (requests : List IngestRequest)
    (start : Store) (c : Ingests) : Prop where
  /-- Every file of the CAS has the content of its name. -/
  cas : CasOfValidFiles digest c.state.disk
  /-- A file of the CAS stays, with its content. -/
  unchanged : ∀ d, Reaches Answered c d → ∀ hash i,
    c.state.lookup (blobPath hash) = some (.file i) →
      d.state.lookup (blobPath hash) = some (.file i) ∧ d.state.data i = c.state.data i
  /-- An import that has ended leaves no staged file, whatever its result. -/
  clean : ∀ k request r, requests[k]? = some request → Ended c k r →
    c.state.lookup (stagingFile request.name) = start.tree.lookup (stagingFile request.name)
  /-- The blob that an import returns is in the CAS, with the size that was expected. -/
  stored : ∀ k request blob, requests[k]? = some request → Ended c k (.ok blob) →
    blob.sizeBytes = request.expectedSize ∧
      ∃ i, c.state.lookup (blobPath blob.hash) = some (.file i) ∧
        digest (c.state.data i) = blob.hash ∧ (c.state.data i).length = blob.sizeBytes
  /-- A blob that was there is made by nobody, and another one by one import at most. -/
  absent : ∀ hash k, TellsCreated c k hash → start.tree.lookup (blobPath hash) = none
  atMostOne : ∀ hash k k', TellsCreated c k hash → TellsCreated c k' hash → k = k'
  /-- When all have ended, one import made each new blob, and the others found it. -/
  exactlyOne : (∀ k < requests.length, ∃ r, Ended c k r) →
    ∀ hash, start.tree.lookup (blobPath hash) = none →
      c.state.lookup (blobPath hash) ≠ none →
      ∃ k, TellsCreated c k hash ∧ ∀ k' size outcome, k' ≠ k →
        Ended c k' (.ok ⟨hash, size, outcome⟩) → outcome = .reused

variable {digest : Bytes → BlobHash} {requests : List IngestRequest} {start : Store}

/-- What an import of the list ends with. -/
def Ends (requests : List IngestRequest) (start : Store) (k : ℕ) (r : Except String StoredBlob)
    (s : IngestWorld) : Prop :=
  ∀ request, requests[k]? = some request →
    Finished start (stagingFile request.name) k request.expectedSize r s

/-- The imports have their parts upheld. -/
abbrev IngestsUpheld (digest : Bytes → BlobHash) (requests : List IngestRequest) (start : Store)
    (c : Ingests) : Prop :=
  Upheld Answered
    (IngestInvariant digest start (requests.map IngestRequest.name).length)
    (Guarantees (requests.map IngestRequest.name)) (Ends requests start) c

theorem upheld_ingests (hnames : (requests.map IngestRequest.name).Nodup)
    (hcas : CasOfValidFiles digest start) :
    IngestsUpheld digest requests start (ingests digest requests start) := by
  refine ⟨⟨hcas, fun e he => ?_, List.nodup_nil, fun hash hthere hnone => ?_, fun _ hs => hs⟩,
    fun k p hp => ?_⟩
  · exact absurd he List.not_mem_nil
  · exact absurd hnone hthere
  · have hmap : (requests.map (IngestRequest.program digest))[k]? = some p := hp
    rw [List.getElem?_map] at hmap
    obtain ⟨request, hrequest, rfl⟩ := Option.map_eq_some_iff.1 hmap
    have hname : (requests.map IngestRequest.name)[k]? = some request.name := by
      rw [List.getElem?_map, hrequest]
      rfl
    have hundisturbed : Undisturbed (stagingFile request.name) k fun s =>
        s.lookup (stagingFile request.name) = start.tree.lookup (stagingFile request.name) ∧
          LinksNothing k s :=
      (undisturbed_lookup (· = _)).and public_linksNothing.undisturbed
    refine ⟨_, ⟨rfl, fun _ => List.not_mem_nil⟩, hundisturbed.stable hnames hname, ?_⟩
    have hprogram : IngestUpholds digest start (requests.map IngestRequest.name) k _
        (ingestFile digest request.name request.source request.expectedSize) _ _ :=
      upholds_ingestFile hnames hname request.source request.expectedSize
    refine Upholds.mono hprogram fun r s _ hr request' hrequest' => ?_
    obtain rfl : request = request' := Option.some.inj (hrequest.symm.trans hrequest')
    cases r with
    | ok blob => exact hr
    | error e => exact hr

/-- No step changes a file of the CAS. -/
theorem unchanged_of_reaches {c d : Ingests} (h : IngestsUpheld digest requests start c)
    (hreach : Reaches Answered c d) (hash : BlobHash) (i : ℕ)
    (hi : c.state.lookup (blobPath hash) = some (.file i)) :
    d.state.lookup (blobPath hash) = some (.file i) ∧ d.state.data i = c.state.data i := by
  obtain ⟨-, -, hkeep⟩ := hreach.upholds h
  refine hkeep (fun s t => s.lookup (blobPath hash) = some (.file i) →
    t.lookup (blobPath hash) = some (.file i) ∧ t.data i = s.data i) (fun s hs => ⟨hs, rfl⟩)
    (fun s t u hst htu hs => ?_) (fun k _ s t _ _ hguar hs => ?_) hi
  · obtain ⟨ht, hdata⟩ := hst hs
    obtain ⟨hu, hdata'⟩ := htu ht
    exact ⟨hu, hdata'.trans hdata⟩
  · obtain ⟨name, -, hkeeps⟩ := hguar
    have hne : blobPath hash ≠ stagingFile name := ne_stagingFile List.prefix_rfl
    exact ⟨hkeeps.lookup _ hne _ hs, hkeeps.data _ hne i hs⟩

/-- An import that says that it made a blob has linked it, and nothing else. -/
theorem installed_of_tellsCreated {c : Ingests} (h : IngestsUpheld digest requests start c)
    (hlen : c.threads.length = requests.length) {k : ℕ} {hash : BlobHash}
    (hk : TellsCreated c k hash) : Installed k hash c.state := by
  obtain ⟨size, hdone⟩ := hk
  have hlt : k < requests.length := hlen ▸ (List.getElem?_eq_some_iff.1 hdone).1
  exact (h.done hdone requests[k] (List.getElem?_eq_getElem hlt)).1.2.2

/-- **Imports side by side** write each blob once. -/
theorem imports_write_once (hnames : (requests.map IngestRequest.name).Nodup)
    (hcas : CasOfValidFiles digest start) {c : Ingests}
    (hreach : Reaches Answered (ingests digest requests start) c) :
    WrittenOnce digest requests start c := by
  obtain ⟨h, hlen, -⟩ := hreach.upholds (upheld_ingests hnames hcas)
  have hlen : c.threads.length = requests.length := by simpa [ingests] using hlen
  have honce : ∀ hash k k', (k, blobPath hash) ∈ c.state.linked →
      (k', blobPath hash) ∈ c.state.linked → k = k' := by
    intro hash k k' hk hk'
    exact congrArg Prod.fst (List.inj_on_of_nodup_map h.state.once hk hk' rfl)
  have hone : ∀ hash k k', TellsCreated c k hash → TellsCreated c k' hash → k = k' := by
    intro hash k k' hk hk'
    exact honce hash k k' ((installed_of_tellsCreated h hlen hk _).2 rfl)
      ((installed_of_tellsCreated h hlen hk' _).2 rfl)
  refine ⟨h.state.cas, fun d hd hash i hi => unchanged_of_reaches h hd hash i hi,
    fun k request r hrequest hdone => (h.done hdone request hrequest).2,
    fun k request blob hrequest hdone => ?_, fun hash k hk => ?_, hone,
    fun hall hash hstart hthere => ?_⟩
  · have hreport := (h.done hdone request hrequest).1
    have hstored : blob.sizeBytes = request.expectedSize ∧
        Stored blob.hash blob.sizeBytes c.state := by
      rcases blob with ⟨hash, size, outcome⟩
      cases outcome with
      | created => exact ⟨hreport.1, hreport.2.1⟩
      | reused => exact ⟨hreport.1, hreport.2.1⟩
    obtain ⟨hsize, i, hi, hlength⟩ := hstored
    obtain ⟨j, hj, hdigest⟩ := h.state.cas.file blob.hash _ hi
    obtain rfl := FileNode.file.inj hj
    exact ⟨hsize, i, hi, hdigest, hlength⟩
  · have hlinked := (installed_of_tellsCreated h hlen hk (blobPath hash)).2 rfl
    obtain ⟨-, hash', hpath, hnone, -⟩ := h.state.linked _ hlinked
    obtain rfl : hash = hash' := blobPath_injective hpath
    exact hnone
  · obtain ⟨k, hk⟩ := h.state.known hash hthere hstart
    have hlt : k < requests.length := by simpa using (h.state.linked _ hk).1
    obtain ⟨r, hdone⟩ := hall k hlt
    have hfinished := h.done hdone requests[k] (List.getElem?_eq_getElem hlt)
    have hcreated : TellsCreated c k hash := by
      rcases r with e | ⟨hash', size, outcome⟩
      · exact absurd hk (hfinished.1 _)
      · cases outcome with
        | reused => exact absurd hk (hfinished.1.2.2 _)
        | created =>
            obtain rfl : hash = hash' := blobPath_injective ((hfinished.1.2.2 _).1 hk)
            exact ⟨size, hdone⟩
    refine ⟨k, hcreated, fun k' size outcome hne hdone' => ?_⟩
    cases outcome with
    | reused => rfl
    | created => exact absurd (hone hash k' k ⟨size, hdone'⟩ hcreated) hne

end Together

/-! ## Two imports of one content -/

/-- The BLAKE3 hash of one letter. -/
def letterHash : BlobHash :=
  ⟨"17762fddd969a453925d65717ac3eea21320b66b54342fde15128d6caf21215f".toList, by decide +kernel⟩

/-- BLAKE3, of what the imports read. -/
def letterDigest (bytes : Bytes) : BlobHash := if bytes = [97] then letterHash else emptyHash

/-- A file with one letter, which does not change. -/
def letterSource : SourceAnswers :=
  let metadata : SourceMetadata := ⟨true, 1, 1, 1, some 1⟩
  ⟨.ok metadata, .ok (), .ok metadata, .ok (), [⟨.ok [97], .ok ()⟩], .ok metadata, .ok (), .ok ()⟩

def letterRequest (name : Char) : IngestRequest :=
  ⟨utf8 [name, '.', 't', 'm', 'p'], letterSource, 1⟩

/-- A store without blobs. -/
def bareStore : Store := .ofEntries
  [([], .directory), ([blobsName], .directory), ([stagingName], .directory)]
  [] (by decide +kernel) (by decide +kernel) (by decide +kernel)

/-- No call fails without a reason. -/
def calmHandler (k : ℕ) : Program.Handler DirectoryCall FsAnswer IngestWorld :=
  fun call s => ((s.disk.perform call).1, s.perform k call)

/-- The result of an import, and the store and the links it leaves. -/
def letterRun (k : ℕ) (name : Char) (s : IngestWorld) : Except String StoredBlob × IngestWorld :=
  Program.run (calmHandler k) ((letterRequest name).program letterDigest) s

theorem casOfValidFiles_bareStore (digest : Bytes → BlobHash) :
    CasOfValidFiles digest bareStore := by
  have hentry : ∀ p node, bareStore.tree.lookup p = some node →
      node = .directory ∧ p.length ≤ 1 := by
    intro p node hp
    have hmem := @FileTree.mem_of_lookup_ofEntries _ _ _ _ _ (by decide +kernel)
      (by decide +kernel) p node hp
    simp only [List.mem_cons, Prod.mk.injEq, List.not_mem_nil, or_false] at hmem
    rcases hmem with ⟨rfl, rfl⟩ | ⟨rfl, rfl⟩ | ⟨rfl, rfl⟩ <;> simp
  refine ⟨fun hash node hnode => ?_, fun hash p node _ _ hnode => (hentry p node hnode).1⟩
  have hlen := (hentry _ node hnode).2
  simp [blobPath, blobNames] at hlen

theorem imports_write_once_letter : ∃ c : Ingests,
    Reaches Answered (ingests letterDigest [letterRequest 'a', letterRequest 'b'] bareStore) c ∧
      Ended c 0 (.ok ⟨letterHash, 1, .created⟩) ∧ Ended c 1 (.ok ⟨letterHash, 1, .reused⟩) ∧
      WrittenOnce letterDigest [letterRequest 'a', letterRequest 'b'] bareStore c := by
  let second := (letterRequest 'b').program letterDigest
  let made := letterRun 0 'a' ⟨bareStore, []⟩
  have hanswers : ∀ k call s, Answered k call s (calmHandler k call s).1
      (calmHandler k call s).2 :=
    fun k call s => .performed call s
  have hfirst : Reaches Answered
      (ingests letterDigest [letterRequest 'a', letterRequest 'b'] bareStore)
      ⟨made.2, [.done made.1, second]⟩ :=
    reaches_run (hanswers 0) _ rfl
  have hsecond : Reaches Answered ⟨made.2, [.done made.1, second]⟩
      ⟨(letterRun 1 'b' made.2).2, [.done made.1, .done (letterRun 1 'b' made.2).1]⟩ :=
    reaches_run (hanswers 1) second rfl
  have hcreated : made.1 = .ok ⟨letterHash, 1, .created⟩ := by decide +kernel
  have hreused : (letterRun 1 'b' made.2).1 = .ok ⟨letterHash, 1, .reused⟩ := by decide +kernel
  have hreach := hfirst.trans hsecond
  exact ⟨_, hreach, congrArg (fun r => some (Program.done r)) hcreated,
    congrArg (fun r => some (Program.done r)) hreused,
    imports_write_once (by decide) (casOfValidFiles_bareStore letterDigest) hreach⟩

end MediaImporter
