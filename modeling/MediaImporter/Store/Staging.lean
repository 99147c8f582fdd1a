import MediaImporter.Lib.FileSystem
import MediaImporter.Paths
import MediaImporter.Lib.PathOrder

/-!
# The store directory and its staging area

A store holds the CAS below `blobs` and private files below `staging`. Commands that
change a store first remove what an interrupted run left in staging.

The functions of the store are programs over file-system calls. Each failure ends the
program with the context the source attaches to it.

## Main definitions

* `Store`, `FsProgram` — the directory and the programs that work on it.
* `openValidatedStagingDirectory`, `purgeExistingStaging` — staging.
* `SameOutsideStaging`, `Purged` — what purging leaves alone and what it leaves behind.
* `ensureBlobParent` — the directories above a blob.
-/

namespace MediaImporter

open Utf8 UnixPath PathOrder

/-- The directory of a store, with paths relative to it. -/
abbrev Store := Disk Name Bytes UInt8

/-- The calls to one directory. -/
abbrev DirectoryCall := FsCall Name Bytes UInt8

/-- A function of the source that works on a directory. -/
abbrev FsProgram (α : Type) := ExceptT String (Program DirectoryCall FsAnswer) α

/-- A call to the directory. -/
def fsCall (call : DirectoryCall) : FsProgram (FsAnswer call) := Program.requestT call

/-- The answer of a call, or the failure with its context. -/
def expectOk {m : Type → Type} [Monad m] {α : Type} (answer : Except IoError α)
    (context : String) : ExceptT String m α :=
  match answer with
  | .ok a => pure a
  | .error _ => throw context

section ExpectOk

variable {ι : Type} {ρ : ι → Type} {σ α : Type} (h : Program.Handler ι ρ σ)

@[simp] theorem exec_expectOk_ok (a : α) (context : String) (s : σ) :
    Program.exec h (expectOk (.ok a) context) s = (.ok a, s) := rfl

@[simp] theorem exec_expectOk_error (e : IoError) (context : String) (s : σ) :
    Program.exec h (expectOk (.error e : Except IoError α) context) s = (.error context, s) :=
  rfl

theorem exec_expectOk_eq_ok {answer : Except IoError α} {context : String} {a : α} {s t : σ} :
    Program.exec h (expectOk answer context) s = (.ok a, t) ↔ answer = .ok a ∧ t = s := by
  cases answer with
  | error e => simp
  | ok b => simp [eq_comm]

end ExpectOk

@[simp] theorem exec_fsCall {σ : Type} (h : Program.Handler DirectoryCall FsAnswer σ)
    (call : DirectoryCall) (s : σ) :
    Program.exec h (fsCall call) s = (.ok (h call s).1, (h call s).2) := rfl

def stagingPath : List Name := [stagingName]

/-- Whether there is a staging directory, which is made if it is missing and wanted. -/
def openValidatedStagingDirectory (create : Bool) : FsProgram Bool := do
  let metadata ← fsCall (.symlinkMetadata stagingPath)
  match metadata with
  | .ok ⟨.symlink _, _⟩ => throw "staging directory must not be a symlink"
  | .ok ⟨.directory, _⟩ => openDirectory
  | .ok _ => throw "staging path is not a directory"
  | .error .notFound =>
      if create then
        let created ← fsCall (.createDir stagingPath)
        expectOk created "create staging directory"
        openDirectory
      else return false
  | .error _ => throw "stat staging directory"
where
  /-- Open the directory without following links. -/
  openDirectory : FsProgram Bool := do
    let opened ← fsCall (.openNoFollow stagingPath)
    match opened with
    | .ok ⟨.directory, _⟩ => return true
    | .ok _ => throw "staging path is not a directory"
    | .error _ => throw "open staging directory without following links"

/-- Remove one entry, whose own entries are gone already. An entry that is not there any
more is no failure. -/
def purgeDirectoryEntry (p : List Name) : FsProgram Unit := do
  let metadata ← fsCall (.symlinkMetadata p)
  match metadata with
  | .ok ⟨.directory, _⟩ =>
      let removed ← fsCall (.removeDir p)
      unlessMissing removed
  | .ok _ =>
      let removed ← fsCall (.removeFile p)
      unlessMissing removed
  | .error .notFound => return ()
  | .error _ => throw "stat stale staging entry without following links"
where
  unlessMissing (removed : Except IoError Unit) : FsProgram Unit :=
    match removed with
    | .ok () | .error .notFound => pure ()
    | .error _ => throw "remove stale staging entry relative to validated directory"

def purgeExistingStaging : FsProgram Unit := do
  let present ← openValidatedStagingDirectory false
  if present then
    let entries ← fsCall (.entriesBelow stagingPath)
    let entries ← expectOk entries "enumerate staging directory handle"
    -- a directory comes after everything below it
    forM (sortPaths entries).reverse purgeDirectoryEntry
  else return ()

/-! ## Purging leaves the rest of the store alone -/

/-- The entries below a path are below it. -/
def PossibleAnswer : (call : DirectoryCall) → FsAnswer call → Prop
  | .entriesBelow p, answer => ∀ entries, answer = .ok entries → ∀ q ∈ entries, p <+: q
  | _, _ => True

theorem possibleAnswer_answer (faults : FaultPlan Name Bytes UInt8) (calls : ℕ) (d : Store)
    (call : DirectoryCall) : PossibleAnswer call (d.answer faults calls call).1 := by
  unfold Disk.answer
  cases call with
  | entriesBelow p =>
      intro entries hentries q hq
      split at hentries
      · obtain rfl := Except.ok.inj hentries
        exact (Disk.mem_entriesBelow.mp hq).2.1
      · simp [failedAnswer] at hentries
  | _ => trivial

/-- The call binds or unbinds nothing outside of staging, and fills no file. -/
def StagingCall (call : DirectoryCall) : Prop :=
  call.KeepsFiles ∧ ∀ p ∈ call.changes, stagingPath <+: p

/-- Two stores agree outside of staging. -/
structure SameOutsideStaging (d d' : Store) : Prop where
  lookup : ∀ q, ¬ stagingPath <+: q → d'.tree.lookup q = d.tree.lookup q
  files : d.SameFiles d'

theorem SameOutsideStaging.refl (d : Store) : SameOutsideStaging d d :=
  ⟨fun _ _ => rfl, Disk.SameFiles.refl d⟩

theorem sameOutsideStaging_answer {d d' : Store} (h : SameOutsideStaging d d')
    (faults : FaultPlan Name Bytes UInt8) (calls : ℕ) {call : DirectoryCall}
    (hcall : StagingCall call) : SameOutsideStaging d (d'.answer faults calls call).2 := by
  rcases Disk.answer_snd faults calls d' call with heq | heq
  · rw [heq]
    refine ⟨fun q hq => ?_, h.files.trans (Disk.sameFiles_perform hcall.1)⟩
    rw [Disk.lookup_perform fun hmem => hq (hcall.2 q hmem), h.lookup q hq]
  · rw [heq]
    exact h

/-- A program that touches staging alone. -/
abbrev InStaging {α : Type} (post : α → Prop) (p : FsProgram α) : Prop :=
  Program.ObeysT PossibleAnswer StagingCall post p

theorem inStaging_expectOk {α : Type} {answer : Except IoError α} {context : String}
    {post : α → Prop} (h : ∀ a, answer = .ok a → post a) :
    InStaging post (expectOk answer context) := by
  cases answer with
  | error e => exact Program.obeysT_throw _
  | ok a => exact Program.obeysT_pure (h a rfl)

/-- A call that changes nothing. -/
theorem inStaging_inspect (call : DirectoryCall) (hfiles : call.KeepsFiles)
    (hchanges : call.changes = []) : InStaging (PossibleAnswer call) (fsCall call) :=
  Program.obeysT_requestT ⟨hfiles, by simp [hchanges]⟩

theorem inStaging_openValidatedStagingDirectory (create : Bool) :
    InStaging (fun _ => True) (openValidatedStagingDirectory create) := by
  have hopen : InStaging (fun _ => True) openValidatedStagingDirectory.openDirectory := by
    refine (inStaging_inspect (.openNoFollow stagingPath) trivial rfl).bind fun opened _ => ?_
    split
    · exact Program.obeysT_pure trivial
    · exact Program.obeysT_throw _
    · exact Program.obeysT_throw _
  refine (inStaging_inspect (.symlinkMetadata stagingPath) trivial rfl).bind fun metadata _ => ?_
  split
  · exact Program.obeysT_throw _
  · exact hopen
  · exact Program.obeysT_throw _
  · split
    · have hcall : StagingCall (.createDir stagingPath) := ⟨trivial, by simp [FsCall.changes]⟩
      refine (Program.obeysT_requestT hcall).bind fun created _ => ?_
      have hcreated : InStaging (fun _ => True) (expectOk created "create staging directory") :=
        inStaging_expectOk fun _ _ => trivial
      exact hcreated.bind fun _ _ => hopen
    · exact Program.obeysT_pure trivial
  · exact Program.obeysT_throw _

theorem inStaging_purgeDirectoryEntry {p : List Name} (hp : stagingPath <+: p) :
    InStaging (fun _ => True) (purgeDirectoryEntry p) := by
  have hmissing : ∀ removed, InStaging (fun _ => True)
      (purgeDirectoryEntry.unlessMissing removed) := by
    intro removed
    unfold purgeDirectoryEntry.unlessMissing
    split
    · exact Program.obeysT_pure trivial
    · exact Program.obeysT_pure trivial
    · exact Program.obeysT_throw _
  have hdir : StagingCall (.removeDir p) := ⟨trivial, by simpa [FsCall.changes] using hp⟩
  have hfile : StagingCall (.removeFile p) := ⟨trivial, by simpa [FsCall.changes] using hp⟩
  refine (inStaging_inspect (.symlinkMetadata p) trivial rfl).bind fun metadata _ => ?_
  split
  · exact (Program.obeysT_requestT hdir).bind fun removed _ => hmissing removed
  · exact (Program.obeysT_requestT hfile).bind fun removed _ => hmissing removed
  · exact Program.obeysT_pure trivial
  · exact Program.obeysT_throw _

theorem inStaging_purgeExistingStaging : InStaging (fun _ => True) purgeExistingStaging := by
  refine (inStaging_openValidatedStagingDirectory false).bind fun present _ => ?_
  split
  · refine (inStaging_inspect (.entriesBelow stagingPath) trivial rfl).bind fun answer hanswer => ?_
    have hread : InStaging (fun entries => ∀ q ∈ entries, stagingPath <+: q)
        (expectOk answer "enumerate staging directory handle") := inStaging_expectOk hanswer
    refine hread.bind fun entries hentries => ?_
    refine Program.obeysT_forM fun q hq => inStaging_purgeDirectoryEntry (hentries q ?_)
    simpa using hq
  · exact Program.obeysT_pure trivial

/-! ## Purging empties staging -/

section Emptied

variable {σ : Type} {h : Program.Handler DirectoryCall FsAnswer σ} {disk : σ → Store} {s t : σ}

/-- A purged entry is gone, and the others stay. -/
theorem exec_purgeDirectoryEntry (hdisk : FsCall.AnsweredBy h disk) {p : List Name}
    (hrun : Program.exec h (purgeDirectoryEntry p) s = (.ok (), t)) (q : List Name) :
    (disk t).tree.lookup q = if q = p then none else (disk s).tree.lookup q := by
  have hmissing : ∀ {removed u}, Program.exec h (purgeDirectoryEntry.unlessMissing removed) u =
      (.ok (), t) → u = t ∧ (removed = .ok () ∨ removed = .error .notFound) := by
    intro removed u hu
    unfold purgeDirectoryEntry.unlessMissing at hu
    split at hu
    · exact ⟨congrArg Prod.snd hu, .inl rfl⟩
    · exact ⟨congrArg Prod.snd hu, .inr rfl⟩
    · simp at hu
  obtain ⟨hstat, hsame⟩ := hdisk (.symlinkMetadata p) s
  rw [purgeDirectoryEntry, Program.exec_bind_ok h (exec_fsCall h _ s), hstat] at hrun
  set u := (h (.symlinkMetadata p) s).2 with hu
  have hsame : disk u = disk s := hsame
  split at hrun
  · rw [Program.exec_bind_ok h (exec_fsCall h _ u)] at hrun
    obtain ⟨hanswer, hafter⟩ := hdisk (.removeDir p) u
    obtain ⟨rfl, hok⟩ := hmissing hrun
    rw [hanswer] at hok
    rw [hafter, ← hsame]
    exact Disk.lookup_of_perform_removeDir hok q
  · rw [Program.exec_bind_ok h (exec_fsCall h _ u)] at hrun
    obtain ⟨hanswer, hafter⟩ := hdisk (.removeFile p) u
    obtain ⟨rfl, hok⟩ := hmissing hrun
    rw [hanswer] at hok
    rw [hafter, ← hsame]
    exact Disk.lookup_of_perform_removeFile hok q
  · rename_i hfree
    obtain rfl : u = t := congrArg Prod.snd hrun
    rw [hsame]
    by_cases hq : q = p
    · rw [if_pos hq, hq, Disk.lookup_of_symlinkMetadata_notFound hfree]
    · rw [if_neg hq]
  · simp at hrun

/-- Opening staging does not change it, and when it is not there it has no entries. -/
theorem exec_openValidatedStagingDirectory (hdisk : FsCall.AnsweredBy h disk) {present : Bool}
    (hrun : Program.exec h (openValidatedStagingDirectory false) s = (.ok present, t)) :
    disk t = disk s ∧ (present = false → (disk s).tree.lookup stagingPath = none) := by
  obtain ⟨hstat, hsame⟩ := hdisk (.symlinkMetadata stagingPath) s
  rw [openValidatedStagingDirectory, Program.exec_bind_ok h (exec_fsCall h _ s), hstat] at hrun
  set u := (h (.symlinkMetadata stagingPath) s).2 with hu
  have hsame : disk u = disk s := hsame
  split at hrun
  · simp at hrun
  · rw [openValidatedStagingDirectory.openDirectory, Program.exec_bind_ok h (exec_fsCall h _ u)]
      at hrun
    obtain ⟨-, hafter⟩ := hdisk (.openNoFollow stagingPath) u
    split at hrun
    · obtain ⟨hpresent, rfl⟩ := Prod.mk.inj hrun
      refine ⟨hafter.trans hsame, fun hfalse => ?_⟩
      simp [hfalse] at hpresent
    · simp at hrun
    · simp at hrun
  · simp at hrun
  · rename_i hfree
    rw [if_neg Bool.false_ne_true] at hrun
    obtain rfl : u = t := congrArg Prod.snd hrun
    exact ⟨hsame, fun _ => Disk.lookup_of_symlinkMetadata_notFound hfree⟩
  · simp at hrun

/-- Nothing is left below staging, and the other entries of the store are the same. -/
def Purged (d d' : Store) : Prop :=
  ∀ q, d'.tree.lookup q =
    if stagingPath <+: q ∧ q ≠ stagingPath then none else d.tree.lookup q

/-- Purging removes what is below staging and nothing else. -/
theorem exec_purgeExistingStaging (hdisk : FsCall.AnsweredBy h disk)
    (hrun : Program.exec h purgeExistingStaging s = (.ok (), t)) :
    Purged (disk s) (disk t) := by
  intro q
  rw [purgeExistingStaging, Program.exec_bind_eq_ok] at hrun
  obtain ⟨present, u, hopen, hrun⟩ := hrun
  obtain ⟨hsame, habsent⟩ := exec_openValidatedStagingDirectory hdisk hopen
  have hfree : ∀ d : Store, (stagingPath <+: q ∧ q ≠ stagingPath → d.tree.lookup q = none) →
      d.tree.lookup q = if stagingPath <+: q ∧ q ≠ stagingPath then none
        else d.tree.lookup q := by
    intro d hd
    by_cases hq : stagingPath <+: q ∧ q ≠ stagingPath
    · rw [if_pos hq, hd hq]
    · rw [if_neg hq]
  cases present with
  | false =>
      obtain rfl : u = t := congrArg Prod.snd hrun
      rw [hsame]
      refine hfree (disk s) ?_
      rintro ⟨⟨r, rfl⟩, hne⟩
      refine FileTree.lookup_append_eq_none (by simp [habsent rfl]) ?_
      rintro rfl
      simp at hne
  | true =>
      obtain ⟨hentries, hread⟩ := hdisk (.entriesBelow stagingPath) u
      rw [if_pos rfl, Program.exec_bind_ok h (exec_fsCall h _ u), hentries] at hrun
      set v := (h (.entriesBelow stagingPath) u).2 with hv
      have hread : disk v = disk s := hread.trans hsame
      rw [Disk.perform, Program.exec_bind_ok h (exec_expectOk_ok h _ _ v)] at hrun
      have hgone := Program.exec_forM_inv h (fun done w =>
        ∀ p, (disk w).tree.lookup p = if p ∈ done then none else (disk s).tree.lookup p)
        (by simp [hread]) (by
          intro done p w w' hinv hstep p'
          rw [exec_purgeDirectoryEntry hdisk hstep, hinv]
          by_cases hp : p' = p
          · simp [hp]
          · simp [hp]) hrun q
      have hmem : q ∈ (sortPaths ((disk u).entriesBelow stagingPath)).reverse ↔
          ((disk s).tree.lookup q).isSome ∧ stagingPath <+: q ∧ q ≠ stagingPath := by
        rw [List.mem_reverse, mem_sortPaths, hsame, Disk.mem_entriesBelow]
      rw [hgone]
      by_cases hq : stagingPath <+: q ∧ q ≠ stagingPath
      · rw [if_pos hq]
        by_cases hold : (disk s).tree.lookup q = none
        · rw [hold, ite_self]
        · rw [if_pos (hmem.mpr ⟨Option.isSome_iff_ne_none.mpr hold, hq⟩)]
      · rw [if_neg hq, if_neg fun hin => hq (hmem.mp hin).2]

end Emptied

/-- No path of a blob leads through staging. -/
theorem not_staging_of_prefix_blobPath {hash : BlobHash} {q : List Name}
    (hq : q <+: blobPath hash) : ¬ stagingPath <+: q := by
  intro hstaging
  obtain ⟨r, hr⟩ := hstaging.trans hq
  have hname : stagingName = blobsName := (List.cons.inj hr).1
  revert hname
  decide

/-- A blob is found as before when only staging has changed. -/
theorem SameOutsideStaging.symlinkMetadata_blobPath {d d' : Store} (h : SameOutsideStaging d d')
    (hash : BlobHash) :
    d'.symlinkMetadata (blobPath hash) = d.symlinkMetadata (blobPath hash) :=
  Disk.symlinkMetadata_congr h.files fun q hq => h.lookup q (not_staging_of_prefix_blobPath hq)

/-! ## The directories of the CAS -/

/-- Make one directory of the CAS, unless it is there. -/
def ensureDirectory (p : List Name) : FsProgram Unit := do
  let metadata ← fsCall (.symlinkMetadata p)
  match metadata with
  | .ok ⟨.symlink _, _⟩ => throw "CAS directory must not be a symlink"
  | .ok ⟨.directory, _⟩ => pure ()
  | .ok _ => throw "CAS path is not a directory"
  | .error .notFound =>
      let created ← fsCall (.createDir p)
      match created with
      | .ok () | .error .alreadyExists => pure ()
      | .error _ => throw "create CAS directory"
  | .error _ => throw "stat CAS directory"
  let opened ← fsCall (.openNoFollow p)
  match opened with
  | .ok ⟨.directory, _⟩ => return ()
  | _ => throw "open CAS directory without following links"

/-- Make the CAS directory and, for a hash, the two directories its blob lies in. -/
def ensureBlobParent (hash : Option BlobHash) : FsProgram Unit :=
  forM (match hash with
    | none => [[blobsName]]
    | some h => [[blobsName], (blobPath h).take 2, (blobPath h).take 3]) ensureDirectory

def prepareStagingForImport : FsProgram Unit := do
  let _ ← openValidatedStagingDirectory true
  purgeExistingStaging
  ensureBlobParent none

end MediaImporter
