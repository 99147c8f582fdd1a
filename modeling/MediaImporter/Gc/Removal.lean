import MediaImporter.Gc.Preflight
import MediaImporter.Store.CasTree

/-!
# Removing the files of blobs

A collection makes the file of a blob go in three calls: it looks at the file once more,
unlinks it, and makes the directory durable. Each can fail, and an unlink can be reported as
failed after it took effect. What is left behind in any case is the store without the files
of some blobs.

Where no call fails without a reason, none of the three fails while the file is there.

## Main definitions

* `Unlinked` — the store without the files of some blobs.
* `GcEnvironment.Faultless`, `GcEnvironment.Mild` — environments.
* `meets_revalidate`, `meets_removeBlobFile`, `meets_syncBlobParent`,
  `meets_syncNearest` — the calls.
-/

namespace MediaImporter

open Utf8 UnixPath
open Program (Meets)

/-! ## Stores without some files -/

/-- The files of some blobs are gone, and nothing else is different. -/
structure Unlinked (hashes : List BlobHash) (d d' : Store) : Prop where
  lookup : ∀ q, d'.tree.lookup q = if ∃ h ∈ hashes, q = blobPath h then none
    else d.tree.lookup q
  files : d.SameFiles d'

section Unlinked

variable {d d' d'' : Store} {hashes : List BlobHash} {h : BlobHash}

theorem Unlinked.refl (d : Store) : Unlinked [] d d := ⟨by simp, .refl d⟩

/-- The file of another blob is as it was. -/
theorem Unlinked.lookup_blobPath (hd : Unlinked hashes d d') (hh : h ∉ hashes) :
    d'.tree.lookup (blobPath h) = d.tree.lookup (blobPath h) := by
  rw [hd.lookup, if_neg]
  rintro ⟨h', hh', heq⟩
  exact hh (blobPath_inj.mp heq ▸ hh')

/-- What is not the path of a blob is as it was. -/
theorem Unlinked.lookup_of_length (hd : Unlinked hashes d d') {q : List Name}
    (hq : q.length ≠ 4) : d'.tree.lookup q = d.tree.lookup q := by
  rw [hd.lookup, if_neg]
  rintro ⟨h', -, rfl⟩
  simp [blobPath, blobNames] at hq

theorem Unlinked.snoc (hd : Unlinked hashes d d')
    (hlookup : ∀ q, d''.tree.lookup q = if q = blobPath h then none else d'.tree.lookup q)
    (hfiles : d'.SameFiles d'') : Unlinked (hashes ++ [h]) d d'' where
  lookup q := by
    rw [hlookup, hd.lookup]
    by_cases hq : q = blobPath h
    · rw [if_pos hq, if_pos ⟨h, by simp, hq⟩]
    · rw [if_neg hq]
      have hiff : (∃ h' ∈ hashes ++ [h], q = blobPath h') ↔ ∃ h' ∈ hashes, q = blobPath h' := by
        simp [or_and_right, exists_or, hq]
      simp only [hiff]
  files := hd.files.trans hfiles

end Unlinked

/-! ## Environments -/

/-- No call fails without a reason in the store or in the catalog. -/
structure GcEnvironment.Faultless (env : GcEnvironment) : Prop where
  store : ∀ call n, env.storeFaults call n = none
  writer : env.writer.Faultless
  stages : ∀ n, env.stageFails n = none
  opens : env.openFails = none
  telemetry : ∀ n, env.telemetryFails n = false

/-- A call that fails has no effect, and of the statements only those that are staged fail. -/
structure GcEnvironment.Mild (env : GcEnvironment) : Prop where
  store : ∀ call n fault, env.storeFaults call n = some fault → fault.performed = false
  writer : env.writer.Faultless

theorem GcEnvironment.Faultless.mild {env : GcEnvironment} (h : env.Faultless) : env.Mild where
  store call n fault hfault := by simp [h.store] at hfault
  writer := h.writer

/-! ## Calls to the store -/

section Calls

variable [SqlArithmetic] {env : GcEnvironment} {P : GcWorld → Prop} {w : GcWorld} {ε : Type}

/-- The world after a call to the store. -/
def GcWorld.afterStore (env : GcEnvironment) (w : GcWorld) (call : DirectoryCall) : GcWorld :=
  { w with store := (w.store.answer env.storeFaults w.calls call).2, calls := w.calls + 1 }

/-- A call to the store inside a collection, and what follows on its answer. -/
theorem meets_fsCall_bind {call : DirectoryCall} {α : Type} {f : FsAnswer call → FsProgram α}
    {Q : α → GcWorld → Prop} {E : String → GcWorld → Prop} (hw : P w)
    (hf : Meets (Program.restrict GcCall.store (fun _ => id) (gcHandler env)) P
      (f (w.store.answer env.storeFaults w.calls call).1) (w.afterStore env call) Q E) :
    Meets (Program.restrict GcCall.store (fun _ => id) (gcHandler env)) P (fsCall call >>= f) w
      Q E :=
  Program.meets_requestT_bind hw hf

omit [SqlArithmetic] in
/-- A call that only looks leaves the store alone. -/
theorem afterStore_of_inspect {call : DirectoryCall} (hcall : ∀ d : Store, (d.perform call).2 = d) :
    w.SameState (w.afterStore env call) := by
  refine ⟨?_, rfl⟩
  rcases Disk.answer_snd env.storeFaults w.calls w.store call with heq | heq
  · exact heq.trans (hcall w.store)
  · exact heq

omit [SqlArithmetic] in
/-- Without faults a call is answered by the store. -/
theorem answer_of_faultless (henv : env.Faultless) (call : DirectoryCall) :
    w.store.answer env.storeFaults w.calls call = w.store.perform call := by
  unfold Disk.answer
  rw [henv.store]

theorem meets_attempt {ε' α : Type} {p : GcProgram ε' α} {R : α → GcWorld → Prop}
    {F : ε' → GcWorld → Prop} {Q : Except ε' α → GcWorld → Prop} {E : ε → GcWorld → Prop}
    (hp : Meets (gcHandler env) P p w R F) (hok : ∀ a t, R a t → Q (.ok a) t)
    (herror : ∀ e t, F e t → Q (.error e) t) :
    Meets (gcHandler env) P (attempt p : GcProgram ε _) w Q E := by
  obtain ⟨hthrough, hend⟩ := hp
  constructor
  · change (Except.ok <$> ExceptT.run p).Throughout (gcHandler env) P w
    rw [← bind_pure_comp, Program.throughout_bind]
    exact ⟨hthrough, hthrough.finish _⟩
  · rw [exec_attempt]
    rcases hrun : Program.exec (gcHandler env) p w with ⟨r, t⟩
    rw [hrun] at hend
    cases r with
    | ok a => exact hok a t hend
    | error e => exact herror e t hend

end Calls

/-! ## The functions -/

section Functions

variable [SqlArithmetic] {env : GcEnvironment} {P : GcWorld → Prop} {w : GcWorld}
  {hash : BlobHash}

theorem meets_revalidate {identity : BlobFileIdentity} (hP : ∀ w', w.SameState w' → P w') :
    Meets (gcHandler env) P (onGcStore (revalidateBlobForRemoval hash identity)) w
      (fun _ w' => w.SameState w') (fun _ w' => w.SameState w' ∧ (env.Faultless →
        ∀ metadata, w.store.symlinkMetadata (blobPath hash) = .ok metadata →
          BlobFileIdentity.fromMetadata metadata ≠ some identity)) := by
  refine Program.meets_embedT (meets_fsCall_bind (hP w (.refl w)) ?_)
  have hsame : w.SameState (w.afterStore env (.symlinkMetadata (blobPath hash))) :=
    afterStore_of_inspect fun _ => rfl
  have hPw := hP _ hsame
  have hanswer : env.Faultless → (w.store.answer env.storeFaults w.calls
      (.symlinkMetadata (blobPath hash))).1 = w.store.symlinkMetadata (blobPath hash) := by
    intro henv
    rw [answer_of_faultless henv]
    rfl
  cases hstat : (w.store.answer env.storeFaults w.calls (.symlinkMetadata (blobPath hash))).1 with
  | error e =>
      refine Program.meets_throw hPw ⟨hsame, fun henv metadata hok => ?_⟩
      rw [← hanswer henv, hstat] at hok
      simp at hok
  | ok metadata =>
      have hblame : env.Faultless → ∀ m, w.store.symlinkMetadata (blobPath hash) = .ok m →
          m = metadata := by
        intro henv m hok
        rw [← hanswer henv, hstat] at hok
        exact (Except.ok.inj hok).symm
      dsimp only
      cases hid : BlobFileIdentity.fromMetadata metadata with
      | none =>
          refine Program.meets_throw hPw ⟨hsame, fun henv m hok => ?_⟩
          simp [hblame henv m hok, hid]
      | some actual =>
          dsimp only
          by_cases heq : actual = identity
          · rw [if_pos heq]
            exact Program.meets_pure hPw hsame
          · rw [if_neg heq]
            refine Program.meets_throw hPw ⟨hsame, fun henv m hok => ?_⟩
            simp [hblame henv m hok, hid, heq]

/-- After the unlink of a blob is answered, its file is gone or everything is as before. -/
structure AfterRemoval (w : GcWorld) (hash : BlobHash) (removed : Bool)
    (w' : GcWorld) : Prop where
  writer : w'.writer = w.writer
  lookup : ∀ q, w'.store.tree.lookup q =
    if removed = true ∧ q = blobPath hash then none else w.store.tree.lookup q
  files : w.store.SameFiles w'.store

omit [SqlArithmetic] in
/-- What the store does with an unlink when it does not fail. -/
theorem perform_removeFile (d : Store) (p : List Name) :
    (∃ d', d.perform (.removeFile p) = (.ok (), d') ∧
      (∀ q, d'.tree.lookup q = if q = p then none else d.tree.lookup q) ∧ d.SameFiles d') ∨
    (∃ e, d.perform (.removeFile p) = (.error e, d)) ∧
      ∀ inode, d.tree.lookup p ≠ some (.file inode) := by
  cases hremove : d.removeFile p with
  | ok d' =>
      obtain ⟨hlookup, hfiles⟩ := Disk.removeFile_spec hremove
      exact .inl ⟨d', by simp [Disk.perform, Disk.perform.unitAnswer, hremove], hlookup, hfiles⟩
  | error e =>
      refine .inr ⟨⟨e, by simp [Disk.perform, Disk.perform.unitAnswer, hremove]⟩, ?_⟩
      intro inode hfile
      obtain ⟨d', hd'⟩ := Disk.removeFile_ok hfile (by simp)
      rw [hremove] at hd'
      simp at hd'

omit [SqlArithmetic] in
theorem afterRemoval_of_removeFile (env : GcEnvironment) (w : GcWorld) (hash : BlobHash) :
    ((w.store.answer env.storeFaults w.calls (.removeFile (blobPath hash))).1 = .ok () ∧
      AfterRemoval w hash true (w.afterStore env (.removeFile (blobPath hash)))) ∨
    ∃ e removed, (w.store.answer env.storeFaults w.calls (.removeFile (blobPath hash))).1 =
        .error e ∧
      AfterRemoval w hash removed (w.afterStore env (.removeFile (blobPath hash))) ∧
      (env.Mild → removed = false) ∧
      (env.Faultless → ∀ inode, w.store.tree.lookup (blobPath hash) ≠ some (.file inode)) := by
  have hremoved : ∀ d' : Store, (∀ q, d'.tree.lookup q =
      if q = blobPath hash then none else w.store.tree.lookup q) → w.store.SameFiles d' →
      AfterRemoval w hash true { w with store := d', calls := w.calls + 1 } :=
    fun d' hlookup hfiles => ⟨rfl, by simpa using hlookup, hfiles⟩
  have hkept : AfterRemoval w hash false { w with store := w.store, calls := w.calls + 1 } :=
    ⟨rfl, by simp, .refl _⟩
  unfold GcWorld.afterStore Disk.answer
  cases hfault : env.storeFaults (.removeFile (blobPath hash)) w.calls with
  | none =>
      rcases perform_removeFile w.store (blobPath hash) with ⟨d', hd', hlookup, hfiles⟩ |
        ⟨⟨e, he⟩, hnot⟩
      · rw [hd']
        exact .inl ⟨rfl, hremoved d' hlookup hfiles⟩
      · rw [he]
        exact .inr ⟨e, false, rfl, hkept, fun _ => rfl, fun _ => hnot⟩
  | some fault =>
      have hblame : env.Faultless → ∀ inode,
          w.store.tree.lookup (blobPath hash) ≠ some (.file inode) := by
        intro henv
        simp [henv.store] at hfault
      right
      by_cases hperformed : fault.performed = true
      · rcases perform_removeFile w.store (blobPath hash) with ⟨d', hd', hlookup, hfiles⟩ |
          ⟨⟨e, he⟩, -⟩
        · refine ⟨fault.error, true, rfl, ?_, fun hmild => ?_, hblame⟩
          · rw [hd']
            simpa only [hperformed, if_true] using hremoved d' hlookup hfiles
          · simp [hmild.store _ _ _ hfault] at hperformed
        · refine ⟨fault.error, false, rfl, ?_, fun _ => rfl, hblame⟩
          rw [he]
          simpa only [ite_self] using hkept
      · refine ⟨fault.error, false, rfl, ?_, fun _ => rfl, hblame⟩
        rw [Bool.not_eq_true] at hperformed
        simpa only [hperformed, Bool.false_eq_true, if_false] using hkept

theorem meets_removeBlobFile (hw : P w)
    (hP : ∀ w' removed, AfterRemoval w hash removed w' → P w') :
    Meets (gcHandler env) P (onGcStore (removeBlobFile hash)) w
      (fun _ w' => AfterRemoval w hash true w')
      (fun _ w' => ∃ removed, AfterRemoval w hash removed w' ∧
        (env.Mild → removed = false) ∧ (env.Faultless →
          ∀ inode, w.store.tree.lookup (blobPath hash) ≠ some (.file inode))) := by
  refine Program.meets_embedT (meets_fsCall_bind hw ?_)
  rcases afterRemoval_of_removeFile env w hash with ⟨hanswer, hafter⟩ |
    ⟨e, removed, hanswer, hafter, hrest⟩
  · rw [hanswer]
    exact Program.meets_pure (hP _ _ hafter) hafter
  · rw [hanswer]
    exact Program.meets_throw (hP _ _ hafter) ⟨removed, hafter, hrest⟩

/-- A directory is made durable. -/
theorem meets_syncDirectory {directory : List Name} {context : String}
    (hP : ∀ w', w.SameState w' → P w') :
    Meets (Program.restrict GcCall.store (fun _ => id) (gcHandler env)) P
      (do let synced ← fsCall (.syncDirectory directory); expectOk synced context) w
      (fun _ w' => w.SameState w') (fun _ w' => w.SameState w' ∧ (env.Faultless →
        w.store.tree.lookup directory ≠ some .directory)) := by
  refine meets_fsCall_bind (hP w (.refl w)) ?_
  have hsame : w.SameState (w.afterStore env (.syncDirectory directory)) :=
    afterStore_of_inspect fun _ => rfl
  cases hanswer : (w.store.answer env.storeFaults w.calls (.syncDirectory directory)).1 with
  | ok u => exact Program.meets_pure (hP _ hsame) hsame
  | error e =>
      refine Program.meets_throw (hP _ hsame) ⟨hsame, fun henv hdir => ?_⟩
      rw [answer_of_faultless henv, Disk.perform, Disk.symlinkMetadata_of_lookup hdir] at hanswer
      simp at hanswer

theorem meets_syncBlobParent (hP : ∀ w', w.SameState w' → P w') :
    Meets (gcHandler env) P (onGcStore (syncBlobParent hash)) w
      (fun _ w' => w.SameState w') (fun _ w' => w.SameState w' ∧ (env.Faultless →
        w.store.tree.lookup (blobPath hash).dropLast ≠ some .directory)) :=
  Program.meets_embedT (meets_syncDirectory hP)

/-- The directories are those of a store in which the first ones are missing and the next one
is there. -/
def FirstExisting (d : Store) : List (List Name) → Prop
  | [] => False
  | directory :: above =>
      d.tree.lookup directory = some .directory ∨
        d.symlinkMetadata directory = .error .notFound ∧ FirstExisting d above

theorem meets_syncFirstExisting (directories : List (List Name))
    (hP : ∀ w', w.SameState w' → P w') :
    Meets (Program.restrict GcCall.store (fun _ => id) (gcHandler env)) P
      (syncFirstExisting directories) w (fun _ w' => w.SameState w')
      (fun _ w' => w.SameState w' ∧ (env.Faultless → ¬ FirstExisting w.store directories)) := by
  induction directories generalizing w with
  | nil => exact Program.meets_throw (hP w (.refl w)) ⟨.refl w, fun _ => id⟩
  | cons directory above ih =>
      have hsame : w.SameState (w.afterStore env (.symlinkMetadata directory)) :=
        afterStore_of_inspect fun _ => rfl
      have hPs : ∀ w', (w.afterStore env (.symlinkMetadata directory)).SameState w' → P w' :=
        fun w' hw' => hP w' (hsame.trans hw')
      have hanswer : env.Faultless → (w.store.answer env.storeFaults w.calls
          (.symlinkMetadata directory)).1 = w.store.symlinkMetadata directory := by
        intro henv
        rw [answer_of_faultless henv]
        rfl
      refine meets_fsCall_bind (hP w (.refl w)) ?_
      cases hstat : (w.store.answer env.storeFaults w.calls (.symlinkMetadata directory)).1 with
      | ok metadata =>
          have hnode : env.Faultless → FirstExisting w.store (directory :: above) →
              w.store.tree.lookup directory = some .directory ∧ metadata.node = .directory := by
            intro henv hfirst
            have hok := (hanswer henv).symm.trans hstat
            rcases hfirst with hdir | ⟨hmissing, -⟩
            · rw [Disk.symlinkMetadata_of_lookup hdir] at hok
              exact ⟨hdir, congrArg Metadata.node (Except.ok.inj hok).symm⟩
            · rw [hmissing] at hok
              simp at hok
          by_cases hdir : metadata.node = .directory
          · obtain ⟨node, len⟩ := metadata
            obtain rfl : node = .directory := hdir
            refine (meets_syncDirectory hPs).mono (fun _ w' hw' => hsame.trans hw') ?_
            rintro _ w' ⟨hw', hblame⟩
            refine ⟨hsame.trans hw', fun henv hfirst => ?_⟩
            rw [hsame.1] at hblame
            exact hblame henv (hnode henv hfirst).1
          · have hthrow : Meets (Program.restrict GcCall.store (fun _ => id) (gcHandler env)) P
                (throw "canonical parent for absent GC candidate is not a directory" :
                  FsProgram Unit) (w.afterStore env (.symlinkMetadata directory))
                (fun _ w' => w.SameState w') (fun _ w' => w.SameState w' ∧
                  (env.Faultless → ¬ FirstExisting w.store (directory :: above))) :=
              Program.meets_throw (hP _ hsame)
                ⟨hsame, fun henv hfirst => hdir (hnode henv hfirst).2⟩
            obtain ⟨node, len⟩ := metadata
            cases node with
            | directory => exact absurd rfl hdir
            | file _ | symlink _ | other => exact hthrow
      | error e =>
          by_cases hmissing : e = .notFound
          · subst hmissing
            refine (ih hPs).mono (fun _ w' hw' => hsame.trans hw') ?_
            rintro _ w' ⟨hw', hblame⟩
            refine ⟨hsame.trans hw', fun henv hfirst => ?_⟩
            rw [hsame.1] at hblame
            rcases hfirst with hdir | ⟨-, hrest⟩
            · have hok := (hanswer henv).symm.trans hstat
              rw [Disk.symlinkMetadata_of_lookup hdir] at hok
              simp at hok
            · exact hblame henv hrest
          · have hblame : env.Faultless → ¬ FirstExisting w.store (directory :: above) := by
              intro henv hfirst
              have herror := (hanswer henv).symm.trans hstat
              rcases hfirst with hdir | ⟨hfree, -⟩
              · rw [Disk.symlinkMetadata_of_lookup hdir] at herror
                simp at herror
              · rw [hfree] at herror
                exact hmissing (Except.error.inj herror).symm
            cases e with
            | notFound => exact absurd rfl hmissing
            | _ => exact Program.meets_throw (hP _ hsame) ⟨hsame, hblame⟩

theorem meets_syncNearest (hP : ∀ w', w.SameState w' → P w') :
    Meets (gcHandler env) P (onGcStore (syncNearestExistingBlobParent hash)) w
      (fun _ w' => w.SameState w') (fun _ w' => w.SameState w' ∧ (env.Faultless →
        ¬ FirstExisting w.store (blobPath hash).dropLast.inits.reverse)) :=
  Program.meets_embedT (meets_syncFirstExisting _ hP)

end Functions

/-- What lies above the blobs of a valid tree is a directory or is not found. -/
theorem lookup_or_missing_of_casTree {d : Store} (h : CasTree d) {relative : List Name}
    (hlen : relative.length ≤ 2) : d.tree.lookup (blobsName :: relative) = some .directory ∨
      d.symlinkMetadata (blobsName :: relative) = .error .notFound := by
  have habove : ∀ q, q <+: blobsName :: relative → ∀ node, d.tree.lookup q = some node →
      node = .directory := by
    intro q hq node hnode
    cases q with
    | nil =>
        have hroot := FileTree.lookup_of_isPrefix (p := []) (Option.isSome_of_eq_some h.root)
          (List.nil_prefix) (by simp)
        exact Option.some.inj (hnode.symm.trans hroot)
    | cons name q =>
        obtain ⟨rfl, hbelow⟩ := List.cons_prefix_cons.mp hq
        exact h.directory hnode (hbelow.length_le.trans hlen)
  cases hlookup : d.tree.lookup (blobsName :: relative) with
  | some node => exact .inl (congrArg some (habove _ List.prefix_rfl node hlookup))
  | none => exact .inr (Disk.symlinkMetadata_of_absent hlookup habove)

/-- In a valid tree there is a deepest directory above a blob. -/
theorem firstExisting_of_casTree {d : Store} (h : CasTree d) (hash : BlobHash) :
    FirstExisting d (blobPath hash).dropLast.inits.reverse := by
  simp only [blobPath, blobNames, List.dropLast, List.inits, List.map_cons, List.map_nil,
    List.reverse_cons, List.reverse_nil, List.nil_append, List.cons_append]
  have hstep : ∀ relative : List Name, relative.length ≤ 2 → ∀ above, FirstExisting d above →
      FirstExisting d ((blobsName :: relative) :: above) := by
    intro relative hlen above habove
    rcases lookup_or_missing_of_casTree h hlen with hdir | hmissing
    · exact .inl hdir
    · exact .inr ⟨hmissing, habove⟩
  exact hstep _ (by simp) _ (hstep _ (by simp) _ (.inl h.root))

end MediaImporter
