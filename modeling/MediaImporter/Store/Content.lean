import MediaImporter.Store.WriteOnce

/-!
# What the import of a file reads

The blob of an import is named by what is read of the source, and by nothing else. What the store
answers decides whether the import succeeds, but not which blob it makes. So whatever the other
imports do, an import links no path but that of its content, and returns no hash but that of its
content.

## Main definitions

* `SourceAnswers.content` — what is read of a source.
* `links_ingestFile` — an import links the path of its content, and returns its hash.
* `Reading` — all imports together.
* `hash_of_ended`, `new_of_reaches` — the blobs that imports return, and those that are new.
-/

namespace MediaImporter

open Utf8 UnixPath Interleave
open Program (ObeysT)

/-! ## The content of a source -/

/-- What a stream gives up to its end. -/
def contentOf : List SourceRead → Bytes
  | [] => []
  | read :: reads => match read.bytes with
    | .error _ => []
    | .ok bytes => if bytes = [] then [] else bytes ++ contentOf reads

def SourceAnswers.content (source : SourceAnswers) : Bytes := contentOf source.reads

theorem contentOf_cons {read : SourceRead} {reads : List SourceRead} {bytes : Bytes}
    (h : read.bytes = .ok bytes) :
    contentOf (read :: reads) = if bytes = [] then [] else bytes ++ contentOf reads := by
  rw [contentOf, h]

/-! ## One import -/

/-- The calls that make a directory if it is not there. -/
theorem obeysT_ensureDirectory {possible : (call : DirectoryCall) → FsAnswer call → Prop}
    {allowed : DirectoryCall → Prop} {p : List Name} (hinspect : allowed (.symlinkMetadata p))
    (hopen : allowed (.openNoFollow p)) (hmake : allowed (.createDir p)) :
    ObeysT possible allowed (fun _ => True) (ensureDirectory p) := by
  have hrest : ∀ f : Except IoError (Metadata Bytes) → FsProgram Unit,
      (∀ opened, f opened = pure () ∨
        f opened = throw "open CAS directory without following links") →
      ObeysT possible allowed (fun _ => True) (fsCall (.openNoFollow p) >>= f) := by
    intro f hf
    refine (Program.obeysT_requestT hopen).bind fun opened _ => ?_
    rcases hf opened with heq | heq
    · rw [heq]
      exact Program.obeysT_pure trivial
    · rw [heq]
      exact Program.obeysT_throw _
  refine (Program.obeysT_requestT hinspect).bind fun metadata _ => ?_
  split
  · exact Program.obeysT_throw _
  · exact hrest _ fun opened => by split <;> simp
  · exact Program.obeysT_throw _
  · refine (Program.obeysT_requestT hmake).bind fun created _ => ?_
    split
    · exact hrest _ fun opened => by split <;> simp
    · exact hrest _ fun opened => by split <;> simp
    · exact Program.obeysT_throw _
  · exact Program.obeysT_throw _

/-- The call makes no link but to the path of the hash. -/
def LinksTo (hash : BlobHash) : DirectoryCall → Prop
  | .hardLink _ link => link = blobPath hash
  | _ => True

/-- A part of an import that makes no other link. -/
abbrev Links {α : Type} (hash : BlobHash) (post : α → Prop) (p : FsProgram α) : Prop :=
  Program.ObeysT (fun _ _ => True) (LinksTo hash) post p

section Links

variable {α β : Type} {hash : BlobHash} {post : α → Prop} {digest : Bytes → BlobHash}

theorem links_expectOk {answer : Except IoError α} {context : String}
    (h : ∀ a, answer = .ok a → post a) : Links hash post (expectOk answer context) := by
  cases answer with
  | error e => exact Program.obeysT_throw _
  | ok a => exact Program.obeysT_pure (h a rfl)

theorem links_liftExcept {r : Except String α} (h : ∀ a, r = .ok a → post a) :
    Links hash post (liftExcept r) := by
  cases r with
  | error e => exact Program.obeysT_throw _
  | ok a => exact Program.obeysT_pure (h a rfl)

theorem links_bind {call : DirectoryCall} {f : FsAnswer call → FsProgram α}
    (hcall : LinksTo hash call) (hf : ∀ r, Links hash post (f r)) :
    Links hash post (fsCall call >>= f) :=
  (Program.obeysT_requestT hcall).bind fun r _ => hf r

theorem links_ensureDirectory (p : List Name) : Links hash (fun _ => True) (ensureDirectory p) :=
  obeysT_ensureDirectory trivial trivial trivial

theorem links_removeStagingBestEffort (path : List Name) :
    Links hash (fun _ => True) (removeStagingBestEffort path) :=
  links_bind trivial fun _ => Program.obeysT_pure trivial

/-- What handles a failure makes no other link, either. -/
theorem links_orRemove {p : FsProgram α} (path : List Name) (context : String)
    (hp : Links hash post p) : Links hash post (orRemove path context p) :=
  Program.obeysT_tryCatch hp fun _ =>
    (links_removeStagingBestEffort path).bind fun _ _ => Program.obeysT_throw _

theorem links_bailIf {c : Prop} [Decidable c] (path : List Name) (message : String) :
    Links hash (fun _ => True) (bailIf c path message) := by
  unfold bailIf
  split
  · exact (links_removeStagingBestEffort path).bind fun _ _ => Program.obeysT_throw _
  · exact Program.obeysT_pure trivial

theorem links_stagingCleanup {p : FsProgram α} (path : List Name) (hp : Links hash post p) :
    Links hash post (stagingCleanup path p) := by
  change (ExceptT.run p >>= _).Obeys _ _ _
  rw [Program.obeys_bind]
  refine Program.Obeys.mono (fun r hr => ?_) hp
  rw [Program.obeys_bind]
  exact Program.Obeys.mono (fun _ _ => hr) (links_removeStagingBestEffort path)

/-- The hash is that of the whole content. -/
theorem links_hashReaderToWriter (inode : ℕ) (reads : List SourceRead) (hasher : BlobHasher) :
    Links hash (fun result => result = ⟨digest (hasher.input ++ contentOf reads),
      hasher.sizeBytes + (contentOf reads).length⟩)
      (hashReaderToWriter digest inode reads hasher) := by
  induction reads generalizing hasher with
  | nil => exact Program.obeysT_pure (by simp [BlobHasher.finish, contentOf])
  | cons read reads ih =>
      refine (links_expectOk fun bytes h => h).bind fun bytes hbytes => ?_
      have hcontent : contentOf (read :: reads) =
          if bytes = [] then [] else bytes ++ contentOf reads := contentOf_cons hbytes
      by_cases hnil : bytes = []
      · rw [if_pos hnil] at hcontent ⊢
        exact Program.obeysT_pure (by simp [BlobHasher.finish, hcontent])
      · rw [if_neg hnil] at hcontent ⊢
        refine (links_liftExcept fun h heq => heq).bind fun hasher' hhasher => ?_
        have hupdated : hasher' =
            ⟨hasher.input ++ bytes, hasher.sizeBytes + bytes.length⟩ := by
          unfold BlobHasher.update at hhasher
          split at hhasher
          · exact (Except.ok.inj hhasher).symm
          · cases hhasher
        refine links_bind trivial fun written => ?_
        refine (links_expectOk fun _ _ => trivial).bind fun _ _ => ?_
        refine (links_liftExcept fun _ _ => trivial).bind fun _ _ => ?_
        refine (ih hasher').mono fun result hresult => ?_
        rw [hresult, hcontent, hupdated]
        simp [Nat.add_assoc]

theorem links_stageSource (path : List Name) (inode : ℕ) (source : SourceAnswers)
    (before : SourceMetadata) (expectedSize : ℕ) :
    Links hash (fun result => result.hash = digest source.content)
      (stageSource digest path inode source before expectedSize) := by
  have hread : Links hash (fun result : HashResult => result.hash = digest source.content) (do
      expectOk source.buffer "allocate copy buffer"
      hashReaderToWriter digest inode source.reads .new) := by
    refine (links_expectOk fun _ _ => trivial).bind fun _ _ => ?_
    refine (links_hashReaderToWriter inode source.reads .new).mono fun result hresult => ?_
    rw [hresult]
    rfl
  refine (links_orRemove path _ hread).bind fun result hresult => ?_
  refine (links_bailIf path _).bind fun _ _ => ?_
  refine (links_expectOk fun _ _ => trivial).bind fun after _ => ?_
  refine (links_bailIf path _).bind fun _ _ => ?_
  refine (links_bailIf path _).bind fun _ _ => ?_
  exact Program.obeysT_pure hresult

theorem links_installStaged (path : List Name) (result : HashResult)
    (existing : Except IoError Unit) (hresult : result.hash = hash) :
    Links hash (fun blob => blob.hash = hash) (installStaged path result existing) := by
  have hremove : ∀ context, Links hash (fun _ => True) (removeStaged path context) :=
    fun context => links_bind trivial fun _ =>
      links_orRemove path context (links_expectOk fun _ _ => trivial)
  refine links_bind (congrArg blobPath hresult) fun installed => ?_
  split
  · exact (hremove _).bind fun _ _ => Program.obeysT_pure hresult
  · have hverify : Links hash (fun _ => True) (verifyAndMakeExistingBlobReadonly
        (blobPath result.hash) result.sizeBytes existing) := by
      refine links_bind trivial fun opened => ?_
      refine (links_expectOk fun _ _ => trivial).bind fun metadata _ => ?_
      split
      · split
        · exact Program.obeysT_throw _
        · exact links_expectOk fun _ _ => trivial
      · exact Program.obeysT_throw _
    exact hverify.bind fun _ _ => (hremove _).bind fun _ _ => Program.obeysT_pure hresult
  · exact (links_removeStagingBestEffort path).bind fun _ _ => Program.obeysT_throw _

/-- **An import** links no path but that of its content, and returns the hash of its content. -/
theorem links_ingestFile (name : Name) (source : SourceAnswers) (expectedSize : ℕ) :
    Links (digest source.content) (fun blob => blob.hash = digest source.content)
      (ingestFile digest name source expectedSize) := by
  refine (links_expectOk fun _ _ => trivial).bind fun before _ => ?_
  split
  · exact Program.obeysT_throw _
  refine (links_expectOk fun _ _ => trivial).bind fun _ _ => ?_
  refine (links_expectOk fun _ _ => trivial).bind fun opened _ => ?_
  split
  · exact Program.obeysT_throw _
  refine links_bind trivial fun staging => ?_
  refine (links_expectOk fun _ _ => trivial).bind fun inode _ => ?_
  refine links_stagingCleanup _ ?_
  refine (links_stageSource _ inode source before expectedSize).bind fun result hresult => ?_
  refine (links_expectOk fun _ _ => trivial).bind fun _ _ => ?_
  refine (links_orRemove _ _ (Program.obeysT_forM fun p _ => links_ensureDirectory p)).bind
    fun _ _ => ?_
  exact links_installStaged _ result source.existing hresult

end Links

/-! ## All imports -/

/-- What a call adds to the links. -/
theorem linked_of_answered {k : ℕ} {call : DirectoryCall} {s t : IngestWorld}
    {a : FsAnswer call} (h : Answered k call s a t) : t.linked = s.linked ∨
      ∃ p q, call = .hardLink p q ∧ t.linked = (k, q) :: s.linked := by
  cases h with
  | performed =>
      cases call with
      | hardLink p q =>
          rw [IngestWorld.perform]
          rcases (s.disk.perform (.hardLink p q)).1 with e | u
          · exact .inl rfl
          · exact .inr ⟨p, q, rfl, rfl⟩
      | _ => exact .inl rfl
  | failed => exact .inl rfl
  | madeDirectory => exact .inl rfl
  | wrote => exact .inl rfl

/-- What is left of each import links no path but that of its content, and the links that were
made are such links. -/
structure Reading (digest : Bytes → BlobHash) (requests : List IngestRequest) (c : Ingests) :
    Prop where
  threads : ∀ (k : ℕ) p, c.threads[k]? = some p → ∃ request, requests[k]? = some request ∧
    p.Obeys (fun _ _ => True) (LinksTo (digest request.source.content)) fun r =>
      ∀ blob, r = .ok blob → blob.hash = digest request.source.content
  linked : ∀ e ∈ c.state.linked, ∃ request, requests[e.1]? = some request ∧
    e.2 = blobPath (digest request.source.content)

section Together

variable {digest : Bytes → BlobHash} {requests : List IngestRequest} {start : Store}
  {c d : Ingests}

theorem reading_ingests : Reading digest requests (ingests digest requests start) := by
  refine ⟨fun k p hp => ?_, fun e he => absurd he List.not_mem_nil⟩
  have hp : (requests.map (IngestRequest.program digest))[k]? = some p := hp
  rw [List.getElem?_map, Option.map_eq_some_iff] at hp
  obtain ⟨request, hrequest, rfl⟩ := hp
  exact ⟨request, hrequest, links_ingestFile request.name request.source request.expectedSize⟩

theorem Reading.step (h : Reading digest requests c) (hstep : Interleave.Step Answered c d) :
    Reading digest requests d := by
  cases hstep with
  | call k call next a t hthread hanswer =>
  obtain ⟨request, hrequest, hcall, hnext⟩ := h.threads k _ hthread
  refine ⟨fun j p hp => ?_, fun e he => ?_⟩
  · by_cases hj : j = k
    · subst hj
      have hlt := (List.getElem?_eq_some_iff.1 hthread).1
      rw [List.getElem?_set_self hlt] at hp
      obtain rfl := Option.some.inj hp
      exact ⟨request, hrequest, hnext a trivial⟩
    · rw [List.getElem?_set_ne (Ne.symm hj)] at hp
      exact h.threads j p hp
  · rcases linked_of_answered hanswer with heq | ⟨p, q, rfl, heq⟩
    · exact h.linked e (heq ▸ he)
    · rw [heq] at he
      rcases List.mem_cons.1 he with rfl | he
      · exact ⟨request, hrequest, hcall⟩
      · exact h.linked e he

theorem reading_of_reaches (hreach : Reaches Answered (ingests digest requests start) c) :
    Reading digest requests c := by
  induction hreach with
  | refl => exact reading_ingests
  | tail _ hstep ih => exact ih.step hstep

/-- An import returns the hash of what it reads. -/
theorem hash_of_ended (hreach : Reaches Answered (ingests digest requests start) c) {k : ℕ}
    {blob : StoredBlob} (hended : Ended c k (.ok blob)) {request : IngestRequest}
    (hrequest : requests[k]? = some request) : blob.hash = digest request.source.content := by
  obtain ⟨request', hrequest', hobeys⟩ := (reading_of_reaches hreach).threads k _ hended
  obtain rfl := Option.some.inj (hrequest.symm.trans hrequest')
  exact hobeys blob rfl

/-- What is new in the CAS is the content of one of the files. -/
theorem new_of_reaches (hnames : (requests.map IngestRequest.name).Nodup)
    (hcas : CasOfValidFiles digest start)
    (hreach : Reaches Answered (ingests digest requests start) c) {hash : BlobHash}
    (hthere : c.state.lookup (blobPath hash) ≠ none)
    (hnew : start.tree.lookup (blobPath hash) = none) :
    ∃ request ∈ requests, hash = digest request.source.content := by
  obtain ⟨hupheld, -, -⟩ := hreach.upholds (upheld_ingests hnames hcas)
  obtain ⟨k, hk⟩ := hupheld.state.known hash hthere hnew
  obtain ⟨request, hrequest, hpath⟩ := (reading_of_reaches hreach).linked _ hk
  exact ⟨request, List.mem_of_getElem? hrequest, blobPath_inj.1 hpath⟩

end Together

end MediaImporter
