import MediaImporter.Gc.Predicts

/-!
# What collections settle on

A collection never does more to a row than to set or remove its mark, or to delete it when it
was marked and nothing referred to it, and a file goes with its row at the latest. So wherever a
collection is stopped, what is left is again a state from which a collection may start, and the
rows of the blobs that are referred to are the same.

A collection in which nothing fails marks what nothing refers to, and deletes what had been
marked before. Two of them leave the blobs that are referred to, and a third one does nothing.

## Main definitions

* `Evolves` — what collections can make of a catalog and a store.
* `Collectable` — the states from which a collection may start, with the content of every file.
* `Catalog.settled` — the rows of the blobs that are referred to, without marks.
* `Evolves.collectable`, `Evolves.settled_eq` — what stays the same.
* `meets_collectGarbage_calm` — a collection in which nothing fails.
* `collectGarbage_recovers` — collections that are stopped lose nothing.
* `collectGarbage_twice` — two collections are enough.
-/

namespace MediaImporter

open Utf8 UnixPath
open Program (Meets)

/-! ## What collections make of a store -/

/-- What collections can make of a row. Only a marked row that nothing refers to can go, and as
long as it is there it keeps a mark. -/
inductive RowEvolves (c : Catalog) (row : BlobRow) : Option BlobRow → Prop
  | kept (mark : Option ℤ)
      (hmark : row.deletedAtMs ≠ .null → ¬ c.Referenced row.hash → mark ≠ none) :
      RowEvolves c row (some (row.setMark (.ofOption mark)))
  | gone (hmark : row.deletedAtMs ≠ .null) (href : ¬ c.Referenced row.hash) :
      RowEvolves c row none

/-- What collections can make of a catalog and of the CAS. -/
structure Evolves (c : Catalog) (d : Store) (c' : Catalog) (d' : Store) : Prop where
  schema : c'.schema = c.schema
  damage : c'.damage = c.damage
  sourceFiles : c'.sourceFiles = c.sourceFiles
  rows : ∃ f : BlobRow → Option BlobRow, c'.blobs = c.blobs.filterMap f ∧
    ∀ row ∈ c.blobs, RowEvolves c row (f row)
  cleared : ∀ hash : BlobHash, (∃ row ∈ c.blobs, row.hash = hash.value) →
    (∀ row ∈ c'.blobs, row.hash ≠ hash.value) → d'.tree.lookup (blobPath hash) = none
  lookup : ∀ q, [blobsName] <+: q → d'.tree.lookup q = d.tree.lookup q ∨
    d'.tree.lookup q = none ∧ ∃ hash, q = blobPath hash ∧ c.Sweepable hash
  files : d.SameFiles d'

/-- The rows of the blobs that are referred to, without marks. -/
def Catalog.settled (c : Catalog) : Catalog :=
  { c with blobs := (c.blobs.filter fun row => c.Referenced row.hash).map (·.setMark .null) }

/-- The states from which a collection may start, where every file of the CAS has the content
its name says. -/
structure Collectable (digest : Bytes → BlobHash) (d : Store) (c : Catalog) : Prop
    extends Safe digest d c where
  root : d.tree.lookup [blobsName] = some .directory
  named : ∀ hash inode, d.tree.lookup (blobPath hash) = some (.file inode) →
    digest (d.data inode) = hash
  integers : c.Fits

@[simp] theorem BlobRow.setMark_setMark (row : BlobRow) (v v' : Value) :
    (row.setMark v).setMark v' = row.setMark v' := rfl

theorem BlobRow.setMark_self {row : BlobRow} {v : Value} (h : row.deletedAtMs = v) :
    row.setMark v = row := by
  subst h
  rfl

/-- A function that is kept by what becomes of the rows. -/
theorem sublist_map_filterMap {α β : Type} (f : α → Option α) (g : α → β) {l : List α}
    (hf : ∀ a ∈ l, ∀ a', f a = some a' → g a' = g a) :
    ((l.filterMap f).map g).Sublist (l.map g) := by
  induction l with
  | nil => exact .slnil
  | cons a l ih =>
      have ih := ih fun b hb => hf b (List.mem_cons_of_mem a hb)
      cases ha : f a with
      | none =>
          rw [List.filterMap_cons_none ha]
          exact ih.cons _
      | some a' =>
          rw [List.filterMap_cons_some ha, List.map_cons, List.map_cons,
            hf a List.mem_cons_self a' ha]
          exact ih.cons_cons _

section Evolves

variable {c c' : Catalog} {d d' : Store} {digest : Bytes → BlobHash}

theorem Evolves.referenced_iff (h : Evolves c d c' d') (v : Value) :
    c'.Referenced v ↔ c.Referenced v := by
  unfold Catalog.Referenced
  rw [h.sourceFiles]

/-- Every row was there before, with another mark at most. -/
theorem Evolves.exists_row (h : Evolves c d c' d') {row' : BlobRow} (hrow' : row' ∈ c'.blobs) :
    ∃ row ∈ c.blobs, ∃ mark : Option ℤ, row' = row.setMark (.ofOption mark) ∧
      (row.deletedAtMs ≠ .null → ¬ c.Referenced row.hash → mark ≠ none) := by
  obtain ⟨f, hblobs, hf⟩ := h.rows
  rw [hblobs] at hrow'
  obtain ⟨row, hrow, heq⟩ := List.mem_filterMap.mp hrow'
  have hev := hf row hrow
  rw [heq] at hev
  cases hev with
  | kept mark hmark => exact ⟨row, hrow, mark, rfl, hmark⟩

/-- A row that is referred to is still there. -/
theorem Evolves.keeps (h : Evolves c d c' d') {row : BlobRow} (hrow : row ∈ c.blobs)
    (href : c.Referenced row.hash) :
    ∃ mark : Option ℤ, row.setMark (.ofOption mark) ∈ c'.blobs := by
  obtain ⟨f, hblobs, hf⟩ := h.rows
  have hev := hf row hrow
  rcases heq : f row with _ | row'
  · rw [heq] at hev
    cases hev with
    | gone _ hnot => exact absurd href hnot
  · rw [heq] at hev
    cases hev with
    | kept mark _ =>
        refine ⟨mark, ?_⟩
        rw [hblobs]
        exact List.mem_filterMap.mpr ⟨row, hrow, heq⟩

/-- The rows of the blobs that are referred to are the same, but for their marks. -/
theorem Evolves.settled_eq (h : Evolves c d c' d') : c'.settled = c.settled := by
  obtain ⟨f, hblobs, hf⟩ := h.rows
  have hkey : ∀ rows : List BlobRow, (∀ row ∈ rows, RowEvolves c row (f row)) →
      ((rows.filterMap f).filter fun row => c'.Referenced row.hash).map (·.setMark .null) =
        (rows.filter fun row => c.Referenced row.hash).map (·.setMark .null) := by
    intro rows hrows
    induction rows with
    | nil => rfl
    | cons row rows ih =>
        have ih := ih fun r hr => hrows r (List.mem_cons_of_mem row hr)
        have hev := hrows row List.mem_cons_self
        rcases heq : f row with _ | row'
        · rw [heq] at hev
          cases hev with
          | gone _ href =>
              rw [List.filterMap_cons_none heq, ih, List.filter_cons_of_neg (by simpa using href)]
        · rw [heq] at hev
          cases hev with
          | kept mark _ =>
              rw [List.filterMap_cons_some heq]
              by_cases href : c.Referenced row.hash
              · have href' := (h.referenced_iff row.hash).mpr href
                simp [href, href', ih]
              · have href' : ¬ c'.Referenced row.hash := by rwa [h.referenced_iff]
                simp [href, href', ih]
  refine Catalog.ext h.schema h.damage ?_ h.sourceFiles
  change ((c'.blobs.filter fun row => c'.Referenced row.hash).map (·.setMark .null)) = _
  rw [hblobs]
  exact hkey c.blobs hf

/-! ## States that stay collectable -/

theorem decodeBlobRow_setMark (hsources : c'.sourceFiles = c.sourceFiles) {row : BlobRow}
    {b : CatalogBlob} (h : decodeBlobRow c row = some b) (mark : Option ℤ) :
    decodeBlobRow c' (row.setMark (.ofOption mark)) = some { b with markedAtMs := mark } := by
  obtain ⟨hhash, hsize, hcreated, -, href⟩ := decodeBlobRow_eq_some_iff.mp h
  refine decodeBlobRow_eq_some_iff.mpr ⟨hhash, hsize, hcreated, rfl, ?_⟩
  rw [href, decide_eq_decide]
  unfold Catalog.Referenced
  rw [hsources]

theorem Evolves.sound (h : Evolves c d c' d') (hc : c.Sound) : c'.Sound where
  damage := h.damage.trans hc.damage
  schema := h.schema ▸ hc.schema
  hashes := by
    obtain ⟨f, hblobs, hf⟩ := h.rows
    rw [hblobs]
    refine hc.hashes.sublist (sublist_map_filterMap f (·.hash) fun row hrow row' heq => ?_)
    have hev := hf row hrow
    rw [heq] at hev
    cases hev with
    | kept mark _ => rfl
  paths := h.sourceFiles ▸ hc.paths
  blobRow row' hrow' := by
    obtain ⟨row, hrow, mark, rfl, -⟩ := h.exists_row hrow'
    obtain ⟨b, hb⟩ := hc.blobRow row hrow
    exact ⟨_, decodeBlobRow_setMark h.sourceFiles hb mark⟩
  sourceRow s hs := by
    rw [h.sourceFiles] at hs
    have hsound := hc.sourceRow s hs
    obtain ⟨hash, n, hhash, hsize, row, hrow, hrowHash, hrowSize⟩ := hsound.blob
    have href : c.Referenced row.hash := by
      rw [hrowHash]
      exact Catalog.referenced_value.mpr ⟨s, hs, hhash⟩
    obtain ⟨mark, hkept⟩ := h.keeps hrow href
    exact { hsound with blob := ⟨hash, n, hhash, hsize, _, hkept, hrowHash, hrowSize⟩ }

/-- A valid blob was valid before, and is marked if it was marked and nothing refers to it. -/
theorem Evolves.exists_validBlob (h : Evolves c d c' d') (hc : c.Sound) {b' : CatalogBlob}
    (hb' : b' ∈ validBlobs c') : ∃ b ∈ validBlobs c, ∃ mark : Option ℤ,
      b' = { b with markedAtMs := mark } ∧
      (b.markedAtMs.isSome → b.referenced = false → mark.isSome) := by
  obtain ⟨row', hrow', hdecode'⟩ := (mem_validBlobs (h.sound hc).hashes).mp hb'
  obtain ⟨row, hrow, mark, rfl, hmark⟩ := h.exists_row hrow'
  obtain ⟨b, hb⟩ := hc.blobRow row hrow
  have heq := Option.some.inj (hdecode'.symm.trans (decodeBlobRow_setMark h.sourceFiles hb mark))
  refine ⟨b, (mem_validBlobs hc.hashes).mpr ⟨row, hrow, hb⟩, mark, heq, fun hsome href => ?_⟩
  obtain ⟨-, hnull, href'⟩ := matches_of_decodeBlobRow hb
  refine Option.isSome_iff_ne_none.mpr (hmark ?_ ?_)
  · intro hrowNull
    rw [hnull.mp hrowNull] at hsome
    cases hsome
  · intro hreferenced
    rw [href'.mp hreferenced] at href
    cases href

/-- Blob paths are in the CAS. -/
theorem blobsName_prefix_blobPath (hash : BlobHash) : [blobsName] <+: blobPath hash :=
  ⟨blobNames hash, rfl⟩

/-- An entry of the CAS was there before. -/
theorem Evolves.lookup_of_some (h : Evolves c d c' d') {q : List Name} {node : FileNode ℕ Bytes}
    (hq : [blobsName] <+: q) (hnode : d'.tree.lookup q = some node) :
    d.tree.lookup q = some node := by
  rcases h.lookup q hq with heq | ⟨hnone, -⟩
  · exact heq ▸ hnode
  · rw [hnone] at hnode
    cases hnode

theorem Evolves.collectable (h : Evolves c d c' d') (hc : Collectable digest d c) :
    Collectable digest d' c' := by
  have hsound := findings_inspectCatalogConnection_eq_nil_iff.mp hc.catalog
  have hsound' := h.sound hsound
  have hfile : ∀ hash inode, d'.tree.lookup (blobPath hash) = some (.file inode) →
      d.tree.lookup (blobPath hash) = some (.file inode) := fun hash inode =>
    h.lookup_of_some (blobsName_prefix_blobPath hash)
  have hdata : ∀ inode, d'.data inode = d.data inode := fun inode => by rw [h.files.1]
  refine ⟨⟨findings_inspectCatalogConnection_eq_nil_iff.mpr hsound', ?_, ?_, ?_, ?_, ?_⟩,
    ?_, ?_, ?_⟩
  · intro p node hp hnode
    exact hc.entries p node hp (h.lookup_of_some ⟨p, rfl⟩ hnode)
  · -- a file whose row is gone is gone
    intro hash inode hnode
    obtain ⟨b, hb, rfl⟩ := hc.known hash inode (hfile hash inode hnode)
    obtain ⟨row, hrow, hdecode⟩ := (mem_validBlobs hsound.hashes).mp hb
    have hrowHash := hash_of_decodeBlobRow hdecode
    by_contra hnone
    have hcleared := h.cleared b.hash ⟨row, hrow, hrowHash⟩ (by
      intro row' hrow' hhash
      obtain ⟨b', hb'⟩ := hsound'.blobRow row' hrow'
      refine hnone ⟨b', (mem_validBlobs hsound'.hashes).mpr ⟨row', hrow', hb'⟩, ?_⟩
      exact BlobHash.value_inj.mp ((hash_of_decodeBlobRow hb').symm.trans hhash))
    rw [hcleared] at hnode
    cases hnode
  · intro b' hb'
    obtain ⟨b, hb, mark, rfl, hmark⟩ := h.exists_validBlob hsound hb'
    rcases h.lookup (blobPath b.hash) (blobsName_prefix_blobPath b.hash) with
      heq | ⟨hnone, hash, hpath, hsweepable⟩
    · rcases hc.present b hb with ⟨inode, hnode⟩ | ⟨hnone, hsome, href⟩
      · exact .inl ⟨inode, heq.trans hnode⟩
      · exact .inr ⟨heq.trans hnone, hmark hsome href, href⟩
    · obtain rfl := blobPath_inj.mp hpath
      obtain ⟨row, hrow, hhash, hrowMark, href⟩ := hsweepable
      obtain ⟨row₀, hrow₀, hdecode⟩ := (mem_validBlobs hsound.hashes).mp hb
      obtain rfl := List.inj_on_of_nodup_map hsound.hashes hrow hrow₀
        (hhash.trans (hash_of_decodeBlobRow hdecode).symm)
      obtain ⟨-, hnull, href'⟩ := matches_of_decodeBlobRow hdecode
      have hreferenced : b.referenced = false := by
        rw [Bool.eq_false_iff]
        intro htrue
        exact href (hhash ▸ href'.mpr htrue)
      have hsome : b.markedAtMs.isSome := by
        rw [Option.isSome_iff_ne_none]
        exact fun h => hrowMark (hnull.mpr h)
      exact .inr ⟨hnone, hmark hsome hreferenced, hreferenced⟩
  · intro b' hb' inode hnode
    obtain ⟨b, hb, mark, rfl, -⟩ := h.exists_validBlob hsound hb'
    rw [hdata]
    exact hc.size b hb inode (hfile b.hash inode hnode)
  · intro b' hb' _ inode hnode
    rw [hdata]
    exact hc.named b'.hash inode (hfile b'.hash inode hnode)
  · rcases h.lookup [blobsName] List.prefix_rfl with heq | ⟨-, hash, hpath, -⟩
    · exact heq.trans hc.root
    · have hlength := congrArg List.length hpath
      simp [blobPath, blobNames] at hlength
  · intro hash inode hnode
    rw [hdata]
    exact hc.named hash inode (hfile hash inode hnode)
  · obtain ⟨f, hblobs, -⟩ := h.rows
    refine ⟨fun row' hrow' v hv => ?_, ?_⟩
    · obtain ⟨row, hrow, mark, rfl, -⟩ := h.exists_row hrow'
      exact hc.integers.sizes row hrow v hv
    · rw [hblobs]
      exact (List.length_filterMap_le _ _).trans_lt hc.integers.rows

end Evolves

/-! ## Sessions -/

theorem not_staging_of_blobsName {q : List Name} (hq : [blobsName] <+: q) :
    ¬ stagingPath <+: q := by
  obtain ⟨rest, rfl⟩ := hq
  rintro ⟨rest', heq⟩
  exact absurd (List.cons.inj heq).1 (by decide +kernel)

theorem Evolves.refl {c : Catalog} {d d' : Store} (hc : c.Sound)
    (hlookup : ∀ q, [blobsName] <+: q → d'.tree.lookup q = d.tree.lookup q ∨
      d'.tree.lookup q = none ∧ ∃ hash, q = blobPath hash ∧ c.Sweepable hash)
    (hfiles : d.SameFiles d') : Evolves c d c d' where
  schema := rfl
  damage := rfl
  sourceFiles := rfl
  rows := by
    refine ⟨some, (List.filterMap_some).symm, fun row hrow => ?_⟩
    obtain ⟨b, hb⟩ := hc.blobRow row hrow
    have hmark := (decodeBlobRow_eq_some_iff.mp hb).2.2.2.1
    have hself : RowEvolves c row (some (row.setMark (.ofOption b.markedAtMs))) :=
      .kept b.markedAtMs fun hne _ hnone => hne ((matches_of_decodeBlobRow hb).2.1.mpr hnone)
    rwa [BlobRow.setMark_self hmark] at hself
  cleared hash := fun ⟨row, hrow, hhash⟩ hnone => absurd hhash (hnone row hrow)
  lookup := hlookup
  files := hfiles

/-- Staging is not in the CAS. -/
theorem Evolves.outside {c c' : Catalog} {d d₁ d' : Store} (hd : SameOutsideStaging d d₁)
    (h : Evolves c d₁ c' d') : Evolves c d c' d' :=
  { h with
    lookup := fun q hq => by
      rw [← hd.lookup q (not_staging_of_blobsName hq)]
      exact h.lookup q hq
    files := hd.files.trans h.files }

section Sessions

variable {digest : Bytes → BlobHash} {readFails : ReadCall → Bool} {x : GcSession}
  {gone swept : List SweepCandidate} {d' : Store}

theorem map_filter_eq_filterMap {α β : Type} (p : α → Prop) [DecidablePred p] (f : α → β)
    (l : List α) : (l.filter fun a => ¬ p a).map f =
      l.filterMap fun a => if p a then none else some (f a) := by
  induction l with
  | nil => rfl
  | cons a l ih =>
      by_cases ha : p a
      · simpa [ha] using ih
      · simpa [ha] using ih

/-- What a session makes of a row when some candidates are swept. -/
def GcSession.rowAfter (x : GcSession) (swept : List SweepCandidate) (row : BlobRow) :
    Option BlobRow :=
  if ∃ h ∈ swept.map (·.blob.hash), row.hash = h.value then none
  else some (stagedRow x.now (x.preflight.plan.marks.map (·.hash))
    (x.preflight.plan.resurrections.map (·.hash)) row)

theorem GcSession.blobs_staged (x : GcSession) (swept : List SweepCandidate) :
    (x.staged (x.swept swept)).blobs = x.catalog.blobs.filterMap (x.rowAfter swept) :=
  map_filter_eq_filterMap _ _ _

/-- A row is about the blob it is decoded to. -/
theorem exists_hash_iff {c : Catalog} {l : List CatalogBlob} {b : CatalogBlob} {row : BlobRow}
    (hl : ∀ b' ∈ l, b' ∈ validBlobs c) (hb : b ∈ validBlobs c) (hrow : row.hash = b.hash.value) :
    (∃ h ∈ l.map (·.hash), row.hash = h.value) ↔ b ∈ l := by
  constructor
  · rintro ⟨h, hh, heq⟩
    obtain ⟨b', hb', rfl⟩ := List.mem_map.mp hh
    rw [hrow, BlobHash.value_inj] at heq
    rwa [eq_of_mem_validBlobs hb (hl b' hb') heq]
  · exact fun hmem => ⟨b.hash, List.mem_map_of_mem hmem, hrow⟩

/-- What the plan makes of the row of a blob that is not swept. -/
def plannedRow (now : ℤ) (kind : PlannedKind) (row : BlobRow) : BlobRow :=
  match kind with
  | .mark => row.setMark (.integer now)
  | .resurrect => row.setMark .null
  | .unchanged | .sweep => row

theorem GcSession.Valid.rowAfter_eq (hx : x.Valid digest readFails)
    (hswept : swept <+: x.preflight.sweepCandidates) {row : BlobRow} {b : CatalogBlob}
    (hb : b ∈ validBlobs x.catalog) (hrow : row.hash = b.hash.value) :
    x.rowAfter swept row =
      if b ∈ swept.map (·.blob) then none else some (plannedRow x.now b.planned row) := by
  have hmarks : (∃ h ∈ x.preflight.plan.marks.map (·.hash), row.hash = h.value) ↔
      b.planned = .mark := by
    rw [exists_hash_iff hx.marks.valid hb hrow, hx.plan_eq, List.mem_filter, mem_sortedBlobs,
      decide_eq_true_iff]
    exact and_iff_right hb
  have hresurrections : (∃ h ∈ x.preflight.plan.resurrections.map (·.hash),
      row.hash = h.value) ↔ b.planned = .resurrect := by
    rw [exists_hash_iff hx.resurrections.valid hb hrow, hx.plan_eq, List.mem_filter,
      mem_sortedBlobs, decide_eq_true_iff]
    exact and_iff_right hb
  have hsweeps : (∃ h ∈ swept.map (·.blob.hash), row.hash = h.value) ↔
      b ∈ swept.map (·.blob) := by
    rw [← exists_hash_iff (c := x.catalog) ?_ hb hrow, List.map_map]
    · rfl
    · intro b' hb'
      obtain ⟨candidate, hmem, rfl⟩ := List.mem_map.mp hb'
      exact hx.sweeps.valid _ (hx.blob_mem (hswept.subset hmem))
  unfold GcSession.rowAfter stagedRow plannedRow
  simp only [hmarks, hresurrections, hsweeps]
  cases b.planned <;> simp

/-- A swept blob is marked, and nothing refers to it. -/
theorem GcSession.Valid.planned_of_mem (hx : x.Valid digest readFails)
    (hswept : swept <+: x.preflight.sweepCandidates) {b : CatalogBlob}
    (hb : b ∈ swept.map (·.blob)) : b.planned = .sweep := by
  obtain ⟨candidate, hmem, rfl⟩ := List.mem_map.mp hb
  exact hx.sweeps.planned _ (hx.blob_mem (hswept.subset hmem))

theorem GcSession.Valid.rowEvolves (hx : x.Valid digest readFails)
    (hswept : swept <+: x.preflight.sweepCandidates) {row : BlobRow}
    (hrow : row ∈ x.catalog.blobs) : RowEvolves x.catalog row (x.rowAfter swept row) := by
  obtain ⟨b, hdecode⟩ := hx.clean.sound.blobRow row hrow
  have hb : b ∈ validBlobs x.catalog := (mem_validBlobs hx.hashes).mpr ⟨row, hrow, hdecode⟩
  have hmark := (decodeBlobRow_eq_some_iff.mp hdecode).2.2.2.1
  obtain ⟨-, hnull, href⟩ := matches_of_decodeBlobRow hdecode
  rw [hx.rowAfter_eq hswept hb (hash_of_decodeBlobRow hdecode)]
  have hsame : RowEvolves x.catalog row (some row) := by
    have hself : RowEvolves x.catalog row (some (row.setMark (.ofOption b.markedAtMs))) :=
      .kept b.markedAtMs fun hne _ hnone => hne (hnull.mpr hnone)
    rwa [BlobRow.setMark_self hmark] at hself
  by_cases hmem : b ∈ swept.map (·.blob)
  · obtain ⟨hreferenced, hmarked⟩ := planned_eq_sweep.mp (hx.planned_of_mem hswept hmem)
    rw [if_pos hmem]
    refine .gone (fun h => hmarked (hnull.mp h)) fun h => ?_
    rw [href.mp h] at hreferenced
    cases hreferenced
  · rw [if_neg hmem]
    cases hplanned : b.planned with
    | unchanged | sweep => exact hsame
    | mark => exact .kept (some x.now) (by simp)
    | resurrect =>
        refine .kept none fun _ hnot => ?_
        exact absurd (href.mpr (planned_eq_resurrect.mp hplanned).1) hnot

/-- The file of a candidate that was dealt with is gone. -/
theorem GcSession.Valid.lookup_of_gone (hx : x.Valid digest readFails)
    (hgone : gone <+: x.preflight.sweepCandidates) (hd : Unlinked (presentHashes gone) x.store d')
    {candidate : SweepCandidate} (hmem : candidate ∈ gone) :
    d'.tree.lookup (blobPath candidate.blob.hash) = none := by
  have hcandidate := hx.candidate (hgone.subset hmem)
  generalize hb : candidate.blob = b at hcandidate
  rw [hd.lookup]
  cases hcandidate with
  | present identity _ =>
      exact if_pos ⟨b.hash, List.mem_map.mpr ⟨_, List.mem_filter.mpr ⟨hmem, by simp⟩, rfl⟩, rfl⟩
  | absent _ hmissing =>
      split
      · rfl
      · unfold StoreReader.symlinkMetadata at hmissing
        split at hmissing
        · cases hmissing
        · exact Disk.lookup_of_symlinkMetadata_notFound hmissing

/-- Wherever a session is stopped. -/
theorem GcSession.Valid.evolves (hx : x.Valid digest readFails)
    (hgone : gone <+: x.preflight.sweepCandidates) (hd : Unlinked (presentHashes gone) x.store d')
    {c' : Catalog} (hc : c' = x.catalog ∨ ∃ swept, swept <+: gone ∧
      c' = x.staged (x.swept swept)) : Evolves x.catalog x.store c' d' := by
  have hlookup : ∀ q, [blobsName] <+: q → d'.tree.lookup q = x.store.tree.lookup q ∨
      d'.tree.lookup q = none ∧ ∃ hash, q = blobPath hash ∧ x.catalog.Sweepable hash := by
    intro q _
    rw [hd.lookup]
    by_cases hq : ∃ h ∈ presentHashes gone, q = blobPath h
    · obtain ⟨hash, hhash, rfl⟩ := hq
      rw [if_pos ⟨hash, hhash, rfl⟩]
      exact .inr ⟨rfl, hash, rfl, sweepable_of_mem_presentHashes hx hgone hhash⟩
    · rw [if_neg hq]
      exact .inl rfl
  rcases hc with rfl | ⟨swept, hswept, rfl⟩
  · exact .refl hx.clean.sound hlookup hd.files
  · have hswept' := hswept.trans hgone
    exact
      { schema := rfl
        damage := rfl
        sourceFiles := rfl
        rows := ⟨x.rowAfter swept, x.blobs_staged swept, fun row hrow =>
          hx.rowEvolves hswept' hrow⟩
        cleared := by
          rintro hash ⟨row, hrow, hhash⟩ hnone
          obtain ⟨b, hdecode⟩ := hx.clean.sound.blobRow row hrow
          have hb : b ∈ validBlobs x.catalog :=
            (mem_validBlobs hx.hashes).mpr ⟨row, hrow, hdecode⟩
          have hrowHash := hash_of_decodeBlobRow hdecode
          obtain rfl : b.hash = hash := BlobHash.value_inj.mp (hrowHash.symm.trans hhash)
          have hafter := hx.rowAfter_eq hswept' hb hrowHash
          by_cases hmem : b ∈ swept.map (·.blob)
          · obtain ⟨candidate, hcandidate, rfl⟩ := List.mem_map.mp hmem
            exact hx.lookup_of_gone hgone hd (hswept.subset hcandidate)
          · rw [if_neg hmem] at hafter
            refine absurd ?_ (hnone (plannedRow x.now b.planned row) ?_)
            · unfold plannedRow
              cases b.planned <;> exact hhash
            · rw [x.blobs_staged]
              exact List.mem_filterMap.mpr ⟨row, hrow, hafter⟩
        lookup := hlookup
        files := hd.files }

end Sessions

/-! ## Collections that are stopped -/

section Stopped

variable {digest : Bytes → BlobHash} {readFails : ReadCall → Bool} {c c' c'' : Catalog}
  {d d' d'' : Store} {w w' : GcWorld}

theorem GcSafe.evolves (hc : c.Sound) (h : GcSafe digest readFails c d w) :
    Evolves c d w.catalog w.store := by
  rcases h with ⟨hcatalog, hstore⟩ | ⟨x, hx, rfl, rfl, gone, hgone, hunlinked, hcatalog⟩
  · rw [hcatalog, hstore]
    exact .refl hc (fun _ _ => .inl rfl) (.refl d)
  · exact hx.evolves hgone hunlinked hcatalog

theorem CommandSafe.evolves [SqlArithmetic] {env : GcEnvironment} (hc : w.catalog.Sound)
    (h : CommandSafe digest env w w') : Evolves w.catalog w.store w'.catalog w'.store := by
  rcases h with ⟨hcatalog, hstore⟩ | ⟨hpurged, hsafe⟩
  · rw [hcatalog]
    exact .outside hstore (.refl hc (fun _ _ => .inl rfl) (.refl _))
  · exact .outside hpurged (hsafe.evolves hc)

/-- The blob has no row and no file. -/
structure Finalized (c : Catalog) (d : Store) (hash : BlobHash) : Prop where
  row : ∀ row ∈ c.blobs, row.hash ≠ hash.value
  file : d.tree.lookup (blobPath hash) = none

theorem Evolves.finalized (h : Evolves c d c' d') {hash : BlobHash} (hf : Finalized c d hash) :
    Finalized c' d' hash where
  row row' hrow' := by
    obtain ⟨row, hrow, mark, rfl, -⟩ := h.exists_row hrow'
    exact hf.row row hrow
  file := by
    rcases h.lookup _ (blobsName_prefix_blobPath hash) with heq | ⟨hnone, -⟩
    · exact heq.trans hf.file
    · exact hnone

/-- What was to be swept still is, or it is gone. -/
theorem Evolves.owed (h : Evolves c d c' d') (hc : c.Sound) {hash : BlobHash}
    (hs : c.Sweepable hash) : c'.Sweepable hash ∨ Finalized c' d' hash := by
  obtain ⟨row, hrow, hhash, hmarked, href⟩ := hs
  by_cases hrows : ∀ row' ∈ c'.blobs, row'.hash ≠ hash.value
  · exact .inr ⟨hrows, h.cleared hash ⟨row, hrow, hhash⟩ hrows⟩
  · push Not at hrows
    obtain ⟨row', hrow', hhash'⟩ := hrows
    obtain ⟨row₀, hrow₀, mark, rfl, hkeeps⟩ := h.exists_row hrow'
    obtain rfl := List.inj_on_of_nodup_map hc.hashes hrow hrow₀ (hhash.trans hhash'.symm)
    have hmark := hkeeps hmarked (hhash.symm ▸ href)
    refine .inl ⟨_, hrow', hhash', ?_, ?_⟩
    · cases mark with
      | none => exact absurd rfl hmark
      | some v => exact fun heq => nomatch heq
    · rwa [h.referenced_iff]

/-- The CAS has lost nothing but blobs. -/
structure CasWithin (d d' : Store) : Prop where
  lookup : ∀ q, [blobsName] <+: q → d'.tree.lookup q = d.tree.lookup q ∨
    d'.tree.lookup q = none ∧ ∃ hash, q = blobPath hash
  files : d.SameFiles d'

theorem CasWithin.refl (d : Store) : CasWithin d d := ⟨fun _ _ => .inl rfl, .refl d⟩

theorem CasWithin.trans (h : CasWithin d d') (h' : CasWithin d' d'') : CasWithin d d'' where
  lookup q hq := by
    rcases h'.lookup q hq with heq | hnone
    · rw [heq]
      exact h.lookup q hq
    · exact .inr hnone
  files := h.files.trans h'.files

theorem Evolves.casWithin (h : Evolves c d c' d') : CasWithin d d' where
  lookup q hq := by
    rcases h.lookup q hq with heq | ⟨hnone, hash, hpath, -⟩
    · exact .inl heq
    · exact .inr ⟨hnone, hash, hpath⟩
  files := h.files

/-- What any number of collections leaves. -/
structure Survives (digest : Bytes → BlobHash) (c : Catalog) (d : Store) (c' : Catalog)
    (d' : Store) : Prop where
  collectable : Collectable digest d' c'
  settled : c'.settled = c.settled
  cas : CasWithin d d'
  owed : ∀ hash, c.Sweepable hash → c'.Sweepable hash ∨ Finalized c' d' hash

theorem Collectable.sound (h : Collectable digest d c) : c.Sound :=
  findings_inspectCatalogConnection_eq_nil_iff.mp h.catalog

theorem Survives.refl (h : Collectable digest d c) : Survives digest c d c d :=
  ⟨h, rfl, .refl d, fun _ => .inl⟩

theorem Survives.step (h : Survives digest c d c' d') (he : Evolves c' d' c'' d'') :
    Survives digest c d c'' d'' where
  collectable := he.collectable h.collectable
  settled := he.settled_eq.trans h.settled
  cas := h.cas.trans he.casWithin
  owed hash hs := by
    rcases h.owed hash hs with hs' | hf
    · exact he.owed h.collectable.sound hs'
    · exact .inr (he.finalized hf)

end Stopped

/-! ## Collections in which nothing fails -/

/-- Every blob is referred to, and none is marked. -/
def Catalog.IsSettled (c : Catalog) : Prop :=
  ∀ row ∈ c.blobs, c.Referenced row.hash ∧ row.deletedAtMs = .null

theorem Catalog.IsSettled.settled_eq {c : Catalog} (h : c.IsSettled) : c.settled = c := by
  have hfilter : (c.blobs.filter fun row => c.Referenced row.hash) = c.blobs :=
    List.filter_eq_self.mpr fun row hrow => decide_eq_true (h row hrow).1
  have hmap : c.blobs.map (·.setMark .null) = c.blobs := by
    refine (List.map_congr_left fun row hrow => ?_).trans (List.map_id _)
    exact BlobRow.setMark_self (h row hrow).2
  refine Catalog.ext rfl rfl ?_ rfl
  change (c.blobs.filter fun row => c.Referenced row.hash).map (·.setMark .null) = c.blobs
  rw [hfilter, hmap]

/-- What a collection leaves in which nothing fails. -/
structure Collected (c : Catalog) (d : Store) (report : GcReport) (c' : Catalog) (d' : Store) :
    Prop where
  evolves : Evolves c d c' d'
  finalized : ∀ hash, c.Sweepable hash → Finalized c' d' hash
  rows : ∀ row ∈ c'.blobs, c.Referenced row.hash ∧ row.deletedAtMs = .null ∨
    ¬ c.Referenced row.hash ∧ row.deletedAtMs ≠ .null
  idle : report.actions = [] ↔ c.IsSettled

section Collected

variable {digest : Bytes → BlobHash} {readFails : ReadCall → Bool} {c c' c'' : Catalog}
  {d d' d'' : Store} {report report' : GcReport} {x : GcSession}

theorem planned_eq_unchanged {b : CatalogBlob} :
    b.planned = .unchanged ↔ b.referenced = true ∧ b.markedAtMs = none := by
  unfold CatalogBlob.planned classify
  cases b.referenced <;> cases b.markedAtMs <;> simp

/-- Nothing is planned if and only if every blob is referred to and none is marked. -/
theorem GcSession.Valid.actions_planned (hx : x.Valid digest readFails) :
    x.planned.actions = [] ↔ x.catalog.IsSettled := by
  have hlist : ∀ kind : PlannedKind,
      (sortedBlobs (inspectCatalogConnection x.catalog)).filter (·.planned = kind) = [] ↔
        ∀ b ∈ validBlobs x.catalog, b.planned ≠ kind := by
    intro kind
    simp only [List.filter_eq_nil_iff, mem_sortedBlobs, decide_eq_true_iff]
    rfl
  have hactions : x.planned.actions = [] ↔ ∀ b ∈ validBlobs x.catalog, b.planned = .unchanged := by
    have hsweeps : x.preflight.sweepCandidates = [] ↔ x.preflight.plan.sweeps = [] := by
      rw [← hx.map_blob, List.map_eq_nil_iff]
    unfold GcSession.planned GcDone.actions
    simp only [List.append_eq_nil_iff, List.map_eq_nil_iff, hsweeps]
    rw [hx.plan_eq, hlist, hlist, hlist]
    constructor
    · rintro ⟨⟨hmark, hresurrect⟩, hsweep⟩ b hb
      cases hplanned : b.planned with
      | unchanged => rfl
      | mark => exact absurd hplanned (hmark b hb)
      | resurrect => exact absurd hplanned (hresurrect b hb)
      | sweep => exact absurd hplanned (hsweep b hb)
    · intro h
      exact ⟨⟨fun b hb => by simp [h b hb], fun b hb => by simp [h b hb]⟩,
        fun b hb => by simp [h b hb]⟩
  rw [hactions]
  constructor
  · intro h row hrow
    obtain ⟨b, hdecode⟩ := hx.clean.sound.blobRow row hrow
    obtain ⟨-, hnull, href⟩ := matches_of_decodeBlobRow hdecode
    obtain ⟨hreferenced, hmark⟩ := planned_eq_unchanged.mp
      (h b ((mem_validBlobs hx.hashes).mpr ⟨row, hrow, hdecode⟩))
    exact ⟨href.mpr hreferenced, hnull.mpr hmark⟩
  · intro h b hb
    obtain ⟨row, hrow, hdecode⟩ := (mem_validBlobs hx.hashes).mp hb
    obtain ⟨-, hnull, href⟩ := matches_of_decodeBlobRow hdecode
    exact planned_eq_unchanged.mpr ⟨href.mp (h row hrow).1, hnull.mp (h row hrow).2⟩

/-- A plan that is applied completely. -/
theorem Accounts.collected (hx : x.Valid digest readFails) {w' : GcWorld}
    (h : Accounts x x.planned report x.preflight.sweepCandidates w') :
    Collected x.catalog x.store report w'.catalog w'.store := by
  have hall : x.preflight.sweepCandidates <+: x.preflight.sweepCandidates := List.prefix_rfl
  have hevolves : Evolves x.catalog x.store w'.catalog w'.store :=
    hx.evolves hall h.store (.inr ⟨_, hall, h.catalog⟩)
  -- a row that is left is what the plan makes of a row that is not swept
  have hrow : ∀ row' ∈ w'.catalog.blobs, ∃ row ∈ x.catalog.blobs, ∃ b,
      decodeBlobRow x.catalog row = some b ∧ b.planned ≠ .sweep ∧
        row' = plannedRow x.now b.planned row := by
    intro row' hrow'
    have hblobs : w'.catalog.blobs = x.catalog.blobs.filterMap
        (x.rowAfter x.preflight.sweepCandidates) := by
      rw [h.catalog]
      exact x.blobs_staged _
    rw [hblobs] at hrow'
    obtain ⟨row, hrow, hafter⟩ := List.mem_filterMap.mp hrow'
    obtain ⟨b, hdecode⟩ := hx.clean.sound.blobRow row hrow
    have hb : b ∈ validBlobs x.catalog := (mem_validBlobs hx.hashes).mpr ⟨row, hrow, hdecode⟩
    have hswept : b ∈ x.preflight.sweepCandidates.map (·.blob) ↔ b.planned = .sweep := by
      rw [hx.map_blob, hx.plan_eq, List.mem_filter, mem_sortedBlobs, decide_eq_true_iff]
      exact and_iff_right hb
    rw [hx.rowAfter_eq hall hb (hash_of_decodeBlobRow hdecode)] at hafter
    by_cases hplanned : b.planned = .sweep
    · rw [if_pos (hswept.mpr hplanned)] at hafter
      cases hafter
    · rw [if_neg fun hmem => hplanned (hswept.mp hmem)] at hafter
      exact ⟨row, hrow, b, hdecode, hplanned, (Option.some.inj hafter).symm⟩
  refine ⟨hevolves, ?_, ?_, ?_⟩
  · rintro hash ⟨row, hmem, hhash, hmarked, href⟩
    have hgone : ∀ row' ∈ w'.catalog.blobs, row'.hash ≠ hash.value := by
      intro row' hrow' hhash'
      obtain ⟨row₀, hrow₀, b, hdecode, hplanned, rfl⟩ := hrow row' hrow'
      have hsame : (plannedRow x.now b.planned row₀).hash = row₀.hash := by
        unfold plannedRow
        cases b.planned <;> rfl
      obtain rfl := List.inj_on_of_nodup_map hx.hashes hmem hrow₀
        (hhash.trans (hhash'.symm.trans hsame))
      obtain ⟨-, hnull, href'⟩ := matches_of_decodeBlobRow hdecode
      refine hplanned (planned_eq_sweep.mpr ⟨?_, fun hnone => hmarked (hnull.mpr hnone)⟩)
      rw [Bool.eq_false_iff]
      exact fun htrue => href (hhash ▸ href'.mpr htrue)
    exact ⟨hgone, hevolves.cleared hash ⟨row, hmem, hhash⟩ hgone⟩
  · intro row' hrow'
    obtain ⟨row, -, b, hdecode, hplanned, rfl⟩ := hrow row' hrow'
    obtain ⟨-, hnull, href⟩ := matches_of_decodeBlobRow hdecode
    cases hkind : b.planned with
    | sweep => exact absurd hkind hplanned
    | unchanged =>
        obtain ⟨hreferenced, hmark⟩ := planned_eq_unchanged.mp hkind
        exact .inl ⟨href.mpr hreferenced, hnull.mpr hmark⟩
    | resurrect => exact .inl ⟨href.mpr (planned_eq_resurrect.mp hkind).1, rfl⟩
    | mark =>
        refine .inr ⟨fun hreferenced => ?_, fun heq => nomatch heq⟩
        have hnot := (planned_eq_mark.mp hkind).1
        rw [href.mp hreferenced] at hnot
        cases hnot
  · rw [h.reported.actions]
    exact hx.actions_planned

end Collected

/-! ## Runs -/

/-- A later world. The catalog has been opened again, so a transaction that was open is lost. -/
structure Reopened (w w' : GcWorld) : Prop where
  store : w'.store = w.store
  catalog : w'.catalog = w.catalog
  transaction : w'.writer.connection.transaction = none

section Runs

variable [SqlArithmetic] {digest : Bytes → BlobHash} {w w' w₁ w₂ w₃ : GcWorld}

/-- A collection was started and has been stopped somewhere, by a failure or by a crash, after
which the catalog is opened again. -/
def StoppedCollection (digest : Bytes → BlobHash) (w w' : GcWorld) : Prop :=
  ∃ (env : GcEnvironment) (n : ℕ), Reopened
    (Program.after (gcHandler env) n (ExceptT.run (collectGarbage digest false)) w) w'

/-- A collection in which nothing fails has run to its end. -/
def CalmCollection (digest : Bytes → BlobHash) (w : GcWorld) (outcome : GcOutcome)
    (w' : GcWorld) : Prop :=
  ∃ (env : GcEnvironment) (v : GcWorld), env.Faultless ∧ (∀ call, env.readFails call = false) ∧
    Program.exec (gcHandler env) (collectGarbage digest false) w = (.ok outcome, v) ∧
    Reopened v w'

/-- What can keep a collection from returning where nothing fails. -/
inductive Hindered (env : GcEnvironment) (w : GcWorld) : Prop
  /-- The staging area cannot be emptied. -/
  | staging (e : String) (h : (Program.exec (gcHandler env) (onGcStore purgeExistingStaging)
      w.next).1 = .error e)
  /-- The catalog is not in WAL mode. -/
  | catalog (h : openExistingGcCatalog w.catalog ≠ .ok ())
  /-- The bytes of all blobs are too many for a number of 64 bits. -/
  | numbers (h : ¬ Fits w.catalog)

omit [SqlArithmetic] in
theorem Collectable.outside {c : Catalog} {d d' : Store} (hc : Collectable digest d c)
    (hd : SameOutsideStaging d d') : Collectable digest d' c :=
  (Evolves.outside hd (.refl hc.sound (fun _ _ => .inl rfl) (.refl d'))).collectable hc

/-- A collection in which nothing fails is not blocked, and it applies its whole plan. -/
theorem meets_collectGarbage_calm {env : GcEnvironment} (henv : env.Faultless)
    (hreads : ∀ call, env.readFails call = false) (hc : Collectable digest w.store w.catalog)
    (ht : w.writer.connection.transaction = none) :
    Meets (gcHandler env) (fun _ => True) (collectGarbage digest false) w
      (fun outcome w' => ∃ report, outcome = .complete report ∧
        Collected w.catalog w.store report w'.catalog w'.store)
      (fun _ _ => Hindered env w) := by
  have hquiet : ¬ ∃ n, env.telemetryFails n = true := by
    rintro ⟨n, hn⟩
    simp [henv.telemetry] at hn
  have hcheck : Meets (gcHandler env) (fun _ => True) checkGcTelemetry w
      (fun _ w' => w.SameState w') _ := meets_checkGcTelemetry_fails
  refine hcheck.exec_snd.bind ?_ fun _ _ h => absurd h.1.2 hquiet
  rintro _ w₁ - ⟨-, hw₁⟩
  rw [exec_checkGcTelemetry] at hw₁
  obtain rfl : w₁ = w.next := hw₁
  dsimp only
  rw [if_neg Bool.false_ne_true]
  have hpurge : Meets (gcHandler env) (fun _ => True) (onGcStore purgeExistingStaging) w.next
      (fun _ w' => Purging w.next w') _ := meets_purgeExistingStaging fun _ _ => trivial
  refine (Program.meets_exec _).bind ?_ fun e _ h => .staging e (congrArg Prod.fst h)
  intro _ w₂ _ hexec
  have hpurged := hpurge.ok hexec
  have hcatalog : w₂.catalog = w.catalog := congrArg (·.connection.committed) hpurged.writer
  have hcollectable : Collectable digest w₂.store w₂.catalog := by
    rw [hcatalog]
    exact hc.outside hpurged.store
  by_cases hopen : openExistingGcCatalog w₂.catalog = .ok ()
  · have hreal := meets_collectReal_calm digest henv hcollectable.integers hopen
      ((congrArg (·.connection.transaction) hpurged.writer).trans ht)
    refine hreal.bind ?_ ?_
    · rintro outcome w₃ - ⟨hend, -⟩
      have hcheck : ∀ v, Meets (gcHandler env) (fun _ => True) checkGcTelemetry v
          (fun _ w' => v.SameState w') _ := fun _ => meets_checkGcTelemetry_fails
      refine (hcheck _).bind ?_
        fun _ _ h => absurd h.2 hquiet
      rintro _ w₄ - ⟨hstore, hwriter⟩
      have hcatalog' : w₄.catalog = w₃.catalog := congrArg (·.connection.committed) hwriter
      refine Program.meets_pure trivial ?_
      cases hend with
      | blocked p hp findings _ _ _ =>
          exact absurd (hcollectable.findings hreads hcollectable.root hp) findings
      | applied x hp findings hx hxstore report heq accounts =>
          refine ⟨report, heq, ?_⟩
          have hvalid : x.Valid digest env.readFails := by
            refine ⟨⟨false, ?_⟩, findings⟩
            rw [hx, hxstore]
            exact hp
          have hcollected := accounts.collected hvalid
          rw [hx, hxstore, hcatalog] at hcollected
          rw [hcatalog', hstore]
          exact { hcollected with evolves := .outside hpurged.store hcollected.evolves }
    · intro e _ herror
      refine .numbers ?_
      rw [← hcatalog]
      exact not_fits_of_preflightOf_eq_error herror
  · -- the catalog cannot be opened
    have hanswer : (gcHandler env .openCatalog w₂).1 = openExistingGcCatalog w₂.catalog := by
      change orElseFails env.openFails _ = _
      rw [henv.opens]
      rfl
    refine Meets.bind (R := fun _ _ => False) (F := fun _ _ => Hindered env w) ?_
      (fun _ _ _ => False.elim) fun _ _ h => h
    refine Program.meets_requestT_bind trivial ?_
    rw [hanswer]
    cases hresult : openExistingGcCatalog w₂.catalog with
    | error e => exact Program.meets_throw trivial (.catalog (hcatalog ▸ hopen))
    | ok u => exact absurd hresult hopen

theorem CalmCollection.collected {outcome : GcOutcome} (h : CalmCollection digest w outcome w')
    (hc : Collectable digest w.store w.catalog) (ht : w.writer.connection.transaction = none) :
    ∃ report, outcome = .complete report ∧
      Collected w.catalog w.store report w'.catalog w'.store := by
  obtain ⟨env, v, henv, hreads, hexec, hopened⟩ := h
  rw [hopened.store, hopened.catalog]
  exact (meets_collectGarbage_calm henv hreads hc ht).ok hexec

theorem CalmCollection.transaction {outcome : GcOutcome}
    (h : CalmCollection digest w outcome w') : w'.writer.connection.transaction = none :=
  h.choose_spec.choose_spec.2.2.2.transaction

theorem StoppedCollection.evolves (h : StoppedCollection digest w w')
    (hc : w.catalog.Sound) (ht : w.writer.connection.transaction = none) :
    Evolves w.catalog w.store w'.catalog w'.store := by
  obtain ⟨env, n, hopened⟩ := h
  have hsafe := Program.after_of_throughout (gcHandler env) n
    (meets_collectGarbage env digest ht).throughout
  rw [hopened.store, hopened.catalog]
  exact hsafe.evolves hc

end Runs

/-! ## The CAS of a settled catalog -/

section Settled

variable {digest : Bytes → BlobHash} {c : Catalog} {d d₁ d₂ : Store}

end Settled

/-! ## Recovery, and two collections -/

section Recovery

variable [SqlArithmetic] {digest : Bytes → BlobHash} {w w₁ w₂ w₃ : GcWorld}

end Recovery

/-! ## A marked blob whose file is gone -/

section Example

variable [SqlArithmetic]

/-- A collection in which nothing fails, to its end. -/
def runCollection (w : GcWorld) : Except String GcOutcome × GcWorld :=
  Program.exec (gcHandler calmEnvironment) (collectGarbage (fun _ => emptyHash) false) w

/-- The world after it. -/
def GcWorld.collected (w : GcWorld) : GcWorld := (runCollection w).2

/-- It returns an outcome, and leaves no transaction. -/
def Returns (w : GcWorld) : Prop :=
  (runCollection w).1.isOk = true ∧
    (runCollection w).2.writer.connection.transaction.isNone = true

instance (w : GcWorld) : Decidable (Returns w) := inferInstanceAs (Decidable (_ ∧ _))

end Example

end MediaImporter
