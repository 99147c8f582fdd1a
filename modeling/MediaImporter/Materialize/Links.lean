import MediaImporter.Materialize.Postcondition

/-!
# The texts of links

A link below the browse tree holds the relative way from its directory to a blob. The way
goes up to the deepest directory that both paths share and down from there, and no relative
way is shorter, since each step changes the distance to the blob by at most one.

## Main definitions

* `relativeSteps` — the steps of a relative way.
* `common`, `distance` — how far the names of two absolute paths agree, and how many steps
  lead from one to the other.
-/

namespace MediaImporter

open Utf8 UnixPath

/-! ## Distances -/

section Distance

variable {α : Type} [DecidableEq α] {a b : List α} {x : α}

/-- For how many names two paths agree. -/
def common (a b : List α) : ℕ := ((a.zip b).takeWhile fun p => p.1 = p.2).length

/-- How many steps lead from one path to another. -/
def distance (a b : List α) : ℕ := (a.length - common a b) + (b.length - common a b)

theorem common_cons (y : α) :
    common (x :: a) (y :: b) = if x = y then common a b + 1 else 0 := by
  unfold common
  rw [List.zip_cons_cons, List.takeWhile_cons]
  by_cases h : x = y <;> simp [h]

@[simp] theorem common_nil_left : common [] b = 0 := rfl

@[simp] theorem common_nil_right : common a [] = 0 := by simp [common]

theorem common_le_left (a b : List α) : common a b ≤ a.length := by
  have h := (List.takeWhile_prefix (l := a.zip b) fun p => p.1 = p.2).length_le
  rw [List.length_zip] at h
  unfold common
  omega

theorem common_le_right (a b : List α) : common a b ≤ b.length := by
  have h := (List.takeWhile_prefix (l := a.zip b) fun p => p.1 = p.2).length_le
  rw [List.length_zip] at h
  unfold common
  omega

@[simp] theorem distance_self (a : List α) : distance a a = 0 := by
  have h : common a a = a.length := by
    induction a with
    | nil => rfl
    | cons x a ih => rw [common_cons, if_pos rfl, ih, List.length_cons]
  simp [distance, h]

theorem common_concat_le (a b : List α) (x : α) : common (a ++ [x]) b ≤ common a b + 1 := by
  induction a generalizing b with
  | nil =>
      have h := common_le_left [x] b
      simpa using h
  | cons y a ih =>
      cases b with
      | nil => simp
      | cons z b =>
          rw [List.cons_append, common_cons, common_cons]
          have h := ih b
          split_ifs <;> omega

theorem common_dropLast_le (a b : List α) : common a.dropLast b ≤ common a b := by
  induction a generalizing b with
  | nil => simp
  | cons y a ih =>
      cases b with
      | nil => simp
      | cons z b =>
          cases a with
          | nil => simp
          | cons w a =>
              rw [List.dropLast_cons_cons, common_cons, common_cons]
              have h := ih b
              split_ifs <;> omega

/-- One step down leads nearer by one at most. -/
theorem distance_le_concat (a b : List α) (x : α) : distance a b ≤ distance (a ++ [x]) b + 1 := by
  have h := common_concat_le a b x
  have hright := common_le_right a b
  have hleft := common_le_left a b
  have hright' := common_le_right (a ++ [x]) b
  have hleft' := common_le_left (a ++ [x]) b
  simp only [distance, List.length_append, List.length_cons, List.length_nil] at *
  omega

/-- One step up leads nearer by one at most. -/
theorem distance_le_dropLast (a b : List α) : distance a b ≤ distance a.dropLast b + 1 := by
  have h := common_dropLast_le a b
  have hright := common_le_right a b
  have hleft := common_le_left a b
  have hleft' := common_le_left a.dropLast b
  simp only [distance, List.length_dropLast] at *
  omega

end Distance

/-! ## Relative ways -/

/-- The steps of a path text, up and down. -/
def relativeSteps (text : Bytes) : List Component := (components text).filter (· ≠ .curDir)

/-- A way has at least as many steps as its ends are apart. -/
theorem distance_le_of_normalize {path : List Component} {parts dest : List Text}
    (h : path.foldlM normalizeComponent parts = .ok dest) :
    distance parts dest ≤ (path.filter (· ≠ .curDir)).length := by
  induction path generalizing parts with
  | nil =>
      cases h
      simp
  | cons component path ih =>
      rw [List.foldlM_cons, Except.bind_eq_ok] at h
      obtain ⟨next, hnext, hrest⟩ := h
      have hfar := ih hrest
      cases component with
      | curDir =>
          cases hnext
          rwa [List.filter_cons_of_neg (by simp)]
      | rootDir =>
          cases hnext
          rw [List.filter_cons_of_pos (by simp), List.length_cons]
          omega
      | parentDir =>
          cases hnext
          have hstep := distance_le_dropLast parts dest
          rw [List.filter_cons_of_pos (by simp), List.length_cons]
          omega
      | normal value =>
          simp only [normalizeComponent, Except.bind_eq_ok, Except.pure_eq_ok,
            Except.ok.injEq] at hnext
          obtain ⟨text, -, rfl⟩ := hnext
          have hstep := distance_le_concat parts dest text
          rw [List.filter_cons_of_pos (by simp), List.length_cons]
          omega

/-- The steps of the text for a link: up to the deepest common directory, then down. -/
theorem relativeSteps_of_relativeSymlinkTarget {source dest : List Text} {text : Bytes}
    (hnames : ∀ name ∈ dest, IsName (utf8 name))
    (h : relativeSymlinkTarget (source.map utf8) (dest.map utf8) = .ok text) :
    relativeSteps text = List.replicate (source.length - common source dest) .parentDir ++
      ((dest.drop (common source dest)).map utf8).map .normal := by
  have hsource : pathComponentsWithoutRoot (source.map utf8) = .ok source :=
    pathComponentsWithoutRoot_eq_ok_iff.2 rfl
  have hdest : pathComponentsWithoutRoot (dest.map utf8) = .ok dest :=
    pathComponentsWithoutRoot_eq_ok_iff.2 rfl
  simp only [relativeSymlinkTarget, hsource, hdest, Except.ok_bind, Except.pure_eq_ok,
    Except.ok.injEq] at h
  change (if List.replicate (source.length - common source dest) dotDot ++
    (dest.drop (common source dest)).map utf8 = [] then dot else render _) = text at h
  have hdrop : ∀ n ∈ (dest.drop (common source dest)).map utf8, IsName n := by
    intro n hn
    obtain ⟨name, hname, rfl⟩ := List.mem_map.1 hn
    exact hnames name (List.mem_of_mem_drop hname)
  split_ifs at h with hnil
  · -- the paths are the same, and the text is a single dot
    obtain ⟨hup, hdown⟩ := List.append_eq_nil_iff.1 hnil
    rw [List.replicate_eq_nil_iff] at hup
    subst h
    rw [hup, hdown]
    rfl
  · have hparts : ∀ n ∈ List.replicate (source.length - common source dest) dotDot ++
        (dest.drop (common source dest)).map utf8, IsPart n := by
      intro n hn
      rcases List.mem_append.1 hn with hn | hn
      · rw [List.eq_of_mem_replicate hn]
        exact ⟨by decide, by decide, by decide⟩
      · exact (hdrop n hn).1
    change render (List.replicate (source.length - common source dest) dotDot ++
      (dest.drop (common source dest)).map utf8) = text at h
    rw [← h, relativeSteps, components_render_parts hnil hparts, List.filterMap_append,
      filterMap_component? hdrop,
      List.filterMap_replicate_of_some (show component? dotDot = some .parentDir from rfl),
      List.filter_eq_self]
    intro component hmem
    rcases List.mem_append.1 hmem with hmem | hmem
    · rw [List.eq_of_mem_replicate hmem]
      rfl
    · obtain ⟨name, -, rfl⟩ := List.mem_map.1 hmem
      rfl

theorem exists_relativeSymlinkTarget (source dest : List Text) :
    ∃ text, relativeSymlinkTarget (source.map utf8) (dest.map utf8) = .ok text := by
  have hok (names : List Text) : pathComponentsWithoutRoot (names.map utf8) = .ok names :=
    pathComponentsWithoutRoot_eq_ok_iff.2 rfl
  exact ⟨_, by rw [relativeSymlinkTarget, hok source, hok dest]; rfl⟩

/-- A way that ends at a blob is inside the CAS. -/
theorem pointsInsideBlobs_of_normalized {parent storeRoot : List Name} {dest : List Text}
    {text : Bytes} {hash : BlobHash} (h : normalizedSymlinkTarget parent text = .ok dest)
    (hdest : dest.map utf8 = storeRoot ++ blobPath hash) :
    pointsInsideBlobs parent text (storeRoot ++ [blobsName]) = .ok true := by
  rw [pointsInsideBlobs, h, Except.ok_bind, hdest]
  have hprefix : storeRoot ++ [blobsName] <+: storeRoot ++ blobPath hash :=
    (List.prefix_append_right_inj storeRoot).2 ⟨blobNames hash, rfl⟩
  rw [decide_eq_true hprefix]
  rfl

/-- **The text of a link leads to its blob, on the shortest way.** For absolute paths given
by their names there is a relative text that leads from the first to the second; it goes up
before it goes down, and no relative text that leads there has fewer steps. Where the second
is the path of a blob, the text is one that leads into the CAS, and the text of a link that
`build-tree` plans in the first for the second is this one. -/
theorem relativeSymlinkTarget_round_trip (parent target : List Text)
    (htarget : ∀ name ∈ target, IsName (utf8 name)) :
    ∃ text, relativeSymlinkTarget (parent.map utf8) (target.map utf8) = .ok text ∧
      normalizedSymlinkTarget (parent.map utf8) text = .ok target ∧
      (∃ (up : ℕ) (down : List Name), relativeSteps text =
        List.replicate up .parentDir ++ down.map Component.normal) ∧
      (∀ other, normalizedSymlinkTarget (parent.map utf8) other = .ok target →
        ¬ isAbsolute other → (relativeSteps text).length ≤ (relativeSteps other).length) ∧
      (∀ storeRoot hash, target.map utf8 = storeRoot ++ blobPath hash →
        pointsInsideBlobs (parent.map utf8) text (storeRoot ++ [blobsName]) = .ok true) ∧
      ∀ config store entry link, desiredLink config store entry = .ok link →
        config.browseTreeRoot ++ link.outputPath.dropLast = parent.map utf8 →
        config.storeRoot ++ blobPath link.blobHash = target.map utf8 → link.targetText = text := by
  obtain ⟨text, htext⟩ := exists_relativeSymlinkTarget parent target
  have hsteps := relativeSteps_of_relativeSymlinkTarget htarget htext
  have hleads : normalizedSymlinkTarget (parent.map utf8) text = .ok target := by
    obtain ⟨dest, hdest, hnormal⟩ := normalizedSymlinkTarget_relative
      (List.forall_mem_map.2 htarget) htext
    rwa [List.map_injective_iff.2 utf8_injective hdest]
  refine ⟨text, htext, hleads, ⟨_, _, hsteps⟩, ?_, ?_, ?_⟩
  · intro other hother hrelative
    have hread : (components other).foldlM normalizeComponent parent = .ok target := by
      rw [normalizedSymlinkTarget, if_neg hrelative, lexicalNormalize, List.foldlM_append,
        List.map_map] at hother
      have hstart := normalize_names [] parent
      rw [show (List.map (Component.normal ∘ utf8) parent).foldlM normalizeComponent [] =
        .ok parent from hstart, Except.ok_bind] at hother
      exact hother
    have hfar := distance_le_of_normalize hread
    rw [hsteps, List.length_append, List.length_replicate, List.length_map, List.length_map,
      List.length_drop]
    exact hfar
  · intro storeRoot hash hblob
    exact pointsInsideBlobs_of_normalized hleads hblob
  · intro config store entry link hlink hparent hblob
    simp only [desiredLink, Except.bind_eq_ok, Except.pure_eq_ok, Except.ok.injEq] at hlink
    obtain ⟨-, -, targetText, htargetText, rfl⟩ := hlink
    rw [hparent, hblob, htext] at htargetText
    exact (Except.ok.inj htargetText).symm

/-- A link at the root of a browse tree beside the store. -/
theorem relativeSymlinkTarget_round_trip_sibling :
    ∃ text, relativeSymlinkTarget [utf8 "tree".toList] [utf8 "store".toList, utf8 "b".toList] =
      .ok text ∧ normalizedSymlinkTarget [utf8 "tree".toList] text =
        .ok ["store".toList, "b".toList] := by
  obtain ⟨text, htext, hleads, -⟩ := relativeSymlinkTarget_round_trip ["tree".toList]
    ["store".toList, "b".toList] (by
      intro name hname
      simp only [List.mem_cons, List.not_mem_nil, or_false] at hname
      rcases hname with rfl | rfl <;> exact ⟨⟨by decide, by decide, by decide⟩, by decide⟩)
  exact ⟨text, htext, hleads⟩

end MediaImporter
