import MediaImporter.Materialize.Postcondition

/-!
# The names of outputs

An output keeps the directories of its source path and carries a part of the hash in its
file name. The last dot of the new name, if it is not its first character, is the one that
the suffix was put before, so the file name and the digits can be read back.

## Main definitions

* `Collide` — two entries with one output path, though their blobs differ.
-/

namespace MediaImporter

open Utf8 UnixPath

/-! ## The last separator -/

theorem rsplitOnce_append {sep : Char} {stem extension : Text} (h : sep ∉ extension) :
    rsplitOnce sep (stem ++ sep :: extension) = some (stem, extension) := by
  have hall : ∀ c ∈ extension.reverse, decide (c ≠ sep) = true := by
    intro c hc
    rw [decide_eq_true_eq]
    rintro rfl
    exact h (List.mem_reverse.1 hc)
  have hdrop : (stem ++ sep :: extension).reverse.dropWhile (· ≠ sep) = sep :: stem.reverse := by
    rw [List.reverse_append, List.reverse_cons, List.append_assoc,
      List.dropWhile_append_of_pos hall]
    simp
  have htake : (stem ++ sep :: extension).reverse.takeWhile (· ≠ sep) = extension.reverse := by
    rw [List.reverse_append, List.reverse_cons, List.append_assoc,
      List.takeWhile_append_of_pos hall]
    simp
  rw [rsplitOnce, hdrop, htake]
  simp

theorem rsplitOnce_of_not_mem {sep : Char} {text : Text} (h : sep ∉ text) :
    rsplitOnce sep text = none := by
  have hdrop : text.reverse.dropWhile (· ≠ sep) = [] := by
    rw [List.dropWhile_eq_nil_iff]
    intro c hc
    rw [decide_eq_true_eq]
    rintro rfl
    exact h (List.mem_reverse.1 hc)
  rw [rsplitOnce, hdrop]

/-- A text has no separator, or it has a last one. -/
theorem exists_last (sep : Char) (text : Text) :
    sep ∉ text ∨ ∃ stem extension, text = stem ++ sep :: extension ∧ sep ∉ extension := by
  induction text using List.reverseRecOn with
  | nil => exact .inl List.not_mem_nil
  | append_singleton text c ih =>
      by_cases hc : c = sep
      · subst hc
        exact .inr ⟨text, [], rfl, List.not_mem_nil⟩
      · rcases ih with hnone | ⟨stem, extension, rfl, hlast⟩
        · refine .inl fun hmem => ?_
          rcases List.mem_append.1 hmem with hmem | hmem
          · exact hnone hmem
          · exact hc (List.mem_singleton.1 hmem).symm
        · refine .inr ⟨stem, extension ++ [c], by simp, fun hmem => ?_⟩
          rcases List.mem_append.1 hmem with hmem | hmem
          · exact hlast hmem
          · exact hc (List.mem_singleton.1 hmem).symm

/-! ## Suffixed file names -/

/-- The two ways in which the digits are put into a file name. -/
theorem suffixFilenameWithHash_cases (filename : Text) (hash : BlobHash) (digits : ℕ) :
    (∃ stem extension, stem ≠ [] ∧ '.' ∉ extension ∧ filename = stem ++ '.' :: extension ∧
      suffixFilenameWithHash filename hash digits =
        (stem ++ '_' :: hash.text.take digits) ++ '.' :: extension) ∨
    ('.' ∉ filename.tail ∧
      suffixFilenameWithHash filename hash digits = filename ++ '_' :: hash.text.take digits) := by
  rcases exists_last '.' filename with hnone | ⟨stem, extension, rfl, hlast⟩
  · refine .inr ⟨fun h => hnone (List.mem_of_mem_tail h), ?_⟩
    rw [suffixFilenameWithHash, rsplitOnce_of_not_mem hnone]
  · rw [suffixFilenameWithHash, rsplitOnce_append hlast]
    by_cases hstem : stem = []
    · subst hstem
      exact .inr ⟨hlast, if_neg (not_not.2 rfl)⟩
    · exact .inl ⟨stem, extension, hstem, hlast, rfl, by simp [hstem]⟩

theorem not_mem_hash_of_not_isLowerHex {c : Char} (hc : ¬ isLowerHex c) (hash : BlobHash)
    (digits : ℕ) : c ∉ hash.text.take digits :=
  fun h => hc (hash.valid.2 c (List.mem_of_mem_take h))

/-- A file name and the digits can be read back from the suffixed name. -/
theorem suffixFilenameWithHash_inj {f f' : Text} {h h' : BlobHash} {digits : ℕ} :
    suffixFilenameWithHash f h digits = suffixFilenameWithHash f' h' digits ↔
      f = f' ∧ h.text.take digits = h'.text.take digits := by
  have hlen : ('_' :: h.text.take digits).length = ('_' :: h'.text.take digits).length := by
    simp only [List.length_cons, List.length_take, h.valid.1, h'.valid.1]
  have hdot (hash : BlobHash) : '.' ∉ '_' :: hash.text.take digits := by
    rw [List.mem_cons, not_or]
    exact ⟨by decide, not_mem_hash_of_not_isLowerHex (by decide) hash digits⟩
  -- a name with a dot behind its first character is none without
  have hmixed (stem extension name : Text) (hash hash' : BlobHash) (hstem : stem ≠ [])
      (hname : '.' ∉ name.tail) : (stem ++ '_' :: hash.text.take digits) ++ '.' :: extension ≠
        name ++ '_' :: hash'.text.take digits := by
    intro heq
    obtain ⟨c, stem, rfl⟩ := List.exists_cons_of_ne_nil hstem
    have htail := congrArg List.tail heq
    have hmem : '.' ∈ (name ++ '_' :: hash'.text.take digits).tail := by
      rw [← htail]
      simp
    cases name with
    | nil => exact not_mem_hash_of_not_isLowerHex (by decide) hash' digits hmem
    | cons d name =>
        rcases List.mem_append.1 hmem with hmem | hmem
        · exact hname hmem
        · exact hdot hash' hmem
  constructor
  · intro heq
    rcases suffixFilenameWithHash_cases f h digits with
        ⟨stem, extension, hstem, hlast, rfl, hf⟩ | ⟨htail, hf⟩ <;>
      rcases suffixFilenameWithHash_cases f' h' digits with
        ⟨stem', extension', hstem', hlast', rfl, hf'⟩ | ⟨htail', hf'⟩ <;>
      rw [hf, hf'] at heq
    · have hsplit := congrArg (rsplitOnce '.') heq
      rw [rsplitOnce_append hlast, rsplitOnce_append hlast', Option.some.injEq,
        Prod.mk.injEq] at hsplit
      obtain ⟨hstems, hdigits⟩ := List.append_inj' hsplit.1 hlen
      exact ⟨by rw [hstems, hsplit.2], List.cons.inj hdigits |>.2⟩
    · exact absurd heq (hmixed _ _ _ _ _ hstem htail')
    · exact absurd heq.symm (hmixed _ _ _ _ _ hstem' htail)
    · obtain ⟨hnames, hdigits⟩ := List.append_inj' heq hlen
      exact ⟨hnames, (List.cons.inj hdigits).2⟩
  · rintro ⟨rfl, hdigits⟩
    simp only [suffixFilenameWithHash, hdigits]

/-! ## Output paths -/

theorem text_eq_join (r : SourceRelativePath) :
    ['/'].intercalate (r.text.splitOn '/') = r.text := List.intercalate_splitOn '/'

theorem splitOn_eq_concat (r : SourceRelativePath) :
    r.text.splitOn '/' = (r.text.splitOn '/').dropLast ++ [r.filename] :=
  (List.dropLast_append_getLast _).symm

/-- An output path belongs to one source path and one beginning of a hash. -/
theorem outputRelativePath_inj {r r' : SourceRelativePath} {h h' : BlobHash} {digits : ℕ} :
    outputRelativePath r h digits = outputRelativePath r' h' digits ↔
      r = r' ∧ h.text.take digits = h'.text.take digits := by
  constructor
  · intro heq
    obtain ⟨hparents, hname⟩ := List.append_inj' heq rfl
    rw [List.singleton_inj, utf8_inj, suffixFilenameWithHash_inj] at hname
    refine ⟨SourceRelativePath.ext ?_, hname.2⟩
    have hdirs := List.map_injective_iff.2 utf8_injective hparents
    rw [← text_eq_join r, ← text_eq_join r', splitOn_eq_concat r, splitOn_eq_concat r', hdirs,
      hname.1]
  · rintro ⟨rfl, hdigits⟩
    rw [outputRelativePath, outputRelativePath, suffixFilenameWithHash_inj.2 ⟨rfl, hdigits⟩]

theorem underscore_mem_suffixFilenameWithHash (filename : Text) (hash : BlobHash) (digits : ℕ) :
    '_' ∈ suffixFilenameWithHash filename hash digits := by
  rcases suffixFilenameWithHash_cases filename hash digits with ⟨_, _, -, -, -, h⟩ | ⟨-, h⟩ <;>
    rw [h] <;> simp

theorem slash_not_mem_suffixFilenameWithHash {filename : Text} (hname : '/' ∉ filename)
    (hash : BlobHash) (digits : ℕ) : '/' ∉ suffixFilenameWithHash filename hash digits := by
  have hdigits := not_mem_hash_of_not_isLowerHex (c := '/') (by decide) hash digits
  rcases suffixFilenameWithHash_cases filename hash digits with
    ⟨stem, extension, -, -, rfl, h⟩ | ⟨-, h⟩
  · rw [h]
    simp only [List.mem_append, List.mem_cons, not_or] at hname ⊢
    exact ⟨⟨hname.1, by decide, hdigits⟩, by decide, hname.2.2⟩
  · rw [h]
    simp only [List.mem_append, List.mem_cons, not_or]
    exact ⟨hname, by decide, hdigits⟩

theorem isName_utf8 {text : Text} (hne : text ≠ []) (hslash : '/' ∉ text) (hdot : text ≠ ['.'])
    (hdd : text ≠ ['.', '.']) : IsName (utf8 text) := by
  refine ⟨⟨?_, ?_, ?_⟩, ?_⟩
  · rwa [ne_eq, utf8_eq_nil]
  · rwa [show slash = UInt8.ofNat ('/').val.toNat from rfl, mem_utf8_iff '/' (by decide)]
  · rw [ne_eq, show dot = utf8 ['.'] from rfl, utf8_inj]
    exact hdot
  · rw [ne_eq, show dotDot = utf8 ['.', '.'] from rfl, utf8_inj]
    exact hdd

/-- The parts of an output path are file names. -/
theorem isName_of_mem_outputRelativePath {r : SourceRelativePath} {h : BlobHash} {digits : ℕ}
    {n : Name} (hn : n ∈ outputRelativePath r h digits) : IsName n := by
  have hslash {part : Text} (hpart : part ∈ r.text.splitOn '/') : '/' ∉ part :=
    not_mem_of_mem_splitOn hpart
  rcases List.mem_append.1 hn with hn | hn
  · obtain ⟨part, hpart, rfl⟩ := List.mem_map.1 hn
    have hmem := List.mem_of_mem_dropLast hpart
    obtain ⟨hne, hdot, hdd⟩ := r.wellFormed part hmem
    exact isName_utf8 hne (hslash hmem) hdot hdd
  · rw [List.mem_singleton.1 hn]
    have hunder := underscore_mem_suffixFilenameWithHash r.filename h digits
    have havoid {skipped : Text} (hskipped : '_' ∉ skipped) :
        suffixFilenameWithHash r.filename h digits ≠ skipped :=
      fun heq => hskipped (heq ▸ hunder)
    exact isName_utf8 (havoid (by decide)) (slash_not_mem_suffixFilenameWithHash
      (hslash (List.getLast_mem _)) h digits) (havoid (by decide)) (havoid (by decide))

theorem length_outputRelativePath (r : SourceRelativePath) (h : BlobHash) (digits : ℕ) :
    (outputRelativePath r h digits).length = (r.text.splitOn '/').length := by
  rw [splitOn_eq_concat r]
  simp [outputRelativePath, SourceRelativePath.parentNames]

/-! ## Collisions -/

/-- Two entries have one output path, though their blobs differ. -/
def Collide (digits : ℕ) (e e' : LiveMaterializationEntry) : Prop :=
  e.relativePath = e'.relativePath ∧ e.blobHash.text.take digits = e'.blobHash.text.take digits ∧
    e.blobHash ≠ e'.blobHash

/-- What `build-tree` reports when two entries have one output path. -/
def hashSuffixCollision : String :=
  "hash-suffix collision; rerun with more hash digits, for example --hash-digits 12"

theorem not_collide_all (e e' : LiveMaterializationEntry) : ¬ Collide 64 e e' := by
  rintro ⟨-, hdigits, hne⟩
  rw [← e.blobHash.valid.1, List.take_length, e.blobHash.valid.1, ← e'.blobHash.valid.1,
    List.take_length] at hdigits
  exact hne (BlobHash.text_injective hdigits)

theorem output_eq_iff {config : BuildTreeConfig} {e e' : LiveMaterializationEntry} :
    e.output config = e'.output config ↔ e.relativePath = e'.relativePath ∧
      e.blobHash.text.take config.hashDigits = e'.blobHash.text.take config.hashDigits :=
  outputRelativePath_inj

/-! ### Rows of the query for live entries -/

/-- The query returns one row for a path and a hash. -/
theorem pairwise_selectLiveMaterializationEntries (c : Catalog) :
    (selectLiveMaterializationEntries c).Pairwise fun r r' =>
      ¬ (r.relativePath = r'.relativePath ∧ r.blobHash = r'.blobHash) := by
  unfold selectLiveMaterializationEntries
  rw [(List.perm_insertionSort _ _).pairwise_iff fun h h' => h ⟨h'.1.symm, h'.2.symm⟩]
  exact List.pairwise_pwFilter _

theorem values_of_decodeLiveRow {r : LiveRow} {e : LiveMaterializationEntry}
    (h : decodeLiveRow r = .ok e) :
    r.relativePath = .ofText e.relativePath.text ∧ r.blobHash = e.blobHash.value := by
  simp only [decodeLiveRow, Except.bind_eq_ok, required_eq_ok_iff, Value.toText_eq_some,
    Except.pure_eq_ok, Except.ok.injEq] at h
  obtain ⟨t, ht, t', ht', -, -, -, -, path, hpath, hash, hhash, rfl⟩ := h
  rw [SourceRelativePath.text_of_fromCatalogText hpath]
  rw [BlobHash.new_eq_ok_iff] at hhash
  exact ⟨ht, by rw [ht', BlobHash.value, hhash]⟩

/-- No two live entries are about one path and one hash. -/
theorem pairwise_liveMaterializationEntries {c : Catalog} {entries : List LiveMaterializationEntry}
    (h : liveMaterializationEntries c = .ok entries) : entries.Pairwise fun e e' =>
      ¬ (e.relativePath = e'.relativePath ∧ e.blobHash = e'.blobHash) := by
  rw [liveMaterializationEntries, Except.mapM_eq_ok_iff] at h
  have hrows := pairwise_selectLiveMaterializationEntries c
  generalize selectLiveMaterializationEntries c = rows at h hrows
  have hkeys : rows.map (fun r => (r.relativePath, r.blobHash)) =
      entries.map fun e => (Value.ofText e.relativePath.text, e.blobHash.value) := by
    clear hrows
    induction h with
    | nil => rfl
    | cons hdecoded hrest ih =>
        obtain ⟨hpath, hhash⟩ := values_of_decodeLiveRow hdecoded
        rw [List.map_cons, List.map_cons, ih, hpath, hhash]
  have hnodup : (rows.map fun r => (r.relativePath, r.blobHash)).Nodup := by
    rw [List.Nodup, List.pairwise_map]
    exact hrows.imp fun hne heq => hne (Prod.mk.inj heq)
  rw [hkeys, List.Nodup, List.pairwise_map] at hnodup
  refine hnodup.imp fun hne hsame => hne ?_
  rw [hsame.1, hsame.2]

/-! ### The loop over the entries -/

/-- The loop fails as one of the links does, or because two outputs are the same. -/
theorem foldlM_addDesired_eq_error {config : BuildTreeConfig} {store : Store}
    {entries : List LiveMaterializationEntry} {before : List DesiredLink} {error : String}
    (h : entries.foldlM (addDesired config store) before = .error error) :
    (∃ e ∈ entries, desiredLink config store e = .error error) ∨ error = hashSuffixCollision ∧
      ¬ (before.map (·.outputPath) ++ entries.map (·.output config)).Nodup := by
  induction entries generalizing before with
  | nil => cases h
  | cons entry entries ih =>
      rw [List.foldlM_cons, Except.bind_eq_error] at h
      rcases h with h | ⟨next, hnext, h⟩
      · rw [addDesired, Except.bind_eq_error] at h
        rcases h with h | ⟨link, hlink, h⟩
        · exact .inl ⟨entry, List.mem_cons_self, h⟩
        · rcases Except.bind_eq_error.1 h with h | ⟨-, -, h⟩
          · obtain ⟨hnot, rfl⟩ := Except.ensure_eq_error h
            push Not at hnot
            obtain ⟨existing, hexisting, hsame⟩ := hnot
            refine .inr ⟨rfl, fun hnodup => ?_⟩
            rw [List.nodup_append] at hnodup
            exact hnodup.2.2 _ (List.mem_map_of_mem hexisting) _ List.mem_cons_self
              (hsame.trans (outputPath_of_desiredLink hlink))
          · cases h
      · rcases ih h with ⟨e, he, hfails⟩ | ⟨herror, hdup⟩
        · exact .inl ⟨e, List.mem_cons_of_mem entry he, hfails⟩
        · refine .inr ⟨herror, fun hnodup => hdup ?_⟩
          simp only [addDesired, Except.bind_eq_ok, Except.pure_eq_ok, Except.ok.injEq] at hnext
          obtain ⟨link, hlink, -, -, rfl⟩ := hnext
          rw [List.map_append, List.map_cons, List.map_nil, outputPath_of_desiredLink hlink,
            List.append_assoc]
          exact hnodup

/-- Live entries have different outputs unless two of them collide. -/
theorem nodup_output_iff (config : BuildTreeConfig) {c : Catalog}
    {entries : List LiveMaterializationEntry} (h : liveMaterializationEntries c = .ok entries) :
    (entries.map (·.output config)).Nodup ↔
      ∀ e ∈ entries, ∀ e' ∈ entries, ¬ Collide config.hashDigits e e' := by
  have hdifferent := pairwise_liveMaterializationEntries h
  constructor
  · rintro hnodup e he e' he' ⟨hpath, hdigits, hne⟩
    have hsame := List.inj_on_of_nodup_map hnodup he he' (output_eq_iff.2 ⟨hpath, hdigits⟩)
    exact hne (congrArg _ hsame)
  · intro hnone
    rw [List.Nodup, List.pairwise_map]
    refine List.Pairwise.imp_of_mem ?_ hdifferent
    intro e e' he he' hne hout
    obtain ⟨hpath, hdigits⟩ := output_eq_iff.1 hout
    exact hnone e he e' he' ⟨hpath, hdigits, fun hhash => hne ⟨hpath, hhash⟩⟩

theorem desiredLink_ne_collision (config : BuildTreeConfig) (store : Store)
    (e : LiveMaterializationEntry) :
    desiredLink config store e ≠ .error hashSuffixCollision := by
  intro h
  have hpath (path : List Name) :
      pathComponentsWithoutRoot path ≠ .error hashSuffixCollision := by
    intro h
    obtain ⟨name, -, h⟩ := Except.exists_of_mapM_eq_error h
    unfold osStrToUtf8 at h
    split at h
    · cases h
    · exact absurd (Except.error.inj h) (by decide)
  rw [desiredLink, Except.bind_eq_error] at h
  rcases h with h | ⟨-, -, h⟩
  · unfold validateCasTarget at h
    split at h
    · exact absurd (Except.error.inj h) (by decide)
    · exact absurd (Except.ensure_eq_error h).2 (by decide)
    · exact absurd (Except.error.inj h) (by decide)
  · rcases Except.bind_eq_error.1 h with h | ⟨text, -, h⟩
    · rw [relativeSymlinkTarget, Except.bind_eq_error] at h
      rcases h with h | ⟨source, -, h⟩
      · exact hpath _ h
      · rcases Except.bind_eq_error.1 h with h | ⟨dest, -, h⟩
        · exact hpath _ h
        · cases h
    · cases h

/-- The loop reports a collision only of two entries that collide, and reports it of all that
have their links. -/
theorem desiredByOutput_collision {config : BuildTreeConfig} {store : Store} {c : Catalog}
    {entries : List LiveMaterializationEntry} (h : liveMaterializationEntries c = .ok entries) :
    (desiredByOutput config store entries = .error hashSuffixCollision →
      ∃ e ∈ entries, ∃ e' ∈ entries, Collide config.hashDigits e e') ∧
    ((∀ e ∈ entries, ∃ link, desiredLink config store e = .ok link) →
      (∃ e ∈ entries, ∃ e' ∈ entries, Collide config.hashDigits e e') →
      desiredByOutput config store entries = .error hashSuffixCollision) := by
  have hnodup := nodup_output_iff config h
  constructor
  · intro hcollision
    rw [desiredByOutput, Except.bind_eq_error] at hcollision
    rcases hcollision with hcollision | ⟨desired, -, hcollision⟩
    · rcases foldlM_addDesired_eq_error hcollision with ⟨e, -, hfails⟩ | ⟨-, hdup⟩
      · exact absurd hfails (desiredLink_ne_collision config store e)
      · by_contra hnone
        push Not at hnone
        exact hdup (hnodup.2 hnone)
    · cases hcollision
  · rintro hlinks ⟨e, he, e', he', hcollide⟩
    have hdup : ¬ (entries.map (·.output config)).Nodup :=
      fun hall => hnodup.1 hall e he e' he' hcollide
    rw [desiredByOutput]
    cases hfold : entries.foldlM (addDesired config store) [] with
    | ok desired =>
        obtain ⟨hout, hmap⟩ := foldlM_addDesired hfold List.nodup_nil
        rw [hmap] at hout
        exact absurd hout hdup
    | error error =>
        rcases foldlM_addDesired_eq_error hfold with ⟨e, he, hfails⟩ | ⟨rfl, -⟩
        · obtain ⟨link, hlink⟩ := hlinks e he
          rw [hlink] at hfails
          cases hfails
        · rfl

/-! ### The plan -/

theorem ne_collision_of_required {α : Type} {decoded : Option α} {e : String}
    (he : e ≠ hashSuffixCollision) : required decoded e ≠ .error hashSuffixCollision := by
  cases decoded with
  | some a => exact fun h => by cases h
  | none => exact fun h => he (Except.error.inj h)

theorem liveMaterializationEntries_ne_collision (c : Catalog) :
    liveMaterializationEntries c ≠ .error hashSuffixCollision := by
  intro h
  obtain ⟨r, -, h⟩ := Except.exists_of_mapM_eq_error h
  simp only [decodeLiveRow, Except.bind_eq_error] at h
  rcases h with h | ⟨_, -, h | ⟨_, -, h | ⟨_, -, h | ⟨_, -, h | ⟨_, -, h | ⟨_, -, h⟩⟩⟩⟩⟩⟩
  · exact ne_collision_of_required (by decide) h
  · exact ne_collision_of_required (by decide) h
  · exact ne_collision_of_required (by decide) h
  · exact absurd (Except.ensure_eq_error h).2 (by decide)
  · unfold SourceRelativePath.fromCatalogText at h
    split at h
    · exact absurd (Except.error.inj h) (by decide)
    · cases h
  · unfold BlobHash.new at h
    split at h
    · cases h
    · exact absurd (Except.error.inj h) (by decide)
  · cases h

theorem pointsInsideBlobs_ne_collision (parent : List Name) (text : Bytes) (blobsDir : List Name) :
    pointsInsideBlobs parent text blobsDir ≠ .error hashSuffixCollision := by
  intro h
  have hnormalize (path : List Component) (parts : List Text) :
      path.foldlM normalizeComponent parts ≠ .error hashSuffixCollision := by
    induction path generalizing parts with
    | nil => exact fun h => by cases h
    | cons component path ih =>
        intro h
        rw [List.foldlM_cons, Except.bind_eq_error] at h
        rcases h with h | ⟨next, -, h⟩
        · cases component with
          | rootDir | curDir | parentDir => cases h
          | normal value =>
              rw [normalizeComponent, Except.bind_eq_error] at h
              rcases h with h | ⟨text, -, h⟩
              · unfold osStrToUtf8 at h
                split at h
                · cases h
                · exact absurd (Except.error.inj h) (by decide)
              · cases h
        · exact ih next h
  rw [pointsInsideBlobs, Except.bind_eq_error] at h
  rcases h with h | ⟨target, -, h⟩
  · exact hnormalize _ _ h
  · cases h

theorem linkAction_ne_collision (config : BuildTreeConfig) (tree : BrowseTree)
    (link : DesiredLink) : linkAction config tree link ≠ .error hashSuffixCollision := by
  intro h
  unfold linkAction at h
  split at h
  · rw [Except.bind_eq_error] at h
    rcases h with h | ⟨inside, -, h⟩
    · exact pointsInsideBlobs_ne_collision _ _ _ h
    · rcases Except.bind_eq_error.1 h with h | ⟨checked, -, h⟩
      · exact absurd (Except.ensure_eq_error h).2 (by decide)
      · cases h
  · exact absurd (Except.error.inj h) (by decide)
  · cases h
  · exact absurd (Except.error.inj h) (by decide)

theorem directoriesToCreate_ne_collision (tree : BrowseTree) (desired : List DesiredLink) :
    directoriesToCreate tree desired ≠ .error hashSuffixCollision := by
  intro h
  rw [directoriesToCreate, Except.bind_eq_error] at h
  rcases h with h | ⟨missing, -, h⟩
  · obtain ⟨dir, -, h⟩ := Except.exists_of_filterOk_eq_error h
    unfold isMissingDirectory at h
    split at h <;> first | cases h | exact absurd (Except.error.inj h) (by decide)
  · cases h

theorem collectOwnedSymlinks_ne_collision (config : BuildTreeConfig) (tree : BrowseTree) :
    collectOwnedSymlinks config tree ≠ .error hashSuffixCollision := by
  intro h
  unfold collectOwnedSymlinks at h
  split_ifs at h
  obtain ⟨p, -, h⟩ := Except.exists_of_filterOk_eq_error h
  unfold isOwnedSymlink at h
  split at h
  · exact pointsInsideBlobs_ne_collision _ _ _ h
  · cases h

/-- A plan reports a collision when the loop over the entries does. -/
theorem plan_collision_iff {config : BuildTreeConfig} {c : Catalog} {store : Store}
    {tree : BrowseTree} : plan config c store tree = .error hashSuffixCollision ↔
      openForMaterialization c = .ok c ∧ ∃ entries, liveMaterializationEntries c = .ok entries ∧
        desiredByOutput config store entries = .error hashSuffixCollision := by
  constructor
  · intro h
    rw [plan, Except.bind_eq_error] at h
    rcases h with h | ⟨catalog, hopen, h⟩
    · unfold openForMaterialization at h
      split_ifs at h <;> exact absurd (Except.error.inj h) (by decide)
    · obtain rfl := openForMaterialization_ok hopen
      refine ⟨hopen, ?_⟩
      rcases Except.bind_eq_error.1 h with h | ⟨entries, hentries, h⟩
      · exact absurd h (liveMaterializationEntries_ne_collision _)
      · refine ⟨entries, hentries, ?_⟩
        rcases Except.bind_eq_error.1 h with h | ⟨desired, hdesired, h⟩
        · exact h
        · rcases Except.bind_eq_error.1 h with h | ⟨owned, -, h⟩
          · exact absurd h (collectOwnedSymlinks_ne_collision _ _)
          · rcases Except.bind_eq_error.1 h with h | ⟨actions, -, h⟩
            · obtain ⟨link, -, h⟩ := Except.exists_of_mapM_eq_error h
              exact absurd h (linkAction_ne_collision _ _ _)
            · rcases Except.bind_eq_error.1 h with h | ⟨toCreate, -, h⟩
              · exact absurd h (directoriesToCreate_ne_collision _ _)
              · cases h
  · rintro ⟨hopen, entries, hentries, hdesired⟩
    rw [plan, hopen, Except.ok_bind, hentries, Except.ok_bind, hdesired, Except.error_bind]

/-- **Outputs are named injectively.** An output path has the directories and the depth of
its source path and only proper file names; two of them are the same exactly for one source
path and hashes with the same first digits. A plan reports a collision only where two live
entries have one path, the same first digits and different hashes; it does so wherever the
links of the entries can be made; and with all 64 digits it never does. -/
theorem outputs_named_injectively (digits : ℕ) :
    (∀ (r : SourceRelativePath) (h : BlobHash),
      (outputRelativePath r h digits).dropLast = r.parentNames ∧
      (outputRelativePath r h digits).length = (r.text.splitOn '/').length ∧
      ∀ n ∈ outputRelativePath r h digits, IsName n) ∧
    (∀ (r r' : SourceRelativePath) (h h' : BlobHash),
      outputRelativePath r h digits = outputRelativePath r' h' digits ↔
        r = r' ∧ h.text.take digits = h'.text.take digits) ∧
    ∀ (config : BuildTreeConfig) (c : Catalog) (store : Store) (tree : BrowseTree),
      config.hashDigits = digits →
      (plan config c store tree = .error hashSuffixCollision →
        ∃ entries, liveMaterializationEntries c = .ok entries ∧
          ∃ e ∈ entries, ∃ e' ∈ entries, Collide digits e e') ∧
      (∀ entries, openForMaterialization c = .ok c → liveMaterializationEntries c = .ok entries →
        (∀ e ∈ entries, ∃ link, desiredLink config store e = .ok link) →
        (∃ e ∈ entries, ∃ e' ∈ entries, Collide digits e e') →
        plan config c store tree = .error hashSuffixCollision) ∧
      (digits = 64 → plan config c store tree ≠ .error hashSuffixCollision) := by
  refine ⟨fun r h => ⟨dropLast_outputRelativePath r h digits, length_outputRelativePath r h digits,
    fun n => isName_of_mem_outputRelativePath⟩, fun r r' h h' => outputRelativePath_inj, ?_⟩
  rintro config c store tree rfl
  have honly (h : plan config c store tree = .error hashSuffixCollision) :
      ∃ entries, liveMaterializationEntries c = .ok entries ∧
        ∃ e ∈ entries, ∃ e' ∈ entries, Collide config.hashDigits e e' := by
    obtain ⟨-, entries, hentries, hdesired⟩ := plan_collision_iff.1 h
    exact ⟨entries, hentries, (desiredByOutput_collision hentries).1 hdesired⟩
  refine ⟨honly, ?_, ?_⟩
  · intro entries hopen hentries hlinks hcollide
    exact plan_collision_iff.2 ⟨hopen, entries, hentries,
      (desiredByOutput_collision hentries).2 hlinks hcollide⟩
  · intro hall h
    obtain ⟨entries, -, e, -, e', -, hcollide⟩ := honly h
    rw [hall] at hcollide
    exact not_collide_all e e' hcollide

end MediaImporter
