import MediaImporter.Lib.UnixPath
import MediaImporter.Lib.Except

/-!
# Hashes, source paths and the names derived from them

A blob hash and a source-relative path are texts that were checked when they were
built, so the checks are fields here. A source-relative path is built in two ways: from
the path of a file below a source root, and from the text stored in the catalog. Paths
on disk are lists of names, relative to the directory they are used in or, for
canonical directories, to the root of the file system.

The quoted data in an error text of the source is left out of the text here.

## Main definitions

* `BlobHash`, `SourceRelativePath` — checked texts, with their constructors.
* `blobPath`, `outputRelativePath` — where a blob and its link live.
* `relativeSymlinkTarget`, `pointsInsideBlobs` — the target text of a link, and whether
  a link is one of the program's own.
-/

namespace MediaImporter

open Utf8 UnixPath

/-! ## Blob hashes -/

/-- A lowercase hexadecimal digit. -/
def isLowerHex (c : Char) : Prop := ('0' ≤ c ∧ c ≤ '9') ∨ ('a' ≤ c ∧ c ≤ 'f')

instance (c : Char) : Decidable (isLowerHex c) := inferInstanceAs (Decidable (_ ∨ _))

/-- 64 digits. Every byte of such a text is a character. -/
def IsHashText (value : Text) : Prop := value.length = 64 ∧ ∀ c ∈ value, isLowerHex c

instance (value : Text) : Decidable (IsHashText value) :=
  @instDecidableAnd _ _ _ (List.decidableBAll isLowerHex value)

/-- A BLAKE3 digest in lowercase hexadecimal. -/
@[ext] structure BlobHash where
  text : Text
  valid : IsHashText text
  deriving DecidableEq

namespace BlobHash

def new (value : Text) : Except String BlobHash :=
  if h : IsHashText value then .ok ⟨value, h⟩
  else .error "blob hash must be exactly 64 lowercase hex characters"

theorem text_injective : Function.Injective text := fun _ _ => BlobHash.ext

instance : LinearOrder BlobHash := LinearOrder.lift' text text_injective

theorem new_eq_ok_iff {value : Text} {h : BlobHash} : new value = .ok h ↔ h.text = value := by
  unfold new
  split
  · rename_i hv
    rw [Except.ok.injEq, BlobHash.ext_iff]
    exact eq_comm
  · rename_i hv
    refine iff_of_false (by simp) ?_
    rintro rfl
    exact hv h.valid

@[simp] theorem new_text (h : BlobHash) : new h.text = .ok h := new_eq_ok_iff.mpr rfl

end BlobHash

/-! ## Source-relative paths -/

/-- The parts of the text between slashes are names: none is empty, `.` or `..`. -/
def IsRelativeText (text : Text) : Prop :=
  ∀ part ∈ text.splitOn '/', part ≠ [] ∧ part ≠ ['.'] ∧ part ≠ ['.', '.']

instance (text : Text) : Decidable (IsRelativeText text) :=
  inferInstanceAs (Decidable (∀ part ∈ text.splitOn '/', _))

/-- A path below a source root, as the catalog stores it. -/
@[ext] structure SourceRelativePath where
  text : Text
  wellFormed : IsRelativeText text
  deriving DecidableEq

/-- The text of an operating-system name, where it is one. -/
def osStrToUtf8 (value : Name) (label : String) : Except String Text :=
  match ofUtf8 value with
  | some text => .ok text
  | none => .error (label ++ " contains non-UTF-8 path data")

theorem osStrToUtf8_eq_ok_iff {value : Name} {label : String} {text : Text} :
    osStrToUtf8 value label = .ok text ↔ value = utf8 text := by
  rw [← ofUtf8_eq_some_iff]
  unfold osStrToUtf8
  split
  · rename_i h; simp [h]
  · rename_i h; simp [h]

namespace SourceRelativePath

/-- The texts of the named components. A `.` is skipped; anything else is refused. -/
def relativeParts : List Component → Except String (List Text)
  | [] => .ok []
  | .normal value :: components => do
      let text ← osStrToUtf8 value "source relative path component"
      let parts ← relativeParts components
      return text :: parts
  | .curDir :: components => relativeParts components
  | .parentDir :: _ | .rootDir :: _ => .error "invalid source relative path component"

theorem relativeParts_normal_eq_ok_iff {value : Name} {components : List Component}
    {parts : List Text} : relativeParts (.normal value :: components) = .ok parts ↔
      ∃ text rest, parts = text :: rest ∧ value = utf8 text ∧
        relativeParts components = .ok rest := by
  rw [relativeParts]
  simp only [Except.bind_eq_ok, osStrToUtf8_eq_ok_iff, Except.pure_eq_ok, Except.ok.injEq]
  constructor
  · rintro ⟨text, hvalue, rest, hrest, rfl⟩
    exact ⟨text, rest, rfl, hvalue, hrest⟩
  · rintro ⟨text, rest, rfl, hvalue, hrest⟩
    exact ⟨text, hvalue, rest, hrest, rfl⟩

/-- The parts are the texts of the names, in order. -/
theorem relativeParts_ok {components : List Component} {parts : List Text}
    (h : relativeParts components = .ok parts) (text : Text) :
    text ∈ parts ↔ .normal (utf8 text) ∈ components := by
  induction components generalizing parts with
  | nil =>
      obtain rfl : parts = [] := by simpa [relativeParts, eq_comm] using h
      simp
  | cons c components ih =>
      cases c with
      | normal value =>
          obtain ⟨text', rest, rfl, rfl, hrest⟩ := relativeParts_normal_eq_ok_iff.mp h
          simp [ih hrest]
      | curDir => simp [ih h]
      | parentDir | rootDir => simp [relativeParts] at h

/-- Every named component has a text. -/
theorem exists_text_of_relativeParts {components : List Component} {parts : List Text}
    (h : relativeParts components = .ok parts) {name : Name} (hname : .normal name ∈ components) :
    ∃ text ∈ parts, name = utf8 text := by
  induction components generalizing parts with
  | nil => simp at hname
  | cons c components ih =>
      cases c with
      | normal value =>
          obtain ⟨text, rest, rfl, rfl, hrest⟩ := relativeParts_normal_eq_ok_iff.mp h
          rcases List.mem_cons.mp hname with heq | hname
          · exact ⟨text, by simp, Component.normal.inj heq⟩
          · obtain ⟨t, ht, rfl⟩ := ih hrest hname
            exact ⟨t, by simp [ht], rfl⟩
      | curDir => exact ih h (by simpa using hname)
      | parentDir | rootDir => simp [relativeParts] at h

/-- The text of a name has no slash and is not skipped when it is read back. -/
theorem part_of_isName {text : Text} (h : IsName (utf8 text)) :
    '/' ∉ text ∧ text ≠ [] ∧ text ≠ ['.'] ∧ text ≠ ['.', '.'] := by
  obtain ⟨⟨hne, hslash, hdot⟩, hdd⟩ := h
  refine ⟨?_, ?_, ?_, ?_⟩
  · rwa [← mem_utf8_iff '/' (by decide)]
  · rintro rfl; exact hne rfl
  · rintro rfl; exact hdot rfl
  · rintro rfl; exact hdd rfl

theorem splitOn_join {path : Bytes} {parts : List Text} (hne : parts ≠ [])
    (h : relativeParts (components path) = .ok parts) :
    (['/'].intercalate parts).splitOn '/' = parts :=
  List.splitOn_intercalate '/' (fun text ht =>
    (part_of_isName (isName_of_normal_mem ((relativeParts_ok h text).mp ht))).1) hne

theorem isRelativeText_join {path : Bytes} {parts : List Text} (hne : parts ≠ [])
    (h : relativeParts (components path) = .ok parts) :
    IsRelativeText (['/'].intercalate parts) := by
  intro part hpart
  rw [splitOn_join hne h] at hpart
  exact (part_of_isName (isName_of_normal_mem ((relativeParts_ok h part).mp hpart))).2

/-- The path of a file relative to its source root. -/
def fromPath (path : Bytes) : Except String SourceRelativePath :=
  if path = [] ∨ isAbsolute path then
    .error "source relative path must be non-empty and relative"
  else match h : relativeParts (components path) with
    | .error e => .error e
    | .ok parts =>
        if hne : parts = [] then .error "source relative path must not be empty"
        else .ok ⟨['/'].intercalate parts, isRelativeText_join hne h⟩

/-- The relative path a catalog row holds. -/
def fromCatalogText (value : Text) : Except String SourceRelativePath :=
  if h : value = [] ∨ value.head? = some '/' ∨ ['/', '/'] <+: value ∨ '\\' ∈ value ∨
      ∃ part ∈ value.splitOn '/', part = [] ∨ part = ['.'] ∨ part = ['.', '.'] then
    .error "invalid catalog relative path"
  else .ok ⟨value, by
    simp only [not_or, not_exists, not_and] at h
    intro part hpart
    exact h.2.2.2.2 part hpart⟩

theorem fromPath_eq_ok_iff {path : Bytes} {s : SourceRelativePath} : fromPath path = .ok s ↔
    path ≠ [] ∧ ¬ isAbsolute path ∧ ∃ parts, relativeParts (components path) = .ok parts ∧
      parts ≠ [] ∧ s.text = ['/'].intercalate parts := by
  unfold fromPath
  by_cases hp : path = [] ∨ isAbsolute path
  · rw [if_pos hp]
    refine iff_of_false (by simp) ?_
    rintro ⟨hne, habs, -⟩
    exact hp.elim hne habs
  · rw [if_neg hp]
    rw [not_or] at hp
    split
    · rename_i e he
      simp [he]
    · rename_i parts hparts
      by_cases hne : parts = []
      · subst hne
        simp [hparts]
      · rw [dif_neg hne, Except.ok.injEq, SourceRelativePath.ext_iff]
        constructor
        · intro h; exact ⟨hp.1, hp.2, parts, hparts, hne, h.symm⟩
        · rintro ⟨-, -, parts', hparts', -, h⟩
          obtain rfl : parts = parts' := Except.ok.inj (hparts.symm.trans hparts')
          exact h.symm

/-- A relative text has no leading slash. -/
theorem head?_of_isRelativeText {text : Text} (h : IsRelativeText text) :
    text ≠ [] ∧ text.head? ≠ some '/' ∧ ¬ ['/', '/'] <+: text := by
  have hhead : text.head? ≠ some '/' := by
    intro hhead
    obtain ⟨rest, rfl⟩ := List.head?_eq_some_iff.mp hhead
    exact (h [] (by simp [List.splitOn_cons_eq_if_modifyHead])).1 rfl
  refine ⟨?_, hhead, ?_⟩
  · rintro rfl; exact (h [] (by simp)).1 rfl
  · rintro ⟨rest, rfl⟩; simp at hhead

/-- The catalog reader accepts a relative text unless a backslash occurs in it. -/
theorem fromCatalogText_text (s : SourceRelativePath) :
    fromCatalogText s.text = .ok s ↔ '\\' ∉ s.text := by
  obtain ⟨hne, hhead, hpre⟩ := head?_of_isRelativeText s.wellFormed
  have hparts : ¬ ∃ part ∈ s.text.splitOn '/', part = [] ∨ part = ['.'] ∨ part = ['.', '.'] := by
    rintro ⟨part, hpart, h⟩
    obtain ⟨h1, h2, h3⟩ := s.wellFormed part hpart
    rcases h with h | h | h
    · exact h1 h
    · exact h2 h
    · exact h3 h
  unfold fromCatalogText
  by_cases hback : '\\' ∈ s.text
  · rw [dif_pos (by simp [hback])]
    simp [hback]
  · rw [dif_neg (by simp only [hne, hhead, hpre, hback, hparts, or_self, not_false_iff])]
    simp [hback]

theorem text_of_fromCatalogText {value : Text} {s : SourceRelativePath}
    (h : fromCatalogText value = .ok s) : s.text = value := by
  unfold fromCatalogText at h
  split at h
  · simp at h
  · exact congrArg text (Except.ok.inj h).symm

/-- A backslash occurs in the stored text exactly when its byte occurs in the path. -/
theorem backslash_mem_text_iff {path : Bytes} {s : SourceRelativePath}
    (h : fromPath path = .ok s) : '\\' ∈ s.text ↔ 92 ∈ path := by
  obtain ⟨-, -, parts, hparts, -, htext⟩ := fromPath_eq_ok_iff.mp h
  rw [htext, mem_intercalate_iff (by decide),
    mem_iff_mem_components (b := 92) (by decide) (by decide)]
  constructor
  · rintro ⟨text, ht, hb⟩
    exact ⟨utf8 text, (relativeParts_ok hparts text).mp ht,
      (mem_utf8_iff '\\' (by decide) text).mpr hb⟩
  · rintro ⟨name, hname, hb⟩
    obtain ⟨text, ht, rfl⟩ := exists_text_of_relativeParts hparts hname
    exact ⟨text, ht, (mem_utf8_iff '\\' (by decide) text).mp hb⟩

end SourceRelativePath

/-! ## Where blobs and links live -/

/-- The name of the CAS directory of a store. -/
def blobsName : Name := utf8 ['b', 'l', 'o', 'b', 's']

/-- The name of the private staging directory of a store. -/
def stagingName : Name := utf8 ['s', 't', 'a', 'g', 'i', 'n', 'g']

/-- The two shard directories of a blob and its file name. -/
def blobNames (hash : BlobHash) : List Name :=
  [utf8 (hash.text.take 2), utf8 ((hash.text.drop 2).take 2), utf8 hash.text]

/-- The path of a blob, relative to the store root. -/
def blobPath (hash : BlobHash) : List Name := blobsName :: blobNames hash

theorem blobPath_injective : Function.Injective blobPath := by
  intro h h' heq
  simp only [blobPath, blobNames, List.cons.injEq, utf8_inj] at heq
  exact BlobHash.text_injective heq.2.2.2.1

@[simp] theorem blobPath_inj {h h' : BlobHash} : blobPath h = blobPath h' ↔ h = h' :=
  blobPath_injective.eq_iff

/-- The text before and after the last separator. -/
def rsplitOnce (sep : Char) (text : Text) : Option (Text × Text) :=
  match text.reverse.dropWhile (· ≠ sep) with
  | [] => none
  | _ :: stem => some (stem.reverse, (text.reverse.takeWhile (· ≠ sep)).reverse)

/-- The file name with the first digits of the hash before its extension. -/
def suffixFilenameWithHash (filename : Text) (hash : BlobHash) (digits : ℕ) : Text :=
  match rsplitOnce '.' filename with
  | some (stem, extension) =>
      if stem ≠ [] then stem ++ '_' :: hash.text.take digits ++ '.' :: extension
      else filename ++ '_' :: hash.text.take digits
  | none => filename ++ '_' :: hash.text.take digits

/-- The names of the directories a source-relative path leads through. -/
def SourceRelativePath.parentNames (r : SourceRelativePath) : List Name :=
  (r.text.splitOn '/').dropLast.map utf8

/-- The last part of a source-relative path. -/
def SourceRelativePath.filename (r : SourceRelativePath) : Text :=
  (r.text.splitOn '/').getLast (List.splitOn_ne_nil '/' r.text)

/-- Where the link for a source file goes, relative to the browse tree. -/
def outputRelativePath (r : SourceRelativePath) (hash : BlobHash) (digits : ℕ) : List Name :=
  r.parentNames ++ [utf8 (suffixFilenameWithHash r.filename hash digits)]

@[simp] theorem dropLast_outputRelativePath (r : SourceRelativePath) (hash : BlobHash)
    (digits : ℕ) : (outputRelativePath r hash digits).dropLast = r.parentNames := by
  simp [outputRelativePath]

@[simp] theorem outputRelativePath_ne_nil (r : SourceRelativePath) (hash : BlobHash)
    (digits : ℕ) : outputRelativePath r hash digits ≠ [] := by
  simp [outputRelativePath]

/-! ## Link targets -/

/-- The names of an absolute path, which must all be text. -/
def pathComponentsWithoutRoot (path : List Name) : Except String (List Text) :=
  path.mapM fun name => osStrToUtf8 name "path component"

/-- The relative text that leads from a directory to a file, both given by the names of
their absolute paths. -/
def relativeSymlinkTarget (fromParent toFile : List Name) : Except String Bytes := do
  let source ← pathComponentsWithoutRoot fromParent
  let dest ← pathComponentsWithoutRoot toFile
  let common := ((source.zip dest).takeWhile fun p => p.1 = p.2).length
  let result := List.replicate (source.length - common) dotDot ++ (dest.drop common).map utf8
  return if result = [] then dot else render result

/-- One component of an absolute path that is being normalized: `..` removes the last
name, and nothing at the root. -/
def normalizeComponent (parts : List Text) : Component → Except String (List Text)
  | .rootDir | .curDir => .ok parts
  | .normal value => do
      let text ← osStrToUtf8 value "path component"
      return parts ++ [text]
  | .parentDir => .ok parts.dropLast

def lexicalNormalize (path : List Component) : Except String (List Text) :=
  path.foldlM normalizeComponent []

/-- Where a link text leads from the directory that holds the link, without looking at
the file system. -/
def normalizedSymlinkTarget (symlinkParent : List Name) (targetText : Bytes) :
    Except String (List Text) :=
  let start := if isAbsolute targetText then [] else symlinkParent
  lexicalNormalize (start.map .normal ++ components targetText)

/-- The link leads into the CAS directory with the given absolute path. -/
def pointsInsideBlobs (symlinkParent : List Name) (targetText : Bytes) (blobsDir : List Name) :
    Except String Bool := do
  let target ← normalizedSymlinkTarget symlinkParent targetText
  return decide (blobsDir <+: target.map utf8)

/-! ## Reading a link target back -/

theorem pathComponentsWithoutRoot_eq_ok_iff {path : List Name} {texts : List Text} :
    pathComponentsWithoutRoot path = .ok texts ↔ path = texts.map utf8 := by
  unfold pathComponentsWithoutRoot
  rw [Except.mapM_eq_ok_iff]
  simp only [osStrToUtf8_eq_ok_iff]
  rw [← List.forall₂_map_right_iff, List.forall₂_eq_eq_eq]

theorem normalize_names (parts names : List Text) :
    (names.map fun text => Component.normal (utf8 text)).foldlM normalizeComponent parts =
      .ok (parts ++ names) := by
  induction names generalizing parts with
  | nil => simp
  | cons text names ih =>
      have hstep : normalizeComponent parts (.normal (utf8 text)) = .ok (parts ++ [text]) := by
        have htext : osStrToUtf8 (utf8 text) "path component" = .ok text :=
          osStrToUtf8_eq_ok_iff.mpr rfl
        simp [normalizeComponent, htext]
      rw [List.map_cons, List.foldlM_cons, hstep, Except.ok_bind, ih]
      simp

theorem normalize_parents (parts : List Text) (n : ℕ) :
    (List.replicate n Component.parentDir).foldlM normalizeComponent parts =
      .ok (parts.take (parts.length - n)) := by
  induction n generalizing parts with
  | zero => simp
  | succ n ih =>
      rw [List.replicate_succ, List.foldlM_cons, normalizeComponent, Except.ok_bind, ih,
        List.length_dropLast, List.dropLast_eq_take, List.take_take]
      congr 2
      omega

/-- Two lists agree up to their first difference. -/
theorem take_common {α : Type} [DecidableEq α] (a b : List α) :
    a.take ((a.zip b).takeWhile fun p => p.1 = p.2).length =
      b.take ((a.zip b).takeWhile fun p => p.1 = p.2).length := by
  induction a generalizing b with
  | nil => simp
  | cons x a ih =>
      cases b with
      | nil => simp
      | cons y b =>
          rw [List.zip_cons_cons, List.takeWhile_cons]
          by_cases hxy : x = y
          · simpa [hxy] using ih b
          · simp [hxy]

/-- The relative text of a link leads back to the file it was made for. -/
theorem normalizedSymlinkTarget_relative {fromParent toFile : List Name} {text : Bytes}
    (hnames : ∀ n ∈ toFile, IsName n) (h : relativeSymlinkTarget fromParent toFile = .ok text) :
    ∃ dest, toFile = dest.map utf8 ∧ normalizedSymlinkTarget fromParent text = .ok dest := by
  simp only [relativeSymlinkTarget, Except.bind_eq_ok, Except.pure_eq_ok, Except.ok.injEq,
    pathComponentsWithoutRoot_eq_ok_iff] at h
  obtain ⟨source, rfl, dest, rfl, htext⟩ := h
  refine ⟨dest, rfl, ?_⟩
  set common := ((source.zip dest).takeWhile fun p => p.1 = p.2).length with hcommon
  have htake : source.take common = dest.take common := take_common source dest
  have hle : common ≤ source.length := by
    have hzip := (List.takeWhile_prefix (l := source.zip dest) fun p => p.1 = p.2).length_le
    rw [List.length_zip] at hzip
    omega
  set result := List.replicate (source.length - common) dotDot ++ (dest.drop common).map utf8
    with hresult
  have hdrop : ∀ n ∈ (dest.drop common).map utf8, IsName n := by
    intro n hn
    obtain ⟨part, hpart, rfl⟩ := List.mem_map.mp hn
    exact hnames _ (List.mem_map_of_mem (List.mem_of_mem_drop hpart))
  have hparts : ∀ n ∈ result, IsPart n := by
    intro n hn
    rcases List.mem_append.mp hn with hn | hn
    · obtain rfl := List.eq_of_mem_replicate hn
      exact ⟨by decide, by decide, by decide⟩
    · exact (hdrop n hn).1
  -- what is read back: one step up for each name that differs, then the names of the file
  have hread : ∀ parts, (components text).foldlM normalizeComponent parts =
      (List.replicate (source.length - common) Component.parentDir ++
        (dest.drop common).map fun part => Component.normal (utf8 part)).foldlM
          normalizeComponent parts := by
    intro parts
    by_cases hnil : result = []
    · rw [if_pos hnil] at htext
      obtain ⟨hup, hdown⟩ := List.append_eq_nil_iff.mp hnil
      have hup : source.length - common = 0 := by simpa using hup
      have hdown : dest.drop common = [] := by simpa using hdown
      rw [hup, hdown, ← htext]
      rfl
    · rw [if_neg hnil] at htext
      rw [← htext, components_render_parts hnil hparts, hresult, List.filterMap_append,
        filterMap_component? hdrop, List.map_map,
        List.filterMap_replicate_of_some (show component? dotDot = some .parentDir from rfl)]
      rfl
  have habs : ¬ isAbsolute text := by
    rw [← htext]
    split_ifs
    · decide
    · exact not_isAbsolute_render hparts
  unfold normalizedSymlinkTarget lexicalNormalize
  rw [if_neg habs, List.foldlM_append, List.map_map]
  change ((source.map fun part => Component.normal (utf8 part)).foldlM normalizeComponent [] >>=
    _) = _
  rw [normalize_names, Except.ok_bind, hread, List.foldlM_append, normalize_parents,
    Except.ok_bind, normalize_names, List.nil_append, Nat.sub_sub_self hle, htake,
    List.take_append_drop]

/-- Where a link leads depends on the components of its text alone. -/
theorem normalizedSymlinkTarget_congr {symlinkParent : List Name} {a b : Bytes}
    (h : components a = components b) :
    normalizedSymlinkTarget symlinkParent a = normalizedSymlinkTarget symlinkParent b := by
  have habs : isAbsolute a ↔ isAbsolute b := by
    rw [isAbsolute_iff_head_components, isAbsolute_iff_head_components, h]
  simp only [normalizedSymlinkTarget, habs, h]

end MediaImporter
