import MediaImporter.Lib.Utf8

/-!
# Path texts and their components

A path text is a byte string; the names in it are separated by slashes. `components`
reads a text the way a standard library iterates over a path: repeated slashes and inner
`.` names vanish, a leading slash is the root, and `..` is kept. `render` is the relative
text with the given names, and reading it back gives the names again.

## Main definitions

* `Component`, `components`, `isAbsolute` — reading a path text.
* `render` — the relative text of a list of names.
* `components_render_parts`, `components_render` — reading back a rendered text.
* `mem_of_components` — which bytes a text and its names share.
-/

namespace UnixPath

open Utf8

/-- A file name, as stored in a directory. -/
abbrev Name := Bytes

instance nameLawfulBEq : LawfulBEq Name := inferInstance

/-- Membership in a list of paths is decided name by name. -/
instance pathLawfulBEq : LawfulBEq (List Name) := inferInstance

/-- The separator, `/`. -/
def slash : UInt8 := 47

/-- The name `.`. -/
def dot : Name := [46]

/-- The name `..`. -/
def dotDot : Name := [46, 46]

/-- One step of a path. -/
inductive Component
  | rootDir
  | curDir
  | parentDir
  | normal (name : Name)
  deriving DecidableEq, Repr

/-- The component that a text between two separators stands for, unless it is skipped. -/
def component? (n : Name) : Option Component :=
  if n = [] ∨ n = dot then none else if n = dotDot then some .parentDir else some (.normal n)

/-- The path text starts at the root. -/
def isAbsolute (path : Bytes) : Prop := path.head? = some slash

instance (path : Bytes) : Decidable (isAbsolute path) := inferInstanceAs (Decidable (_ = _))

/-- The components of a path text. A `.` is kept only at the start of a relative text. -/
def components (path : Bytes) : List Component :=
  let names := path.splitOn slash
  if isAbsolute path then .rootDir :: names.filterMap component?
  else if names.head? = some dot then .curDir :: names.tail.filterMap component?
  else names.filterMap component?

/-- The relative path text with the given names. -/
def render (names : List Name) : Bytes := [slash].intercalate names

/-- A text that can stand between two separators and is not skipped. -/
def IsPart (n : Name) : Prop := n ≠ [] ∧ slash ∉ n ∧ n ≠ dot

/-- A file name proper: a part that is not `..`. -/
def IsName (n : Name) : Prop := IsPart n ∧ n ≠ dotDot

theorem component?_of_isName {n : Name} (h : IsName n) : component? n = some (.normal n) := by
  obtain ⟨⟨hne, -, hdot⟩, hdd⟩ := h
  simp [component?, hne, hdot, hdd]

theorem component?_eq_normal {n m : Name} :
    component? n = some (.normal m) ↔ m = n ∧ n ≠ [] ∧ n ≠ dot ∧ n ≠ dotDot := by
  unfold component?
  split
  · rename_i h
    refine iff_of_false (by simp) ?_
    rintro ⟨-, hne, hdot, -⟩
    exact h.elim hne hdot
  · rename_i h
    rw [not_or] at h
    split
    · rename_i hdd; simp [hdd]
    · rename_i hdd
      simp only [Option.some.injEq, Component.normal.injEq]
      constructor
      · rintro rfl; exact ⟨rfl, h.1, h.2, hdd⟩
      · rintro ⟨rfl, -⟩; rfl

/-! ## Splitting at a separator -/

section Split

variable {α : Type} {a b : α}

theorem not_mem_of_mem_splitOn [DecidableEq α] {l n : List α} (h : n ∈ l.splitOn a) : a ∉ n := by
  induction l generalizing n with
  | nil =>
      obtain rfl : n = [] := by simpa using h
      simp
  | cons x l ih =>
      rw [List.splitOn_cons_eq_if_modifyHead] at h
      split at h
      · rcases List.mem_cons.mp h with rfl | h
        · simp
        · exact ih h
      · rename_i hx
        cases hl : l.splitOn a with
        | nil => exact absurd hl (List.splitOn_ne_nil a l)
        | cons m ms =>
            rw [hl, List.modifyHead_cons] at h
            rcases List.mem_cons.mp h with rfl | h
            · rw [List.mem_cons, not_or]
              exact ⟨fun hax => hx (by simp [hax]), ih (by simp [hl])⟩
            · exact ih (by simp [hl, h])

theorem mem_intercalate_iff (hb : b ≠ a) (ls : List (List α)) :
    b ∈ [a].intercalate ls ↔ ∃ l ∈ ls, b ∈ l := by
  induction ls with
  | nil => simp
  | cons l ls ih =>
      cases ls with
      | nil => simp
      | cons m ms =>
          rw [List.intercalate_cons_cons, List.mem_append, List.mem_append, ih,
            List.mem_singleton, or_iff_left hb]
          simp only [List.exists_mem_cons_iff]

theorem mem_iff_mem_splitOn [DecidableEq α] (hb : b ≠ a) (l : List α) :
    b ∈ l ↔ ∃ n ∈ l.splitOn a, b ∈ n := by
  rw [← mem_intercalate_iff hb, List.intercalate_splitOn]

end Split

/-! ## Reading a text -/

/-- The names between the separators from which the components of a text are read. -/
theorem components_eq (path : Bytes) : ∃ start names, components path = start ++
    names.filterMap component? ∧ (∀ n ∈ path.splitOn slash, n ∈ names ∨ n = dot) ∧
    names ⊆ path.splitOn slash ∧ ∀ n, .normal n ∉ start := by
  unfold components
  simp only
  split
  · exact ⟨[.rootDir], _, rfl, fun n hn => .inl hn, List.Subset.refl _, by simp⟩
  · split
    · rename_i hdot
      refine ⟨[.curDir], _, rfl, ?_, fun n hn => List.mem_of_mem_tail hn, by simp⟩
      intro n hn
      cases hs : path.splitOn slash with
      | nil => exact absurd hs (List.splitOn_ne_nil slash path)
      | cons m ms =>
          rw [hs, List.head?_cons] at hdot
          rw [hs] at hn
          rcases List.mem_cons.mp hn with rfl | hn
          · exact .inr (Option.some.inj hdot)
          · exact .inl hn
    · exact ⟨[], _, rfl, fun n hn => .inl hn, List.Subset.refl _, by simp⟩

theorem normal_mem_components {path : Bytes} {n : Name} : .normal n ∈ components path ↔
    n ∈ path.splitOn slash ∧ n ≠ [] ∧ n ≠ dot ∧ n ≠ dotDot := by
  obtain ⟨start, names, heq, hall, hsub, hstart⟩ := components_eq path
  have hmem : .normal n ∈ components path ↔ .normal n ∈ names.filterMap component? := by
    rw [heq, List.mem_append]
    exact or_iff_right (hstart n)
  rw [hmem, List.mem_filterMap]
  constructor
  · rintro ⟨m, hm, hc⟩
    obtain ⟨rfl, h⟩ := component?_eq_normal.mp hc
    exact ⟨hsub hm, h⟩
  · rintro ⟨hn, hne, hdot, hdd⟩
    exact ⟨n, (hall n hn).resolve_right hdot, component?_eq_normal.mpr ⟨rfl, hne, hdot, hdd⟩⟩

/-- Every named component is a name. -/
theorem isName_of_normal_mem {path : Bytes} {n : Name} (h : .normal n ∈ components path) :
    IsName n := by
  obtain ⟨hn, hne, hdot, hdd⟩ := normal_mem_components.mp h
  exact ⟨⟨hne, not_mem_of_mem_splitOn hn, hdot⟩, hdd⟩

/-- A byte other than `/` and `.` occurs in a text exactly when it occurs in a name of it. -/
theorem mem_iff_mem_components {path : Bytes} {b : UInt8} (hslash : b ≠ slash)
    (hdot : b ∉ dot) : b ∈ path ↔ ∃ n, .normal n ∈ components path ∧ b ∈ n := by
  rw [mem_iff_mem_splitOn hslash]
  simp only [normal_mem_components]
  constructor
  · rintro ⟨n, hn, hb⟩
    refine ⟨n, ⟨hn, ?_, ?_, ?_⟩, hb⟩
    · rintro rfl; simp at hb
    · rintro rfl; exact hdot hb
    · rintro rfl; simp [dotDot, dot] at hb hdot; exact hdot hb
  · rintro ⟨n, ⟨hn, -⟩, hb⟩
    exact ⟨n, hn, hb⟩

theorem filterMap_component? {names : List Name} (h : ∀ n ∈ names, IsName n) :
    names.filterMap component? = names.map .normal := by
  induction names with
  | nil => rfl
  | cons n names ih =>
      rw [List.filterMap_cons_some (component?_of_isName (h n (by simp))), List.map_cons,
        ih fun m hm => h m (by simp [hm])]

theorem splitOn_slash_render {names : List Name} (hne : names ≠ []) (h : ∀ n ∈ names, IsPart n) :
    (render names).splitOn slash = names :=
  List.splitOn_intercalate slash (fun n hn => (h n hn).2.1) hne

theorem not_isAbsolute_render {names : List Name} (h : ∀ n ∈ names, IsPart n) :
    ¬ isAbsolute (render names) := by
  cases names with
  | nil => simp [isAbsolute, render]
  | cons n names =>
      obtain ⟨hne, hslash, -⟩ := h n (by simp)
      obtain ⟨b, m, rfl⟩ := List.exists_cons_of_ne_nil hne
      have hb : b ≠ slash := by rintro rfl; simp at hslash
      cases names with
      | nil => simpa [isAbsolute, render] using hb
      | cons _ _ =>
          simpa [isAbsolute, render, List.intercalate_cons_cons] using hb

/-- Reading a rendered text gives the component of each part. -/
theorem components_render_parts {parts : List Name} (hne : parts ≠ [])
    (h : ∀ n ∈ parts, IsPart n) : components (render parts) = parts.filterMap component? := by
  have hhead : parts.head? ≠ some dot := by
    intro hhead
    exact (h dot (List.mem_of_mem_head? hhead)).2.2 rfl
  simp only [components, if_neg (not_isAbsolute_render h), splitOn_slash_render hne h, if_neg hhead]

/-- Reading a rendered text gives back the names. -/
theorem components_render {names : List Name} (hne : names ≠ []) (h : ∀ n ∈ names, IsName n) :
    components (render names) = names.map .normal := by
  rw [components_render_parts hne fun n hn => (h n hn).1, filterMap_component? h]

/-- Whether a text is absolute can be read off its components. -/
theorem isAbsolute_iff_head_components (path : Bytes) :
    isAbsolute path ↔ (components path).head? = some .rootDir := by
  have hskip : ∀ names : List Name, (names.filterMap component?).head? ≠ some .rootDir := by
    intro names hhead
    obtain ⟨n, -, hn⟩ := List.mem_filterMap.mp (List.mem_of_mem_head? hhead)
    unfold component? at hn
    split_ifs at hn <;> simp at hn
  by_cases habs : isAbsolute path
  · simp [components, habs]
  · refine iff_of_false habs ?_
    by_cases hdot : (path.splitOn slash).head? = some dot
    · simp [components, habs, hdot]
    · simp only [components, if_neg habs, if_neg hdot]
      exact hskip _

end UnixPath
