import MediaImporter.Lib.LeastOfKinds
import MediaImporter.Lib.UnixPath

/-!
# Findings

A finding names something that is wrong with a catalog or a CAS. A report holds its
findings sorted, one for each category and identity. Paths need not be text, so an
identity escapes the bytes that would not print.

## Main definitions

* `IntegrityFinding`, `sortAndDeduplicate` — findings and their normal form.
* `sortAndDeduplicate_normalises` — what the normal form keeps.
* `escapePath` — the printed form of a path.
-/

namespace MediaImporter

open Utf8 UnixPath

/-! ## Printing paths -/

/-- A byte as two hexadecimal digits after a marker. -/
def escapeByte (byte : UInt8) : Text :=
  let digit (n : ℕ) : Char := if n < 10 then Char.ofNat (48 + n) else Char.ofNat (87 + n)
  ['\\', 'x', digit (byte.toNat / 16), digit (byte.toNat % 16)]

/-- A control character, in the sense of Unicode. -/
def isControl (c : Char) : Prop := c.toNat ≤ 0x1F ∨ (0x7F ≤ c.toNat ∧ c.toNat ≤ 0x9F)

/-- White space, in the sense of Unicode. -/
def isWhitespace (c : Char) : Prop :=
  let n := c.toNat
  (9 ≤ n ∧ n ≤ 13) ∨ n = 0x20 ∨ n = 0x85 ∨ n = 0xA0 ∨ n = 0x1680 ∨
    (0x2000 ≤ n ∧ n ≤ 0x200A) ∨ n = 0x2028 ∨ n = 0x2029 ∨ n = 0x202F ∨ n = 0x205F ∨ n = 0x3000

instance (c : Char) : Decidable (isControl c) := inferInstanceAs (Decidable (_ ∨ _))

instance (c : Char) : Decidable (isWhitespace c) := by
  unfold isWhitespace
  exact inferInstanceAs (Decidable (_ ∨ _))

def pushValidText (c : Char) : Text :=
  if isControl c ∨ isWhitespace c then (utf8 [c]).flatMap escapeByte else [c]

/-- The character at the front of a byte string and the bytes after it. -/
def decodeFront (bytes : Bytes) : Option (Char × Bytes) :=
  [1, 2, 3, 4].findSome? fun n => match ofUtf8 (bytes.take n) with
    | some [c] => some (c, bytes.drop n)
    | _ => none

/-- A continuation byte. -/
def isContinuation (byte : UInt8) : Prop := 0x80 ≤ byte ∧ byte ≤ 0xBF

instance (byte : UInt8) : Decidable (isContinuation byte) := inferInstanceAs (Decidable (_ ∧ _))

/-- The second byte can follow the first in a well-formed sequence of three or four. -/
def startsSequence (first second : UInt8) : Prop :=
  (first = 0xE0 ∧ 0xA0 ≤ second ∧ second ≤ 0xBF) ∨
  (first = 0xED ∧ 0x80 ≤ second ∧ second ≤ 0x9F) ∨
  (0xE1 ≤ first ∧ first ≤ 0xEF ∧ first ≠ 0xED ∧ isContinuation second) ∨
  (first = 0xF0 ∧ 0x90 ≤ second ∧ second ≤ 0xBF) ∨
  (0xF1 ≤ first ∧ first ≤ 0xF3 ∧ isContinuation second) ∨
  (first = 0xF4 ∧ 0x80 ≤ second ∧ second ≤ 0x8F)

instance (first second : UInt8) : Decidable (startsSequence first second) := by
  unfold startsSequence
  exact inferInstanceAs (Decidable (_ ∨ _))

/-- How many bytes at the front of a byte string cannot begin a character: the whole rest
when it is a character cut short, otherwise the longest beginning of one. -/
def malformedLength : Bytes → ℕ
  | [] => 0
  | [_] => 1
  | [first, second] => if startsSequence first second then 2 else 1
  | first :: second :: third :: _ =>
      if startsSequence first second then
        if isContinuation third ∧ 0xF0 ≤ first then 3 else 2
      else 1

/-- The printed form of the first bytes of a byte string. -/
def escapePrefix : ℕ → Bytes → Text
  | 0, _ => []
  | _ + 1, [] => []
  | fuel + 1, bytes => match decodeFront bytes with
    | some (c, rest) => pushValidText c ++ escapePrefix fuel rest
    | none =>
        let n := malformedLength bytes
        (bytes.take n).flatMap escapeByte ++ escapePrefix fuel (bytes.drop n)

def escapeBytes (bytes : Bytes) : Text := escapePrefix bytes.length bytes

/-- The printed form of a path with the given names. -/
def escapePath (names : List Name) : Text := escapeBytes (render names)

/-! ## Findings -/

/-- What kind of damage a finding reports. -/
inductive FindingCategory
  | catalogIntegrity
  | invalidBlobRow
  | invalidSourceRow
  | orphanBlob
  | missingBlob
  | nonRegularBlob
  | blobIoError
  | sizeMismatch
  | hashMismatch
  | casIoError
  | invalidCasEntry
  deriving DecidableEq, Repr

namespace FindingCategory

/-- The word printed for the category, by which reports are sorted. -/
def name : FindingCategory → Text
  | catalogIntegrity => "CATALOG_INTEGRITY".toList
  | invalidBlobRow => "INVALID_BLOB_ROW".toList
  | invalidSourceRow => "INVALID_SOURCE_ROW".toList
  | orphanBlob => "ORPHAN_BLOB".toList
  | missingBlob => "MISSING_BLOB".toList
  | nonRegularBlob => "NON_REGULAR_BLOB".toList
  | blobIoError => "BLOB_IO_ERROR".toList
  | sizeMismatch => "SIZE_MISMATCH".toList
  | hashMismatch => "HASH_MISMATCH".toList
  | casIoError => "CAS_IO_ERROR".toList
  | invalidCasEntry => "INVALID_CAS_ENTRY".toList

theorem name_injective : Function.Injective name := by
  intro c c' h
  cases c <;> cases c' <;> first | rfl | exact absurd h (by decide)

end FindingCategory

@[ext] structure IntegrityFinding where
  category : FindingCategory
  sortIdentity : Bytes
  identity : Text
  details : Text
  deriving DecidableEq

namespace IntegrityFinding

def new (category : FindingCategory) (identity details : Text) : IntegrityFinding :=
  { category, sortIdentity := utf8 identity, identity, details }

/-- A finding about a path, sorted by its bytes. -/
def forPath (category : FindingCategory) (path : List Name) (details : Text) :
    IntegrityFinding :=
  { category, sortIdentity := render path, identity := escapePath path, details }

/-- The fields in the order in which findings are compared. -/
def sortKey (f : IntegrityFinding) : Text ×ₗ Bytes ×ₗ Text ×ₗ Text :=
  toLex (f.category.name, toLex (f.sortIdentity, toLex (f.identity, f.details)))

theorem sortKey_injective : Function.Injective sortKey := by
  intro f f' h
  simp only [sortKey, EmbeddingLike.apply_eq_iff_eq, Prod.mk.injEq] at h
  exact IntegrityFinding.ext (FindingCategory.name_injective h.1) h.2.1 h.2.2.1 h.2.2.2

instance : LinearOrder IntegrityFinding := LinearOrder.lift' sortKey sortKey_injective

/-- Two findings say the same about the same thing. -/
def SameSubject (f g : IntegrityFinding) : Prop :=
  f.category = g.category ∧ f.sortIdentity = g.sortIdentity

instance (f g : IntegrityFinding) : Decidable (SameSubject f g) :=
  inferInstanceAs (Decidable (_ ∧ _))

end IntegrityFinding

/-- Sort the findings and keep the first of each run about one subject. -/
def sortAndDeduplicate (findings : List IntegrityFinding) : List IntegrityFinding :=
  (findings.insertionSort (· ≤ ·)).destutter fun f g => ¬ f.SameSubject g

@[simp] theorem sortAndDeduplicate_eq_nil {findings : List IntegrityFinding} :
    sortAndDeduplicate findings = [] ↔ findings = [] := by
  rw [sortAndDeduplicate, List.destutter_eq_nil]
  rw [← List.length_eq_zero_iff, List.length_insertionSort, List.length_eq_zero_iff]

/-- What a list keeps of each run of equivalent elements stands for all of them. -/
theorem exists_of_mem_destutter' {α : Type} {R : α → α → Prop} [DecidableRel R]
    (hR : Equivalence R) (l : List α) (a : α) :
    ∀ x ∈ a :: l, ∃ y ∈ l.destutter' (fun f g => ¬ R f g) a, R y x := by
  induction l generalizing a with
  | nil =>
      intro x hx
      exact ⟨a, List.mem_cons_self, List.mem_singleton.1 hx ▸ hR.refl a⟩
  | cons b l ih =>
      intro x hx
      by_cases hab : R a b
      · rw [List.destutter'_cons_neg _ (not_not.2 hab)]
        rcases List.mem_cons.1 hx with rfl | hx
        · exact ih x x List.mem_cons_self
        · rcases List.mem_cons.1 hx with rfl | hx
          · obtain ⟨y, hy, hya⟩ := ih a a List.mem_cons_self
            exact ⟨y, hy, hR.trans hya hab⟩
          · exact ih a x (List.mem_cons_of_mem a hx)
      · rw [List.destutter'_cons_pos _ hab]
        rcases List.mem_cons.1 hx with rfl | hx
        · exact ⟨x, List.mem_cons_self, hR.refl x⟩
        · obtain ⟨y, hy, hyx⟩ := ih b x hx
          exact ⟨y, List.mem_cons_of_mem a hy, hyx⟩

theorem IntegrityFinding.sameSubject_equivalence : Equivalence IntegrityFinding.SameSubject where
  refl _ := ⟨rfl, rfl⟩
  symm h := ⟨h.1.symm, h.2.symm⟩
  trans h h' := ⟨h.1.trans h'.1, h.2.trans h'.2⟩

theorem mem_of_mem_sortAndDeduplicate {findings : List IntegrityFinding} {f : IntegrityFinding}
    (h : f ∈ sortAndDeduplicate findings) : f ∈ findings :=
  (List.mem_insertionSort _).1 ((List.destutter_sublist _ _).subset h)

/-- Each finding is reported, or another one about the same subject. -/
theorem exists_mem_sortAndDeduplicate {findings : List IntegrityFinding} {f : IntegrityFinding}
    (h : f ∈ findings) : ∃ g ∈ sortAndDeduplicate findings, g ∈ findings ∧ g.SameSubject f := by
  have hmem : f ∈ findings.insertionSort (· ≤ ·) := (List.mem_insertionSort _).2 h
  have hsub : ∀ g ∈ sortAndDeduplicate findings, g ∈ findings := fun g =>
    mem_of_mem_sortAndDeduplicate
  unfold sortAndDeduplicate at hsub ⊢
  cases hsorted : findings.insertionSort (· ≤ ·) with
  | nil => rw [hsorted] at hmem; cases hmem
  | cons a l =>
      rw [hsorted] at hmem hsub
      obtain ⟨g, hg, hsame⟩ :=
        exists_of_mem_destutter' IntegrityFinding.sameSubject_equivalence l a f hmem
      exact ⟨g, hg, hsub g hg, hsame⟩

/-! ## The normal form -/

namespace IntegrityFinding

/-- What a finding is about, in the order of a report. -/
def subject (f : IntegrityFinding) : Text ×ₗ Bytes := toLex (f.category.name, f.sortIdentity)

theorem not_sameSubject_iff (f g : IntegrityFinding) :
    ¬ f.SameSubject g ↔ f.subject ≠ g.subject := by
  rw [not_iff_not, SameSubject, subject, subject, EmbeddingLike.apply_eq_iff_eq, Prod.mk.injEq,
    FindingCategory.name_injective.eq_iff]

/-- Findings are compared by their subjects first. -/
theorem subject_monotone : Monotone subject := by
  intro f g h
  have hkey : f.sortKey ≤ g.sortKey := h
  rw [sortKey, sortKey, Prod.Lex.toLex_le_toLex] at hkey
  rw [subject, subject, Prod.Lex.toLex_le_toLex]
  rcases hkey with hlt | ⟨heq, hrest⟩
  · exact .inl hlt
  · rw [Prod.Lex.toLex_le_toLex] at hrest
    rcases hrest with hlt | ⟨heq', -⟩
    · exact .inr ⟨heq, hlt.le⟩
    · exact .inr ⟨heq, heq'.le⟩

end IntegrityFinding

open LeastOfKinds

theorem sortAndDeduplicate_eq_leastOfKinds (findings : List IntegrityFinding) :
    sortAndDeduplicate findings = leastOfKinds (fun f g => ¬ f.SameSubject g) findings := rfl

/-- **The normal form of findings.** The findings that are kept come in the order of their
subjects, one for each subject that there is: the least. So they do not depend on the order in
which the findings were made, and normalising them again changes nothing. -/
theorem sortAndDeduplicate_normalises (findings : List IntegrityFinding) :
    (sortAndDeduplicate findings).Pairwise (·.subject < ·.subject) ∧
    (∀ f, f ∈ sortAndDeduplicate findings ↔
      f ∈ findings ∧ ∀ g ∈ findings, g.subject = f.subject → f ≤ g) ∧
    (∀ f ∈ findings, ∃ g ∈ sortAndDeduplicate findings, g.subject = f.subject) ∧
    (∀ others : List IntegrityFinding, others.Perm findings →
      sortAndDeduplicate others = sortAndDeduplicate findings) ∧
    sortAndDeduplicate (sortAndDeduplicate findings) = sortAndDeduplicate findings := by
  have hR := IntegrityFinding.not_sameSubject_iff
  have hkey := IntegrityFinding.subject_monotone
  have hsorted := pairwise_leastOfKinds hR hkey findings
  have hmem : ∀ f, f ∈ leastOfKinds _ findings ↔ LeastOfKind _ findings f := fun f =>
    mem_leastOfKinds hR hkey
  refine ⟨hsorted, hmem, fun f hf => ?_, fun others hperm => ?_, ?_⟩
  · obtain ⟨g, hg, -, hsame⟩ := exists_mem_sortAndDeduplicate hf
    exact ⟨g, hg, not_not.1 fun hne => (hR g f).2 hne hsame⟩
  · refine eq_leastOfKinds hR hkey (pairwise_leastOfKinds hR hkey others) fun f => ?_
    exact (mem_leastOfKinds hR hkey).trans (leastOfKind_congr fun x => hperm.mem_iff)
  · refine (eq_leastOfKinds hR hkey hsorted fun f => ?_).symm
    constructor
    · intro hf
      refine ⟨hf, fun g hg hsame => ?_⟩
      exact ((hmem f).1 hf).2 g ((hmem g).1 hg).1 hsame
    · exact And.left

end MediaImporter
