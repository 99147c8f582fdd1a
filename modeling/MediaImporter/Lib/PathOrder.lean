import Mathlib

/-!
# Sets of paths in order

An ordered set of paths lists a directory before everything below it, because a proper
prefix of a list is smaller than the list. Read backwards it lists a directory after
everything below it, which is the order in which directories can be removed.

## Main definitions

* `PathOrder.sortPaths` — the elements of a list of paths as an ordered set.
* `PathOrder.ancestors` — the directories above a path, without the root.
* `PathOrder.lt_of_isPrefix` — a path comes after its ancestors.
-/

namespace PathOrder

variable {ν : Type}

/-- The directories above a path and below the root, outermost first. -/
def ancestors (p : List ν) : List (List ν) := p.dropLast.inits.tail

theorem mem_ancestors {p q : List ν} : q ∈ ancestors p ↔ q <+: p ∧ q ≠ p ∧ q ≠ [] := by
  have htail : ∀ l : List ν, ∀ q, q ∈ l.inits.tail ↔ q <+: l ∧ q ≠ [] := by
    intro l q
    cases l with
    | nil => simp
    | cons a l =>
        simp only [List.inits_cons, List.tail_cons, List.mem_map, List.mem_inits]
        constructor
        · rintro ⟨r, hr, rfl⟩
          exact ⟨List.cons_prefix_cons.mpr ⟨rfl, hr⟩, by simp⟩
        · rintro ⟨hq, hne⟩
          obtain ⟨b, r, rfl⟩ := List.exists_cons_of_ne_nil hne
          obtain ⟨rfl, hr⟩ := List.cons_prefix_cons.mp hq
          exact ⟨r, hr, rfl⟩
  rw [ancestors, htail, ← and_assoc]
  refine and_congr_left fun hne => ?_
  rcases List.eq_nil_or_concat' p with rfl | ⟨r, a, rfl⟩
  · simpa using hne
  · rw [List.dropLast_concat, List.prefix_concat_iff]
    constructor
    · intro hq
      refine ⟨.inr hq, ?_⟩
      rintro rfl
      have := hq.length_le
      rw [List.length_append, List.length_singleton] at this
      omega
    · rintro ⟨rfl | hq, hqne⟩
      · exact absurd rfl hqne
      · exact hq

theorem dropLast_ne {p : List ν} (h : p ≠ []) : p.dropLast ≠ p := by
  intro heq
  have hlen := congrArg List.length heq
  have hpos := List.length_pos_of_ne_nil h
  rw [List.length_dropLast] at hlen
  omega

variable [LinearOrder ν]

/-- A path comes after its ancestors. -/
theorem lt_of_isPrefix {p q : List ν} (h : p <+: q) (hne : p ≠ q) : p < q := by
  obtain ⟨r, rfl⟩ := h
  have hr : r ≠ [] := by rintro rfl; simp at hne
  obtain ⟨a, r, rfl⟩ := List.exists_cons_of_ne_nil hr
  clear hne hr
  induction p with
  | nil => exact List.nil_lt_cons a r
  | cons b p ih => exact List.cons_lt_cons_iff.mpr (.inr ⟨rfl, ih⟩)

/-- The elements of a list of paths as an ordered set. -/
def sortPaths (paths : List (List ν)) : List (List ν) := paths.dedup.insertionSort (· ≤ ·)

@[simp] theorem mem_sortPaths {paths : List (List ν)} {p : List ν} :
    p ∈ sortPaths paths ↔ p ∈ paths := by
  simp [sortPaths]

theorem nodup_sortPaths (paths : List (List ν)) : (sortPaths paths).Nodup :=
  (List.perm_insertionSort _ _).nodup_iff.mpr (List.nodup_dedup paths)

theorem pairwise_sortPaths (paths : List (List ν)) : (sortPaths paths).Pairwise (· < ·) := by
  have hle := List.pairwise_insertionSort (· ≤ ·) paths.dedup
  have hne : (sortPaths paths).Pairwise (· ≠ ·) := nodup_sortPaths paths
  exact (hle.and hne).imp fun h => lt_of_le_of_ne h.1 h.2

/-- In a split of an ordered set, the smaller elements come before. -/
theorem mem_left_of_lt {l done rest : List (List ν)} {p q : List ν} (hl : l.Pairwise (· < ·))
    (hsplit : l = done ++ p :: rest) (hq : q ∈ l) (hlt : q < p) : q ∈ done := by
  subst hsplit
  rw [List.pairwise_append, List.pairwise_cons] at hl
  rcases List.mem_append.mp hq with hq | hq
  · exact hq
  · rcases List.mem_cons.mp hq with rfl | hq
    · exact absurd hlt (lt_irrefl _)
    · exact absurd (hl.2.1.1 q hq) (not_lt_of_gt hlt)

/-- In a split of an ordered set read backwards, the larger elements come before. -/
theorem mem_left_of_gt {l done rest : List (List ν)} {p q : List ν} (hl : l.Pairwise (· > ·))
    (hsplit : l = done ++ p :: rest) (hq : q ∈ l) (hlt : p < q) : q ∈ done := by
  subst hsplit
  rw [List.pairwise_append, List.pairwise_cons] at hl
  rcases List.mem_append.mp hq with hq | hq
  · exact hq
  · rcases List.mem_cons.mp hq with rfl | hq
    · exact absurd hlt (lt_irrefl _)
    · exact absurd (hl.2.1.1 q hq) (not_lt_of_gt hlt)

theorem pairwise_reverse_sortPaths (paths : List (List ν)) :
    (sortPaths paths).reverse.Pairwise (· > ·) :=
  List.pairwise_reverse.mpr (pairwise_sortPaths paths)

end PathOrder
