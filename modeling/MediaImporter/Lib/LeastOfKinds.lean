import Mathlib

/-!
# The least element of each kind

Sorting a list brings the elements with one key together, the least of them first. Keeping
the first of each run then keeps exactly the least elements, and nothing depends on the order
in which the list was given.

## Main definitions

* `LeastOfKind` — an element of a list, the least one with its key.
* `leastOfKinds` — sort, and keep the first of each run.
* `mem_leastOfKinds`, `pairwise_leastOfKinds`, `eq_leastOfKinds` — what it keeps, and that
  nothing else keeps the same in the order of the keys.
-/

namespace LeastOfKinds

section Kinds

variable {α β : Type} [LinearOrder α] {key : α → β} {R : α → α → Prop} {l l' : List α} {a : α}

def LeastOfKind (key : α → β) (l : List α) (a : α) : Prop :=
  a ∈ l ∧ ∀ b ∈ l, key b = key a → a ≤ b

/-- Sort the elements, and keep the first of each run without a change of kind. -/
def leastOfKinds (R : α → α → Prop) [DecidableRel R] (l : List α) : List α :=
  (l.insertionSort (· ≤ ·)).destutter R

theorem leastOfKind_congr (h : ∀ x, x ∈ l ↔ x ∈ l') :
    LeastOfKind key l a ↔ LeastOfKind key l' a := by
  simp only [LeastOfKind, h]

variable [DecidableRel R] [LinearOrder β]

omit [LinearOrder α] [LinearOrder β] in
theorem mem_of_mem_destutter' {b : α} (h : b ∈ l.destutter' R a) : b ∈ a :: l :=
  (List.destutter'_sublist (R := R) l a).subset h

theorem pairwise_destutter' (hR : ∀ x y, R x y ↔ key x ≠ key y) (hkey : Monotone key)
    (h : (a :: l).Pairwise (· ≤ ·)) : (l.destutter' R a).Pairwise (key · < key ·) := by
  induction l generalizing a with
  | nil => exact List.pairwise_singleton _ _
  | cons b l ih =>
      by_cases hab : R a b
      · rw [List.destutter'_cons_pos _ hab, List.pairwise_cons]
        refine ⟨fun x hx => ?_, ih h.of_cons⟩
        have hle : key a ≤ key b := hkey (List.rel_of_pairwise_cons h List.mem_cons_self)
        have hbx : b ≤ x := by
          rcases List.mem_cons.1 (mem_of_mem_destutter' hx) with rfl | hx
          · exact le_rfl
          · exact List.rel_of_pairwise_cons h.of_cons hx
        exact (lt_of_le_of_ne hle ((hR a b).1 hab)).trans_le (hkey hbx)
      · rw [List.destutter'_cons_neg _ hab]
        exact ih (h.sublist (by simp))

theorem mem_destutter' (hR : ∀ x y, R x y ↔ key x ≠ key y) (hkey : Monotone key)
    (h : (a :: l).Pairwise (· ≤ ·)) {x : α} :
    x ∈ l.destutter' R a ↔ LeastOfKind key (a :: l) x := by
  induction l generalizing a with
  | nil =>
      rw [List.destutter'_nil, LeastOfKind, List.mem_singleton]
      constructor
      · rintro rfl
        exact ⟨rfl, fun y hy _ => (List.mem_singleton.1 hy).ge⟩
      · exact And.left
  | cons b l ih =>
      have hab : a ≤ b := List.rel_of_pairwise_cons h List.mem_cons_self
      by_cases hkind : R a b
      · -- the element is the only one of its kind, all others come later
        have hlater : ∀ y ∈ b :: l, key a < key y := by
          intro y hy
          have hby : b ≤ y := by
            rcases List.mem_cons.1 hy with rfl | hy
            · exact le_rfl
            · exact List.rel_of_pairwise_cons h.of_cons hy
          exact (lt_of_le_of_ne (hkey hab) ((hR a b).1 hkind)).trans_le (hkey hby)
        rw [List.destutter'_cons_pos _ hkind, List.mem_cons, ih h.of_cons]
        constructor
        · rintro (rfl | ⟨hx, hleast⟩)
          · refine ⟨List.mem_cons_self, fun y hy hsame => ?_⟩
            rcases List.mem_cons.1 hy with rfl | hy
            · exact le_rfl
            · exact absurd hsame (hlater y hy).ne'
          · refine ⟨List.mem_cons_of_mem a hx, fun y hy hsame => ?_⟩
            rcases List.mem_cons.1 hy with rfl | hy
            · exact absurd hsame (hlater x hx).ne
            · exact hleast y hy hsame
        · rintro ⟨hx, hleast⟩
          rcases List.mem_cons.1 hx with rfl | hx
          · exact .inl rfl
          · exact .inr ⟨hx, fun y hy => hleast y (List.mem_cons_of_mem a hy)⟩
      · have hsame : key a = key b := not_not.1 fun hne => hkind ((hR a b).2 hne)
        rw [List.destutter'_cons_neg _ hkind, ih (h.sublist (by simp))]
        constructor
        · rintro ⟨hx, hleast⟩
          refine ⟨?_, fun y hy hkey => ?_⟩
          · rcases List.mem_cons.1 hx with rfl | hx
            · exact List.mem_cons_self
            · exact List.mem_cons_of_mem a (List.mem_cons_of_mem b hx)
          · rcases List.mem_cons.1 hy with rfl | hy
            · exact hleast y List.mem_cons_self hkey
            · rcases List.mem_cons.1 hy with rfl | hy
              · exact (hleast a List.mem_cons_self (hsame.trans hkey)).trans hab
              · exact hleast y (List.mem_cons_of_mem a hy) hkey
        · rintro ⟨hx, hleast⟩
          refine ⟨?_, fun y hy => hleast y ?_⟩
          · rcases List.mem_cons.1 hx with rfl | hx
            · exact List.mem_cons_self
            · rcases List.mem_cons.1 hx with rfl | hx
              · -- the second element is the least of its kind, so the first equals it
                rw [le_antisymm (hleast a List.mem_cons_self hsame) hab]
                exact List.mem_cons_self
              · exact List.mem_cons_of_mem a hx
          · rcases List.mem_cons.1 hy with rfl | hy
            · exact List.mem_cons_self
            · exact List.mem_cons_of_mem a (List.mem_cons_of_mem b hy)

theorem pairwise_leastOfKinds (hR : ∀ x y, R x y ↔ key x ≠ key y) (hkey : Monotone key)
    (l : List α) : (leastOfKinds R l).Pairwise (key · < key ·) := by
  have hsorted : (l.insertionSort (· ≤ ·)).Pairwise (· ≤ ·) := List.pairwise_insertionSort _ l
  rw [leastOfKinds]
  cases hcase : l.insertionSort (· ≤ ·) with
  | nil => exact List.Pairwise.nil
  | cons a rest => exact pairwise_destutter' hR hkey (hcase ▸ hsorted)

theorem mem_leastOfKinds (hR : ∀ x y, R x y ↔ key x ≠ key y) (hkey : Monotone key) :
    a ∈ leastOfKinds R l ↔ LeastOfKind key l a := by
  have hsorted : (l.insertionSort (· ≤ ·)).Pairwise (· ≤ ·) := List.pairwise_insertionSort _ l
  rw [leastOfKinds, ← leastOfKind_congr fun x => List.mem_insertionSort (· ≤ ·) (x := x)]
  cases hcase : l.insertionSort (· ≤ ·) with
  | nil => simp [LeastOfKind]
  | cons b rest => exact mem_destutter' hR hkey (hcase ▸ hsorted)

/-- In the order of the keys, the least elements make one list only. -/
theorem eq_leastOfKinds (hR : ∀ x y, R x y ↔ key x ≠ key y) (hkey : Monotone key)
    (hsorted : l'.Pairwise (key · < key ·)) (hmem : ∀ x, x ∈ l' ↔ LeastOfKind key l x) :
    l' = leastOfKinds R l := by
  have hnodup : ∀ {m : List α}, m.Pairwise (key · < key ·) → m.Nodup := fun hm =>
    hm.imp fun hlt heq => hlt.ne (congrArg key heq)
  have hleast := pairwise_leastOfKinds hR hkey l
  have hperm : l'.Perm (leastOfKinds R l) :=
    (List.perm_ext_iff_of_nodup (hnodup hsorted) (hnodup hleast)).2 fun x =>
      (hmem x).trans (mem_leastOfKinds hR hkey).symm
  exact hperm.eq_of_pairwise (fun x y _ _ hxy hyx => absurd hxy hyx.asymm) hsorted hleast

end Kinds

end LeastOfKinds
