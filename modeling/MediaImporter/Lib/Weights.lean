import MediaImporter.Lib.Transition

/-!
# Weights of lists

What a system moves from one list to another is neither lost nor doubled: every weight of the
lists together stays the same. Weights are natural numbers, so that what one move does to all
the lists is linear arithmetic; lists of the same weight for every weight are permutations of
each other.

## Main definitions

* `weigh` — the weight of a list.
* `perm_of_weigh` — what all weights tell.
-/

namespace MediaImporter

variable {α β : Type} {f : α → ℕ} {l l' : List α} {a b : α} {i : ℕ}

def weigh (f : α → ℕ) (l : List α) : ℕ := (l.map f).sum

@[simp] theorem weigh_nil : weigh f [] = 0 := rfl

@[simp] theorem weigh_cons : weigh f (a :: l) = f a + weigh f l := by simp [weigh]

@[simp] theorem weigh_append : weigh f (l ++ l') = weigh f l + weigh f l' := by simp [weigh]

@[simp] theorem weigh_map {f : β → ℕ} {g : α → β} : weigh f (l.map g) = weigh (f ∘ g) l := by
  simp [weigh]

theorem weigh_set (h : l[i]? = some a) : weigh f (l.set i b) + f a = weigh f l + f b :=
  sum_map_set f h

theorem weigh_eraseIdx (h : l[i]? = some a) : weigh f (l.eraseIdx i) + f a = weigh f l :=
  sum_map_eraseIdx f h

theorem weigh_tail (h : l.head? = some a) : f a + weigh f l.tail = weigh f l := by
  obtain ⟨rest, rfl⟩ := List.head?_eq_some_iff.1 h
  simp

theorem le_weigh (h : a ∈ l) : f a ≤ weigh f l := by
  obtain ⟨i, hi⟩ := List.getElem?_of_mem h
  exact le_sum_map f hi

theorem weigh_range_succ {g : ℕ → ℕ} {n : ℕ} :
    weigh g (List.range (n + 1)) = weigh g (List.range n) + g n := by
  simp [List.range_succ]

theorem weigh_one : weigh (fun _ => 1) l = l.length := by simp [weigh]

theorem weigh_zero : weigh (fun _ => 0) l = 0 := by simp [weigh]

theorem weigh_add {g : α → ℕ} : weigh (fun a => f a + g a) l = weigh f l + weigh g l := by
  induction l with
  | nil => rfl
  | cons a l ih =>
      simp only [weigh_cons, ih]
      omega

theorem weigh_congr {g : α → ℕ} (h : ∀ a ∈ l, f a = g a) : weigh f l = weigh g l :=
  congrArg List.sum (List.map_congr_left h)

theorem weigh_le_weigh {g : α → ℕ} (h : ∀ a ∈ l, f a ≤ g a) : weigh f l ≤ weigh g l :=
  List.sum_le_sum h

theorem weigh_indicator (p : α → Prop) [DecidablePred p] :
    weigh (fun a => if p a then 1 else 0) l = l.countP (p ·) := by
  induction l with
  | nil => rfl
  | cons a l ih =>
      rw [weigh_cons, ih, List.countP_cons]
      simp only [decide_eq_true_eq]
      omega

/-- Lists of the same weight, whatever is weighed, have the same elements. -/
theorem perm_of_weigh [DecidableEq α] (h : ∀ f, weigh f l = weigh f l') : l.Perm l' := by
  rw [List.perm_iff_count]
  intro a
  have hcount := h fun b => if b = a then 1 else 0
  rw [weigh_indicator, weigh_indicator] at hcount
  rw [List.count_eq_countP, List.count_eq_countP]
  simpa only [beq_eq_decide] using hcount

end MediaImporter
