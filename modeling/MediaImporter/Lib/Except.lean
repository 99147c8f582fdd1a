import Mathlib

/-!
# Peeling computations that can fail

`Except ε` is the monad of a function that returns or reports why it cannot. The rules
here take a successful run of a `do` block apart, so that no proof has to unfold one.

## Main definitions

* `Except.bind_eq_ok` — a sequence succeeds when both parts do.
* `Except.ensure` — a check.
* `Except.mapM_eq_ok_iff`, `Except.foldlM_inv` — loops over a list.
-/

namespace Except

variable {ε α β : Type}

@[simp] theorem pure_eq_ok (a : α) : (pure a : Except ε α) = .ok a := rfl

theorem bind_eq_ok {x : Except ε α} {f : α → Except ε β} {b : β} :
    (x >>= f) = .ok b ↔ ∃ a, x = .ok a ∧ f a = .ok b := by
  cases x with
  | error e => simp [bind, Except.bind]
  | ok a => simp [bind, Except.bind]

@[simp] theorem ok_bind (a : α) (f : α → Except ε β) : (Except.ok a >>= f) = f a := rfl

@[simp] theorem error_bind (e : ε) (f : α → Except ε β) :
    (Except.error e >>= f) = .error e := rfl

/-- A sequence fails when its first part fails, or its second part after the first. -/
theorem bind_eq_error {x : Except ε α} {f : α → Except ε β} {e : ε} :
    (x >>= f) = .error e ↔ x = .error e ∨ ∃ a, x = .ok a ∧ f a = .error e := by
  cases x with
  | error e' => simp [bind, Except.bind]
  | ok a => simp [bind, Except.bind]

theorem exists_of_isOk {x : Except ε α} (h : x.isOk = true) : ∃ a, x = .ok a := by
  cases x with
  | error e => simp [isOk, Except.toBool] at h
  | ok a => exact ⟨a, rfl⟩

/-- Go on if the condition holds, otherwise report the error. -/
def ensure (condition : Prop) [Decidable condition] (e : ε) : Except ε Unit :=
  if condition then .ok () else .error e

@[simp] theorem ensure_eq_ok_iff {condition : Prop} [Decidable condition] {e : ε} {u : Unit} :
    ensure condition e = .ok u ↔ condition := by
  unfold ensure
  split <;> simp [*]

theorem ensure_eq_error {condition : Prop} [Decidable condition] {e e' : ε}
    (h : ensure condition e = .error e') : ¬ condition ∧ e = e' := by
  unfold ensure at h
  split at h
  · cases h
  · next hcondition => exact ⟨hcondition, Except.error.inj h⟩

/-- A loop over a list succeeds when every step does, and collects the results. -/
theorem mapM_eq_ok_iff {f : α → Except ε β} {l : List α} {r : List β} :
    l.mapM f = .ok r ↔ List.Forall₂ (fun a b => f a = .ok b) l r := by
  induction l generalizing r with
  | nil => simp [eq_comm]
  | cons a l ih =>
      rw [List.mapM_cons, bind_eq_ok]
      simp only [bind_eq_ok, pure_eq_ok, Except.ok.injEq, ih]
      constructor
      · rintro ⟨b, hb, r, hr, rfl⟩
        exact .cons hb hr
      · intro h
        cases h with
        | cons hb hr => exact ⟨_, hb, _, hr, rfl⟩

/-- What a loop made of an element is among its results. -/
theorem exists_of_forall₂ {R : α → β → Prop} {l : List α} {r : List β} (h : List.Forall₂ R l r)
    {a : α} (ha : a ∈ l) : ∃ b ∈ r, R a b := by
  induction h with
  | nil => cases ha
  | cons hab _ ih =>
      rcases List.mem_cons.1 ha with rfl | ha
      · exact ⟨_, List.mem_cons_self, hab⟩
      · obtain ⟨b, hb, hR⟩ := ih ha
        exact ⟨b, List.mem_cons_of_mem _ hb, hR⟩

/-- A loop over a list fails as one of its steps does. -/
theorem exists_of_mapM_eq_error {f : α → Except ε β} {l : List α} {e : ε}
    (h : l.mapM f = .error e) : ∃ a ∈ l, f a = .error e := by
  induction l with
  | nil => simp at h
  | cons a l ih =>
      rw [List.mapM_cons, bind_eq_error] at h
      rcases h with h | ⟨b, -, h⟩
      · exact ⟨a, List.mem_cons_self, h⟩
      · rcases bind_eq_error.1 h with h | ⟨r, -, h⟩
        · obtain ⟨a', ha', he⟩ := ih h
          exact ⟨a', List.mem_cons_of_mem a ha', he⟩
        · cases h

/-- What the steps of a loop establish one after the other holds when it succeeds. -/
theorem foldlM_inv {f : β → α → Except ε β} {l : List α} (inv : List α → β → Prop) {a b : β}
    (start : inv [] a)
    (step : ∀ done x a b, inv done a → f a x = .ok b → inv (done ++ [x]) b)
    (h : l.foldlM f a = .ok b) : inv l b := by
  suffices key : ∀ rest done a, inv done a → rest.foldlM f a = .ok b → inv (done ++ rest) b from
    key l [] a start h
  intro rest
  induction rest with
  | nil =>
      intro done a hinv hrest
      obtain rfl : a = b := Except.ok.inj hrest
      rwa [List.append_nil]
  | cons x rest ih =>
      intro done a hinv hrest
      rw [List.foldlM_cons, bind_eq_ok] at hrest
      obtain ⟨c, hx, hrest⟩ := hrest
      have hlast := ih (done ++ [x]) c (step done x a c hinv hx) hrest
      rwa [List.append_assoc] at hlast

/-- A loop fails as the first of its steps does that fails. -/
theorem exists_of_foldlM_eq_error {f : β → α → Except ε β} {l : List α} {a : β} {e : ε}
    (h : l.foldlM f a = .error e) : ∃ done x rest b, l = done ++ x :: rest ∧
      done.foldlM f a = .ok b ∧ f b x = .error e := by
  induction l generalizing a with
  | nil => cases h
  | cons x l ih =>
      rw [List.foldlM_cons, bind_eq_error] at h
      rcases h with h | ⟨b, hb, h⟩
      · exact ⟨[], x, l, a, rfl, rfl, h⟩
      · obtain ⟨done, y, rest, b', rfl, hdone, hy⟩ := ih h
        refine ⟨x :: done, y, rest, b', rfl, ?_, hy⟩
        rw [List.foldlM_cons, hb]
        exact hdone

/-- The elements of a list for which a check that can fail says yes. -/
def filterOk (f : α → Except ε Bool) : List α → Except ε (List α)
  | [] => .ok []
  | a :: l => do
      let keep ← f a
      let rest ← filterOk f l
      return if keep then a :: rest else rest

theorem exists_of_filterOk_eq_error {f : α → Except ε Bool} {l : List α} {e : ε}
    (h : filterOk f l = .error e) : ∃ a ∈ l, f a = .error e := by
  induction l with
  | nil => cases h
  | cons a l ih =>
      rw [filterOk, bind_eq_error] at h
      rcases h with h | ⟨b, -, h⟩
      · exact ⟨a, List.mem_cons_self, h⟩
      · rcases bind_eq_error.1 h with h | ⟨r, -, h⟩
        · obtain ⟨a', ha', he⟩ := ih h
          exact ⟨a', List.mem_cons_of_mem a ha', he⟩
        · cases h

theorem filterOk_eq_ok_iff {f : α → Except ε Bool} {l r : List α} :
    filterOk f l = .ok r ↔ (∀ a ∈ l, ∃ b, f a = .ok b) ∧ r = l.filter fun a =>
      match f a with
      | .ok b => b
      | .error _ => false := by
  induction l generalizing r with
  | nil => simp [filterOk, eq_comm]
  | cons a l ih =>
      simp only [filterOk, bind_eq_ok, pure_eq_ok, Except.ok.injEq, ih, List.forall_mem_cons]
      constructor
      · rintro ⟨b, hb, r, ⟨hall, rfl⟩, rfl⟩
        refine ⟨⟨⟨b, hb⟩, hall⟩, ?_⟩
        cases b <;> simp [hb]
      · rintro ⟨⟨⟨b, hb⟩, hall⟩, rfl⟩
        refine ⟨b, hb, _, ⟨hall, rfl⟩, ?_⟩
        cases b <;> simp [hb]

theorem mem_of_filterOk {f : α → Except ε Bool} {l r : List α} (h : filterOk f l = .ok r)
    {a : α} : a ∈ r ↔ a ∈ l ∧ f a = .ok true := by
  obtain ⟨hall, rfl⟩ := filterOk_eq_ok_iff.mp h
  rw [List.mem_filter]
  refine and_congr_right fun ha => ?_
  obtain ⟨b, hb⟩ := hall a ha
  simp [hb]

end Except
