import Mathlib

/-!
# Runs of a transition system, and counters

A transition system is a partial function: a move can be made in a state or cannot. What a
system of several threads does is one sequence of moves, in any order that can be made.

## Main definitions

* `Transition.run`, `Transition.Meeting` — runs, and runs whose moves all meet a condition.
* `Counters` — a map of counters, of which the absent ones are zero.
-/

namespace MediaImporter

namespace Transition

variable {σ μ : Type} {step : σ → μ → Option σ} {s t : σ} {moves : List μ}

/-- Make one move after the other. -/
def run (step : σ → μ → Option σ) : σ → List μ → Option σ
  | s, [] => some s
  | s, m :: moves => match step s m with
      | some t => run step t moves
      | none => none

theorem run_cons {m : μ} : run step s (m :: moves) = (step s m).bind (run step · moves) := by
  cases h : step s m <;> simp [run, h]

theorem run_concat {m : μ} :
    run step s (moves ++ [m]) = (run step s moves).bind (step · m) := by
  induction moves generalizing s with
  | nil =>
      cases h : step s m <;> simp [run, h]
  | cons first moves ih =>
      rw [List.cons_append, run_cons, run_cons]
      cases step s first with
      | none => rfl
      | some next => exact ih

theorem run_concat_eq_some {m : μ} :
    run step s (moves ++ [m]) = some t ↔ ∃ u, run step s moves = some u ∧ step u m = some t := by
  rw [run_concat, Option.bind_eq_some_iff]

/-- What holds of the start and is kept by every move holds of every run. -/
theorem run_induction {P : List μ → σ → Prop} (start : P [] s)
    (next : ∀ moves u m t, run step s moves = some u → P moves u → step u m = some t →
      P (moves ++ [m]) t) (h : run step s moves = some t) : P moves t := by
  induction moves using List.reverseRecOn generalizing t with
  | nil =>
      cases h
      exact start
  | append_singleton moves m ih =>
      obtain ⟨u, hu, ht⟩ := run_concat_eq_some.1 h
      exact next moves u m t hu (ih hu) ht

theorem run_invariant {P : σ → Prop} (start : P s)
    (next : ∀ u m t, P u → step u m = some t → P t) (h : run step s moves = some t) : P t :=
  run_induction (P := fun _ => P) start (fun _ u m t _ hu ht => next u m t hu ht) h

/-- Every move of the run is made in a state in which the condition allows it. -/
def Meeting (C : σ → μ → Prop) (step : σ → μ → Option σ) : σ → List μ → Prop
  | _, [] => True
  | s, m :: moves => C s m ∧ match step s m with
      | some t => Meeting C step t moves
      | none => True

instance decidableMeeting (C : σ → μ → Prop) [∀ s m, Decidable (C s m)] :
    ∀ s moves, Decidable (Meeting C step s moves)
  | _, [] => .isTrue trivial
  | s, m :: moves =>
      have : Decidable (match step s m with
          | some t => Meeting C step t moves
          | none => True) :=
        match step s m with
        | some t => decidableMeeting C t moves
        | none => .isTrue trivial
      inferInstanceAs (Decidable (_ ∧ _))

/-- A condition that the moves of the run meet in every state. -/
theorem meeting_of_forall {C : σ → μ → Prop} (h : ∀ m ∈ moves, ∀ u, C u m) :
    Meeting C step s moves := by
  induction moves generalizing s with
  | nil => trivial
  | cons m moves ih =>
      refine ⟨h m List.mem_cons_self s, ?_⟩
      split
      · exact ih fun m' hm => h m' (List.mem_cons_of_mem _ hm)
      · trivial

theorem Meeting.imp {C D : σ → μ → Prop} (h : Meeting C step s moves)
    (himp : ∀ u m, C u m → D u m) : Meeting D step s moves := by
  induction moves generalizing s with
  | nil => trivial
  | cons m moves ih =>
      obtain ⟨hfirst, hrest⟩ := h
      refine ⟨himp s m hfirst, ?_⟩
      cases hstep : step s m with
      | none => trivial
      | some t =>
          rw [hstep] at hrest
          exact ih hrest

theorem meeting_concat {C : σ → μ → Prop} {m : μ} : Meeting C step s (moves ++ [m]) ↔
    Meeting C step s moves ∧ ∀ u, run step s moves = some u → C u m := by
  induction moves generalizing s with
  | nil =>
      constructor
      · intro h
        refine ⟨trivial, fun u hu => ?_⟩
        cases hu
        exact h.1
      · intro h
        refine ⟨h.2 s rfl, ?_⟩
        split <;> trivial
  | cons first moves ih =>
      rw [List.cons_append, Meeting, Meeting, run_cons, and_assoc]
      refine and_congr_right fun _ => ?_
      cases hstep : step s first with
      | none => exact ⟨fun _ => ⟨trivial, fun u hu => by cases hu⟩, fun _ => trivial⟩
      | some next => exact ih

theorem run_invariant_meeting {C : σ → μ → Prop} {P : σ → Prop} (start : P s)
    (next : ∀ u m t, P u → C u m → step u m = some t → P t) (h : run step s moves = some t)
    (hmeets : Meeting C step s moves) : P t := by
  refine run_induction (P := fun moves t => Meeting C step s moves → P t) (fun _ => start) ?_ h
    hmeets
  intro moves u m t hu hP ht hmeets
  obtain ⟨hbefore, hlast⟩ := meeting_concat.1 hmeets
  exact next u m t (hP hbefore) (hlast u hu) ht

theorem run_append_eq_some {moves' : List μ} : run step s (moves ++ moves') = some t ↔
      ∃ u, run step s moves = some u ∧ run step u moves' = some t := by
  induction moves generalizing s with
  | nil => simp [run]
  | cons m moves ih =>
      rw [List.cons_append, run_cons, run_cons]
      cases hstep : step s m with
      | none => simp
      | some next => exact ih

theorem Meeting.of_split {C : σ → μ → Prop} {u : σ} {m : μ} {moves' : List μ}
    (h : Meeting C step s (moves ++ m :: moves'))
    (hu : run step s moves = some u) : C u m := by
  induction moves generalizing s with
  | nil =>
      cases hu
      exact h.1
  | cons first moves ih =>
      rw [run_cons] at hu
      obtain ⟨next, hstep, hrest⟩ := Option.bind_eq_some_iff.1 hu
      have hafter := h.2
      rw [hstep] at hafter
      exact ih hafter hrest

end Transition

/-! ## Counters -/

/-- What an atomic 64-bit counter becomes when one is added. -/
def fetchAdd (n : ℕ) : ℕ := if n + 1 < 2 ^ 64 then n + 1 else 0

/-- What an atomic 64-bit counter becomes when one is taken away. -/
def fetchSub (n : ℕ) : ℕ := if 0 < n then n - 1 else 2 ^ 64 - 1

theorem fetchAdd_of_lt {n : ℕ} (h : n + 1 < 2 ^ 64) : fetchAdd n = n + 1 := if_pos h

theorem fetchSub_of_pos {n : ℕ} (h : 0 < n) : fetchSub n = n - 1 := if_pos h

/-- A map from keys to counters. -/
abbrev Counters (κ : Type) := AList (fun _ : κ => ℕ)

namespace Counters

variable {κ : Type} [DecidableEq κ] {m : Counters κ} {k : κ} {n : ℕ}

def count (m : Counters κ) (k : κ) : ℕ := (m.lookup k).getD 0

/-- Count one more, if a 64-bit counter has room for it. -/
def raise (m : Counters κ) (k : κ) : Option (Counters κ) :=
  if m.count k + 1 < 2 ^ 64 then some (m.insert k (m.count k + 1)) else none

/-- What is left of a counter when one is taken away. -/
def lowered (missing underflow : String) (m : Counters κ) (k : κ) : Except String ℕ :=
  match m.lookup k with
  | none => .error missing
  | some 0 => .error underflow
  | some (n + 1) => .ok n

/-- A counter that reaches zero is removed. -/
def settle (m : Counters κ) (k : κ) (n : ℕ) : Counters κ :=
  if n = 0 then m.erase k else m.insert k n

@[simp] theorem count_empty : (∅ : Counters κ).count k = 0 := by
  simp [count]

theorem count_insert (k' : κ) : count (m.insert k n) k' = if k' = k then n else m.count k' := by
  unfold count
  split_ifs with h
  · rw [h, AList.lookup_insert]
    rfl
  · rw [AList.lookup_insert_ne h]

theorem raise_eq_some {m' : Counters κ} (h : m.raise k = some m') (k' : κ) :
    m'.count k' = m.count k' + if k' = k then 1 else 0 := by
  unfold raise at h
  split_ifs at h
  cases h
  rw [count_insert]
  split_ifs with hk
  · rw [hk]
  · omega

theorem lowered_ok {missing underflow : String} (h : m.lowered missing underflow k = .ok n) :
    m.count k = n + 1 := by
  unfold lowered at h
  unfold count
  split at h
  · cases h
  · cases h
  · next n' heq =>
      cases h
      rw [heq]
      rfl

theorem exists_lowered (missing underflow : String) (h : 0 < m.count k) :
    ∃ n, m.lowered missing underflow k = .ok n := by
  unfold count at h
  unfold lowered
  cases hk : m.lookup k with
  | none => simp [hk] at h
  | some n =>
      cases n with
      | zero => simp [hk] at h
      | succ n => exact ⟨n, rfl⟩

theorem count_settle (k' : κ) : (m.settle k n).count k' = if k' = k then n else m.count k' := by
  unfold settle
  split_ifs with hn hk hk
  · rw [hk, hn, count, AList.lookup_erase]
    rfl
  · rw [count, AList.lookup_erase_ne hk]
    rfl
  · rw [count_insert, if_pos hk]
  · rw [count_insert, if_neg hk]

end Counters

/-! ## Sums over a list of which one element changes -/

section Sum

variable {α : Type} {l : List α} {i : ℕ} {a b : α}

theorem sum_map_set (f : α → ℕ) (h : l[i]? = some a) :
    ((l.set i b).map f).sum + f a = (l.map f).sum + f b := by
  induction l generalizing i with
  | nil => simp at h
  | cons first rest ih =>
      cases i with
      | zero =>
          cases h
          simp only [List.set_cons_zero, List.map_cons, List.sum_cons]
          omega
      | succ i =>
          have := ih (i := i) h
          simp only [List.set_cons_succ, List.map_cons, List.sum_cons]
          omega

theorem sum_map_le (f : α → ℕ) {n : ℕ} (h : ∀ a ∈ l, f a ≤ n) :
    (l.map f).sum ≤ l.length * n := by
  induction l with
  | nil => simp
  | cons first rest ih =>
      have hrest := ih fun a ha => h a (List.mem_cons_of_mem _ ha)
      have hfirst := h first List.mem_cons_self
      simp only [List.map_cons, List.sum_cons, List.length_cons, Nat.add_mul]
      omega

theorem sum_map_eraseIdx (f : α → ℕ) (h : l[i]? = some a) :
    ((l.eraseIdx i).map f).sum + f a = (l.map f).sum := by
  induction l generalizing i with
  | nil => simp at h
  | cons first rest ih =>
      cases i with
      | zero =>
          cases h
          simp only [List.eraseIdx_cons_zero, List.map_cons, List.sum_cons]
          omega
      | succ i =>
          have := ih (i := i) h
          simp only [List.eraseIdx_cons_succ, List.map_cons, List.sum_cons]
          omega

theorem le_sum_map (f : α → ℕ) (h : l[i]? = some a) : f a ≤ (l.map f).sum := by
  have := sum_map_eraseIdx f h
  omega

end Sum

end MediaImporter
