import MediaImporter.Lib.Transition

/-!
# What is bound to come

A goal is inevitable for some of the moves of a transition system if one of them can be made as
long as the goal is not reached, and the goal is inevitable still, whichever of them is made.
Threads that wait for others wait for something inevitable, or in vain.

## Main definitions

* `Transition.Inevitable` — a goal that is reached whichever moves are made.
* `Transition.inevitable_of_rank` — moves that lower a rank.
-/

namespace MediaImporter

namespace Transition

variable {σ μ : Type} {step : σ → μ → Option σ} {C : σ → μ → Prop} {goal : σ → Prop} {s : σ}

/-- The goal is reached, whichever of the moves are made, and one can be made until then. -/
inductive Inevitable (step : σ → μ → Option σ) (C : σ → μ → Prop) (goal : σ → Prop) : σ → Prop
  | now {s : σ} (h : goal s) : Inevitable step C goal s
  | next {s : σ} (hmove : ∃ m t, C s m ∧ step s m = some t)
      (hrest : ∀ m t, C s m → step s m = some t → Inevitable step C goal t) :
      Inevitable step C goal s

/-- If every move lowers the rank, and one can be made as long as the goal is not reached, then
the goal is inevitable. -/
theorem inevitable_of_rank {I : σ → Prop} (rank : σ → ℕ)
    (hkeep : ∀ s m t, I s → C s m → step s m = some t → I t ∧ rank t < rank s)
    (hmove : ∀ s, I s → ¬goal s → ∃ m t, C s m ∧ step s m = some t) (h : I s) :
    Inevitable step C goal s := by
  induction hn : rank s using Nat.strong_induction_on generalizing s with
  | _ n ih =>
    by_cases hgoal : goal s
    · exact .now hgoal
    · refine .next (hmove s h hgoal) fun m t hC hstep => ?_
      obtain ⟨ht, hlt⟩ := hkeep s m t h hC hstep
      rw [hn] at hlt
      exact ih (rank t) hlt ht rfl

end Transition

end MediaImporter
