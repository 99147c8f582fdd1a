import MediaImporter.Lib.Program

/-!
# Programs that run side by side

Several programs share one state. In each step one of them makes its next call, and the
environment answers it in one of the ways in which it can. Any order of steps is possible.

To show that a program does what it should among the others, one states what every state
satisfies, what the steps of each program guarantee, and what a program knows of the state
between two of its calls. What it knows must be `Stable`: the guarantees of the others keep
it. `Upholds` then is about one program alone, and `Reaches.upholds` about all of them.

## Main definitions

* `Interleave.System`, `Interleave.Step`, `Interleave.Reaches` — programs and their runs.
* `Interleave.Stable`, `Interleave.Upholds` — what a program knows, guarantees and ends with.
* `Interleave.Upholds.bind`, `Interleave.UpholdsT.bind` — the rules.
* `Interleave.Reaches.upholds` — programs that uphold their parts, together.
-/

namespace Interleave

variable {ι : Type} {ρ : ι → Type} {σ α β : Type}

/-- The state that the programs share, and what is left of each of them. -/
structure System (ι : Type) (ρ : ι → Type) (σ α : Type) where
  state : σ
  threads : List (Program ι ρ α)

/-- How a call of the program with the number can be answered, and what it does. -/
abbrev Answers (ι : Type) (ρ : ι → Type) (σ : Type) := ℕ → (i : ι) → σ → ρ i → σ → Prop

/-- One program makes its next call. -/
inductive Step (answers : Answers ι ρ σ) : System ι ρ σ α → System ι ρ σ α → Prop
  | call (c : System ι ρ σ α) (k : ℕ) (i : ι) (next : ρ i → Program ι ρ α) (a : ρ i) (t : σ)
      (hthread : c.threads[k]? = some (.call i next)) (hanswer : answers k i c.state a t) :
      Step answers c ⟨t, c.threads.set k (next a)⟩

/-- Any number of steps. -/
abbrev Reaches (answers : Answers ι ρ σ) : System ι ρ σ α → System ι ρ σ α → Prop :=
  Relation.ReflTransGen (Step answers)

/-! ## What a program upholds -/

section Upholds

variable (answers : Answers ι ρ σ) (inv : σ → Prop) (guar : ℕ → σ → σ → Prop) (k : ℕ)

/-- The steps of the other programs keep the property. -/
def Stable (P : σ → Prop) : Prop :=
  ∀ j, j ≠ k → ∀ s t, inv s → inv t → guar j s t → P s → P t

/-- From states with the property on, the program keeps the invariant and its guarantee, knows
something stable after each call, and ends with the result and the state related. -/
def Upholds (Q : α → σ → Prop) : Program ι ρ α → (σ → Prop) → Prop
  | .done a, P => ∀ s, inv s → P s → Q a s
  | .call i next, P => ∀ s a t, inv s → P s → answers k i s a t → inv t ∧ guar k s t ∧
      ∃ P' : σ → Prop, P' t ∧ Stable inv guar k P' ∧ Upholds Q (next a) P'

variable {answers inv guar k}

theorem Stable.and {P P' : σ → Prop} (h : Stable inv guar k P) (h' : Stable inv guar k P') :
    Stable inv guar k fun s => P s ∧ P' s :=
  fun j hj s t hs ht hguar hP => ⟨h j hj s t hs ht hguar hP.1, h' j hj s t hs ht hguar hP.2⟩

theorem Stable.exists {γ : Type} {P : γ → σ → Prop} (h : ∀ c, Stable inv guar k (P c)) :
    Stable inv guar k fun s => ∃ c, P c s := by
  rintro j hj s t hs ht hguar ⟨c, hP⟩
  exact ⟨c, h c j hj s t hs ht hguar hP⟩

/-- A program upholds its part from fewer states, too. -/
theorem Upholds.of_imp {Q : α → σ → Prop} {p : Program ι ρ α} {P P' : σ → Prop}
    (h : Upholds answers inv guar k Q p P') (hP : ∀ s, inv s → P s → P' s) :
    Upholds answers inv guar k Q p P := by
  cases p with
  | done a => exact fun s hs hPs => h s hs (hP s hs hPs)
  | call i next => exact fun s a t hs hPs hanswer => h s a t hs (hP s hs hPs) hanswer

theorem Upholds.mono {Q Q' : α → σ → Prop} {p : Program ι ρ α} {P : σ → Prop}
    (h : Upholds answers inv guar k Q p P) (hQ : ∀ a s, inv s → Q a s → Q' a s) :
    Upholds answers inv guar k Q' p P := by
  induction p generalizing P with
  | done a => exact fun s hs hP => hQ a s hs (h s hs hP)
  | call i next ih =>
      intro s a t hs hP hanswer
      obtain ⟨ht, hguar, P', hP', hstable, hnext⟩ := h s a t hs hP hanswer
      exact ⟨ht, hguar, P', hP', hstable, ih a hnext⟩

/-- The second program goes on with what the first one ends with. -/
theorem Upholds.bind {Q : α → σ → Prop} {R : β → σ → Prop} {p : Program ι ρ α}
    {f : α → Program ι ρ β} {P : σ → Prop} (h : Upholds answers inv guar k Q p P)
    (hf : ∀ a, Upholds answers inv guar k R (f a) (Q a)) :
    Upholds answers inv guar k R (p >>= f) P := by
  induction p generalizing P with
  | done a => exact (hf a).of_imp h
  | call i next ih =>
      intro s a t hs hP hanswer
      obtain ⟨ht, hguar, P', hP', hstable, hnext⟩ := h s a t hs hP hanswer
      exact ⟨ht, hguar, P', hP', hstable, ih a hnext⟩

/-- A program that can fail: what it ends with, and what it fails with. -/
def UpholdsT {ε : Type} (answers : Answers ι ρ σ) (inv : σ → Prop) (guar : ℕ → σ → σ → Prop)
    (k : ℕ) (P : σ → Prop) (p : ExceptT ε (Program ι ρ) α) (Q : α → σ → Prop)
    (E : ε → σ → Prop) : Prop :=
  Upholds answers inv guar k (fun r s => match r with
    | .ok a => Q a s
    | .error e => E e s) (ExceptT.run p) P

variable {ε : Type} {P : σ → Prop} {Q : α → σ → Prop} {R : β → σ → Prop} {E : ε → σ → Prop}

theorem upholdsT_pure {a : α} (h : ∀ s, inv s → P s → Q a s) :
    UpholdsT answers inv guar k P (pure a : ExceptT ε (Program ι ρ) α) Q E := h

theorem upholdsT_throw {e : ε} (h : ∀ s, inv s → P s → E e s) :
    UpholdsT answers inv guar k P (throw e : ExceptT ε (Program ι ρ) α) Q E := h

theorem UpholdsT.of_imp {p : ExceptT ε (Program ι ρ) α} {P' : σ → Prop}
    (h : UpholdsT answers inv guar k P' p Q E) (hP : ∀ s, inv s → P s → P' s) :
    UpholdsT answers inv guar k P p Q E :=
  Upholds.of_imp h hP

theorem UpholdsT.mono {p : ExceptT ε (Program ι ρ) α} {Q' : α → σ → Prop} {E' : ε → σ → Prop}
    (h : UpholdsT answers inv guar k P p Q E) (hQ : ∀ a s, inv s → Q a s → Q' a s)
    (hE : ∀ e s, inv s → E e s → E' e s) : UpholdsT answers inv guar k P p Q' E' := by
  refine Upholds.mono h fun r s hs hr => ?_
  cases r with
  | ok a => exact hQ a s hs hr
  | error e => exact hE e s hs hr

theorem UpholdsT.bind {p : ExceptT ε (Program ι ρ) α} {f : α → ExceptT ε (Program ι ρ) β}
    (h : UpholdsT answers inv guar k P p Q E)
    (hf : ∀ a, UpholdsT answers inv guar k (Q a) (f a) R E) :
    UpholdsT answers inv guar k P (p >>= f) R E := by
  unfold UpholdsT
  rw [ExceptT.run_bind]
  refine Upholds.bind h fun r => ?_
  cases r with
  | ok a => exact hf a
  | error e => exact fun s _ hs => hs

/-- A call, and what is known of each answer. -/
theorem upholdsT_requestT {i : ι} {Q : ρ i → σ → Prop}
    (h : ∀ s a t, inv s → P s → answers k i s a t → inv t ∧ guar k s t ∧ Q a t)
    (hstable : ∀ a, Stable inv guar k (Q a)) :
    UpholdsT answers inv guar k P (Program.requestT i : ExceptT ε (Program ι ρ) (ρ i)) Q E := by
  intro s a t hs hP hanswer
  obtain ⟨ht, hguar, hQ⟩ := h s a t hs hP hanswer
  exact ⟨ht, hguar, Q a, hQ, hstable a, fun _ _ hq => hq⟩

/-- Each program of a list keeps what is known. -/
theorem upholdsT_forM {l : List β} {f : β → ExceptT ε (Program ι ρ) PUnit}
    (h : ∀ b ∈ l, UpholdsT answers inv guar k P (f b) (fun _ => P) E) :
    UpholdsT answers inv guar k P (forM l f) (fun _ => P) E := by
  induction l with
  | nil => exact upholdsT_pure fun _ _ hP => hP
  | cons b l ih =>
      rw [List.forM_cons]
      exact (h b (by simp)).bind fun _ => ih fun b' hb' => h b' (by simp [hb'])

/-- What every state says of no state can be used before the program runs. -/
theorem UpholdsT.of_fact {φ : Prop} {p : ExceptT ε (Program ι ρ) α}
    (hφ : ∀ s, inv s → P s → φ) (h : φ → UpholdsT answers inv guar k P p Q E) :
    UpholdsT answers inv guar k P p Q E := by
  by_cases hfact : φ
  · exact h hfact
  · unfold UpholdsT
    generalize ExceptT.run p = q
    cases q with
    | done r => exact fun s hs hP => absurd (hφ s hs hP) hfact
    | call i next => exact fun s a t hs hP _ => absurd (hφ s hs hP) hfact

/-- What handles a failure starts from what is known of it. -/
theorem UpholdsT.tryCatch {p : ExceptT ε (Program ι ρ) α} {handle : ε → ExceptT ε (Program ι ρ) α}
    {E' : ε → σ → Prop} (h : UpholdsT answers inv guar k P p Q E')
    (hhandle : ∀ e, UpholdsT answers inv guar k (E' e) (handle e) Q E) :
    UpholdsT answers inv guar k P (tryCatch p handle) Q E := by
  unfold UpholdsT
  rw [Program.run_tryCatch]
  refine Upholds.bind h fun r => ?_
  cases r with
  | ok a => exact fun s _ hs => hs
  | error e => exact hhandle e

end Upholds

/-! ## All programs together -/

section Together

variable {answers : Answers ι ρ σ} {inv : σ → Prop} {guar : ℕ → σ → σ → Prop}
  {Q : ℕ → α → σ → Prop} {c d : System ι ρ σ α}

/-- The invariant holds, and each program knows something from which it upholds its part. -/
structure Upheld (answers : Answers ι ρ σ) (inv : σ → Prop) (guar : ℕ → σ → σ → Prop)
    (Q : ℕ → α → σ → Prop) (c : System ι ρ σ α) : Prop where
  state : inv c.state
  threads : ∀ k p, c.threads[k]? = some p → ∃ P : σ → Prop, P c.state ∧
    Stable inv guar k P ∧ Upholds answers inv guar k (Q k) p P

/-- One step keeps every part, and is one that its program guarantees. -/
theorem Upheld.step (h : Upheld answers inv guar Q c) (hstep : Step answers c d) :
    Upheld answers inv guar Q d ∧ ∃ k < c.threads.length, guar k c.state d.state := by
  cases hstep with
  | call k i next a t hthread hanswer =>
  obtain ⟨P, hP, -, hupholds⟩ := h.threads k _ hthread
  obtain ⟨ht, hguar, P', hP', hstable', hnext⟩ := hupholds c.state a t h.state hP hanswer
  have hk : k < c.threads.length := (List.getElem?_eq_some_iff.1 hthread).1
  refine ⟨⟨ht, fun j p hp => ?_⟩, k, hk, hguar⟩
  by_cases hj : j = k
  · subst hj
    rw [List.getElem?_set_self hk] at hp
    obtain rfl := Option.some.inj hp
    exact ⟨P', hP', hstable', hnext⟩
  · rw [List.getElem?_set_ne (Ne.symm hj)] at hp
    obtain ⟨Pj, hPj, hstable, hupholdsj⟩ := h.threads j p hp
    exact ⟨Pj, hstable k (Ne.symm hj) c.state t h.state ht hguar hPj, hstable, hupholdsj⟩

theorem length_threads_of_step (hstep : Step answers c d) :
    d.threads.length = c.threads.length := by
  cases hstep with
  | call k i next a t hthread hanswer => exact List.length_set

/-- **The programs together** keep the invariant, and everything that the guarantees keep. -/
theorem Reaches.upholds (hreach : Reaches answers c d) (h : Upheld answers inv guar Q c) :
    Upheld answers inv guar Q d ∧ d.threads.length = c.threads.length ∧
      ∀ R : σ → σ → Prop, (∀ s, R s s) → (∀ s t u, R s t → R t u → R s u) →
        (∀ k < c.threads.length, ∀ s t, inv s → inv t → guar k s t → R s t) →
        R c.state d.state := by
  induction hreach with
  | refl => exact ⟨h, rfl, fun R hrefl _ _ => hrefl _⟩
  | tail _ hstep ih =>
      obtain ⟨hupheld, hlen, hR⟩ := ih
      obtain ⟨hnext, k, hk, hguar⟩ := hupheld.step hstep
      refine ⟨hnext, (length_threads_of_step hstep).trans hlen, ?_⟩
      intro R hrefl htrans hkeep
      exact htrans _ _ _ (hR R hrefl htrans hkeep)
        (hkeep k (hlen ▸ hk) _ _ hupheld.state hnext.state hguar)

/-- A program that has ended has upheld its part. -/
theorem Upheld.done {k : ℕ} {a : α} (h : Upheld answers inv guar Q c)
    (hdone : c.threads[k]? = some (.done a)) : Q k a c.state := by
  obtain ⟨P, hP, -, hupholds⟩ := h.threads k _ hdone
  exact hupholds c.state h.state hP

/-- A program can run to its end without the others. -/
theorem reaches_run {h : Program.Handler ι ρ σ} {k : ℕ}
    (hanswers : ∀ i s, answers k i s (h i s).1 (h i s).2) (p : Program ι ρ α)
    {s : σ} {threads : List (Program ι ρ α)} (hthread : threads[k]? = some p) :
    Reaches answers ⟨s, threads⟩ ⟨(p.run h s).2, threads.set k (.done (p.run h s).1)⟩ := by
  have hk : k < threads.length := (List.getElem?_eq_some_iff.1 hthread).1
  induction p generalizing s threads with
  | done a =>
      obtain ⟨_, heq⟩ := List.getElem?_eq_some_iff.1 hthread
      rw [Program.run_done, ← heq, List.set_getElem_self]
  | call i next ih =>
      have hstep : Step answers ⟨s, threads⟩ ⟨(h i s).2, threads.set k (next (h i s).1)⟩ :=
        .call _ k i next _ _ hthread (hanswers i s)
      have hrest := ih (h i s).1 (s := (h i s).2) (List.getElem?_set_self hk)
        (by rwa [List.length_set])
      rw [List.set_set] at hrest
      exact Relation.ReflTransGen.head hstep hrest

end Together

end Interleave
