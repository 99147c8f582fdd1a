import Mathlib

/-!
# Programs that can be stopped between two calls

A `Program` is a sequential computation that acts on its environment only through
calls. The environment answers a call and changes its own state; a handler gives that
answer. Local computation is not observable, so the states a program can be stopped
in, by an error outside of it or by a crash, are the states before, between and after
its calls.

`run` executes a program to its end. `after n` is the state it leaves when it is
stopped after `n` calls. `Throughout P` says that `P` holds in all of these states; it
is the crash invariant of a program, and it composes over sequencing and over lists of
steps without mentioning `n`.

## Main definitions

* `Program ι ρ α` — programs over calls `ι` with answers `ρ`, a lawful monad.
* `Program.run`, `Program.after` — complete and interrupted execution.
* `Program.Throughout` — a property of every state a program passes through.
* `Program.throughout_bind`, `Program.after_of_throughout` — the rules.
* `Program.Obeys`, `Program.ObeysT` — programs that keep to some calls.
* `Program.exec`, `Program.exec_forM_ok`, `Program.iterate` — programs that can fail, and
  their loops.
* `Program.Meets`, `Program.Meets.bind`, `Program.meets_foldlM` — what a program passes
  through and what it ends with, and the rules.
-/

/-- A sequential program over the calls `ι`; the call `i` is answered in `ρ i`. -/
inductive Program (ι : Type) (ρ : ι → Type) (α : Type)
  /-- Return without a further call. -/
  | done (a : α)
  /-- Call the environment and continue with its answer. -/
  | call (i : ι) (next : ρ i → Program ι ρ α)

namespace Program

variable {ι : Type} {ρ : ι → Type} {σ α β γ : Type}

/-- Run the second program on the result of the first. -/
def bind : Program ι ρ α → (α → Program ι ρ β) → Program ι ρ β
  | .done a, f => f a
  | .call i next, f => .call i fun r => (next r).bind f

instance : Monad (Program ι ρ) where
  pure := .done
  bind := bind

/-- A single call, returning the answer. -/
def request (i : ι) : Program ι ρ (ρ i) := .call i .done

@[simp] theorem pure_eq (a : α) : (pure a : Program ι ρ α) = .done a := rfl
@[simp] theorem done_bind (a : α) (f : α → Program ι ρ β) : (Program.done a >>= f) = f a := rfl
@[simp] theorem call_bind (i : ι) (next : ρ i → Program ι ρ α) (f : α → Program ι ρ β) :
    (Program.call i next >>= f) = .call i fun r => next r >>= f := rfl

theorem bind_done (p : Program ι ρ α) : (p >>= Program.done) = p := by
  induction p with
  | done a => rfl
  | call i next ih => simp only [call_bind, ih]

protected theorem bind_assoc (p : Program ι ρ α) (f : α → Program ι ρ β) (g : β → Program ι ρ γ) :
    ((p >>= f) >>= g) = (p >>= fun a => f a >>= g) := by
  induction p with
  | done a => rfl
  | call i next ih => simp only [call_bind, ih]

instance : LawfulMonad (Program ι ρ) :=
  LawfulMonad.mk' (Program ι ρ) bind_done (fun _ _ => rfl) Program.bind_assoc

/-- How the environment answers a call and what the call does to its state. -/
abbrev Handler (ι : Type) (ρ : ι → Type) (σ : Type) := (i : ι) → σ → ρ i × σ

variable (h : Handler ι ρ σ)

/-- Execute to the end: the result and the state left behind. -/
def run : Program ι ρ α → σ → α × σ
  | .done a, s => (a, s)
  | .call i next, s => (next (h i s).1).run (h i s).2

/-- The state left behind by a program that is stopped after at most `n` calls. -/
def after : ℕ → Program ι ρ α → σ → σ
  | 0, _, s => s
  | _ + 1, .done _, s => s
  | n + 1, .call i next, s => after n (next (h i s).1) (h i s).2

/-- `P` holds before, between and after the calls of a program. -/
def Throughout (P : σ → Prop) : Program ι ρ α → σ → Prop
  | .done _, s => P s
  | .call i next, s => P s ∧ (next (h i s).1).Throughout P (h i s).2

@[simp] theorem run_done (a : α) (s : σ) : (Program.done a : Program ι ρ α).run h s = (a, s) := rfl
@[simp] theorem run_pure (a : α) (s : σ) : (pure a : Program ι ρ α).run h s = (a, s) := rfl
@[simp] theorem run_request (i : ι) (s : σ) :
    (request i : Program ι ρ (ρ i)).run h s = h i s := rfl

@[simp] theorem run_bind (p : Program ι ρ α) (f : α → Program ι ρ β) (s : σ) :
    (p >>= f).run h s = (f (p.run h s).1).run h (p.run h s).2 := by
  induction p generalizing s with
  | done a => rfl
  | call i next ih => exact ih _ _

@[simp] theorem throughout_pure (P : σ → Prop) (a : α) (s : σ) :
    (pure a : Program ι ρ α).Throughout h P s ↔ P s := Iff.rfl
@[simp] theorem throughout_done (P : σ → Prop) (a : α) (s : σ) :
    (Program.done a : Program ι ρ α).Throughout h P s ↔ P s := Iff.rfl
@[simp] theorem throughout_request (P : σ → Prop) (i : ι) (s : σ) :
    (request i : Program ι ρ (ρ i)).Throughout h P s ↔ P s ∧ P (h i s).2 := Iff.rfl

/-- A property that holds throughout holds at the start. -/
theorem Throughout.start {P : σ → Prop} {p : Program ι ρ α} {s : σ}
    (hp : p.Throughout h P s) : P s := by
  cases p with
  | done a => exact hp
  | call i next => exact hp.1

/-- A property that holds throughout holds at the end. -/
theorem Throughout.finish {P : σ → Prop} {p : Program ι ρ α} {s : σ}
    (hp : p.Throughout h P s) : P (p.run h s).2 := by
  induction p generalizing s with
  | done a => exact hp
  | call i next ih => exact ih _ hp.2

/-- Sequencing: the second program starts where the first one ends. -/
theorem throughout_bind (P : σ → Prop) (p : Program ι ρ α) (f : α → Program ι ρ β) (s : σ) :
    (p >>= f).Throughout h P s ↔
      p.Throughout h P s ∧ (f (p.run h s).1).Throughout h P (p.run h s).2 := by
  induction p generalizing s with
  | done a => exact ⟨fun hf => ⟨hf.start h, hf⟩, And.right⟩
  | call i next ih =>
      simp only [call_bind, Throughout, run]
      rw [ih]
      exact and_assoc.symm

theorem Throughout.mono {P Q : σ → Prop} (hPQ : ∀ s, P s → Q s) {p : Program ι ρ α} {s : σ}
    (hp : p.Throughout h P s) : p.Throughout h Q s := by
  induction p generalizing s with
  | done a => exact hPQ _ hp
  | call i next ih => exact ⟨hPQ _ hp.1, ih _ hp.2⟩

theorem Throughout.and {P Q : σ → Prop} {p : Program ι ρ α} {s : σ}
    (hp : p.Throughout h P s) (hq : p.Throughout h Q s) :
    p.Throughout h (fun t => P t ∧ Q t) s := by
  induction p generalizing s with
  | done a => exact ⟨hp, hq⟩
  | call i next ih => exact ⟨⟨hp.1, hq.1⟩, ih _ hp.2 hq.2⟩

/-- Wherever a program is stopped, a property that holds throughout holds. -/
theorem after_of_throughout {P : σ → Prop} (n : ℕ) {p : Program ι ρ α} {s : σ}
    (hp : p.Throughout h P s) : P (p.after h n s) := by
  induction n generalizing p s with
  | zero => exact hp.start h
  | succ n ih =>
      cases p with
      | done a => exact hp
      | call i next => exact ih hp.2

/-- A property preserved by every call a program can make holds throughout. -/
theorem throughout_of_preserved {P : σ → Prop} (hstep : ∀ i s, P s → P (h i s).2)
    (p : Program ι ρ α) {s : σ} (hs : P s) : p.Throughout h P s := by
  induction p generalizing s with
  | done a => exact hs
  | call i next ih => exact ⟨hs, ih _ (hstep i s hs)⟩

/-! ## Programs that keep to some calls -/

/-- The program makes only the calls in `allowed` and returns with `post`, as long as the
answers it gets are among the `possible` ones. -/
def Obeys (possible : (i : ι) → ρ i → Prop) (allowed : ι → Prop) (post : α → Prop) :
    Program ι ρ α → Prop
  | .done a => post a
  | .call i next => allowed i ∧ ∀ r, possible i r → (next r).Obeys possible allowed post

section Obeys

variable {possible : (i : ι) → ρ i → Prop} {allowed : ι → Prop} {post : α → Prop}

theorem Obeys.mono {post' : α → Prop} (hpost : ∀ a, post a → post' a) {p : Program ι ρ α}
    (hp : p.Obeys possible allowed post) : p.Obeys possible allowed post' := by
  induction p with
  | done a => exact hpost a hp
  | call i next ih => exact ⟨hp.1, fun r hr => ih r (hp.2 r hr)⟩

/-- A program that keeps to some calls keeps to more. -/
theorem Obeys.weaken {allowed' : ι → Prop} (hallowed : ∀ i, allowed i → allowed' i)
    {p : Program ι ρ α} (hp : p.Obeys possible allowed post) :
    p.Obeys possible allowed' post := by
  induction p with
  | done a => exact hp
  | call i next ih => exact ⟨hallowed i hp.1, fun r hr => ih r (hp.2 r hr)⟩

/-- Sequencing: the second program relies on what the first one returns. -/
theorem obeys_bind {post : β → Prop} (p : Program ι ρ α) (f : α → Program ι ρ β) :
    (p >>= f).Obeys possible allowed post ↔
      p.Obeys possible allowed fun a => (f a).Obeys possible allowed post := by
  induction p with
  | done a => rfl
  | call i next ih => exact and_congr_right fun _ => forall₂_congr fun r _ => ih r

/-- What the allowed calls preserve holds throughout the program. -/
theorem Obeys.throughout {P : σ → Prop} (hanswer : ∀ i s, P s → possible i (h i s).1)
    (hstep : ∀ i s, allowed i → P s → P (h i s).2) {p : Program ι ρ α}
    (hp : p.Obeys possible allowed post) {s : σ} (hs : P s) : p.Throughout h P s := by
  induction p generalizing s with
  | done a => exact hs
  | call i next ih => exact ⟨hs, ih _ (hp.2 _ (hanswer i s hs)) (hstep i s hp.1 hs)⟩

/-- What a program returns when what the allowed calls preserve holds at the start. -/
theorem Obeys.run_fst {P : σ → Prop} (hanswer : ∀ i s, P s → possible i (h i s).1)
    (hstep : ∀ i s, allowed i → P s → P (h i s).2) {p : Program ι ρ α}
    (hp : p.Obeys possible allowed post) {s : σ} (hs : P s) : post (p.run h s).1 := by
  induction p generalizing s with
  | done a => exact hp
  | call i next ih => exact ih _ (hp.2 _ (hanswer i s hs)) (hstep i s hp.1 hs)

end Obeys

/-! ## Calls to a larger environment -/

section Embed

variable {κ : Type} {θ : κ → Type}

/-- The same program for an environment that answers more calls. -/
def embed (f : ι → κ) (g : (i : ι) → θ (f i) → ρ i) : Program ι ρ α → Program κ θ α
  | .done a => .done a
  | .call i next => .call (f i) fun r => (next (g i r)).embed f g

/-- How the larger environment answers the calls of the smaller one. -/
def restrict (f : ι → κ) (g : (i : ι) → θ (f i) → ρ i) (k : Handler κ θ σ) : Handler ι ρ σ :=
  fun i s => (g i (k (f i) s).1, (k (f i) s).2)

@[simp] theorem run_embed (f : ι → κ) (g : (i : ι) → θ (f i) → ρ i) (k : Handler κ θ σ)
    (p : Program ι ρ α) (s : σ) : (p.embed f g).run k s = p.run (restrict f g k) s := by
  induction p generalizing s with
  | done a => rfl
  | call i next ih => exact ih _ _

@[simp] theorem throughout_embed (f : ι → κ) (g : (i : ι) → θ (f i) → ρ i) (k : Handler κ θ σ)
    (P : σ → Prop) (p : Program ι ρ α) (s : σ) :
    (p.embed f g).Throughout k P s ↔ p.Throughout (restrict f g k) P s := by
  induction p generalizing s with
  | done a => rfl
  | call i next ih =>
      simp only [embed, Throughout, ih]
      rfl

end Embed

/-! ## Programs that can fail -/

/-- A single call in a program that can fail otherwise. -/
def requestT {ε : Type} (i : ι) : ExceptT ε (Program ι ρ) (ρ i) := ExceptT.lift (request i)

/-- Execute a program that can fail to its end, or to its first failure. -/
def exec {ε : Type} (p : ExceptT ε (Program ι ρ) α) (s : σ) : Except ε α × σ :=
  run h (ExceptT.run p) s

section Exec

variable {ε : Type}

@[simp] theorem exec_pure (a : α) (s : σ) :
    exec h (pure a : ExceptT ε (Program ι ρ) α) s = (.ok a, s) := rfl

@[simp] theorem exec_throw (e : ε) (s : σ) :
    exec h (throw e : ExceptT ε (Program ι ρ) α) s = (.error e, s) := rfl

@[simp] theorem exec_requestT (i : ι) (s : σ) :
    exec h (requestT i : ExceptT ε (Program ι ρ) (ρ i)) s = (.ok (h i s).1, (h i s).2) := rfl

@[simp] theorem exec_mk (p : Program ι ρ (Except ε α)) (s : σ) :
    exec h (ExceptT.mk p) s = p.run h s := rfl

theorem exec_bind (p : ExceptT ε (Program ι ρ) α) (f : α → ExceptT ε (Program ι ρ) β) (s : σ) :
    exec h (p >>= f) s = match exec h p s with
      | (.ok a, t) => exec h (f a) t
      | (.error e, t) => (.error e, t) := by
  change run h (ExceptT.run p >>= ExceptT.bindCont f) s = _
  rw [run_bind]
  unfold exec
  rcases run h (ExceptT.run p) s with ⟨r, t⟩
  cases r <;> rfl

theorem exec_bind_ok {p : ExceptT ε (Program ι ρ) α} {f : α → ExceptT ε (Program ι ρ) β} {a : α}
    {s t : σ} (hp : exec h p s = (.ok a, t)) : exec h (p >>= f) s = exec h (f a) t := by
  rw [exec_bind, hp]

theorem exec_bind_error {p : ExceptT ε (Program ι ρ) α} {f : α → ExceptT ε (Program ι ρ) β}
    {e : ε} {s t : σ} (hp : exec h p s = (.error e, t)) :
    exec h (p >>= f) s = (.error e, t) := by
  rw [exec_bind, hp]

theorem exec_map_ok {p : ExceptT ε (Program ι ρ) α} {f : α → β} {a : α} {s t : σ}
    (hp : exec h p s = (.ok a, t)) : exec h (f <$> p) s = (.ok (f a), t) := by
  rw [← bind_pure_comp, exec_bind_ok h hp]
  rfl

theorem exec_map_error {p : ExceptT ε (Program ι ρ) α} {f : α → β} {e : ε} {s t : σ}
    (hp : exec h p s = (.error e, t)) : exec h (f <$> p) s = (.error e, t) := by
  rw [← bind_pure_comp, exec_bind_error h hp]

/-- A failure is handled in the state it leaves. -/
theorem exec_tryCatch (p : ExceptT ε (Program ι ρ) α) (handle : ε → ExceptT ε (Program ι ρ) α)
    (s : σ) : exec h (tryCatch p handle) s = match exec h p s with
      | (.ok a, t) => (.ok a, t)
      | (.error e, t) => exec h (handle e) t := by
  change run h (ExceptT.run p >>= _) s = _
  rw [run_bind]
  unfold exec
  rcases run h (ExceptT.run p) s with ⟨r, t⟩
  cases r <;> rfl

/-- A sequence ends well when both parts do. -/
theorem exec_bind_eq_ok {p : ExceptT ε (Program ι ρ) α} {f : α → ExceptT ε (Program ι ρ) β}
    {b : β} {s t : σ} : exec h (p >>= f) s = (.ok b, t) ↔
      ∃ a u, exec h p s = (.ok a, u) ∧ exec h (f a) u = (.ok b, t) := by
  rw [exec_bind]
  constructor
  · intro hb
    split at hb
    · rename_i a u hp; exact ⟨a, u, hp, hb⟩
    · simp at hb
  · rintro ⟨a, u, hp, hb⟩
    simp only [hp, hb]

/-- A loop over a list succeeds when an invariant about the elements done so far leads
every step to success. -/
theorem exec_forM_ok {l : List β} {f : β → ExceptT ε (Program ι ρ) PUnit}
    (inv : List β → σ → Prop) {s : σ} (start : inv [] s)
    (step : ∀ done x rest s, l = done ++ x :: rest → inv done s →
      ∃ t, exec h (f x) s = (.ok ⟨⟩, t) ∧ inv (done ++ [x]) t) :
    ∃ t, exec h (forM l f) s = (.ok ⟨⟩, t) ∧ inv l t := by
  suffices key : ∀ rest done s, l = done ++ rest → inv done s →
      ∃ t, exec h (forM rest f) s = (.ok ⟨⟩, t) ∧ inv l t from key l [] s rfl start
  intro rest
  induction rest with
  | nil =>
      intro done s hl hinv
      rw [List.append_nil] at hl
      exact ⟨s, rfl, hl ▸ hinv⟩
  | cons x rest ih =>
      intro done s hl hinv
      obtain ⟨t, ht, hinv'⟩ := step done x rest s hl hinv
      obtain ⟨u, hu, hfinal⟩ := ih (done ++ [x]) t (by simpa using hl) hinv'
      refine ⟨u, ?_, hfinal⟩
      rw [List.forM_cons, exec_bind_eq_ok]
      exact ⟨⟨⟩, t, ht, hu⟩

/-- What the steps of a loop establish one after the other holds when the loop succeeds. -/
theorem exec_forM_inv {l : List β} {f : β → ExceptT ε (Program ι ρ) PUnit}
    (inv : List β → σ → Prop) {s t : σ} (start : inv [] s)
    (step : ∀ done x s t, inv done s → exec h (f x) s = (.ok ⟨⟩, t) → inv (done ++ [x]) t)
    (hrun : exec h (forM l f) s = (.ok ⟨⟩, t)) : inv l t := by
  suffices key : ∀ rest done s, inv done s → exec h (forM rest f) s = (.ok ⟨⟩, t) →
      inv (done ++ rest) t from key l [] s start hrun
  intro rest
  induction rest with
  | nil =>
      intro done s hinv hrest
      obtain rfl : s = t := congrArg Prod.snd hrest
      rwa [List.append_nil]
  | cons x rest ih =>
      intro done s hinv hrest
      rw [List.forM_cons, exec_bind_eq_ok] at hrest
      obtain ⟨⟨⟩, u, hx, hrest⟩ := hrest
      have hlast := ih (done ++ [x]) u (step done x s u hinv hx) hrest
      rwa [List.append_assoc] at hlast

/-- A loop fails when one of its steps does, whatever the steps before it did. -/
theorem exec_forM_ne_ok {l : List β} {f : β → ExceptT ε (Program ι ρ) PUnit}
    (inv : σ → Prop) {s : σ} (start : inv s)
    (keep : ∀ x s t, inv s → exec h (f x) s = (.ok ⟨⟩, t) → inv t) {x : β} (hx : x ∈ l)
    (stuck : ∀ s t, inv s → exec h (f x) s ≠ (.ok ⟨⟩, t)) (t : σ) :
    exec h (forM l f) s ≠ (.ok ⟨⟩, t) := by
  induction l generalizing s with
  | nil => simp at hx
  | cons y l ih =>
      rw [List.forM_cons, ne_eq, exec_bind_eq_ok]
      rintro ⟨⟨⟩, u, hy, hl⟩
      rcases List.mem_cons.mp hx with rfl | hx
      · exact stuck s u start hy
      · exact ih (keep y s u start hy) hx hl

/-- Repeat a program, at most `n` times, until it returns a result on the right. On the left
it returns what the next repetition starts from. -/
def iterate (body : α → ExceptT ε (Program ι ρ) (α ⊕ β)) :
    ℕ → α → ExceptT ε (Program ι ρ) (α ⊕ β)
  | 0, a => pure (.inl a)
  | n + 1, a => do
      let next ← body a
      match next with
      | .inl a => iterate body n a
      | .inr b => pure (.inr b)

section ObeysT

variable {possible : (i : ι) → ρ i → Prop} {allowed : ι → Prop}

/-- A program that can fail keeps to some calls, and returns with `post` if it succeeds. -/
def ObeysT (possible : (i : ι) → ρ i → Prop) (allowed : ι → Prop) (post : α → Prop)
    (p : ExceptT ε (Program ι ρ) α) : Prop :=
  (ExceptT.run p).Obeys possible allowed fun r => ∀ a, r = .ok a → post a

theorem obeysT_pure {post : α → Prop} {a : α} (ha : post a) :
    ObeysT (ε := ε) possible allowed post (pure a : ExceptT ε (Program ι ρ) α) := by
  rintro b hb
  exact Except.ok.inj hb ▸ ha

theorem obeysT_throw {post : α → Prop} (e : ε) :
    ObeysT possible allowed post (throw e : ExceptT ε (Program ι ρ) α) := by
  rintro b hb
  simp at hb

theorem obeysT_requestT {i : ι} (hi : allowed i) :
    ObeysT (ε := ε) possible allowed (possible i) (requestT i) := by
  refine ⟨hi, fun r hr a ha => ?_⟩
  exact Except.ok.inj ha ▸ hr

theorem ObeysT.bind {post : β → Prop} {p : ExceptT ε (Program ι ρ) α} {M : α → Prop}
    {f : α → ExceptT ε (Program ι ρ) β} (hp : ObeysT possible allowed M p)
    (hf : ∀ a, M a → ObeysT possible allowed post (f a)) :
    ObeysT possible allowed post (p >>= f) := by
  change (ExceptT.run p >>= ExceptT.bindCont f).Obeys possible allowed _
  rw [obeys_bind]
  refine hp.mono fun r hr => ?_
  cases r with
  | error e => rintro b hb; simp at hb
  | ok a => exact hf a (hr a rfl)

theorem obeysT_forM {l : List β} {f : β → ExceptT ε (Program ι ρ) PUnit}
    (hf : ∀ x ∈ l, ObeysT possible allowed (fun _ => True) (f x)) :
    ObeysT possible allowed (fun _ => True) (forM l f) := by
  induction l with
  | nil => exact obeysT_pure trivial
  | cons x l ih =>
      rw [List.forM_cons]
      exact (hf x (by simp)).bind fun _ _ => ih fun y hy => hf y (by simp [hy])

theorem obeysT_foldlM {l : List β} {f : γ → β → ExceptT ε (Program ι ρ) γ} (a : γ)
    (hf : ∀ a, ∀ x ∈ l, ObeysT possible allowed (fun _ => True) (f a x)) :
    ObeysT possible allowed (fun _ => True) (l.foldlM f a) := by
  induction l generalizing a with
  | nil => exact obeysT_pure trivial
  | cons x l ih =>
      rw [List.foldlM_cons]
      exact (hf a x (by simp)).bind fun b _ => ih b fun c y hy => hf c y (by simp [hy])

theorem ObeysT.mono {post post' : α → Prop} {p : ExceptT ε (Program ι ρ) α}
    (hp : ObeysT possible allowed post p) (hpost : ∀ a, post a → post' a) :
    ObeysT possible allowed post' p :=
  Obeys.mono (fun _ hr a ha => hpost a (hr a ha)) hp

theorem ObeysT.weaken {post : α → Prop} {allowed' : ι → Prop}
    (hallowed : ∀ i, allowed i → allowed' i) {p : ExceptT ε (Program ι ρ) α}
    (hp : ObeysT possible allowed post p) : ObeysT possible allowed' post p :=
  Obeys.weaken hallowed hp

/-- What the allowed calls preserve holds at the end. -/
theorem ObeysT.exec_snd {P : σ → Prop} {post : α → Prop}
    (hanswer : ∀ i s, P s → possible i (h i s).1)
    (hstep : ∀ i s, allowed i → P s → P (h i s).2) {p : ExceptT ε (Program ι ρ) α}
    (hp : ObeysT possible allowed post p) {s : σ} (hs : P s) : P (exec h p s).2 :=
  (Obeys.throughout h hanswer hstep hp hs).finish h

end ObeysT

/-! ## Programs under a crash invariant -/

section Meets

/-- The program passes through states with `P` only. If it succeeds it ends with `Q`, and if
it fails with `E`. -/
def Meets (P : σ → Prop) (p : ExceptT ε (Program ι ρ) α) (s : σ) (Q : α → σ → Prop)
    (E : ε → σ → Prop) : Prop :=
  (ExceptT.run p).Throughout h P s ∧ match exec h p s with
    | (.ok a, t) => Q a t
    | (.error e, t) => E e t

variable {h} {P : σ → Prop} {s : σ} {E : ε → σ → Prop}

theorem meets_pure {Q : α → σ → Prop} {a : α} (hs : P s) (hq : Q a s) :
    Meets h P (pure a : ExceptT ε (Program ι ρ) α) s Q E :=
  ⟨hs, hq⟩

theorem meets_throw {Q : α → σ → Prop} {e : ε} (hs : P s) (he : E e s) :
    Meets h P (throw e : ExceptT ε (Program ι ρ) α) s Q E :=
  ⟨hs, he⟩

theorem meets_requestT {i : ι} {Q : ρ i → σ → Prop} (hs : P s) (ht : P (h i s).2)
    (hq : Q (h i s).1 (h i s).2) :
    Meets h P (requestT i : ExceptT ε (Program ι ρ) (ρ i)) s Q E :=
  ⟨⟨hs, ht⟩, hq⟩

/-- What is known of an execution to the end. -/
theorem meets_of_exec {p : ExceptT ε (Program ι ρ) α} {Q : α → σ → Prop} {a : α} {t : σ}
    (hrun : exec h p s = (.ok a, t)) (hq : Q a t) : Meets h (fun _ => True) p s Q E := by
  refine ⟨throughout_of_preserved h (fun _ _ _ => trivial) _ trivial, ?_⟩
  rw [hrun]
  exact hq

/-- Every program ends the way it is executed. -/
theorem meets_exec (p : ExceptT ε (Program ι ρ) α) : Meets h (fun _ => True) p s
    (fun a t => exec h p s = (.ok a, t)) (fun e t => exec h p s = (.error e, t)) := by
  refine ⟨throughout_of_preserved h (fun _ _ _ => trivial) _ trivial, ?_⟩
  rcases hrun : exec h p s with ⟨e | a, t⟩
  · rfl
  · rfl

theorem Meets.throughout {p : ExceptT ε (Program ι ρ) α} {Q : α → σ → Prop}
    (hp : Meets h P p s Q E) : (ExceptT.run p).Throughout h P s := hp.1

theorem Meets.ok {p : ExceptT ε (Program ι ρ) α} {Q : α → σ → Prop} (hp : Meets h P p s Q E)
    {a : α} {t : σ} (hrun : exec h p s = (.ok a, t)) : Q a t := by
  have hq := hp.2
  rwa [hrun] at hq

theorem Meets.error {p : ExceptT ε (Program ι ρ) α} {Q : α → σ → Prop} (hp : Meets h P p s Q E)
    {e : ε} {t : σ} (hrun : exec h p s = (.error e, t)) : E e t := by
  have hq := hp.2
  rwa [hrun] at hq

/-- A program that cannot fail succeeds. -/
theorem Meets.exists_ok {p : ExceptT ε (Program ι ρ) α} {Q : α → σ → Prop}
    (hp : Meets h P p s Q fun _ _ => False) : ∃ a t, exec h p s = (.ok a, t) ∧ Q a t := by
  rcases hrun : exec h p s with ⟨e | a, t⟩
  · exact (hp.error hrun).elim
  · exact ⟨a, t, rfl, hp.ok hrun⟩

theorem Meets.mono {p : ExceptT ε (Program ι ρ) α} {Q Q' : α → σ → Prop} {E' : ε → σ → Prop}
    (hp : Meets h P p s Q E) (hQ : ∀ a t, Q a t → Q' a t) (hE : ∀ e t, E e t → E' e t) :
    Meets h P p s Q' E' := by
  refine ⟨hp.1, ?_⟩
  have hq := hp.2
  split
  · rename_i a t hrun
    rw [hrun] at hq
    exact hQ a t hq
  · rename_i e t hrun
    rw [hrun] at hq
    exact hE e t hq

/-- The state a program ends in is the one that its execution leaves. -/
theorem Meets.exec_snd {p : ExceptT ε (Program ι ρ) α} {Q : α → σ → Prop}
    (hp : Meets h P p s Q E) : Meets h P p s (fun a t => Q a t ∧ t = (exec h p s).2)
      (fun e t => E e t ∧ t = (exec h p s).2) := by
  refine ⟨hp.1, ?_⟩
  have hq := hp.2
  split
  · rename_i a t hrun
    rw [hrun] at hq ⊢
    exact ⟨hq, rfl⟩
  · rename_i e t hrun
    rw [hrun] at hq ⊢
    exact ⟨hq, rfl⟩

theorem Meets.safe {P' : σ → Prop} {p : ExceptT ε (Program ι ρ) α} {Q : α → σ → Prop}
    (hp : Meets h P p s Q E) (hP : ∀ t, P t → P' t) : Meets h P' p s Q E :=
  ⟨hp.1.mono h hP, hp.2⟩

/-- Sequencing. A failure of the first part is a failure of both. -/
theorem Meets.bind {p : ExceptT ε (Program ι ρ) α} {f : α → ExceptT ε (Program ι ρ) β}
    {R : α → σ → Prop} {Q : β → σ → Prop} {F : ε → σ → Prop} (hp : Meets h P p s R F)
    (hf : ∀ a t, P t → R a t → Meets h P (f a) t Q E) (hF : ∀ e t, F e t → E e t) :
    Meets h P (p >>= f) s Q E := by
  obtain ⟨hthrough, hend⟩ := hp
  constructor
  · change (ExceptT.run p >>= ExceptT.bindCont f).Throughout h P s
    rw [throughout_bind]
    refine ⟨hthrough, ?_⟩
    have hlast := hthrough.finish h
    change match (ExceptT.run p).run h s with
      | (.ok a, t) => R a t
      | (.error e, t) => F e t at hend
    rcases hrun : (ExceptT.run p).run h s with ⟨r, t⟩
    rw [hrun] at hend hlast
    cases r with
    | error e => exact hlast
    | ok a => exact (hf a t hlast hend).1
  · rw [exec_bind]
    have hlast : P (exec h p s).2 := hthrough.finish h
    rcases hrun : exec h p s with ⟨r, t⟩
    rw [hrun] at hend hlast
    cases r with
    | error e => exact hF e t hend
    | ok a => exact (hf a t hlast hend).2

/-- A call, and what follows on its answer. -/
theorem meets_requestT_bind {i : ι} {f : ρ i → ExceptT ε (Program ι ρ) β} {Q : β → σ → Prop}
    (hs : P s) (hf : Meets h P (f (h i s).1) (h i s).2 Q E) :
    Meets h P (requestT i >>= f) s Q E :=
  ⟨⟨hs, hf.1⟩, hf.2⟩

/-- A loop with an accumulator. The invariant is about the elements done so far. -/
theorem meets_foldlM {l : List β} {f : γ → β → ExceptT ε (Program ι ρ) γ}
    (inv : List β → γ → σ → Prop) {a : γ} (start : inv [] a s) (safe : ∀ a s, inv l a s → P s)
    (step : ∀ done x rest a s, l = done ++ x :: rest → inv done a s →
      Meets h P (f a x) s (inv (done ++ [x])) E) :
    Meets h P (l.foldlM f a) s (inv l) E := by
  suffices key : ∀ rest done a s, l = done ++ rest → inv done a s →
      Meets h P (rest.foldlM f a) s (inv l) E from key l [] a s rfl start
  intro rest
  induction rest with
  | nil =>
      intro done a s hl hinv
      rw [List.append_nil] at hl
      subst hl
      exact meets_pure (safe a s hinv) hinv
  | cons x rest ih =>
      intro done a s hl hinv
      rw [List.foldlM_cons]
      refine (step done x rest a s hl hinv).bind (fun b t _ hb => ?_) fun _ _ he => he
      exact ih (done ++ [x]) b t (by simpa using hl) hb

/-- A loop without an accumulator. -/
theorem meets_forM {l : List β} {f : β → ExceptT ε (Program ι ρ) PUnit}
    (inv : List β → σ → Prop) (start : inv [] s) (safe : ∀ s, inv l s → P s)
    (step : ∀ done x rest s, l = done ++ x :: rest → inv done s →
      Meets h P (f x) s (fun _ => inv (done ++ [x])) E) :
    Meets h P (forM l f) s (fun _ => inv l) E := by
  suffices key : ∀ rest done s, l = done ++ rest → inv done s →
      Meets h P (forM rest f) s (fun _ => inv l) E from key l [] s rfl start
  intro rest
  induction rest with
  | nil =>
      intro done s hl hinv
      rw [List.append_nil] at hl
      subst hl
      exact meets_pure (safe s hinv) hinv
  | cons x rest ih =>
      intro done s hl hinv
      rw [List.forM_cons]
      refine (step done x rest s hl hinv).bind (fun _ t _ hb => ?_) fun _ _ he => he
      exact ih (done ++ [x]) t (by simpa using hl) hb

/-- A program that keeps to calls that preserve `P`. -/
theorem ObeysT.meets {possible : (i : ι) → ρ i → Prop} {allowed : ι → Prop} {post : α → Prop}
    (hanswer : ∀ i s, P s → possible i (h i s).1)
    (hstep : ∀ i s, allowed i → P s → P (h i s).2) {p : ExceptT ε (Program ι ρ) α}
    (hp : ObeysT possible allowed post p) (hs : P s) :
    Meets h P p s (fun a t => post a ∧ P t) (fun _ t => P t) := by
  have hthrough : (ExceptT.run p).Throughout h P s := Obeys.throughout h hanswer hstep hp hs
  have hpost := Obeys.run_fst h hanswer hstep hp hs
  refine ⟨hthrough, ?_⟩
  have hlast : P (exec h p s).2 := hthrough.finish h
  split
  · rename_i a t hrun
    rw [hrun] at hlast
    exact ⟨hpost a (congrArg Prod.fst hrun), hlast⟩
  · rename_i e t hrun
    rwa [hrun] at hlast

end Meets

/-! ## Conditions on the calls of a run -/

section Along

/-- Every call of a run is made in a state in which it may be made. -/
def Along (C : ι → σ → Prop) : Program ι ρ α → σ → Prop
  | .done _, _ => True
  | .call i next, s => C i s ∧ (next (h i s).1).Along C (h i s).2

instance decidableAlong (C : ι → σ → Prop) [∀ i s, Decidable (C i s)] :
    ∀ (p : Program ι ρ α) (s : σ), Decidable (p.Along h C s)
  | .done _, _ => .isTrue trivial
  | .call i next, s =>
      let _ := decidableAlong C (next (h i s).1) (h i s).2
      inferInstanceAs (Decidable (C i s ∧ (next (h i s).1).Along h C (h i s).2))

theorem along_bind (C : ι → σ → Prop) (p : Program ι ρ α) (f : α → Program ι ρ β) (s : σ) :
    (p >>= f).Along h C s ↔ p.Along h C s ∧ (f (p.run h s).1).Along h C (p.run h s).2 := by
  induction p generalizing s with
  | done a => exact (and_iff_right trivial).symm
  | call i next ih =>
      simp only [call_bind, Along, run]
      rw [ih]
      exact and_assoc.symm

/-- What a program that can fail meets in the runs whose calls are all made where they may
be made. -/
def Within (C : ι → σ → Prop) (P : σ → Prop) (p : ExceptT ε (Program ι ρ) α) (s : σ)
    (Q : α → σ → Prop) (E : ε → σ → Prop) : Prop :=
  (ExceptT.run p).Along h C s → Meets h P p s Q E

variable {h} {C : ι → σ → Prop} {P : σ → Prop} {s : σ} {E : ε → σ → Prop}

theorem Meets.within {p : ExceptT ε (Program ι ρ) α} {Q : α → σ → Prop}
    (hp : Meets h P p s Q E) : Within h C P p s Q E := fun _ => hp

theorem Within.mono {p : ExceptT ε (Program ι ρ) α} {Q Q' : α → σ → Prop}
    (hp : Within h C P p s Q E) (hQ : ∀ a t, Q a t → Q' a t) : Within h C P p s Q' E :=
  fun halong => (hp halong).mono hQ fun _ _ he => he

/-- Sequencing. -/
theorem Within.bind {p : ExceptT ε (Program ι ρ) α} {f : α → ExceptT ε (Program ι ρ) β}
    {R : α → σ → Prop} {Q : β → σ → Prop} {F : ε → σ → Prop} (hp : Within h C P p s R F)
    (hf : ∀ a t, P t → R a t → Within h C P (f a) t Q E) (hF : ∀ e t, F e t → E e t) :
    Within h C P (p >>= f) s Q E := by
  intro halong
  change (ExceptT.run p >>= ExceptT.bindCont f).Along h C s at halong
  rw [along_bind] at halong
  obtain ⟨hfirst, hsecond⟩ := halong
  have hmeets := hp hfirst
  have hend : Meets h P p s (fun a t => R a t ∧ exec h p s = (.ok a, t)) F := by
    refine ⟨hmeets.1, ?_⟩
    rcases hrun : exec h p s with ⟨e | a, t⟩
    · exact hmeets.error hrun
    · exact ⟨hmeets.ok hrun, rfl⟩
  refine hend.bind (fun a t ht hR => hf a t ht hR.1 ?_) hF
  change (ExceptT.bindCont f (exec h p s).1).Along h C (exec h p s).2 at hsecond
  rw [hR.2] at hsecond
  exact hsecond

/-- A call, and what follows on its answer. -/
theorem within_requestT_bind {i : ι} {f : ρ i → ExceptT ε (Program ι ρ) β} {Q : β → σ → Prop}
    (hs : P s) (hf : C i s → Within h C P (f (h i s).1) (h i s).2 Q E) :
    Within h C P (requestT i >>= f) s Q E :=
  fun halong => meets_requestT_bind hs (hf halong.1 halong.2)

theorem Within.map {p : ExceptT ε (Program ι ρ) α} {f : α → β} {Q : β → σ → Prop}
    (hp : Within h C P p s (fun a t => Q (f a) t) E) : Within h C P (f <$> p) s Q E := by
  rw [← bind_pure_comp]
  exact hp.bind (fun _ _ ht hq => Meets.within (meets_pure ht hq)) fun _ _ he => he

/-- A loop that is stopped early has made some of its calls. -/
theorem along_iterate {body : α → ExceptT ε (Program ι ρ) (α ⊕ β)} {m n : ℕ} (hmn : m ≤ n) {a : α}
    (halong : (ExceptT.run (iterate body n a)).Along h C s) :
    (ExceptT.run (iterate body m a)).Along h C s := by
  induction n generalizing m a s with
  | zero =>
      obtain rfl : m = 0 := by omega
      exact halong
  | succ n ih =>
      cases m with
      | zero => exact trivial
      | succ m =>
          change (ExceptT.run (body a) >>= ExceptT.bindCont _).Along h C s at halong ⊢
          rw [along_bind] at halong ⊢
          refine ⟨halong.1, ?_⟩
          have hrest := halong.2
          rcases hrun : run h (ExceptT.run (body a)) s with ⟨e | r, t⟩
          · exact trivial
          · rw [hrun] at hrest
            cases r with
            | inl b => exact ih (by omega) hrest
            | inr b => exact trivial

/-- Handling a failure comes after the program. -/
theorem run_tryCatch (p : ExceptT ε (Program ι ρ) α) (handle : ε → ExceptT ε (Program ι ρ) α) :
    ExceptT.run (tryCatch p handle) = ExceptT.run p >>= fun r =>
      ExceptT.run (r.casesOn handle pure) := by
  change (ExceptT.run p >>= _) = _
  congr 1
  funext r
  cases r with
  | error e => rfl
  | ok a => rfl

theorem obeysT_tryCatch {possible : (i : ι) → ρ i → Prop} {allowed : ι → Prop} {post : α → Prop}
    {p : ExceptT ε (Program ι ρ) α} {handle : ε → ExceptT ε (Program ι ρ) α}
    (hp : ObeysT possible allowed post p) (hhandle : ∀ e, ObeysT possible allowed post (handle e)) :
    ObeysT possible allowed post (tryCatch p handle) := by
  unfold ObeysT
  rw [run_tryCatch, obeys_bind]
  refine Obeys.mono (fun r hr => ?_) hp
  cases r with
  | error e => exact hhandle e
  | ok a => exact obeysT_pure (hr a rfl)

theorem along_of_tryCatch {p : ExceptT ε (Program ι ρ) α}
    {handle : ε → ExceptT ε (Program ι ρ) α}
    (halong : (ExceptT.run (tryCatch p handle)).Along h C s) : (ExceptT.run p).Along h C s := by
  rw [run_tryCatch, along_bind] at halong
  exact halong.1

/-- A failure is handled in the state it leaves. -/
theorem within_tryCatch {p : ExceptT ε (Program ι ρ) α} {handle : ε → ExceptT ε (Program ι ρ) α}
    {Q : α → σ → Prop} {F : ε → σ → Prop} (hp : Within h C P p s Q F)
    (hhandle : ∀ e t, P t → F e t → Within h C P (handle e) t Q E) :
    Within h C P (tryCatch p handle) s Q E := by
  intro halong
  have hrun := run_tryCatch p handle
  rw [hrun, along_bind] at halong
  obtain ⟨hfirst, hsecond⟩ := halong
  have hmeets := hp hfirst
  have hlast : P (run h (ExceptT.run p) s).2 := hmeets.1.finish h
  unfold Meets
  rw [hrun, throughout_bind, exec, hrun, run_bind]
  rcases hend : run h (ExceptT.run p) s with ⟨e | a, t⟩
  · rw [hend] at hsecond hlast
    have hcaught := hhandle e t hlast (hmeets.error hend) hsecond
    exact ⟨⟨hmeets.1, hcaught.1⟩, hcaught.2⟩
  · rw [hend] at hlast
    exact ⟨⟨hmeets.1, hlast⟩, hmeets.ok hend⟩

end Along

/-- The same program for an environment that answers more calls. -/
def embedT {κ : Type} {θ : κ → Type} (f : ι → κ) (g : (i : ι) → θ (f i) → ρ i)
    (p : ExceptT ε (Program ι ρ) α) : ExceptT ε (Program κ θ) α :=
  ExceptT.mk (embed f g (ExceptT.run p))

theorem meets_embedT {κ : Type} {θ : κ → Type} {f : ι → κ} {g : (i : ι) → θ (f i) → ρ i}
    {k : Handler κ θ σ} {P : σ → Prop} {p : ExceptT ε (Program ι ρ) α} {s : σ} {Q : α → σ → Prop}
    {E : ε → σ → Prop} (hp : Meets (restrict f g k) P p s Q E) :
    Meets k P (embedT f g p) s Q E := by
  refine ⟨?_, ?_⟩
  · change (embed f g (ExceptT.run p)).Throughout k P s
    rw [throughout_embed]
    exact hp.1
  · change match run k (embed f g (ExceptT.run p)) s with
      | (.ok a, t) => Q a t
      | (.error e, t) => E e t
    rw [run_embed]
    exact hp.2

theorem Obeys.embed {κ : Type} {θ : κ → Type} {f : ι → κ} {g : (i : ι) → θ (f i) → ρ i}
    {possible : (k : κ) → θ k → Prop} {allowed : κ → Prop} {post : α → Prop} {p : Program ι ρ α}
    (hp : p.Obeys (fun _ _ => True) (fun i => allowed (f i)) post) :
    (p.embed f g).Obeys possible allowed post := by
  induction p with
  | done a => exact hp
  | call i next ih => exact ⟨hp.1, fun r _ => ih _ (hp.2 _ trivial)⟩

theorem ObeysT.embedT {κ : Type} {θ : κ → Type} {f : ι → κ} {g : (i : ι) → θ (f i) → ρ i}
    {possible : (k : κ) → θ k → Prop} {allowed : κ → Prop} {post : α → Prop}
    {p : ExceptT ε (Program ι ρ) α}
    (hp : ObeysT (fun _ _ => True) (fun i => allowed (f i)) post p) :
    ObeysT possible allowed post (embedT f g p) :=
  Obeys.embed hp

@[simp] theorem exec_embedT {κ : Type} {θ : κ → Type} (f : ι → κ) (g : (i : ι) → θ (f i) → ρ i)
    (k : Handler κ θ σ) (p : ExceptT ε (Program ι ρ) α) (s : σ) :
    exec k (embedT f g p) s = exec (restrict f g k) p s :=
  run_embed f g k _ s

end Exec

end Program
