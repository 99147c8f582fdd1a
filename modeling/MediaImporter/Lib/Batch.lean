import MediaImporter.Lib.Except

/-!
# Steps one by one and in batches

A step takes a state to a result and a next state, or it fails. Steps can be done one by
one until one fails, which leaves the state before it. They can also be done in batches,
each of them all or nothing; then a failure undoes its whole batch.

Batches are steps themselves, so both ways are the same function at different steps. They
agree on everything before the batch of the first failure.

## Main definitions

* `Batch.oneByOne` — the steps one by one.
* `Batch.all` — a list of steps as one step, all or nothing.
* `Batch.oneByOne_all` — what the batches do, in terms of the steps one by one.
-/

namespace Batch

variable {σ α β ε : Type}

/-- The results of the steps before the first failure, and the state they leave. -/
def oneByOne (step : α → σ → Except ε (β × σ)) : List α → σ → List β × σ
  | [], s => ([], s)
  | x :: l, s => match step x s with
    | .ok (b, t) => (b :: (oneByOne step l t).1, (oneByOne step l t).2)
    | .error _ => ([], s)

/-- All of the steps, or the first failure among them. -/
def all (step : α → σ → Except ε (β × σ)) : List α → σ → Except ε (List β × σ)
  | [], s => .ok ([], s)
  | x :: l, s => do
      let (b, t) ← step x s
      let (bs, u) ← all step l t
      return (b :: bs, u)

variable {step : α → σ → Except ε (β × σ)}

theorem oneByOne_cons_ok {x : α} {l : List α} {s t : σ} {b : β} (h : step x s = .ok (b, t)) :
    oneByOne step (x :: l) s = (b :: (oneByOne step l t).1, (oneByOne step l t).2) := by
  simp [oneByOne, h]

theorem oneByOne_cons_error {x : α} {l : List α} {s : σ} {e : ε} (h : step x s = .error e) :
    oneByOne step (x :: l) s = ([], s) := by
  simp [oneByOne, h]

theorem all_cons_eq_ok_iff {x : α} {l : List α} {s u : σ} {bs : List β} :
    all step (x :: l) s = .ok (bs, u) ↔
      ∃ b t rest, step x s = .ok (b, t) ∧ all step l t = .ok (rest, u) ∧ bs = b :: rest := by
  simp only [all, Except.bind_eq_ok, Except.pure_eq_ok, Except.ok.injEq, Prod.exists,
    Prod.mk.injEq]
  constructor
  · rintro ⟨b, t, hx, rest, u', hl, rfl, rfl⟩
    exact ⟨b, t, rest, hx, hl, rfl⟩
  · rintro ⟨b, t, rest, hx, hl, rfl⟩
    exact ⟨b, t, hx, rest, u, hl, rfl, rfl⟩

/-- A list of steps that succeeds, and one more. -/
theorem all_concat_eq_ok {x : α} {l : List α} {s t u : σ} {bs : List β} {b : β}
    (hl : all step l s = .ok (bs, t)) (hx : step x t = .ok (b, u)) :
    all step (l ++ [x]) s = .ok (bs ++ [b], u) := by
  induction l generalizing s bs with
  | nil =>
      obtain ⟨rfl, rfl⟩ := Prod.mk.inj (Except.ok.inj hl)
      exact all_cons_eq_ok_iff.2 ⟨b, u, [], hx, rfl, rfl⟩
  | cons y l ih =>
      obtain ⟨b', t', rest, hy, hrest, rfl⟩ := all_cons_eq_ok_iff.1 hl
      exact all_cons_eq_ok_iff.2 ⟨b', t', rest ++ [b], hy, ih hrest, rfl⟩

theorem all_eq_error_of_cons {x : α} {l : List α} {s t : σ} {b : β} {e : ε}
    (hx : step x s = .ok (b, t)) (h : all step (x :: l) s = .error e) :
    all step l t = .error e := by
  match hl : all step l t with
  | .error e' => simpa [all, hx, hl] using h
  | .ok r => simp [all, hx, hl] at h

theorem length_oneByOne_le (l : List α) (s : σ) : (oneByOne step l s).1.length ≤ l.length := by
  induction l generalizing s with
  | nil => simp [oneByOne]
  | cons x l ih =>
      match hx : step x s with
      | .ok (b, t) =>
          have := ih t
          rw [oneByOne_cons_ok hx, List.length_cons, List.length_cons]
          omega
      | .error e => simp [oneByOne_cons_error hx]

/-- A list of steps succeeds as a whole when none of them fails. -/
theorem all_eq_ok_iff {l : List α} {s t : σ} {bs : List β} : all step l s = .ok (bs, t) ↔
    oneByOne step l s = (bs, t) ∧ bs.length = l.length := by
  induction l generalizing s bs with
  | nil =>
      simp only [all, oneByOne, Except.ok.injEq, Prod.mk.injEq, List.length_nil]
      constructor
      · rintro ⟨rfl, rfl⟩; exact ⟨⟨rfl, rfl⟩, rfl⟩
      · rintro ⟨h, -⟩; exact h
  | cons x l ih =>
      rw [all_cons_eq_ok_iff]
      match hx : step x s with
      | .ok (b, u) =>
          rw [oneByOne_cons_ok hx]
          constructor
          · rintro ⟨b', u', rest, hb, hrest, rfl⟩
            obtain ⟨rfl, rfl⟩ := Prod.mk.inj (Except.ok.inj hb)
            obtain ⟨hone, hlength⟩ := ih.mp hrest
            simp [hone, hlength]
          · rintro ⟨hpair, hlength⟩
            obtain ⟨rfl, rfl⟩ := Prod.mk.inj hpair
            refine ⟨b, u, (oneByOne step l u).1, rfl, ih.mpr ⟨rfl, ?_⟩, rfl⟩
            simpa using hlength
      | .error e =>
          rw [oneByOne_cons_error hx]
          constructor
          · rintro ⟨b, u, rest, hb, -⟩
            simp at hb
          · rintro ⟨hpair, hlength⟩
            obtain ⟨rfl, -⟩ := Prod.mk.inj hpair
            simp at hlength

/-- A list of steps that succeeds is continued by the steps after it. -/
theorem oneByOne_append_ok {l l' : List α} {s t : σ} {bs : List β}
    (h : all step l s = .ok (bs, t)) : oneByOne step (l ++ l') s =
      (bs ++ (oneByOne step l' t).1, (oneByOne step l' t).2) := by
  induction l generalizing s bs with
  | nil =>
      obtain ⟨rfl, rfl⟩ := Prod.mk.inj (Except.ok.inj h)
      rfl
  | cons x l ih =>
      obtain ⟨b, u, rest, hx, hrest, rfl⟩ := all_cons_eq_ok_iff.mp h
      rw [List.cons_append, oneByOne_cons_ok hx, ih hrest, List.cons_append]

/-- The first failure does not depend on the steps after it. -/
theorem oneByOne_append_error {l l' : List α} {s : σ} {e : ε} (h : all step l s = .error e) :
    oneByOne step (l ++ l') s = oneByOne step l s := by
  induction l generalizing s with
  | nil => simp [all] at h
  | cons x l ih =>
      match hx : step x s with
      | .ok (b, t) =>
          rw [List.cons_append, oneByOne_cons_ok hx, oneByOne_cons_ok hx,
            ih (all_eq_error_of_cons hx h)]
      | .error e' => rw [List.cons_append, oneByOne_cons_error hx, oneByOne_cons_error hx]

theorem length_oneByOne_lt {l : List α} {s : σ} {e : ε} (h : all step l s = .error e) :
    (oneByOne step l s).1.length < l.length := by
  refine lt_of_le_of_ne (length_oneByOne_le l s) fun hlength => ?_
  have hok := all_eq_ok_iff.mpr ⟨(rfl : oneByOne step l s = ((oneByOne step l s).1, _)), hlength⟩
  simp [h] at hok

/-- Done in batches, the steps end before the batch of the first failure, with the results
and the state of the steps before that batch. -/
theorem oneByOne_all {batches : List (List α)} {s t : σ} {results : List (List β)}
    (h : oneByOne (all step) batches s = (results, t)) :
    ∃ before after, batches = before ++ after ∧ before.length = results.length ∧
      all step before.flatten s = .ok (results.flatten, t) ∧
      (after = [] ∨ ∃ batch rest, after = batch :: rest ∧
        before.flatten.length ≤ (oneByOne step batches.flatten s).1.length ∧
        (oneByOne step batches.flatten s).1.length < before.flatten.length + batch.length) := by
  induction batches generalizing s results with
  | nil =>
      obtain ⟨rfl, rfl⟩ := Prod.mk.inj h
      exact ⟨[], [], rfl, rfl, rfl, .inl rfl⟩
  | cons batch batches ih =>
      match hbatch : all step batch s with
      | .error e =>
          rw [oneByOne_cons_error hbatch] at h
          obtain ⟨rfl, rfl⟩ := Prod.mk.inj h
          refine ⟨[], batch :: batches, rfl, rfl, rfl, .inr ⟨batch, batches, rfl, by simp, ?_⟩⟩
          rw [List.flatten_cons, oneByOne_append_error hbatch]
          simpa using length_oneByOne_lt hbatch
      | .ok (r, u) =>
          rw [oneByOne_cons_ok hbatch] at h
          obtain ⟨rfl, rfl⟩ := Prod.mk.inj h
          obtain ⟨before, after, rfl, hlength, hall, hafter⟩ :=
            @ih u (oneByOne (all step) batches u).1 rfl
          obtain ⟨hone, hcount⟩ := all_eq_ok_iff.mp hall
          have hlengthr := (all_eq_ok_iff.mp hbatch).2
          refine ⟨batch :: before, after, rfl, by simp [hlength], ?_, ?_⟩
          · rw [List.flatten_cons, all_eq_ok_iff, oneByOne_append_ok hbatch, hone]
            simp [hcount, hlengthr]
          · refine hafter.imp_right ?_
            rintro ⟨failing, rest, rfl, hle, hlt⟩
            refine ⟨failing, rest, rfl, ?_⟩
            simp only [List.flatten_cons, oneByOne_append_ok hbatch,
              List.length_append]
            omega

end Batch
