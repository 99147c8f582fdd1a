import MediaImporter.Ingest.Dispatch

/-!
# Going round the devices

`dispatch_ready` means to go round the devices, but it looks at the last one only: two devices
can keep the turn between them while a third one waits. Turns are taken as long as the files
ahead of a device that waits are all of the device that has had its turn, or none of them is.

## Main definitions

* `Coordinator.RoundRobin`, `Coordinator.TakesTurns` — going round, and when it does.
-/

namespace MediaImporter

open Transition (run run_cons Meeting)

namespace Coordinator

variable {c c' : Coordinator} {limit : ℕ} {work : Work} {before after : List Work}
  {moves : List SchedulerMove}

/-- A file of a device can be handed out. -/
def HasEligible (limit : ℕ) (c : Coordinator) (m : MountId) : Prop :=
  ∃ v ∈ c.pending, v.mountId = m ∧ c.eligible limit v = true

instance (m : MountId) : Decidable (c.HasEligible limit m) :=
  inferInstanceAs (Decidable (∃ v ∈ c.pending, _))

/-- Between a file of a device and the next one, every other device has had its turn, unless
it had no file to be handed out at some time. -/
def RoundRobin (limit : ℕ) (c : Coordinator) (moves : List SchedulerMove) : Prop :=
  ∀ before work between work' after,
    moves = before ++ .dispatch work :: (between ++ .dispatch work' :: after) →
    work'.mountId = work.mountId → (∀ w, .dispatch w ∈ between → w.mountId ≠ work.mountId) →
    ∀ m ≠ work.mountId,
      (∀ first rest s, between = first ++ rest →
        run (schedule limit) c (before ++ .dispatch work :: first) = some s →
          s.HasEligible limit m) →
      ∃ w, .dispatch w ∈ between ∧ w.mountId = m

/-- The files ahead of those of a device. -/
def filesAhead (c : Coordinator) (m : MountId) : List Work :=
  c.pending.takeWhile fun u => u.mountId ≠ m

/-- When a file is handed out, the other files ahead of a device that waits are all of the
device of that file, or none is. -/
def TakesTurns (limit : ℕ) (c : Coordinator) : SchedulerMove → Prop
  | .dispatch work => ∀ v ∈ c.pending, v.mountId ≠ work.mountId → c.eligible limit v = true →
      (∀ u ∈ (c.filesAhead v.mountId).erase work, u.mountId = work.mountId) ∨
        ∀ u ∈ (c.filesAhead v.mountId).erase work, u.mountId ≠ work.mountId
  | _ => True

instance (move : SchedulerMove) : Decidable (TakesTurns limit c move) := match move with
  | .dispatch _ => inferInstanceAs (Decidable (∀ v ∈ c.pending, _ → _ → _))
  | .refuse | .discover _ | .complete _ => .isTrue trivial

section Turns

variable {m d : MountId} {u : Work} {between : List SchedulerMove}

/-- A device waits while another one has had its turn: the files ahead of it are all of that
one, which comes next to last, or none is. -/
def Waits (c : Coordinator) (d m : MountId) : Prop :=
  (c.lastDispatchedMount = some d ∧ ∀ u ∈ c.filesAhead m, u.mountId = d) ∨
    c.lastDispatchedMount ≠ some m ∧ ∀ u ∈ c.filesAhead m, u.mountId ≠ d

/-- A device that can have a file is passed over only for a file ahead of it. -/
theorem Chooses.mem_filesAhead (h : c.Chooses limit before work after)
    (hlast : c.lastDispatchedMount ≠ some m) (hmay : c.HasEligible limit m)
    (hwork : work.mountId ≠ m) : work ∈ c.filesAhead m := by
  have hbefore : ∀ v ∈ before, v.mountId ≠ m := by
    intro v hv hm
    obtain ⟨w, -, hw, heligible⟩ := hmay
    apply hlast
    rw [← hm]
    apply h.passed v hv
    rw [eligible_congr (hm.trans hw.symm)]
    exact heligible
  rw [filesAhead, h.pending, List.takeWhile_append_of_pos (by simpa using hbefore),
    List.takeWhile_cons_of_pos (by simpa using hwork)]
  exact List.mem_append_right _ List.mem_cons_self

/-- Removing a file that is ahead of a device leaves the others ahead of it. -/
theorem takeWhile_remove {p : Work → Bool} (hwork : p work = true) (hbefore : work ∉ before) :
    (before ++ after).takeWhile p = ((before ++ work :: after).takeWhile p).erase work := by
  rw [List.takeWhile_append, List.takeWhile_append]
  by_cases hall : (before.takeWhile p).length = before.length
  · rw [if_pos hall, if_pos hall, List.takeWhile_cons_of_pos hwork,
      List.erase_append_right _ hbefore, List.erase_cons_head]
  · rw [if_neg hall, if_neg hall, List.erase_of_not_mem]
    intro hmem
    exact hbefore ((List.takeWhile_prefix p).subset hmem)

theorem Chooses.filesAhead_handOut (h : c.Chooses limit before work after)
    (active : Counters MountId) (hwork : work.mountId ≠ m) :
    (c.handOut before work after active).filesAhead m = (c.filesAhead m).erase work := by
  rw [filesAhead, filesAhead, h.pending]
  apply takeWhile_remove (by simpa using hwork)
  intro hmem
  exact h.first work hmem rfl

theorem takeWhile_append_of_exists {α : Type} {p : α → Bool} {l l' : List α}
    (h : ∃ a ∈ l, p a = false) : (l ++ l').takeWhile p = l.takeWhile p := by
  induction l with
  | nil =>
      obtain ⟨a, ha, -⟩ := h
      cases ha
  | cons b l ih =>
      cases hb : p b with
      | true =>
          obtain ⟨a, ha, hpa⟩ := h
          have hrest : ∃ a ∈ l, p a = false := by
            rcases List.mem_cons.1 ha with rfl | ha
            · rw [hb] at hpa
              cases hpa
            · exact ⟨a, ha, hpa⟩
          rw [List.cons_append, List.takeWhile_cons_of_pos hb, List.takeWhile_cons_of_pos hb,
            ih hrest]
      | false =>
          have hb' : ¬ p b = true := by
            rw [hb]
            exact Bool.false_ne_true
          rw [List.cons_append, List.takeWhile_cons_of_neg hb', List.takeWhile_cons_of_neg hb']

/-- What is handed out while a device waits: a file of that device, or one of a third device. -/
theorem Waits.chooses (h : c.Waits d m) (hm : m ≠ d) (hmay : c.HasEligible limit m)
    (hchooses : c.Chooses limit before work after) (hwork : work.mountId ≠ m) :
    work.mountId ≠ d ∧ ∀ u ∈ c.filesAhead m, u.mountId ≠ d := by
  rcases h with ⟨hlast, hahead⟩ | ⟨hlast, hahead⟩
  · exfalso
    have hne : c.lastDispatchedMount ≠ some m := by
      rw [hlast]
      intro hd
      exact hm (Option.some.inj hd).symm
    have hd : work.mountId = d := hahead work (hchooses.mem_filesAhead hne hmay hwork)
    obtain ⟨v, hv, hvm, heligible⟩ := hmay
    apply hm
    rw [← hvm, ← hd]
    exact hchooses.again (by rw [hlast, hd]) v hv heligible
  · exact ⟨hahead work (hchooses.mem_filesAhead hlast hmay hwork), hahead⟩

theorem Waits.step (h : c.Waits d m) (hm : m ≠ d) (hmay : c.HasEligible limit m)
    {move : SchedulerMove} (hstep : c.schedule limit move = some c')
    (hmove : ∀ w, move = .dispatch w → w.mountId ≠ m) : c'.Waits d m := by
  cases move with
  | dispatch work =>
      obtain ⟨before, after, active, hchooses, -, rfl⟩ := schedule_dispatch hstep
      have hwork := hmove work rfl
      obtain ⟨hd, hahead⟩ := h.chooses hm hmay hchooses hwork
      right
      refine ⟨fun hlast => hwork (Option.some.inj hlast), fun u hu => hahead u ?_⟩
      rw [hchooses.filesAhead_handOut active hwork] at hu
      exact List.mem_of_mem_erase hu
  | refuse =>
      rw [schedule_refuse hstep]
      exact h
  | discover work =>
      cases hstep
      have hahead : filesAhead { c with pending := c.pending ++ [work] } m = c.filesAhead m := by
        obtain ⟨v, hv, hvm, -⟩ := hmay
        exact takeWhile_append_of_exists ⟨v, hv, by simpa using hvm⟩
      rw [Waits, ← hahead] at h
      exact h
  | complete mountId =>
      rw [schedule] at hstep
      split at hstep
      · cases hstep
        exact h
      · cases hstep

/-- Nobody else is handed out twice while a device waits that always could have a file. -/
theorem Waits.run (h : c.Waits d m) (hm : m ≠ d)
    (hrun : run (schedule limit) c between = some c')
    (hmay : ∀ first rest s, between = first ++ rest →
      run (schedule limit) c first = some s → s.HasEligible limit m)
    (hnot : ∀ w, .dispatch w ∈ between → w.mountId ≠ m) :
    c'.Waits d m ∧ c'.HasEligible limit m := by
  induction between generalizing c with
  | nil =>
      cases hrun
      exact ⟨h, hmay [] [] _ rfl rfl⟩
  | cons move between ih =>
      rw [run_cons] at hrun
      obtain ⟨e, hstep, hrest⟩ := Option.bind_eq_some_iff.1 hrun
      have hfirst : c.HasEligible limit m := hmay [] _ c rfl rfl
      have hnext : e.Waits d m := h.step hm hfirst hstep fun w hw =>
        hnot w (by rw [hw]; exact List.mem_cons_self)
      refine ih hnext hrest (fun first rest s hsplit hs => ?_)
        fun w hw => hnot w (List.mem_cons_of_mem _ hw)
      apply hmay (move :: first) rest s (by rw [hsplit]; rfl)
      rw [run_cons, hstep]
      exact hs

/-- A device waits from the time another one has had its turn, if the turns are taken. -/
theorem TakesTurns.waits (h : TakesTurns limit c (.dispatch work))
    (hstep : c.schedule limit (.dispatch work) = some c') (hm : m ≠ work.mountId)
    (hmay : c'.HasEligible limit m) : c'.Waits work.mountId m := by
  obtain ⟨before, after, active, hchooses, hraise, rfl⟩ := schedule_dispatch hstep
  obtain ⟨v, hv, rfl, heligible⟩ := hmay
  have hmem : v ∈ c.pending := by
    rw [hchooses.pending]
    rcases List.mem_append.1 hv with hv | hv
    · exact List.mem_append_left _ hv
    · exact List.mem_append_right _ (List.mem_cons_of_mem _ hv)
  have hcount : active.count v.mountId = c.active.count v.mountId := by
    rw [Counters.raise_eq_some hraise, if_neg hm]
    rfl
  have hbefore : c.eligible limit v = true := by
    rw [eligible, ← hcount]
    exact heligible
  have hturns := h v hmem hm hbefore
  rw [← hchooses.filesAhead_handOut active hm.symm] at hturns
  rcases hturns with hall | hnone
  · exact Or.inl ⟨rfl, hall⟩
  · exact Or.inr ⟨fun hlast => hm (Option.some.inj hlast).symm, hnone⟩

/-- **Going round**: when every file that is handed out meets the condition, no device is
handed a second file while another one waits. -/
theorem dispatch_roundRobin (h : run (schedule limit) c moves = some c')
    (hturns : Meeting (TakesTurns limit) (schedule limit) c moves) :
    c.RoundRobin limit moves := by
  intro before work between work' after hsplit hsame hnone m hm hmay
  by_contra hmissed
  rw [hsplit] at h hturns
  obtain ⟨u, hu, hrest⟩ := Transition.run_append_eq_some.1 h
  rw [run_cons] at hrest
  obtain ⟨e, hfirst, hrest⟩ := Option.bind_eq_some_iff.1 hrest
  obtain ⟨t, ht, hrest⟩ := Transition.run_append_eq_some.1 hrest
  rw [run_cons] at hrest
  obtain ⟨t', hsecond, -⟩ := Option.bind_eq_some_iff.1 hrest
  have hafter : ∀ first rest s, between = first ++ rest →
      run (schedule limit) e first = some s → s.HasEligible limit m := by
    intro first rest s hbetween hs
    apply hmay first rest s hbetween
    rw [Transition.run_append_eq_some]
    refine ⟨u, hu, ?_⟩
    rw [run_cons, hfirst]
    exact hs
  have hwaits : e.Waits work.mountId m :=
    (hturns.of_split hu).waits hfirst hm (hafter [] _ e rfl rfl)
  obtain ⟨hlast, hstill⟩ := hwaits.run hm ht hafter fun w hw hwm => hmissed ⟨w, hw, hwm⟩
  obtain ⟨before', after', active, hchooses, -, -⟩ := schedule_dispatch hsecond
  have hother : work'.mountId ≠ m := by
    rw [hsame]
    exact hm.symm
  exact (hlast.chooses hm hstill hchooses hother).1 hsame

/-- Two devices take turns, whatever the order of their files. -/
theorem takesTurns_of_two {a b : MountId} (h : ∀ v ∈ c.pending, v.mountId = a ∨ v.mountId = b)
    (move : SchedulerMove) : TakesTurns limit c move := by
  cases move with
  | dispatch work =>
      intro v hv hother _
      have hahead : ∀ u ∈ c.filesAhead v.mountId, u.mountId ≠ v.mountId ∧
          (u.mountId = a ∨ u.mountId = b) := by
        intro u hu
        refine ⟨by simpa using List.mem_takeWhile_imp hu, h u ?_⟩
        exact (List.takeWhile_prefix _).subset hu
      by_cases hwork : work.mountId = a ∨ work.mountId = b
      · left
        intro u hu
        obtain ⟨hne, hab⟩ := hahead u (List.mem_of_mem_erase hu)
        have hvab := h v hv
        grind
      · right
        intro u hu hsame
        rw [← hsame] at hwork
        exact hwork (hahead u (List.mem_of_mem_erase hu)).2
  | refuse => trivial
  | discover work => trivial
  | complete mountId => trivial

end Turns

/-- Three devices take turns when their files come in turns. -/
theorem dispatch_roundRobin_three :
    (waiting [onDevice 1 0, onDevice 2 1, onDevice 3 2, onDevice 1 3]).RoundRobin 2
      [.dispatch (onDevice 1 0), .dispatch (onDevice 2 1), .dispatch (onDevice 3 2),
        .dispatch (onDevice 1 3)] :=
  dispatch_roundRobin rfl (by decide +kernel)

/-- Two devices keep the turn between them, and the third one waits. -/
theorem dispatch_roundRobin_fails :
    (run (schedule 2) (waiting [onDevice 1 0, onDevice 1 1, onDevice 2 2, onDevice 3 3])
      [.dispatch (onDevice 1 0), .dispatch (onDevice 2 2), .dispatch (onDevice 1 1)]).isSome =
        true ∧
    ¬(waiting [onDevice 1 0, onDevice 1 1, onDevice 2 2, onDevice 3 3]).RoundRobin 2
      [.dispatch (onDevice 1 0), .dispatch (onDevice 2 2), .dispatch (onDevice 1 1)] := by
  refine ⟨by decide +kernel, fun h => ?_⟩
  have hnone : ∀ w, SchedulerMove.dispatch w ∈ [SchedulerMove.dispatch (onDevice 2 2)] →
      w = onDevice 2 2 := by
    intro w hw
    rw [List.mem_singleton] at hw
    exact SchedulerMove.dispatch.inj hw
  obtain ⟨w, hw, hthird⟩ := h [] (onDevice 1 0) [.dispatch (onDevice 2 2)] (onDevice 1 1) [] rfl
    rfl (fun w hw => by rw [hnone w hw]; decide +kernel) ⟨3⟩ (by decide +kernel) (by
      intro first rest s hsplit hs
      have hstart : ∀ t ∈ run (schedule 2)
          (waiting [onDevice 1 0, onDevice 1 1, onDevice 2 2, onDevice 3 3])
          [.dispatch (onDevice 1 0)], HasEligible 2 t ⟨3⟩ := by decide +kernel
      have hend : ∀ t ∈ run (schedule 2)
          (waiting [onDevice 1 0, onDevice 1 1, onDevice 2 2, onDevice 3 3])
          [.dispatch (onDevice 1 0), .dispatch (onDevice 2 2)], HasEligible 2 t ⟨3⟩ := by
        decide +kernel
      rcases List.cons_eq_append_iff.1 hsplit with ⟨rfl, -⟩ | ⟨more, rfl, hmore⟩
      · exact hstart s hs
      · cases (List.append_eq_nil_iff.1 hmore.symm).1
        exact hend s hs)
  rw [hnone w hw] at hthird
  revert hthird
  decide +kernel

end Coordinator

end MediaImporter
