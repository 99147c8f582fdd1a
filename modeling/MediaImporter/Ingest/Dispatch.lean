import MediaImporter.Ingest.Limits

/-!
# Dispatching files to the workers

`dispatch_ready` hands out pending files until none can be handed out or the channel of jobs
refuses one. The executor calls it again and again; in between, files are discovered and
completed. No room is wasted, and the files of a device stay in order.

## Main definitions

* `Coordinator.dispatchRound`, `Coordinator.dispatchReady` — a round of the loop, and the loop.
* `Coordinator.schedule` — what happens to the pending files in the course of an import.
* `Coordinator.dispatchReady_conserves` — what a call does.
* `System.Reached.scheduled` — the pending files of an import go through a run of `schedule`.
-/

namespace MediaImporter

open Transition (run run_cons Meeting)

/-- What the channel of jobs answers when a file is offered. The workers take files from it in
between, so that any answer can come at any time. -/
inductive Offer
  | taken
  | full
  | closed
  deriving DecidableEq

/-- How a round of the loop of `dispatch_ready` ends. -/
inductive DispatchRound
  | returned (c : Coordinator) (observed : List IngestEvent)
  | failed (c : Coordinator) (error : String)
  | dispatched (work : Work) (c : Coordinator) (observed : List IngestEvent)

/-- What a call of `dispatch_ready` leaves, and the files that it has handed out. -/
structure DispatchOutcome where
  result : Except String Unit
  coordinator : Coordinator
  dispatched : List Work
  observed : List IngestEvent

inductive SchedulerMove
  | dispatch (work : Work)
  | refuse
  | discover (work : Work)
  | complete (mountId : MountId)
  deriving DecidableEq

/-! ## The choice of a file -/

section Index

variable {α : Type} {l before after : List α} {f : α → Bool} {a : α} {i : ℕ}

theorem exists_split_of_findIdx? (h : l.findIdx? f = some i) :
    ∃ before a after, l = before ++ a :: after ∧ i = before.length ∧ f a = true ∧
      ∀ b ∈ before, f b = false := by
  obtain ⟨hi, hfound, hbefore⟩ := List.findIdx?_eq_some_iff_getElem.1 h
  have hlength : (l.take i).length = i := by
    rw [List.length_take]
    omega
  refine ⟨l.take i, l[i], l.drop (i + 1), ?_, hlength.symm, hfound, fun b hb => ?_⟩
  · rw [List.cons_getElem_drop_succ, List.take_append_drop]
  · obtain ⟨j, hj, rfl⟩ := List.mem_iff_getElem.1 hb
    rw [List.getElem_take]
    have hlt : j < i := by omega
    simpa using hbefore j hlt

theorem getElem?_split : (before ++ a :: after)[before.length]? = some a := by
  simp

theorem eraseIdx_split : (before ++ a :: after).eraseIdx before.length = before ++ after := by
  rw [List.eraseIdx_append_of_length_le le_rfl]
  simp

theorem insertIdx_split : (before ++ after).insertIdx before.length a = before ++ a :: after := by
  induction before with
  | nil => cases after <;> rfl
  | cons b before ih =>
      rw [List.cons_append, List.length_cons, List.insertIdx_succ_cons, ih]
      rfl

end Index

namespace Coordinator

variable {c c' : Coordinator} {limit i : ℕ} {work v : Work} {before after : List Work}
  {offer : Offer} {observed : List IngestEvent}

/-- A file that is handed out: the files before and behind it, and why it is chosen. -/
structure Chooses (c : Coordinator) (limit : ℕ) (before : List Work) (work : Work)
    (after : List Work) : Prop where
  pending : c.pending = before ++ work :: after
  eligible : c.eligible limit work = true
  first : ∀ v ∈ before, v.mountId ≠ work.mountId
  passed : ∀ v ∈ before, c.eligible limit v = true → c.lastDispatchedMount = some v.mountId
  again : c.lastDispatchedMount = some work.mountId →
    ∀ v ∈ c.pending, c.eligible limit v = true → v.mountId = work.mountId

theorem eligible_congr (h : v.mountId = work.mountId) :
    c.eligible limit v = c.eligible limit work := by
  rw [eligible, eligible, h]

theorem chooses_of_nextIndex (h : c.nextIndex limit = some i) :
    ∃ before work after, i = before.length ∧ c.Chooses limit before work after := by
  rw [nextIndex] at h
  cases hother : c.pending.findIdx? fun work =>
      c.eligible limit work && some work.mountId != c.lastDispatchedMount with
  | some j =>
      rw [hother] at h
      cases h
      obtain ⟨before, work, after, hpending, hi, hwork, hbefore⟩ :=
        exists_split_of_findIdx? hother
      simp only [Bool.and_eq_true, bne_iff_ne, ne_eq] at hwork
      have hpassed : ∀ v ∈ before, c.eligible limit v = true →
          c.lastDispatchedMount = some v.mountId := by
        intro v hv heligible
        have := hbefore v hv
        rw [heligible, Bool.true_and, bne_eq_false_iff_eq] at this
        exact this.symm
      refine ⟨before, work, after, hi, hpending, hwork.1, ?_, hpassed, ?_⟩
      · intro v hv hsame
        have heligible : c.eligible limit v = true := (eligible_congr hsame).trans hwork.1
        apply hwork.2
        rw [← hsame]
        exact (hpassed v hv heligible).symm
      · intro hlast
        exact absurd hlast.symm hwork.2
  | none =>
      rw [hother] at h
      obtain ⟨before, work, after, hpending, hi, hwork, hbefore⟩ := exists_split_of_findIdx? h
      rw [List.findIdx?_eq_none_iff] at hother
      have hlast : ∀ v ∈ c.pending, c.eligible limit v = true →
          c.lastDispatchedMount = some v.mountId := by
        intro v hv heligible
        have := hother v hv
        rw [heligible, Bool.true_and, bne_eq_false_iff_eq] at this
        exact this.symm
      refine ⟨before, work, after, hi, hpending, hwork, ?_, ?_, ?_⟩
      · intro v hv hsame
        have := hbefore v hv
        rw [eligible_congr hsame, hwork] at this
        cases this
      · intro v hv heligible
        rw [hbefore v hv] at heligible
        cases heligible
      · intro hwas v hv heligible
        have := hlast v hv heligible
        rw [hwas] at this
        exact (Option.some.inj this).symm

theorem nextIndex_eq_none :
    c.nextIndex limit = none ↔ ∀ v ∈ c.pending, c.eligible limit v = false := by
  rw [nextIndex, Option.orElse_eq_orElse, Option.orElse_eq_or, Option.or_eq_none_iff,
    List.findIdx?_eq_none_iff, List.findIdx?_eq_none_iff]
  constructor
  · intro h
    exact h.2
  · intro h
    refine ⟨fun v hv => ?_, h⟩
    rw [h v hv, Bool.false_and]

theorem idle_or_exists (c : Coordinator) (limit : ℕ) :
    (∀ v ∈ c.pending, c.eligible limit v = false) ∨
      ∃ v ∈ c.pending, c.eligible limit v = true := by
  by_cases h : ∃ v ∈ c.pending, c.eligible limit v = true
  · exact Or.inr h
  · left
    intro v hv
    by_contra heligible
    apply h
    exact ⟨v, hv, by simpa using heligible⟩

/-! ## A round -/

/-- The files but the one at an index. -/
def withoutIndex (c : Coordinator) (i : ℕ) : Coordinator :=
  { c with pending := c.pending.eraseIdx i }

/-- A file has been taken by the channel. -/
def dispatched (c : Coordinator) (work : Work) (active : Counters MountId) : Coordinator :=
  { c with active, lastDispatchedMount := some work.mountId }

/-- One round of the loop of `dispatch_ready`. The file is removed before it is offered, and put
back where it was if the channel is full. -/
def dispatchRound (limit : ℕ) (offer : Offer) (c : Coordinator) : DispatchRound :=
  match c.nextIndex limit with
  | none => .returned c []
  | some i => match c.pending[i]? with
    | none => .failed c "pending work index"
    | some work => match offer with
      | .closed => .failed (c.withoutIndex i) "source worker queue closed while scheduling work"
      | .full =>
          let c := c.withoutIndex i
          .returned { c with pending := c.pending.insertIdx i work } [.queueBackpressure]
      | .taken => match c.active.raise work.mountId with
        | none => .failed (c.withoutIndex i) "active mount worker counter overflow"
        | some active =>
            .dispatched work ((c.withoutIndex i).dispatched work active)
              (.workQueued work.sequence work.candidate.relativePath work.mountId ::
                observeWorkOccupancy (c.withoutIndex i).pending active limit)

/-- What a file that is handed out changes. -/
def handOut (c : Coordinator) (before : List Work) (work : Work) (after : List Work)
    (active : Counters MountId) : Coordinator :=
  { c with
    pending := before ++ after
    active
    lastDispatchedMount := some work.mountId }

theorem dispatchRound_idle (h : ∀ v ∈ c.pending, c.eligible limit v = false) (offer : Offer) :
    c.dispatchRound limit offer = .returned c [] := by
  rw [dispatchRound, nextIndex_eq_none.2 h]

/-- A round that has a file to offer. -/
theorem exists_dispatchRound (h : ∃ v ∈ c.pending, c.eligible limit v = true) :
    ∃ before work after, c.Chooses limit before work after ∧
      c.dispatchRound limit .full = .returned c [.queueBackpressure] ∧
      c.dispatchRound limit .closed = .failed { c with pending := before ++ after }
        "source worker queue closed while scheduling work" ∧
      (c.active.raise work.mountId = none →
        c.dispatchRound limit .taken = .failed { c with pending := before ++ after }
          "active mount worker counter overflow") ∧
      ∀ active, c.active.raise work.mountId = some active →
        c.dispatchRound limit .taken = .dispatched work (c.handOut before work after active)
          (.workQueued work.sequence work.candidate.relativePath work.mountId ::
            observeWorkOccupancy (before ++ after) active limit) := by
  cases hnext : c.nextIndex limit with
  | none =>
      obtain ⟨v, hv, heligible⟩ := h
      rw [nextIndex_eq_none.1 hnext v hv] at heligible
      cases heligible
  | some i =>
      obtain ⟨before, work, after, rfl, hchooses⟩ := chooses_of_nextIndex hnext
      have hfound : c.pending[before.length]? = some work := by
        rw [hchooses.pending]
        exact getElem?_split
      have hremoved : c.withoutIndex before.length = { c with pending := before ++ after } := by
        rw [withoutIndex, hchooses.pending, eraseIdx_split]
      refine ⟨before, work, after, hchooses, ?_, ?_, fun hraise => ?_, fun active hraise => ?_⟩
      · simp only [dispatchRound, hnext, hfound, hremoved, insertIdx_split, ← hchooses.pending]
      · simp only [dispatchRound, hnext, hfound, hremoved]
      · simp only [dispatchRound, hnext, hfound, hremoved, hraise]
      · simp only [dispatchRound, hnext, hfound, hremoved, hraise]
        rfl

/-- A counter that is below a limit has room. -/
theorem exists_raise_of_eligible (hlimit : limit < 2 ^ 64) (h : c.eligible limit work = true) :
    ∃ active, c.active.raise work.mountId = some active := by
  rw [eligible, decide_eq_true_eq] at h
  have hroom : c.active.count work.mountId + 1 < 2 ^ 64 := by omega
  exact ⟨_, if_pos hroom⟩

/-- What a round that hands out a file does. -/
theorem of_dispatched (h : c.dispatchRound limit offer = .dispatched work c' observed) :
    offer = .taken ∧ ∃ before after active, c.Chooses limit before work after ∧
      c.active.raise work.mountId = some active ∧ c' = c.handOut before work after active := by
  rcases c.idle_or_exists limit with hidle | hsome
  · rw [dispatchRound_idle hidle] at h
    cases h
  · obtain ⟨before, next, after, hchooses, hfull, hclosed, hover, htaken⟩ :=
      exists_dispatchRound hsome
    cases offer with
    | full =>
        rw [hfull] at h
        cases h
    | closed =>
        rw [hclosed] at h
        cases h
    | taken =>
        cases hraise : c.active.raise next.mountId with
        | none =>
            rw [hover hraise] at h
            cases h
        | some active =>
            rw [htaken active hraise] at h
            cases h
            exact ⟨rfl, before, after, active, hchooses, hraise, rfl⟩

/-- A round that returns has nothing to offer, or puts back what is refused. -/
theorem of_returned (hlimit : limit < 2 ^ 64)
    (h : c.dispatchRound limit offer = .returned c' observed) :
    c' = c ∧ (offer = .full ∨ ∀ v ∈ c.pending, c.eligible limit v = false) := by
  rcases c.idle_or_exists limit with hidle | hsome
  · rw [dispatchRound_idle hidle] at h
    cases h
    exact ⟨rfl, Or.inr hidle⟩
  · obtain ⟨before, next, after, hchooses, hfull, hclosed, -, htaken⟩ :=
      exists_dispatchRound hsome
    obtain ⟨active, hraise⟩ := exists_raise_of_eligible hlimit hchooses.eligible
    cases offer with
    | full =>
        rw [hfull] at h
        cases h
        exact ⟨rfl, Or.inl rfl⟩
    | closed =>
        rw [hclosed] at h
        cases h
    | taken =>
        rw [htaken active hraise] at h
        cases h

/-- Only a channel that is closed makes a round fail. The file that was offered is lost. -/
theorem of_failed {error : String} (hlimit : limit < 2 ^ 64)
    (h : c.dispatchRound limit offer = .failed c' error) :
    offer = .closed ∧ error = "source worker queue closed while scheduling work" ∧
      ∃ before work after, c.Chooses limit before work after ∧
        c' = { c with pending := before ++ after } := by
  rcases c.idle_or_exists limit with hidle | hsome
  · rw [dispatchRound_idle hidle] at h
    cases h
  · obtain ⟨before, next, after, hchooses, hfull, hclosed, -, htaken⟩ :=
      exists_dispatchRound hsome
    obtain ⟨active, hraise⟩ := exists_raise_of_eligible hlimit hchooses.eligible
    cases offer with
    | full =>
        rw [hfull] at h
        cases h
    | closed =>
        rw [hclosed] at h
        cases h
        exact ⟨rfl, rfl, before, next, after, hchooses, rfl⟩
    | taken =>
        rw [htaken active hraise] at h
        cases h

theorem length_of_dispatched (h : c.dispatchRound limit offer = .dispatched work c' observed) :
    c'.pending.length < c.pending.length := by
  obtain ⟨-, before, after, active, hchooses, -, rfl⟩ := of_dispatched h
  rw [hchooses.pending, handOut, List.length_append, List.length_append, List.length_cons]
  omega

/-! ## The loop, and the course of an import -/

/-- `dispatch_ready`. Every round that hands out a file leaves fewer of them. -/
def dispatchReady (limit : ℕ) (offers : ℕ → Offer) (c : Coordinator) : DispatchOutcome :=
  match _ : c.dispatchRound limit (offers 0) with
  | .returned c observed => ⟨.ok (), c, [], observed⟩
  | .failed c error => ⟨.error error, c, [], []⟩
  | .dispatched work next observed =>
      let rest := dispatchReady limit (fun n => offers (n + 1)) next
      ⟨rest.result, rest.coordinator, work :: rest.dispatched, observed ++ rest.observed⟩
termination_by c.pending.length
decreasing_by exact length_of_dispatched ‹_›

/-- What happens to the pending files: they are handed out or refused by the rounds of
`dispatch_ready`, files are discovered, and files are completed. -/
def schedule (limit : ℕ) (c : Coordinator) : SchedulerMove → Option Coordinator
  | .dispatch work => match c.dispatchRound limit .taken with
    | .dispatched next c' _ => if next = work then some c' else none
    | _ => none
  | .refuse => match c.dispatchRound limit .full with
    | .returned c' _ => some c'
    | _ => none
  | .discover work => some { c with pending := c.pending ++ [work] }
  | .complete mountId => match completeActive c.active mountId with
    | .ok n => some { c with active := c.active.settle mountId n }
    | .error _ => none

theorem schedule_dispatch (h : c.schedule limit (.dispatch work) = some c') :
    ∃ before after active, c.Chooses limit before work after ∧
      c.active.raise work.mountId = some active ∧ c' = c.handOut before work after active := by
  rw [schedule] at h
  split at h
  · next next c'' observed hround =>
      split_ifs at h with hwork
      cases h
      cases hwork
      exact (of_dispatched hround).2
  · cases h

theorem schedule_of_dispatched (h : c.dispatchRound limit .taken = .dispatched work c' observed) :
    c.schedule limit (.dispatch work) = some c' := by
  rw [schedule, h]
  exact if_pos rfl

/-- A refused file leaves everything as it was. -/
theorem schedule_refuse (h : c.schedule limit .refuse = some c') : c' = c := by
  rw [schedule] at h
  rcases c.idle_or_exists limit with hidle | hsome
  · rw [dispatchRound_idle hidle] at h
    exact (Option.some.inj h).symm
  · obtain ⟨before, next, after, -, hfull, -⟩ := exists_dispatchRound hsome
    rw [hfull] at h
    exact (Option.some.inj h).symm

/-! ## What a call does -/

/-- The files of a device. -/
def ofMount (m : MountId) (works : List Work) : List Work := works.filter fun w => w.mountId = m

theorem ofMount_cons (m : MountId) (work : Work) (works : List Work) :
    ofMount m (work :: works) =
      if work.mountId = m then work :: ofMount m works else ofMount m works := by
  by_cases h : work.mountId = m
  · rw [if_pos h, ofMount, List.filter_cons_of_pos (by simpa using h), ofMount]
  · rw [if_neg h, ofMount, List.filter_cons_of_neg (by simpa using h), ofMount]

theorem ofMount_append (m : MountId) (works works' : List Work) :
    ofMount m (works ++ works') = ofMount m works ++ ofMount m works' :=
  List.filter_append ..

/-- The file that is handed out is the first one of its device. -/
theorem Chooses.ofMount_pending (h : c.Chooses limit before work after) (m : MountId) :
    ofMount m c.pending = if work.mountId = m then work :: ofMount m (before ++ after)
      else ofMount m (before ++ after) := by
  rw [h.pending, ofMount_append, ofMount_cons, ofMount_append]
  by_cases hm : work.mountId = m
  · have hbefore : ofMount m before = [] := by
      rw [ofMount, List.filter_eq_nil_iff]
      intro v hv hsame
      apply h.first v hv
      rw [hm]
      simpa using hsame
    rw [if_pos hm, if_pos hm, hbefore]
    rfl
  · rw [if_neg hm, if_neg hm]

/-- What has been handed out between two states. -/
structure HandedOut (c : Coordinator) (works : List Work) (c' : Coordinator) : Prop where
  order : ∀ m, ofMount m works ++ ofMount m c'.pending = ofMount m c.pending
  active : ∀ m, c'.active.count m = c.active.count m + onMount m works
  length : works.length + c'.pending.length = c.pending.length
  last : c'.lastDispatchedMount = (works.getLast?.map Work.mountId).or c.lastDispatchedMount

theorem HandedOut.nil (c : Coordinator) : c.HandedOut [] c :=
  ⟨fun _ => rfl, fun _ => rfl, Nat.zero_add _, rfl⟩

theorem HandedOut.cons {d : Coordinator} {works : List Work} (h : d.HandedOut works c')
    (hstep : c.schedule limit (.dispatch work) = some d) : c.HandedOut (work :: works) c' := by
  obtain ⟨before, after, active, hchooses, hraise, rfl⟩ := schedule_dispatch hstep
  constructor
  · intro m
    have horder : ofMount m works ++ ofMount m c'.pending = ofMount m (before ++ after) :=
      h.order m
    rw [hchooses.ofMount_pending m, ofMount_cons]
    by_cases hm : work.mountId = m
    · rw [if_pos hm, if_pos hm, List.cons_append, horder]
    · rw [if_neg hm, if_neg hm, horder]
  · intro m
    have hactive : c'.active.count m = active.count m + onMount m works := h.active m
    rw [hactive, Counters.raise_eq_some hraise m, onMount_cons]
    omega
  · have hlength : works.length + c'.pending.length = (before ++ after).length := h.length
    rw [hchooses.pending, List.length_append, List.length_cons, List.length_cons]
    rw [List.length_append] at hlength
    omega
  · have hlast : c'.lastDispatchedMount =
        (works.getLast?.map Work.mountId).or (some work.mountId) := h.last
    rw [hlast, List.getLast?_cons]
    cases works.getLast? <;> rfl

theorem handedOut_of_run {works : List Work}
    (h : run (schedule limit) c (works.map .dispatch) = some c') : c.HandedOut works c' := by
  induction works generalizing c with
  | nil =>
      cases h
      exact .nil _
  | cons work works ih =>
      rw [List.map_cons, run_cons] at h
      obtain ⟨d, hstep, hrest⟩ := Option.bind_eq_some_iff.1 h
      exact (ih hrest).cons hstep

/-- Where a call comes to: it has handed out some files, and then either there is none left to
hand out, or the channel has not taken the next one. -/
theorem dispatchReady_spec (hlimit : limit < 2 ^ 64) (offers : ℕ → Offer) (c : Coordinator) :
    ∃ mid, run (schedule limit) c
        ((c.dispatchReady limit offers).dispatched.map .dispatch) = some mid ∧
      (∀ i < (c.dispatchReady limit offers).dispatched.length, offers i = .taken) ∧
      (((c.dispatchReady limit offers).result = .ok () ∧
          (c.dispatchReady limit offers).coordinator = mid ∧
          (offers (c.dispatchReady limit offers).dispatched.length = .full ∨
            ∀ v ∈ mid.pending, mid.eligible limit v = false)) ∨
        ((c.dispatchReady limit offers).result =
            .error "source worker queue closed while scheduling work" ∧
          offers (c.dispatchReady limit offers).dispatched.length = .closed ∧
          ∃ before work after, mid.Chooses limit before work after ∧
            (c.dispatchReady limit offers).coordinator =
              { mid with pending := before ++ after })) := by
  fun_induction dispatchReady limit offers c with
  | case1 offers c c' observed hround =>
      obtain ⟨rfl, hend⟩ := of_returned hlimit hround
      exact ⟨c', rfl, fun i hi => by simp at hi, Or.inl ⟨rfl, rfl, hend⟩⟩
  | case2 offers c c' error hround =>
      obtain ⟨hoffer, rfl, hlost⟩ := of_failed hlimit hround
      exact ⟨c, rfl, fun i hi => by simp at hi, Or.inr ⟨rfl, hoffer, hlost⟩⟩
  | case3 offers c work next observed hround rest ih =>
      obtain ⟨mid, hrun, htaken, hend⟩ := ih
      have hoffer : offers 0 = .taken := (of_dispatched hround).1
      refine ⟨mid, ?_, fun i hi => ?_, hend⟩
      · rw [hoffer] at hround
        rw [List.map_cons, run_cons, schedule_of_dispatched hround]
        exact hrun
      · cases i with
        | zero => exact hoffer
        | succ i => exact htaken i (Nat.lt_of_succ_lt_succ hi)

theorem Chooses.mem (h : c.Chooses limit before work after) : work ∈ c.pending := by
  rw [h.pending]
  exact List.mem_append_right _ List.mem_cons_self

/-- A device gets two files in a row only if no other one can have one. -/
theorem again_of_dispatch (h : c.schedule limit (.dispatch work) = some c')
    (hagain : c.lastDispatchedMount = some work.mountId) :
    ∀ v ∈ c.pending, c.eligible limit v = true → v.mountId = work.mountId := by
  obtain ⟨before, after, active, hchooses, -, -⟩ := schedule_dispatch h
  exact hchooses.again hagain

end Coordinator

/-- The file that a move adds to the pending ones. -/
def SchedulerMove.discovered : SchedulerMove → Option Work
  | .discover work => some work
  | _ => none

/-- The file that a move hands out. -/
def SchedulerMove.dispatched : SchedulerMove → Option Work
  | .dispatch work => some work
  | _ => none

namespace Coordinator

variable {c c' : Coordinator} {limit : ℕ} {work : Work} {before after : List Work}
  {moves : List SchedulerMove}

theorem order_of_schedule {move : SchedulerMove} (h : c.schedule limit move = some c')
    (m : MountId) :
    ofMount m move.dispatched.toList ++ ofMount m c'.pending =
      ofMount m c.pending ++ ofMount m move.discovered.toList := by
  cases move with
  | dispatch work =>
      obtain ⟨before, after, active, hchooses, -, rfl⟩ := schedule_dispatch h
      have hwork : ofMount m [work] ++ ofMount m (before ++ after) = ofMount m c.pending := by
        rw [hchooses.ofMount_pending m, ofMount_cons]
        by_cases hm : work.mountId = m
        · rw [if_pos hm, if_pos hm]
          rfl
        · rw [if_neg hm, if_neg hm]
          rfl
      exact hwork.trans (List.append_nil _).symm
  | refuse =>
      rw [schedule_refuse h]
      exact (List.append_nil _).symm
  | discover work =>
      cases h
      exact ofMount_append m c.pending [work]
  | complete mountId =>
      rw [schedule] at h
      split at h
      · cases h
        exact (List.append_nil _).symm
      · cases h

/-- In the course of an import, the files of a device are handed out in the order in which they
are discovered. -/
theorem order_of_run (h : run (schedule limit) c moves = some c') (m : MountId) :
    ofMount m (moves.filterMap SchedulerMove.dispatched) ++ ofMount m c'.pending =
      ofMount m c.pending ++ ofMount m (moves.filterMap SchedulerMove.discovered) := by
  induction moves generalizing c with
  | nil =>
      cases h
      exact (List.append_nil _).symm
  | cons move moves ih =>
      rw [run_cons] at h
      obtain ⟨d, hstep, hrest⟩ := Option.bind_eq_some_iff.1 h
      have hdispatched : (move :: moves).filterMap SchedulerMove.dispatched =
          move.dispatched.toList ++ moves.filterMap SchedulerMove.dispatched := by
        cases move <;> rfl
      have hdiscovered : (move :: moves).filterMap SchedulerMove.discovered =
          move.discovered.toList ++ moves.filterMap SchedulerMove.discovered := by
        cases move <;> rfl
      calc ofMount m ((move :: moves).filterMap SchedulerMove.dispatched) ++ ofMount m c'.pending
          = ofMount m move.dispatched.toList ++
              (ofMount m (moves.filterMap SchedulerMove.dispatched) ++ ofMount m c'.pending) := by
            rw [hdispatched, ofMount_append, List.append_assoc]
        _ = ofMount m move.dispatched.toList ++ ofMount m d.pending ++
              ofMount m (moves.filterMap SchedulerMove.discovered) := by
            rw [ih hrest, List.append_assoc]
        _ = ofMount m c.pending ++
              ofMount m ((move :: moves).filterMap SchedulerMove.discovered) := by
            rw [order_of_schedule hstep, hdiscovered, ofMount_append, List.append_assoc]

/-- **A call of `dispatch_ready`**, whatever the pending files, the active ones and the channel
of jobs. It returns once there is no file to hand out, or the channel has not taken one. -/
theorem dispatchReady_conserves (hlimit : limit < 2 ^ 64) (offers : ℕ → Offer)
    (c : Coordinator) :
    ((c.dispatchReady limit offers).dispatched.length ≤ c.pending.length ∧
      ∀ i < (c.dispatchReady limit offers).dispatched.length, offers i = .taken) ∧
    ((c.dispatchReady limit offers).result = .ok () ∧
        (offers (c.dispatchReady limit offers).dispatched.length = .full ∨
          ∀ v ∈ (c.dispatchReady limit offers).coordinator.pending,
            limit ≤ (c.dispatchReady limit offers).coordinator.active.count v.mountId) ∨
      (c.dispatchReady limit offers).result ≠ .ok () ∧
        offers (c.dispatchReady limit offers).dispatched.length = .closed) ∧
    ((c.dispatchReady limit offers).result = .ok () →
      run (schedule limit) c ((c.dispatchReady limit offers).dispatched.map .dispatch) =
        some (c.dispatchReady limit offers).coordinator) ∧
    (∀ m, ofMount m (c.dispatchReady limit offers).dispatched <+: ofMount m c.pending ∧
      ((c.dispatchReady limit offers).result = .ok () →
        ofMount m (c.dispatchReady limit offers).dispatched ++
          ofMount m (c.dispatchReady limit offers).coordinator.pending =
            ofMount m c.pending)) ∧
    (∀ m, (c.dispatchReady limit offers).coordinator.active.count m =
      c.active.count m + onMount m (c.dispatchReady limit offers).dispatched) ∧
    (∀ before work after, (c.dispatchReady limit offers).dispatched = before ++ work :: after →
      (before.getLast?.map Work.mountId).or c.lastDispatchedMount = some work.mountId →
      ∃ mid, run (schedule limit) c (before.map .dispatch) = some mid ∧
        ∀ v ∈ mid.pending, mid.active.count v.mountId < limit → v.mountId = work.mountId) ∧
    (∀ moves c', run (schedule limit) c moves = some c' → ∀ m,
      ofMount m (moves.filterMap SchedulerMove.dispatched) ++ ofMount m c'.pending =
        ofMount m c.pending ++ ofMount m (moves.filterMap SchedulerMove.discovered)) := by
  obtain ⟨mid, hrun, htaken, hend⟩ := dispatchReady_spec hlimit offers c
  have hout := handedOut_of_run hrun
  have hlength := hout.length
  refine ⟨⟨by omega, htaken⟩, ?_, fun hok => ?_, fun m => ⟨⟨_, hout.order m⟩, fun hok => ?_⟩,
    fun m => ?_, fun before work after hsplit hagain => ?_, fun moves c' h => order_of_run h⟩
  · rcases hend with ⟨hok, hmid, hwhy⟩ | ⟨herror, hclosed, -⟩
    · left
      refine ⟨hok, hwhy.imp id fun hidle v hv => ?_⟩
      rw [hmid] at hv ⊢
      have := hidle v hv
      rw [eligible, decide_eq_false_iff_not] at this
      omega
    · right
      refine ⟨?_, hclosed⟩
      rw [herror]
      intro h
      cases h
  · rcases hend with ⟨-, hmid, -⟩ | ⟨herror, -⟩
    · rw [hmid]
      exact hrun
    · rw [herror] at hok
      cases hok
  · rcases hend with ⟨-, hmid, -⟩ | ⟨herror, -⟩
    · rw [hmid]
      exact hout.order m
    · rw [herror] at hok
      cases hok
  · rcases hend with ⟨-, hmid, -⟩ | ⟨-, -, before, work, after, -, hmid⟩
    · rw [hmid]
      exact hout.active m
    · rw [hmid]
      exact hout.active m
  · rw [hsplit, List.map_append, List.map_cons] at hrun
    obtain ⟨u, hu, hrest⟩ := Transition.run_append_eq_some.1 hrun
    rw [run_cons] at hrest
    obtain ⟨d, hstep, -⟩ := Option.bind_eq_some_iff.1 hrest
    refine ⟨u, hu, fun v hv heligible => ?_⟩
    rw [← (handedOut_of_run hu).last] at hagain
    exact again_of_dispatch hstep hagain v hv (by simpa [eligible] using heligible)

/-- Pending files, before any has been handed out. -/
def waiting (works : List Work) : Coordinator := { Coordinator.start with pending := works }

/-- A file on a device. -/
def onDevice (device sequence : ℕ) : Work :=
  ⟨sequence, ⟨⟨"a".toList, by decide⟩, 0, ⟨device⟩⟩⟩

/-- Two files of one device and one of another, when a device has one file at a time. -/
theorem dispatchReady_conserves_three :
    ((waiting [onDevice 1 0, onDevice 1 1, onDevice 2 2]).dispatchReady 1
      fun _ => .taken).dispatched = [onDevice 1 0, onDevice 2 2] ∧
    ((waiting [onDevice 1 0, onDevice 1 1, onDevice 2 2]).dispatchReady 1
      fun _ => .taken).coordinator.active.count ⟨1⟩ = 1 := by
  obtain ⟨-, -, -, -, hactive, -⟩ := dispatchReady_conserves (show 1 < 2 ^ 64 by decide)
    (fun _ => .taken) (waiting [onDevice 1 0, onDevice 1 1, onDevice 2 2])
  exact ⟨by decide +kernel, (hactive ⟨1⟩).trans (by decide +kernel)⟩

/-! ## The pending files of an import -/

/-- The coordinator when it has counted the file that the workers already have. -/
def counted (c : Coordinator) : Coordinator := match c.phase with
  | .submitted work => c.dispatched work ((c.active.raise work.mountId).getD c.active)
  | _ => c

theorem counted_eq_self (h : c.phase.uncounted = []) : c.counted = c := by
  rw [counted]
  split
  · next work hphase =>
      rw [hphase] at h
      cases h
  · rfl

theorem schedule_of_nextIndex {active : Counters MountId}
    (hnext : c.nextIndex limit = some before.length)
    (hpending : c.pending = before ++ work :: after)
    (hraise : c.active.raise work.mountId = some active) :
    c.schedule limit (.dispatch work) = some (c.handOut before work after active) := by
  have hfound : c.pending[before.length]? = some work := by
    rw [hpending]
    exact getElem?_split
  have hremoved : c.withoutIndex before.length = { c with pending := before ++ after } := by
    rw [withoutIndex, hpending, eraseIdx_split]
  simp only [schedule, dispatchRound, hnext, hfound, hremoved, hraise, if_true]
  rfl

end Coordinator

namespace System

variable {config : ExecutorConfig} {s t : System}

/-- The pending and the active files of an import. -/
def scheduling (s : System) : Coordinator :=
  { Coordinator.waiting s.coordinator.pending with
    active := s.coordinator.counted.active
    lastDispatchedMount := s.coordinator.counted.lastDispatchedMount }

/-- The pending files go on as `schedule` has it, or stay as they are. -/
def Schedules (config : ExecutorConfig) (s t : System) : Prop :=
  t.scheduling = s.scheduling ∨
    ∃ move, s.scheduling.schedule config.effectiveWorkersPerMount move = some t.scheduling

/-- A move that moves no file. -/
theorem schedules_of_eq (hpending : t.coordinator.pending = s.coordinator.pending)
    (hactive : t.coordinator.active = s.coordinator.active)
    (hlast : t.coordinator.lastDispatchedMount = s.coordinator.lastDispatchedMount)
    (hs : s.coordinator.phase.uncounted = []) (ht : t.coordinator.phase.uncounted = []) :
    s.Schedules config t := by
  left
  rw [scheduling, scheduling, Coordinator.counted_eq_self hs, Coordinator.counted_eq_self ht,
    hpending, hactive, hlast]

theorem Limited.schedules_submit (h : s.Limited config) {i : ℕ} {work : Work}
    (hnext : s.coordinator.nextIndex config.effectiveWorkersPerMount = some i)
    (hphase : s.coordinator.phase = .dispatching)
    (hwork : s.coordinator.pending[i]? = some work) :
    s.Schedules config
      ({ s with pool := { s.pool with jobs := s.pool.jobs ++ [work] } }.go
        { s.coordinator with
          pending := s.coordinator.pending.eraseIdx i, phase := .submitted work } []) := by
  right
  obtain ⟨before, first, after, rfl, hchooses⟩ := Coordinator.chooses_of_nextIndex hnext
  obtain ⟨active, hraise⟩ := h.exists_raise work
  have hfirst : first = work := by
    rw [hchooses.pending, getElem?_split] at hwork
    exact Option.some.inj hwork
  rw [hfirst] at hchooses
  have hself : s.coordinator.counted = s.coordinator :=
    Coordinator.counted_eq_self (by rw [hphase]; rfl)
  have hstep : s.scheduling.schedule config.effectiveWorkersPerMount (.dispatch work) =
      some (s.scheduling.handOut before work after active) := by
    apply Coordinator.schedule_of_nextIndex
    · rw [scheduling, hself]
      exact hnext
    · exact hchooses.pending
    · rw [scheduling, hself]
      exact hraise
  refine ⟨.dispatch work, hstep.trans ?_⟩
  simp only [scheduling, Coordinator.counted, go, hraise, hchooses.pending, eraseIdx_split]
  rfl

theorem schedules_discovered (hphase : s.coordinator.phase = .scanning)
    (candidate : SourceFileCandidate) (disposition : Except String ImportDisposition) :
    s.Schedules config (s.discovered config candidate disposition) := by
  have hs : s.coordinator.phase.uncounted = [] := by rw [hphase]; rfl
  simp only [System.discovered]
  split
  · exact schedules_of_eq rfl rfl rfl hs rfl
  · exact schedules_of_eq rfl rfl rfl hs rfl
  · right
    refine ⟨.discover ⟨s.coordinator.sequence, candidate⟩, ?_⟩
    rw [scheduling, Coordinator.counted_eq_self hs]
    split_ifs <;> rfl

theorem schedules_completed {finished : CompletedWork}
    (hphase : s.coordinator.phase = .completing finished) :
    s.Schedules config (s.completed config finished) := by
  have hs : s.coordinator.phase.uncounted = [] := by rw [hphase]; rfl
  rw [completed]
  cases hlower : completeActive s.coordinator.active finished.work.mountId with
  | error error => exact schedules_of_eq rfl rfl rfl hs rfl
  | ok n =>
      right
      refine ⟨.complete finished.work.mountId, ?_⟩
      rw [scheduling, Coordinator.counted_eq_self hs]
      simp only [Coordinator.schedule, hlower]
      rfl

theorem Limited.schedules (h : s.Limited config) {move : CoordinatorMove}
    (hstep : s.coordinate config move = some t) : s.Schedules config t := by
  cases move <;> simp only [System.coordinate] at hstep
  case submit work =>
    split at hstep
    · next i hnext =>
      simp only [Option.ite_none_right_eq_some, Option.some.injEq] at hstep
      obtain ⟨⟨hphase, hwork, -⟩, rfl⟩ := hstep
      exact h.schedules_submit hnext hphase hwork
    · cases hstep
  case countWork work =>
    split at hstep
    · next hphase =>
      obtain ⟨active, hraise⟩ := h.exists_raise work
      simp only [hraise, Option.some.injEq] at hstep
      subst hstep
      left
      simp only [scheduling, Coordinator.counted, go, hphase, hraise]
      rfl
    · cases hstep
  case discover candidate disposition =>
    simp only [Option.ite_none_right_eq_some, Option.some.injEq] at hstep
    obtain ⟨hphase, rfl⟩ := hstep
    exact schedules_discovered hphase candidate disposition
  case submitSkip candidate size =>
    simp only [Option.ite_none_right_eq_some, Option.some.injEq] at hstep
    obtain ⟨⟨hphase, -⟩, rfl⟩ := hstep
    have hs : s.coordinator.phase.uncounted = [] := by rw [hphase]; rfl
    simp only [System.submittedSkip]
    split_ifs
    · exact schedules_of_eq rfl rfl rfl hs rfl
    · exact schedules_of_eq rfl rfl rfl hs rfl
  case complete finished =>
    simp only [Option.ite_none_right_eq_some, Option.some.injEq] at hstep
    obtain ⟨hphase, rfl⟩ := hstep
    exact schedules_completed hphase
  case drained =>
    split at hstep
    · next phase hphase =>
      simp only [Option.ite_none_right_eq_some, Option.some.injEq] at hstep
      obtain ⟨-, rfl⟩ := hstep
      obtain ⟨-, ht, hs, -⟩ := CoordinatorPhase.limits_of_afterDrain hphase
      exact schedules_of_eq rfl rfl rfl hs ht
    · cases hstep
  case pollWriterClear =>
    split at hstep
    · next next hphase =>
      simp only [Option.ite_none_right_eq_some, Option.some.injEq] at hstep
      obtain ⟨-, rfl⟩ := hstep
      obtain ⟨-, ht, -⟩ := CoordinatorPhase.limits_ofPoll next
      exact schedules_of_eq rfl rfl rfl (by rw [hphase]; rfl) ht
    · cases hstep
  case resolve ticket outcome =>
    simp only [Option.ite_none_right_eq_some, Option.some.injEq] at hstep
    obtain ⟨⟨hresolves, -⟩, rfl⟩ := hstep
    have hs := CoordinatorPhase.files_of_canFail hresolves.canFail
    refine schedules_of_eq rfl rfl rfl hs ?_
    simp only [go]
    split_ifs
    · rfl
    · exact hs
  case resolveFailed ticket error =>
    simp only [Option.ite_none_right_eq_some, Option.some.injEq] at hstep
    obtain ⟨⟨hresolves, -⟩, rfl⟩ := hstep
    exact schedules_of_eq rfl rfl rfl (CoordinatorPhase.files_of_canFail hresolves.canFail) rfl
  case panic error =>
    simp only [Option.ite_none_right_eq_some, Option.some.injEq] at hstep
    obtain ⟨hphase, rfl⟩ := hstep
    exact schedules_of_eq rfl rfl rfl (CoordinatorPhase.files_of_canFail hphase) rfl
  case drain event =>
    simp only [Option.ite_none_right_eq_some, Option.some.injEq] at hstep
    obtain ⟨-, rfl⟩ := hstep
    exact Or.inl rfl
  all_goals
    -- no file moves, and the phases are known
    (repeat' (split at hstep)) <;> simp only [Option.some.injEq, reduceCtorEq] at hstep <;>
      subst hstep <;> refine schedules_of_eq rfl rfl rfl ?_ ?_ <;>
      simp_all [System.go, Coordinator.go, Coordinator.fail, System.cancelAndFail,
        System.submittedHashed, CoordinatorPhase.uncounted]

/-- In every import the pending files go on as `schedule` has it. -/
theorem Reached.scheduled (h : s.Reached config) : ∃ moves,
    run (Coordinator.schedule config.effectiveWorkersPerMount) (Coordinator.waiting []) moves =
      some s.scheduling := by
  obtain ⟨moves, hrun⟩ := h
  have hboth := Transition.run_invariant (P := fun s => s.Limited config ∧ ∃ moves,
    run (Coordinator.schedule config.effectiveWorkersPerMount) (Coordinator.waiting []) moves =
      some s.scheduling) ⟨.start, [], rfl⟩ (fun u move v hu hstep => ?_) hrun
  · exact hboth.2
  · obtain ⟨hlimited, before, hbefore⟩ := hu
    refine ⟨hlimited.step hstep, ?_⟩
    have hschedules : u.Schedules config v := by
      cases move with
      | worker i move =>
          simp only [System.step] at hstep
          split at hstep
          · obtain ⟨⟨w, pool, events⟩, -, rfl⟩ := Option.map_eq_some_iff.1 hstep
            exact Or.inl rfl
          · cases hstep
      | coordinator move => exact hlimited.schedules hstep
      | writer move =>
          simp only [System.step, Option.map_eq_some_iff] at hstep
          obtain ⟨⟨writer, link⟩, -, rfl⟩ := hstep
          exact Or.inl rfl
    rcases hschedules with hsame | ⟨next, hnext⟩
    · exact ⟨before, hbefore.trans (congrArg some hsame.symm)⟩
    · exact ⟨before ++ [next], Transition.run_concat_eq_some.2 ⟨_, hbefore, hnext⟩⟩

end System

end MediaImporter
