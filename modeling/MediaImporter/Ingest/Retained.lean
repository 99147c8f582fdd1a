import MediaImporter.Ingest.Executor

/-!
# Finished files that are retained

A worker counts a finished file before it sends it, and the coordinator takes the file out of
the channel before it takes it out of the count. In between the file has left its slot and is
still counted. When the workers use that moment to fill the slot and to finish eight files
more, seventeen are counted.

## Main definitions

* `System.retained` — the files that are counted.
* `completedRetained_eq` — the counter is their number, and at most seventeen.
* `retained_inBound` — it is at most sixteen if no worker counts a file in that moment.
-/

namespace MediaImporter

open Transition (run Meeting)

/-! ## What the counter counts -/

def WorkerPhase.retains : WorkerPhase → ℕ
  | .holding _ _ => 1
  | _ => 0

def CoordinatorPhase.retains : CoordinatorPhase → ℕ
  | .received _ => 1
  | _ => 0

/-- The files that workers hold, that are in the channel, and that the coordinator has just
received. -/
def System.retained (s : System) : ℕ :=
  (s.workers.map fun w => w.phase.retains).sum + s.pool.completed.length +
    s.coordinator.phase.retains

namespace CoordinatorPhase

variable {p q : CoordinatorPhase}

theorem retains_of_canFail (h : p.CanFail = true) : p.retains = 0 := by
  cases p <;> first | rfl | cases h

theorem retains_ofPoll (next : AfterPoll) : (ofPoll next).retains = 0 := by
  cases next <;> rfl

theorem retains_of_afterDrain (h : p.afterDrain = some q) : p.retains = 0 ∧ q.retains = 0 := by
  cases p <;> cases h <;> exact ⟨rfl, rfl⟩

theorem canFail_of_isResolving (h : p.isResolving = true) : p.CanFail = true := by
  cases p <;> first | rfl | cases h

end CoordinatorPhase

theorem Coordinator.Resolves.canFail {c : Coordinator} {n : ℕ} (h : c.Resolves n) :
    c.phase.CanFail = true := by
  rcases h with ⟨h, -⟩ | h
  · exact CoordinatorPhase.canFail_of_isResolving h
  · rw [h]
    rfl

/-! ## One move -/

/-- A move of a worker keeps the count, counts one file more, or gives up one file. -/
inductive WorkerRetains (move : WorkerMove) (w w' : SourceWorker) (p p' : Pool) : Prop
  | same (hcount : p'.completedRetained = p.completedRetained)
      (hfiles : w'.phase.retains + p'.completed.length = w.phase.retains + p.completed.length)
      (hroom : p.completed.length ≤ completionQueueCapacity →
        p'.completed.length ≤ completionQueueCapacity)
  | counts {work blob} (hmove : move = .count work blob)
      (hcount : p'.completedRetained = fetchAdd p.completedRetained)
      (hbefore : w.phase.retains = 0) (hafter : w'.phase.retains = 1)
      (hfiles : p'.completed = p.completed)
  | givesUp (hcount : p'.completedRetained = fetchSub p.completedRetained)
      (hbefore : w.phase.retains = 1) (hafter : w'.phase.retains = 0)
      (hfiles : p'.completed = p.completed)

section Worker

variable {w w' : SourceWorker} {p p' : Pool} {events : List IngestEvent} {move : WorkerMove}

theorem SourceWorker.step_retains (h : w.step p move = some (w', p', events)) :
    WorkerRetains move w w' p p' := by
  cases move
  case count work blob =>
    simp only [step, Option.ite_none_right_eq_some, Option.some.injEq, Prod.mk.injEq] at h
    obtain ⟨⟨hphase, -⟩, rfl, rfl, rfl⟩ := h
    exact .counts rfl rfl (by rw [hphase]; rfl) rfl rfl
  case abandon work blob =>
    simp only [step, Option.ite_none_right_eq_some, Option.some.injEq, Prod.mk.injEq] at h
    obtain ⟨⟨⟨hphase, -⟩, -⟩, rfl, rfl, rfl⟩ := h
    exact .givesUp rfl (by rw [hphase]; rfl) rfl rfl
  case send work blob =>
    -- the file leaves the worker for the channel
    simp only [step, Option.ite_none_right_eq_some, Option.some.injEq, Prod.mk.injEq] at h
    obtain ⟨⟨⟨hphase, -⟩, hroom⟩, rfl, rfl, rfl⟩ := h
    refine .same rfl ?_ fun _ => ?_
    · simp only [hphase, SourceWorker.go, WorkerPhase.retains, List.length_append,
        List.length_cons, List.length_nil]
      omega
    · simpa using hroom
  all_goals
    -- neither the worker nor the channel had or gets a file
    apply WorkerRetains.same <;> simp only [step] at h <;> (repeat' (split at h)) <;>
      simp_all [SourceWorker.At, SourceWorker.go, SourceWorker.signalling, Pool.cancel,
        WorkerPhase.retains] <;> grind

end Worker

section Coordinator

variable {config : ExecutorConfig} {s t : System} {move : CoordinatorMove}

namespace System

theorem discovered_retains (candidate : SourceFileCandidate)
    (disposition : Except String ImportDisposition) :
    (s.discovered config candidate disposition).pool = s.pool ∧
      (s.discovered config candidate disposition).workers = s.workers ∧
      (s.discovered config candidate disposition).coordinator.phase.retains = 0 := by
  unfold discovered
  dsimp only
  split
  · exact ⟨rfl, rfl, rfl⟩
  · exact ⟨rfl, rfl, rfl⟩
  · split <;> exact ⟨rfl, rfl, rfl⟩

theorem completed_retains (done : CompletedWork) :
    (s.completed config done).pool = s.pool ∧ (s.completed config done).workers = s.workers ∧
      (s.completed config done).coordinator.phase.retains = 0 := by
  unfold completed
  dsimp only
  split <;> exact ⟨rfl, rfl, rfl⟩

theorem submittedSkip_retains (candidate : SourceFileCandidate) (size : ℕ) :
    (s.submittedSkip candidate size).pool = s.pool ∧
      (s.submittedSkip candidate size).workers = s.workers ∧
      (s.submittedSkip candidate size).coordinator.phase.retains = 0 := by
  unfold submittedSkip
  dsimp only
  split <;> exact ⟨rfl, rfl, rfl⟩

end System

/-- A move of the coordinator keeps the count, or takes the file that it has received out of it. -/
inductive CoordinatorRetains (s t : System) : Prop
  | same (hcount : t.pool.completedRetained = s.pool.completedRetained)
      (hfiles : t.pool.completed.length + t.coordinator.phase.retains =
        s.pool.completed.length + s.coordinator.phase.retains)
      (hroom : t.pool.completed.length ≤ s.pool.completed.length)
  | uncounts (hcount : t.pool.completedRetained = fetchSub s.pool.completedRetained)
      (hbefore : s.coordinator.phase.retains = 1) (hafter : t.coordinator.phase.retains = 0)
      (hfiles : t.pool.completed = s.pool.completed)

/-- A move between phases in which nothing is received. -/
theorem CoordinatorRetains.of_phases (hpool : t.pool.completed = s.pool.completed)
    (hcount : t.pool.completedRetained = s.pool.completedRetained)
    (hs : s.coordinator.phase.retains = 0) (ht : t.coordinator.phase.retains = 0) :
    CoordinatorRetains s t :=
  .same hcount (by rw [hpool, hs, ht]) (by rw [hpool])

theorem System.coordinate_retains (h : s.coordinate config move = some t) :
    t.workers = s.workers ∧ CoordinatorRetains s t := by
  cases move <;> simp only [coordinate] at h
  case drained =>
    split at h
    · next phase hphase =>
      obtain ⟨hs, ht⟩ := CoordinatorPhase.retains_of_afterDrain hphase
      simp only [Option.ite_none_right_eq_some, Option.some.injEq] at h
      obtain ⟨-, rfl⟩ := h
      exact ⟨rfl, .of_phases rfl rfl hs ht⟩
    · cases h
  case pollWriterClear =>
    split at h
    · next next hphase =>
      simp only [Option.ite_none_right_eq_some, Option.some.injEq] at h
      obtain ⟨-, rfl⟩ := h
      exact ⟨rfl, .of_phases rfl rfl (by rw [hphase]; rfl) (CoordinatorPhase.retains_ofPoll _)⟩
    · cases h
  case discover candidate disposition =>
    simp only [Option.ite_none_right_eq_some, Option.some.injEq] at h
    obtain ⟨hphase, rfl⟩ := h
    obtain ⟨hpool, hworkers, ht⟩ := discovered_retains candidate disposition
    refine ⟨hworkers, .of_phases ?_ ?_ (by rw [hphase]; rfl) ht⟩ <;> rw [hpool]
  case submitSkip candidate size =>
    simp only [Option.ite_none_right_eq_some, Option.some.injEq] at h
    obtain ⟨⟨hphase, -⟩, rfl⟩ := h
    obtain ⟨hpool, hworkers, ht⟩ := submittedSkip_retains (s := s) candidate size
    refine ⟨hworkers, .of_phases ?_ ?_ (by rw [hphase]; rfl) ht⟩ <;> rw [hpool]
  case complete done =>
    simp only [Option.ite_none_right_eq_some, Option.some.injEq] at h
    obtain ⟨hphase, rfl⟩ := h
    obtain ⟨hpool, hworkers, ht⟩ := completed_retains done
    refine ⟨hworkers, .of_phases ?_ ?_ (by rw [hphase]; rfl) ht⟩ <;> rw [hpool]
  case receive done =>
    -- the file leaves the channel for the hand of the coordinator
    simp only [Option.ite_none_right_eq_some, Option.some.injEq] at h
    obtain ⟨⟨hphase, hhead⟩, rfl⟩ := h
    obtain ⟨rest, hrest⟩ := List.head?_eq_some_iff.1 hhead
    refine ⟨rfl, .same rfl ?_ ?_⟩ <;>
      simp [go, Coordinator.go, CoordinatorPhase.retains, hphase, hrest]
  case uncount done =>
    simp only [Option.ite_none_right_eq_some, Option.some.injEq] at h
    obtain ⟨hphase, rfl⟩ := h
    exact ⟨rfl, .uncounts rfl (by rw [hphase]; rfl) rfl rfl⟩
  case resolve ticket outcome =>
    simp only [Option.ite_none_right_eq_some, Option.some.injEq] at h
    obtain ⟨⟨hresolves, -⟩, rfl⟩ := h
    have hs := CoordinatorPhase.retains_of_canFail hresolves.canFail
    refine ⟨rfl, .of_phases rfl rfl hs ?_⟩
    simp only [go]
    split_ifs
    · rfl
    · exact hs
  case resolveFailed ticket error =>
    simp only [Option.ite_none_right_eq_some, Option.some.injEq] at h
    obtain ⟨⟨hresolves, -⟩, rfl⟩ := h
    exact ⟨rfl, .of_phases rfl rfl (CoordinatorPhase.retains_of_canFail hresolves.canFail) rfl⟩
  case panic error =>
    simp only [Option.ite_none_right_eq_some, Option.some.injEq] at h
    obtain ⟨hphase, rfl⟩ := h
    exact ⟨rfl, .of_phases rfl rfl (CoordinatorPhase.retains_of_canFail hphase) rfl⟩
  case drain event =>
    simp only [Option.ite_none_right_eq_some, Option.some.injEq] at h
    obtain ⟨-, rfl⟩ := h
    exact ⟨rfl, .same rfl rfl le_rfl⟩
  all_goals
    -- both phases are known, and in neither a file is received
    (repeat' (split at h)) <;> simp only [Option.some.injEq, reduceCtorEq] at h <;> subst h <;>
      refine ⟨rfl, .of_phases rfl rfl ?_ ?_⟩ <;>
      simp [System.go, Coordinator.go, Coordinator.fail, System.cancelAndFail,
        System.submittedHashed, CoordinatorPhase.retains, *]

end Coordinator

/-! ## What is reported -/

/-- The occupancy of the finished files that an event reports. -/
def IngestEvent.retainedReport : IngestEvent → Option ℕ
  | .queueOccupancy .completedBlobs _ occupancy _ => some occupancy
  | _ => none

theorem filterMap_retainedReport_readCompleted (work : Work) (n : ℕ) :
    (readCompleted work n).filterMap IngestEvent.retainedReport = [] := by
  unfold readCompleted
  split_ifs <;> rfl

theorem filterMap_retainedReport_observeWorkOccupancy (pending : List Work)
    (active : Counters MountId) (n : ℕ) :
    (observeWorkOccupancy pending active n).filterMap IngestEvent.retainedReport = [] := by
  unfold observeWorkOccupancy
  rw [List.filterMap_eq_nil_iff]
  intro event hevent
  rcases List.mem_cons.1 hevent with rfl | hevent
  · rfl
  · obtain ⟨mountId, -, rfl⟩ := List.mem_map.1 hevent
    rfl

theorem filterMap_retainedReport_passedOn (event : CatalogWriterEvent) :
    event.passedOn.toList.filterMap IngestEvent.retainedReport = [] := by
  cases event with
  | checkpointRequested commitSequence shutdown => cases shutdown <;> rfl
  | _ => rfl

/-- A worker reports the files there are with the one that it counts. -/
theorem SourceWorker.step_reports {w w' : SourceWorker} {p p' : Pool} {events : List IngestEvent}
    {move : WorkerMove} (h : w.step p move = some (w', p', events)) :
    events.filterMap IngestEvent.retainedReport = [] ∨
      events.filterMap IngestEvent.retainedReport = [p.completedRetained + 1] ∧
        p'.completedRetained = fetchAdd p.completedRetained := by
  cases move <;> simp only [step] at h <;> (repeat' (split at h)) <;>
    simp only [Option.some.injEq, Prod.mk.injEq, reduceCtorEq] at h <;> obtain ⟨-, rfl, rfl⟩ := h
  case count.isTrue => exact .inr ⟨rfl, rfl⟩
  all_goals
    left
    first
      | rfl
      | exact filterMap_retainedReport_readCompleted _ _

/-- The coordinator reports the files there are without the one that it has received. -/
def System.Reports (s t : System) : Prop :=
  ∃ events, t.observed = s.observed ++ events ∧
    (events.filterMap IngestEvent.retainedReport = [] ∨
      events.filterMap IngestEvent.retainedReport = [t.pool.completedRetained])

namespace System

variable {config : ExecutorConfig} {s t : System}

theorem discovered_reports (candidate : SourceFileCandidate)
    (disposition : Except String ImportDisposition) :
    s.Reports (s.discovered config candidate disposition) := by
  unfold discovered
  dsimp only
  split
  · exact ⟨_, rfl, .inl rfl⟩
  · exact ⟨_, rfl, .inl rfl⟩
  · have := filterMap_retainedReport_observeWorkOccupancy
    split <;> exact ⟨_, rfl, .inl ((List.filterMap_cons_none rfl).trans (this _ _ _))⟩

theorem completed_reports (done : CompletedWork) : s.Reports (s.completed config done) := by
  unfold completed
  dsimp only
  split
  · exact ⟨_, rfl, .inl rfl⟩
  · refine ⟨_, rfl, .inl ?_⟩
    rw [List.filterMap_append, filterMap_retainedReport_observeWorkOccupancy]
    rfl

theorem submittedSkip_reports (candidate : SourceFileCandidate) (size : ℕ) :
    s.Reports (s.submittedSkip candidate size) := by
  unfold submittedSkip
  dsimp only
  split <;> exact ⟨_, rfl, .inl rfl⟩

theorem coordinate_reports {move : CoordinatorMove} (h : s.coordinate config move = some t) :
    s.Reports t := by
  cases move <;> simp only [coordinate] at h <;> (repeat' (split at h)) <;>
    simp only [Option.some.injEq, reduceCtorEq] at h <;> subst h
  case uncount.isTrue => exact ⟨_, rfl, .inr rfl⟩
  case discover.isTrue => exact discovered_reports _ _
  case complete.isTrue => exact completed_reports _
  case submitSkip.isTrue => exact submittedSkip_reports _ _
  case drain.isTrue event _ =>
    exact ⟨_, rfl, .inl (filterMap_retainedReport_passedOn event)⟩
  all_goals
    first
      | exact ⟨_, rfl, .inl rfl⟩
      | exact ⟨[], (List.append_nil _).symm, .inl rfl⟩
      | exact ⟨_, rfl, .inl ((List.filterMap_cons_none rfl).trans
          (filterMap_retainedReport_observeWorkOccupancy _ _ _))⟩

end System

/-! ## Runs -/

variable {config : ExecutorConfig} {s t : System} {move : Move}

/-- The counter is the number of the files that are retained. -/
structure System.Counted (s : System) : Prop where
  workers : s.workers.length = maxLiveSourceWorkers
  room : s.pool.completed.length ≤ completionQueueCapacity
  count : s.pool.completedRetained = s.retained

theorem WorkerPhase.retains_le_one (phase : WorkerPhase) : phase.retains ≤ 1 := by
  cases phase <;> simp [retains]

theorem CoordinatorPhase.retains_le_one (phase : CoordinatorPhase) : phase.retains ≤ 1 := by
  cases phase <;> simp [retains]

namespace System.Counted

theorem sum_le (h : s.Counted) :
    (s.workers.map fun w => w.phase.retains).sum ≤ maxLiveSourceWorkers := by
  have := sum_map_le (l := s.workers) (fun w => w.phase.retains) (n := 1) fun w _ =>
    w.phase.retains_le_one
  rw [h.workers] at this
  omega

/-- One more than the capacity can be counted. -/
theorem le_succ_capacity (h : s.Counted) :
    s.pool.completedRetained ≤ completedWorkRetainedCapacity + 1 := by
  have hsum := h.sum_le
  have hroom := h.room
  have hhand := s.coordinator.phase.retains_le_one
  rw [h.count, retained]
  unfold completedWorkRetainedCapacity
  omega

theorem start : System.start.Counted := ⟨rfl, by decide, rfl⟩

theorem step (h : s.Counted) (hstep : s.step config move = some t) : t.Counted := by
  have hle := h.le_succ_capacity
  have hcount := h.count
  cases move with
  | worker i move =>
      simp only [System.step] at hstep
      cases hw : s.workers[i]? with
      | none => simp [hw] at hstep
      | some w =>
          simp only [hw, Option.map_eq_some_iff] at hstep
          obtain ⟨⟨w', pool, events⟩, hmove, rfl⟩ := hstep
          have hsum := sum_map_set (b := w') (fun w => w.phase.retains) hw
          have hone := le_sum_map (fun w => w.phase.retains) hw
          have hlen : (s.workers.set i w').length = maxLiveSourceWorkers := by
            rw [List.length_set, h.workers]
          simp only [retained] at hcount
          refine ⟨hlen, ?_, ?_⟩
          · cases SourceWorker.step_retains hmove with
            | same _ _ hroom => exact hroom h.room
            | counts _ _ _ _ hfiles => exact hfiles ▸ h.room
            | givesUp _ _ _ hfiles => exact hfiles ▸ h.room
          · simp only [retained]
            cases SourceWorker.step_retains hmove with
            | same hsame hfiles =>
                rw [hsame]
                omega
            | counts _ hadd hbefore hafter hfiles =>
                have hlt : s.pool.completedRetained + 1 < 2 ^ 64 :=
                  lt_of_le_of_lt (Nat.add_le_add_right hle 1) (by decide)
                rw [hadd, fetchAdd_of_lt hlt, hfiles]
                omega
            | givesUp hsub hbefore hafter hfiles =>
                rw [hsub, fetchSub_of_pos (by omega), hfiles]
                omega
  | coordinator move =>
      obtain ⟨hworkers, hretains⟩ := coordinate_retains hstep
      refine ⟨hworkers ▸ h.workers, ?_, ?_⟩
      · cases hretains with
        | same _ _ hroom => exact hroom.trans h.room
        | uncounts _ _ _ hfiles => exact hfiles ▸ h.room
      · simp only [retained] at hcount ⊢
        rw [hworkers]
        cases hretains with
        | same hsame hfiles _ =>
            rw [hsame]
            omega
        | uncounts hsub hbefore hafter hfiles =>
            rw [hsub, fetchSub_of_pos (by omega), hfiles]
            omega
  | writer move =>
      simp only [System.step, Option.map_eq_some_iff] at hstep
      obtain ⟨-, -, rfl⟩ := hstep
      exact ⟨h.workers, h.room, hcount⟩

end System.Counted

theorem System.Reached.counted (h : s.Reached config) : s.Counted := by
  obtain ⟨moves, hrun⟩ := h
  exact Transition.run_invariant (P := System.Counted) .start (fun _ _ _ => .step) hrun

/-- In every import at most seventeen files are counted, and as many as are retained. -/
theorem completedRetained_eq (h : s.Reached config) :
    s.pool.completedRetained = s.retained ∧
      s.pool.completedRetained ≤ completedWorkRetainedCapacity + 1 :=
  ⟨h.counted.count, h.counted.le_succ_capacity⟩

/-- A worker counts a file that it has finished. -/
def Move.counts : Move → Bool
  | .worker _ (.count _ _) => true
  | _ => false

/-- A worker does not count a file while the coordinator still has to take one out of the count
and every slot of the channel and every other worker has one. -/
def CountsInRoom (s : System) (move : Move) : Prop :=
  move.counts = true →
    ¬(s.coordinator.phase.retains = 1 ∧ s.pool.completed.length = completionQueueCapacity ∧
      (s.workers.map fun w => w.phase.retains).sum + 1 = maxLiveSourceWorkers)

instance (s : System) (move : Move) : Decidable (CountsInRoom s move) :=
  inferInstanceAs (Decidable (_ → ¬_))

/-- The counter and its reports are in their bound, and whoever is to take one out of the count
finds one in it. -/
structure System.RetainedInBound (s : System) : Prop where
  counter : s.pool.completedRetained ≤ completedWorkRetainedCapacity
  reports : ∀ n ∈ s.observed.filterMap IngestEvent.retainedReport,
    n ≤ completedWorkRetainedCapacity
  worker : ∀ w ∈ s.workers, w.phase.retains = 1 → 0 < s.pool.completedRetained
  coordinator : s.coordinator.phase.retains = 1 → 0 < s.pool.completedRetained

namespace System.Counted

/-- The counter does not underflow. -/
theorem pos_of_worker (h : s.Counted) {w : SourceWorker} (hw : w ∈ s.workers)
    (hretains : w.phase.retains = 1) : 0 < s.pool.completedRetained := by
  obtain ⟨i, hi⟩ := List.getElem?_of_mem hw
  have := le_sum_map (fun w => w.phase.retains) hi
  rw [h.count, retained]
  omega

theorem pos_of_coordinator (h : s.Counted) (hretains : s.coordinator.phase.retains = 1) :
    0 < s.pool.completedRetained := by
  rw [h.count, retained]
  omega

/-- A move that meets the condition keeps the counter in its bound. -/
theorem step_le (h : s.Counted) (hle : s.pool.completedRetained ≤ completedWorkRetainedCapacity)
    (hmeets : CountsInRoom s move) (hstep : s.step config move = some t) :
    t.pool.completedRetained ≤ completedWorkRetainedCapacity := by
  have hcount := h.count
  cases move with
  | worker i move =>
      simp only [System.step] at hstep
      cases hw : s.workers[i]? with
      | none => simp [hw] at hstep
      | some w =>
          simp only [hw, Option.map_eq_some_iff] at hstep
          obtain ⟨⟨w', pool, events⟩, hmove, rfl⟩ := hstep
          cases SourceWorker.step_retains hmove with
          | same hsame _ _ => exact hsame ▸ hle
          | counts hcounts hadd hbefore hafter hfiles =>
              -- the worker itself holds nothing before, so the sum is that of the others
              have hsum := sum_map_set (b := w') (fun w => w.phase.retains) hw
              have hset : ((s.workers.set i w').map fun w => w.phase.retains).sum ≤
                  maxLiveSourceWorkers := by
                have := sum_map_le (l := s.workers.set i w') (fun w => w.phase.retains) (n := 1)
                  fun w _ => w.phase.retains_le_one
                rw [List.length_set, h.workers] at this
                omega
              have hroom := h.room
              have hhand := s.coordinator.phase.retains_le_one
              have hfull := hmeets (by rw [hcounts]; rfl)
              have hlt : s.pool.completedRetained + 1 < 2 ^ 64 :=
                lt_of_le_of_lt (Nat.add_le_add_right hle 1) (by decide)
              simp only [retained] at hcount
              rw [hadd, fetchAdd_of_lt hlt]
              unfold completedWorkRetainedCapacity at hle ⊢
              omega
          | givesUp hsub hbefore _ _ =>
              have := h.pos_of_worker (List.mem_of_getElem? hw) hbefore
              rw [hsub, fetchSub_of_pos this]
              omega
  | coordinator move =>
      cases (coordinate_retains hstep).2 with
      | same hsame _ _ => exact hsame ▸ hle
      | uncounts hsub hbefore _ _ =>
          have := h.pos_of_coordinator hbefore
          rw [hsub, fetchSub_of_pos this]
          omega
  | writer move =>
      simp only [System.step, Option.map_eq_some_iff] at hstep
      obtain ⟨-, -, rfl⟩ := hstep
      exact hle

end System.Counted

theorem System.reports_step {n : ℕ} (h : s.Counted) (hstep : s.step config move = some t)
    (hn : n ∈ t.observed.filterMap IngestEvent.retainedReport) :
    n ∈ s.observed.filterMap IngestEvent.retainedReport ∨ n = t.pool.completedRetained := by
  cases move with
  | worker i move =>
      simp only [System.step] at hstep
      cases hw : s.workers[i]? with
      | none => simp [hw] at hstep
      | some w =>
          simp only [hw, Option.map_eq_some_iff] at hstep
          obtain ⟨⟨w', pool, events⟩, hmove, rfl⟩ := hstep
          rw [List.filterMap_append, List.mem_append] at hn
          have hlt : s.pool.completedRetained + 1 < 2 ^ 64 :=
            lt_of_le_of_lt (Nat.add_le_add_right h.le_succ_capacity 1) (by decide)
          rcases SourceWorker.step_reports hmove with hnone | ⟨hone, hadd⟩
          · rw [hnone] at hn
            exact .inl (hn.resolve_right List.not_mem_nil)
          · rw [hone, List.mem_singleton] at hn
            rw [hadd, fetchAdd_of_lt hlt]
            exact hn
  | coordinator move =>
      obtain ⟨events, hevents, hreports⟩ := coordinate_reports hstep
      rw [hevents, List.filterMap_append, List.mem_append] at hn
      rcases hreports with hnone | hone
      · rw [hnone] at hn
        exact .inl (hn.resolve_right List.not_mem_nil)
      · rwa [hone, List.mem_singleton] at hn
  | writer move =>
      simp only [System.step, Option.map_eq_some_iff] at hstep
      obtain ⟨⟨writer, link⟩, -, rfl⟩ := hstep
      exact .inl hn

/-- In every import whose workers count files in room the counter stays in its bound. -/
theorem retained_inBound {moves : List Move}
    (hrun : run (System.step config) .start moves = some s)
    (hmeets : Meeting CountsInRoom (System.step config) .start moves) : s.RetainedInBound := by
  have hinv : s.Counted ∧ s.pool.completedRetained ≤ completedWorkRetainedCapacity ∧
      ∀ n ∈ s.observed.filterMap IngestEvent.retainedReport,
        n ≤ completedWorkRetainedCapacity := by
    refine Transition.run_invariant_meeting (P := fun s => s.Counted ∧
      s.pool.completedRetained ≤ completedWorkRetainedCapacity ∧
      ∀ n ∈ s.observed.filterMap IngestEvent.retainedReport, n ≤ completedWorkRetainedCapacity)
      ⟨.start, by decide, fun _ hn => by cases hn⟩ ?_ hrun hmeets
    rintro u m t ⟨hcounted, hle, hreports⟩ hC ht
    have hle' := hcounted.step_le hle hC ht
    refine ⟨hcounted.step ht, hle', fun n hn => ?_⟩
    rcases System.reports_step hcounted ht hn with hbefore | rfl
    · exact hreports n hbefore
    · exact hle'
  obtain ⟨hcounted, hle, hreports⟩ := hinv
  exact ⟨hle, hreports, fun w => hcounted.pos_of_worker, hcounted.pos_of_coordinator⟩

/-! ## An import that counts seventeen -/

/-- Files of three devices, all of them empty. -/
def pipelineFile (n : ℕ) : SourceFileCandidate :=
  ⟨⟨['p'], by decide⟩, 0, ⟨n % 3⟩⟩

def pipelineWork (n : ℕ) : Work := ⟨n, pipelineFile n⟩

def pipelineHash : BlobHash := ⟨List.replicate 64 'c', by decide⟩

def pipelineBlob : StoredBlob := ⟨pipelineHash, 0, .created⟩

theorem pipelineConfig_pos : 0 < 8 := by decide

def pipelineConfig : ExecutorConfig := ⟨8, pipelineConfig_pos, .default⟩

/-- A turn of the loop up to its decision, in which files are handed out. -/
def turnMoves (dispatched : List Work) : List Move :=
  ([CoordinatorMove.drained, .pollClear, .pollWriterClear] ++
    dispatched.flatMap (fun work => [CoordinatorMove.submit work, .countWork work]) ++
    [CoordinatorMove.noneEligible, .pollClear, .pollWriterClear, .decide]).map .coordinator

def discoverMoves (n : ℕ) : List Move :=
  [.coordinator .pollClear, .coordinator .pollWriterClear,
    .coordinator (.discover (pipelineFile n) (.ok (.hash .noCatalogObservation)))]

/-- A worker takes a file, reads it and counts it. -/
def readMoves (i n : ℕ) : List Move :=
  [WorkerMove.take (pipelineWork n), .admitted (pipelineWork n), .start (pipelineWork n),
    .store (pipelineWork n) 0 pipelineHash .created, .release (pipelineWork n) pipelineBlob,
    .count (pipelineWork n) pipelineBlob].map (.worker i)

/-- Eight files are in the channel, the workers hold eight more, and one waits for a worker. -/
def sixteenMoves : List Move :=
  turnMoves [] ++
  (List.range 17).flatMap (fun n => discoverMoves n ++ turnMoves [pipelineWork n] ++
    if n < 8 then readMoves n n ++ [.worker n (.send (pipelineWork n) pipelineBlob)]
    else if n < 16 then readMoves (n - 8) n
    else []) ++
  [.coordinator .pollClear, .coordinator .pollWriterClear, .coordinator .endOfScan] ++
  turnMoves []

/-- The coordinator receives a file, and its slot is filled before it is taken out of the
count. -/
def seventeenMoves : List Move :=
  sixteenMoves ++ [.coordinator (.receive ⟨pipelineWork 0, pipelineBlob⟩),
    .worker 0 (.send (pipelineWork 8) pipelineBlob)] ++ readMoves 0 16

theorem not_retained_inBound : ∃ s, run (System.step pipelineConfig) .start seventeenMoves =
    some s ∧ s.pool.completedRetained = 17 ∧ ¬s.RetainedInBound := by
  have hrun : (run (System.step pipelineConfig) .start seventeenMoves).map
      (fun s => s.pool.completedRetained) = some 17 := by decide +kernel
  obtain ⟨s, hs, hretained⟩ := Option.map_eq_some_iff.1 hrun
  refine ⟨s, hs, hretained, fun h => ?_⟩
  have := h.counter
  rw [hretained] at this
  exact absurd this (by decide)

theorem retained_inBound_sixteen : ∃ s,
    run (System.step pipelineConfig) .start sixteenMoves = some s ∧ s.RetainedInBound := by
  have hrun : (run (System.step pipelineConfig) .start sixteenMoves).isSome = true := by
    decide +kernel
  obtain ⟨s, hs⟩ := Option.isSome_iff_exists.1 hrun
  exact ⟨s, hs, retained_inBound hs (by decide +kernel)⟩

end MediaImporter
