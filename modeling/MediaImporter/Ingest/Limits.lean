import MediaImporter.Ingest.Retained

/-!
# Limits of an import

The coordinator admits files of a device up to the share of the device, waits for their
completion, and counts them as active from when it has handed them to the workers. A worker
that takes a file at once can count itself as a reader before that.

## Main definitions

* `System.inFlight` — the files of a device between the scheduler and the coordinator.
* `System.Limited` — what every move keeps.
* `within_limits` — the limits of an import.
-/

namespace MediaImporter

open Transition (run)

/-! ## Where files are -/

def onMount (m : MountId) (works : List Work) : ℕ := works.countP (·.mountId = m)

section OnMount

variable {m : MountId} {work : Work} {works works' : List Work}

@[simp] theorem onMount_nil : onMount m [] = 0 := rfl

@[simp] theorem onMount_append : onMount m (works ++ works') = onMount m works + onMount m works' :=
  List.countP_append

theorem onMount_cons : onMount m (work :: works) =
    onMount m works + if m = work.mountId then 1 else 0 := by
  simp [onMount, List.countP_cons, eq_comm]

end OnMount

/-- The file that a worker has taken and not yet handed over or given up. -/
def WorkerPhase.held : WorkerPhase → List Work
  | .waiting => []
  | .took work | .rejecting work | .dequeued work | .reading work _ | .readFailed work _ _
  | .reported work _ _ | .stored work _ | .uncounted work _ | .holding work _ => [work]

/-- The file that a worker counts as being read. -/
def WorkerPhase.reads : WorkerPhase → List Work
  | .reading work _ | .readFailed work _ _ | .reported work _ _ | .stored work _ => [work]
  | _ => []

namespace CoordinatorPhase

/-- The file that the coordinator has received and still counts as active. -/
def hand : CoordinatorPhase → List Work
  | .received finished | .completing finished => [finished.work]
  | _ => []

/-- The file that the workers have and the coordinator does not yet count as active. -/
def uncounted : CoordinatorPhase → List Work
  | .submitted work => [work]
  | _ => []

/-- The next file is about to be scanned. -/
def scans : CoordinatorPhase → Bool
  | .pollingWorkers .scan | .pollingWriter .scan | .scanning => true
  | _ => false

/-- There is room for a ticket. -/
def admits : CoordinatorPhase → Bool
  | .draining | .pollingWorkers _ | .pollingWriter _ | .dispatching | .submitted _ | .deciding
  | .scanning | .skipping _ _ | .receiving | .received _ | .completing _ | .submitting _ => true
  | _ => false

end CoordinatorPhase

namespace CoordinatorPhase

variable {p q : CoordinatorPhase}

theorem files_of_canFail (h : p.CanFail = true) : p.uncounted = [] := by
  cases p <;> first | rfl | cases h

theorem limits_of_afterDrain (h : p.afterDrain = some q) : q.hand = [] ∧ q.uncounted = [] ∧
    p.uncounted = [] ∧ q.scans = false ∧ (q.admits = true → p.admits = true) := by
  cases p <;> cases h <;> exact ⟨rfl, rfl, rfl, rfl, fun h => h⟩

theorem limits_ofPoll (next : AfterPoll) : (ofPoll next).hand = [] ∧
    (ofPoll next).uncounted = [] ∧
    ((ofPoll next).scans = true → (pollingWriter next).scans = true) := by
  cases next <;> exact ⟨rfl, rfl, fun h => h⟩

theorem scans_pollingWriter (next : AfterPoll) :
    (pollingWriter next).scans = (pollingWorkers next).scans := by
  cases next <;> rfl

end CoordinatorPhase

/-- The files of a device in the queue, with the workers, in the channel and in the hand of the
coordinator. -/
def System.inFlight (s : System) (m : MountId) : ℕ :=
  onMount m s.pool.jobs + (s.workers.map fun w => onMount m w.phase.held).sum +
    onMount m (s.pool.completed.map (·.work)) + onMount m s.coordinator.phase.hand

theorem WorkerPhase.reads_le_held (phase : WorkerPhase) (m : MountId) :
    onMount m phase.reads ≤ onMount m phase.held := by
  cases phase <;> simp [reads, held]

/-! ## Moves of the workers -/

section Worker

variable {w w' : SourceWorker} {p p' : Pool} {events : List IngestEvent} {move : WorkerMove}

theorem Counters.count_settle_lowered {missing underflow : String} {c : Counters MountId}
    {k : MountId} {n : ℕ} (h : c.lowered missing underflow k = .ok n) (m : MountId) :
    c.count m = (c.settle k n).count m + if m = k then 1 else 0 := by
  have hk := lowered_ok h
  rw [count_settle]
  split_ifs with hm
  · rw [hm, hk]
  · rfl

/-- The counters of readers follow the phases. -/
theorem SourceWorker.step_readers (h : w.step p move = some (w', p', events)) (m : MountId) :
    p'.readers.count m + onMount m w.phase.reads =
      p.readers.count m + onMount m w'.phase.reads := by
  cases move <;> simp only [step] at h
  case start work =>
    split at h
    · next readers hraise =>
      simp only [Option.ite_none_right_eq_some, Option.some.injEq, Prod.mk.injEq] at h
      obtain ⟨⟨hphase, -⟩, rfl, rfl, -⟩ := h
      simp only [hphase, go, WorkerPhase.reads, onMount_cons, onMount_nil]
      rw [Counters.raise_eq_some hraise m]
      omega
    · cases h
  case «return» work n context =>
    split at h
    · next active hlowered =>
      simp only [Option.ite_none_right_eq_some, Option.some.injEq, Prod.mk.injEq] at h
      obtain ⟨⟨hphase, -⟩, rfl, rfl, -⟩ := h
      simp only [hphase, WorkerPhase.reads, onMount_cons, onMount_nil]
      rw [Counters.count_settle_lowered hlowered m]
      omega
    · cases h
  case release work blob =>
    split at h
    · next active hlowered =>
      simp only [Option.ite_none_right_eq_some, Option.some.injEq, Prod.mk.injEq] at h
      obtain ⟨⟨hphase, -⟩, rfl, rfl, -⟩ := h
      simp only [hphase, go, WorkerPhase.reads, onMount_cons, onMount_nil]
      rw [Counters.count_settle_lowered hlowered m]
      omega
    · cases h
  all_goals
    -- the same file is read before and after
    (repeat' (split at h)) <;>
      simp only [Option.some.injEq, Prod.mk.injEq, reduceCtorEq] at h <;>
      obtain ⟨rfl, rfl, -⟩ := h <;>
      simp_all [At, go, signalling, Pool.cancel, WorkerPhase.reads]

/-- No file appears from nowhere. -/
theorem SourceWorker.step_held (h : w.step p move = some (w', p', events)) (m : MountId) :
    onMount m p'.jobs + onMount m w'.phase.held + onMount m (p'.completed.map (·.work)) ≤
      onMount m p.jobs + onMount m w.phase.held + onMount m (p.completed.map (·.work)) := by
  cases move <;> simp only [step] at h
  case take work =>
    simp only [Option.ite_none_right_eq_some, Option.some.injEq, Prod.mk.injEq] at h
    obtain ⟨⟨⟨hphase, -⟩, hhead⟩, rfl, rfl, -⟩ := h
    obtain ⟨rest, hrest⟩ := List.head?_eq_some_iff.1 hhead
    simp only [hphase, hrest, go, WorkerPhase.held, onMount_cons, onMount_nil, List.tail_cons]
    omega
  case send work blob =>
    simp only [Option.ite_none_right_eq_some, Option.some.injEq, Prod.mk.injEq] at h
    obtain ⟨⟨⟨hphase, -⟩, -⟩, rfl, rfl, -⟩ := h
    simp only [hphase, go, WorkerPhase.held, onMount_cons, onMount_nil, List.map_append,
      List.map_cons, List.map_nil, onMount_append]
    omega
  all_goals
    (repeat' (split at h)) <;>
      simp only [Option.some.injEq, Prod.mk.injEq, reduceCtorEq] at h <;>
      obtain ⟨rfl, rfl, -⟩ := h <;>
      simp_all [At, go, signalling, Pool.cancel, WorkerPhase.held]

end Worker

/-! ## Moves of the coordinator -/

/-- What every move keeps. -/
structure System.Limited (config : ExecutorConfig) (s : System) : Prop where
  readers : ∀ m, s.pool.readers.count m =
    (s.workers.map fun w => onMount m w.phase.reads).sum
  flight : ∀ m, s.inFlight m ≤
    s.coordinator.active.count m + onMount m s.coordinator.phase.uncounted
  share : ∀ m, s.coordinator.active.count m + onMount m s.coordinator.phase.uncounted ≤
    config.effectiveWorkersPerMount
  pending : s.coordinator.pending.length ≤ schedulerQueueCapacity
  scans : s.coordinator.phase.scans = true →
    s.coordinator.pending.length < schedulerQueueCapacity
  tickets : s.coordinator.tickets.length ≤ config.maxOutstanding
  admits : s.coordinator.phase.admits = true →
    s.coordinator.tickets.length < config.maxOutstanding

theorem length_insertTicket_le (ticket : PendingTicket) (tickets : List PendingTicket) :
    (insertTicket ticket tickets).length ≤ tickets.length + 1 := by
  induction tickets with
  | nil => exact le_rfl
  | cons t tickets ih =>
      unfold insertTicket
      split_ifs
      · exact le_rfl
      · exact Nat.le_succ _
      · simp only [List.length_cons]
        omega

theorem Coordinator.eligible_of_nextIndex {c : Coordinator} {limit i : ℕ} {work : Work}
    (h : c.nextIndex limit = some i) (hwork : c.pending[i]? = some work) :
    c.active.count work.mountId < limit := by
  have of_findIdx : ∀ f : Work → Bool, c.pending.findIdx? f = some i → f work = true := by
    intro f hf
    obtain ⟨hi, hfi, -⟩ := List.findIdx?_eq_some_iff_getElem.1 hf
    rw [List.getElem?_eq_getElem hi, Option.some.injEq] at hwork
    exact hwork ▸ hfi
  unfold nextIndex at h
  cases hfirst : c.pending.findIdx? fun work =>
      c.eligible limit work && some work.mountId != c.lastDispatchedMount with
  | some j =>
      rw [hfirst] at h
      cases h
      have := of_findIdx _ hfirst
      simp only [Bool.and_eq_true, eligible, decide_eq_true_eq] at this
      exact this.1
  | none =>
      rw [hfirst] at h
      simpa [eligible] using of_findIdx _ h

namespace System.Limited

variable {config : ExecutorConfig} {s t : System}

/-- A move that moves no file keeps the limits, if the new phase expects no more room. -/
theorem of_phases (h : s.Limited config) (hworkers : t.workers = s.workers)
    (hjobs : t.pool.jobs = s.pool.jobs) (hcompleted : t.pool.completed = s.pool.completed)
    (hreaders : t.pool.readers = s.pool.readers)
    (hactive : t.coordinator.active = s.coordinator.active)
    (hhand : t.coordinator.phase.hand = [] ∨
      t.coordinator.phase.hand = s.coordinator.phase.hand)
    (huncounted : t.coordinator.phase.uncounted = s.coordinator.phase.uncounted)
    (hpending : t.coordinator.pending = s.coordinator.pending)
    (hscans : t.coordinator.phase.scans = true → s.coordinator.phase.scans = true ∨
      s.coordinator.pending.length < schedulerQueueCapacity)
    (htickets : t.coordinator.tickets.length ≤ s.coordinator.tickets.length)
    (hadmits : t.coordinator.phase.admits = true → s.coordinator.phase.admits = true ∨
      t.coordinator.tickets.length < config.maxOutstanding) :
    t.Limited config := by
  constructor
  · intro m
    rw [hreaders, hworkers]
    exact h.readers m
  · intro m
    have := h.flight m
    simp only [inFlight] at this ⊢
    rw [hjobs, hworkers, hcompleted, hactive, huncounted]
    rcases hhand with hhand | hhand
    · rw [hhand]
      simp only [onMount_nil]
      omega
    · rw [hhand]
      exact this
  · intro m
    rw [hactive, huncounted]
    exact h.share m
  · rw [hpending]
    exact h.pending
  · intro ht
    rw [hpending]
    exact (hscans ht).elim h.scans id
  · exact htickets.trans h.tickets
  · intro ht
    exact (hadmits ht).elim (fun hs => lt_of_le_of_lt htickets (h.admits hs)) id

theorem discovered (h : s.Limited config) (hphase : s.coordinator.phase = .scanning)
    (candidate : SourceFileCandidate) (disposition : Except String ImportDisposition) :
    (s.discovered config candidate disposition).Limited config := by
  have hroom := h.scans (by rw [hphase]; rfl)
  have hadmits := h.admits (by rw [hphase]; rfl)
  have hempty : s.coordinator.phase.uncounted = [] := by rw [hphase]; rfl
  have hhand : s.coordinator.phase.hand = [] := by rw [hphase]; rfl
  unfold System.discovered
  dsimp only
  split
  · exact h.of_phases rfl rfl rfl rfl rfl (.inl rfl) hempty.symm rfl (fun ht => by cases ht)
      le_rfl fun ht => by cases ht
  · exact h.of_phases rfl rfl rfl rfl rfl (.inl rfl) hempty.symm rfl (fun ht => by cases ht)
      le_rfl fun _ => .inr hadmits
  · -- a file more waits, and none is handed out
    have hflight := h.flight
    have hshare := h.share
    simp only [inFlight, hempty, hhand] at hflight hshare
    split <;>
    · refine ⟨h.readers, hflight, hshare, ?_, (fun ht => by cases ht), h.tickets, fun ht => ?_⟩
      · simp only [go, Coordinator.enqueue, Coordinator.fail, List.length_append,
          List.length_cons, List.length_nil]
        omega
      · exact hadmits

theorem submittedSkip (h : s.Limited config) {candidate : SourceFileCandidate} {size : ℕ}
    (hphase : s.coordinator.phase = .skipping candidate size) :
    (s.submittedSkip candidate size).Limited config := by
  have hadmits := h.admits (by rw [hphase]; rfl)
  have hempty : s.coordinator.phase.uncounted = [] := by rw [hphase]; rfl
  have hhand : s.coordinator.phase.hand = [] := by rw [hphase]; rfl
  have hinsert := length_insertTicket_le ⟨s.coordinator.sequence, candidate.relativePath⟩
    s.coordinator.tickets
  have hflight := h.flight
  have hshare := h.share
  simp only [inFlight, hempty, hhand] at hflight hshare
  unfold System.submittedSkip
  dsimp only
  split
  · exact ⟨h.readers, hflight, hshare, h.pending, (fun ht => by cases ht),
      hinsert.trans hadmits, fun ht => by cases ht⟩
  · exact h.of_phases rfl rfl rfl rfl rfl (.inl rfl) hempty.symm rfl (fun ht => by cases ht)
      le_rfl fun ht => by cases ht

theorem submittedHashed (h : s.Limited config) {finished : CompletedWork}
    (hphase : s.coordinator.phase = .submitting finished) :
    (s.submittedHashed finished).Limited config := by
  have hadmits := h.admits (by rw [hphase]; rfl)
  have hempty : s.coordinator.phase.uncounted = [] := by rw [hphase]; rfl
  have hhand : s.coordinator.phase.hand = [] := by rw [hphase]; rfl
  have hinsert := length_insertTicket_le
    ⟨finished.work.sequence, finished.work.candidate.relativePath⟩ s.coordinator.tickets
  have hflight := h.flight
  have hshare := h.share
  simp only [inFlight, hempty, hhand] at hflight hshare
  exact ⟨h.readers, hflight, hshare, h.pending, (fun ht => by cases ht), hinsert.trans hadmits,
    fun ht => by cases ht⟩

/-- The file in the hand of the coordinator is counted as active. -/
theorem active_pos (h : s.Limited config) {finished : CompletedWork}
    (hphase : s.coordinator.phase = .completing finished) :
    0 < s.coordinator.active.count finished.work.mountId := by
  have := h.flight finished.work.mountId
  simp only [inFlight, hphase, CoordinatorPhase.hand, CoordinatorPhase.uncounted, onMount_cons,
    onMount_nil, if_true] at this
  omega

theorem completed (h : s.Limited config) {finished : CompletedWork}
    (hphase : s.coordinator.phase = .completing finished) :
    (s.completed config finished).Limited config := by
  have hadmits := h.admits (by rw [hphase]; rfl)
  obtain ⟨n, hn⟩ := Counters.exists_lowered "completed work without active mount accounting"
    "active mount worker counter underflow" (h.active_pos hphase)
  have hcount := Counters.count_settle_lowered hn
  unfold System.completed
  simp only [completeActive, hn]
  refine ⟨h.readers, fun m => ?_, fun m => ?_, h.pending, (fun ht => by cases ht), h.tickets,
    fun _ => hadmits⟩
  · have := h.flight m
    have := hcount m
    simp only [inFlight, hphase, CoordinatorPhase.hand, CoordinatorPhase.uncounted, onMount_cons,
      onMount_nil, go] at *
    omega
  · have := h.share m
    have := hcount m
    simp only [hphase, CoordinatorPhase.uncounted, onMount_nil, go] at *
    omega

theorem submit (h : s.Limited config) {i : ℕ} {work : Work}
    (hnext : s.coordinator.nextIndex config.effectiveWorkersPerMount = some i)
    (hphase : s.coordinator.phase = .dispatching) (hwork : s.coordinator.pending[i]? = some work) :
    ({ s with pool := { s.pool with jobs := s.pool.jobs ++ [work] } }.go
      { s.coordinator with
        pending := s.coordinator.pending.eraseIdx i, phase := .submitted work } []).Limited
      config := by
  have heligible := Coordinator.eligible_of_nextIndex hnext hwork
  have hadmits := h.admits (by rw [hphase]; rfl)
  have hlen := List.length_eraseIdx_le s.coordinator.pending i
  refine ⟨h.readers, fun m => ?_, fun m => ?_, hlen.trans h.pending, (fun ht => by cases ht),
    h.tickets, fun _ => hadmits⟩
  · have := h.flight m
    simp only [inFlight, hphase, go, CoordinatorPhase.hand, CoordinatorPhase.uncounted,
      onMount_append, onMount_cons, onMount_nil] at *
    omega
  · have := h.share m
    simp only [hphase, go, CoordinatorPhase.uncounted, onMount_cons, onMount_nil] at *
    split_ifs with hm
    · rw [hm]
      omega
    · omega

/-- The counter of active files has room, since a device has at most eight of them. -/
theorem exists_raise (h : s.Limited config) (work : Work) :
    ∃ active, s.coordinator.active.raise work.mountId = some active := by
  have hshare := h.share work.mountId
  have hle : config.effectiveWorkersPerMount ≤ 8 := min_le_right _ _
  have hlt : s.coordinator.active.count work.mountId + 1 < 2 ^ 64 :=
    lt_of_le_of_lt (b := 9) (by omega) (by decide)
  exact ⟨_, if_pos hlt⟩

theorem countWork (h : s.Limited config) {work : Work} {active : Counters MountId}
    (hphase : s.coordinator.phase = .submitted work)
    (hraise : s.coordinator.active.raise work.mountId = some active) (events : List IngestEvent) :
    (s.go { s.coordinator with
      active, lastDispatchedMount := some work.mountId, phase := .dispatching } events).Limited
      config := by
  have hcount := Counters.raise_eq_some hraise
  have hadmits := h.admits (by rw [hphase]; rfl)
  refine ⟨h.readers, fun m => ?_, fun m => ?_, h.pending, (fun ht => by cases ht), h.tickets,
    fun _ => hadmits⟩
  · have := h.flight m
    have := hcount m
    simp only [inFlight, hphase, go, CoordinatorPhase.hand, CoordinatorPhase.uncounted,
      onMount_cons, onMount_nil] at *
    omega
  · have := h.share m
    have := hcount m
    simp only [hphase, go, CoordinatorPhase.uncounted, onMount_cons, onMount_nil] at *
    omega

theorem receive (h : s.Limited config) {finished : CompletedWork}
    (hphase : s.coordinator.phase = .receiving)
    (hhead : s.pool.completed.head? = some finished) :
    ({ s with pool := { s.pool with completed := s.pool.completed.tail } }.go
      (s.coordinator.go (.received finished)) []).Limited config := by
  have hadmits := h.admits (by rw [hphase]; rfl)
  obtain ⟨rest, hrest⟩ := List.head?_eq_some_iff.1 hhead
  refine ⟨h.readers, fun m => ?_, fun m => ?_, h.pending, (fun ht => by cases ht), h.tickets,
    fun _ => hadmits⟩
  · have := h.flight m
    simp only [inFlight, hphase, hrest, go, Coordinator.go, CoordinatorPhase.hand,
      CoordinatorPhase.uncounted, onMount_cons, onMount_nil, List.map_cons, List.tail_cons] at *
    omega
  · have := h.share m
    simpa only [hphase, go, Coordinator.go, CoordinatorPhase.uncounted] using this

theorem coordinate (h : s.Limited config) {move : CoordinatorMove}
    (hstep : s.coordinate config move = some t) : t.Limited config := by
  cases move <;> simp only [System.coordinate] at hstep
  case discover candidate disposition =>
    simp only [Option.ite_none_right_eq_some, Option.some.injEq] at hstep
    obtain ⟨hphase, rfl⟩ := hstep
    exact h.discovered hphase _ _
  case submitSkip candidate size =>
    simp only [Option.ite_none_right_eq_some, Option.some.injEq] at hstep
    obtain ⟨⟨hphase, -⟩, rfl⟩ := hstep
    exact h.submittedSkip hphase
  case submitHashed finished =>
    simp only [Option.ite_none_right_eq_some, Option.some.injEq] at hstep
    obtain ⟨⟨hphase, -⟩, rfl⟩ := hstep
    exact h.submittedHashed hphase
  case complete finished =>
    simp only [Option.ite_none_right_eq_some, Option.some.injEq] at hstep
    obtain ⟨hphase, rfl⟩ := hstep
    exact h.completed hphase
  case receive finished =>
    simp only [Option.ite_none_right_eq_some, Option.some.injEq] at hstep
    obtain ⟨⟨hphase, hhead⟩, rfl⟩ := hstep
    exact h.receive hphase hhead
  case submit work =>
    split at hstep
    · next i hnext =>
      simp only [Option.ite_none_right_eq_some, Option.some.injEq] at hstep
      obtain ⟨⟨hphase, hwork, -⟩, rfl⟩ := hstep
      exact h.submit hnext hphase hwork
    · cases hstep
  case countWork work =>
    split at hstep
    · next hphase =>
      obtain ⟨active, hraise⟩ := h.exists_raise work
      simp only [hraise, Option.some.injEq] at hstep
      subst hstep
      exact h.countWork hphase hraise _
    · cases hstep
  case drained =>
    split at hstep
    · next phase hphase =>
      simp only [Option.ite_none_right_eq_some, Option.some.injEq] at hstep
      obtain ⟨-, rfl⟩ := hstep
      obtain ⟨hhand, ht, hs, hscans, hadmits⟩ := CoordinatorPhase.limits_of_afterDrain hphase
      exact h.of_phases rfl rfl rfl rfl rfl (.inl hhand) (ht.trans hs.symm) rfl
        (fun hnext => absurd (hscans.symm.trans hnext) (by decide)) le_rfl
        fun hnext => .inl (hadmits hnext)
    · cases hstep
  case pollClear =>
    split at hstep
    · next next hphase =>
      simp only [Option.ite_none_right_eq_some, Option.some.injEq] at hstep
      obtain ⟨-, rfl⟩ := hstep
      refine h.of_phases rfl rfl rfl rfl rfl (.inl rfl) (by rw [hphase]; rfl) rfl
        (fun hnext => .inl ?_) le_rfl fun _ => .inl (by rw [hphase]; rfl)
      rwa [hphase, ← CoordinatorPhase.scans_pollingWriter]
    · cases hstep
  case pollWriterClear =>
    split at hstep
    · next next hphase =>
      simp only [Option.ite_none_right_eq_some, Option.some.injEq] at hstep
      obtain ⟨-, rfl⟩ := hstep
      obtain ⟨hhand, ht, hscans⟩ := CoordinatorPhase.limits_ofPoll next
      refine h.of_phases rfl rfl rfl rfl rfl (.inl hhand) (by rw [hphase]; exact ht) rfl
        (fun hnext => .inl ?_) le_rfl fun _ => .inl (by rw [hphase]; rfl)
      rw [hphase]
      exact hscans hnext
    · cases hstep
  case resolve ticket outcome =>
    simp only [Option.ite_none_right_eq_some, Option.some.injEq] at hstep
    obtain ⟨⟨hresolves, -⟩, rfl⟩ := hstep
    have htail : s.coordinator.tickets.tail.length ≤ s.coordinator.tickets.length := by simp
    have hs := CoordinatorPhase.files_of_canFail hresolves.canFail
    simp only [go]
    split_ifs with hfinal
    · exact h.of_phases rfl rfl rfl rfl rfl (.inl rfl) hs.symm rfl (fun ht => by cases ht) htail
        fun ht => by cases ht
    · exact h.of_phases rfl rfl rfl rfl rfl (.inr rfl) rfl rfl .inl htail .inl
  case resolveFailed ticket error =>
    simp only [Option.ite_none_right_eq_some, Option.some.injEq] at hstep
    obtain ⟨⟨hresolves, -⟩, rfl⟩ := hstep
    have htail : s.coordinator.tickets.tail.length ≤ s.coordinator.tickets.length := by simp
    have hs := CoordinatorPhase.files_of_canFail hresolves.canFail
    exact h.of_phases rfl rfl rfl rfl rfl (.inl rfl) hs.symm rfl (fun ht => by cases ht) htail
      fun ht => by cases ht
  case panic error =>
    simp only [Option.ite_none_right_eq_some, Option.some.injEq] at hstep
    obtain ⟨hphase, rfl⟩ := hstep
    exact h.of_phases rfl rfl rfl rfl rfl (.inl rfl)
      (CoordinatorPhase.files_of_canFail hphase).symm rfl (fun ht => by cases ht) le_rfl
      fun ht => by cases ht
  case drain event =>
    simp only [Option.ite_none_right_eq_some, Option.some.injEq] at hstep
    obtain ⟨-, rfl⟩ := hstep
    exact h.of_phases rfl rfl rfl rfl rfl (.inr rfl) rfl rfl .inl le_rfl .inl
  all_goals
    -- no file moves, and the phases are known
    (repeat' (split at hstep)) <;> simp only [Option.some.injEq, reduceCtorEq] at hstep <;>
      subst hstep <;> refine h.of_phases rfl rfl rfl rfl rfl ?_ ?_ rfl ?_ le_rfl ?_ <;>
      simp_all [System.go, Coordinator.go, Coordinator.fail, System.cancelAndFail,
        CoordinatorPhase.hand, CoordinatorPhase.uncounted, CoordinatorPhase.scans,
        CoordinatorPhase.admits]

theorem work (h : s.Limited config) {w w' : SourceWorker} {i : ℕ} {pool : Pool}
    {events : List IngestEvent} {move : WorkerMove} (hw : s.workers[i]? = some w)
    (hmove : w.step s.pool move = some (w', pool, events)) :
    ({ s with workers := s.workers.set i w', pool, observed := s.observed ++ events }).Limited
      config := by
  refine ⟨fun m => ?_, fun m => ?_, h.share, h.pending, h.scans, h.tickets, h.admits⟩
  · have hsum := sum_map_set (b := w') (fun w => onMount m w.phase.reads) hw
    have hstep := SourceWorker.step_readers hmove m
    have := h.readers m
    dsimp only at hsum ⊢
    omega
  · have hsum := sum_map_set (b := w') (fun w => onMount m w.phase.held) hw
    have hstep := SourceWorker.step_held hmove m
    have := h.flight m
    simp only [inFlight] at this ⊢
    omega

theorem start : System.start.Limited config := by
  have hreads : ∀ m, ((System.start.workers).map fun w => onMount m w.phase.reads).sum = 0 :=
    fun m => rfl
  have hheld : ∀ m, System.start.inFlight m = 0 := fun m => rfl
  refine ⟨fun m => (hreads m).symm, fun m => ?_, fun m => ?_, Nat.zero_le _, (fun h => by cases h),
    Nat.zero_le _, fun _ => config.writer.maxBatchRecords_pos⟩
  · rw [hheld m]
    exact Nat.zero_le _
  · exact Nat.zero_le _

theorem step (h : s.Limited config) {move : Move} (hstep : s.step config move = some t) :
    t.Limited config := by
  cases move with
  | worker i move =>
      simp only [System.step] at hstep
      cases hw : s.workers[i]? with
      | none => simp [hw] at hstep
      | some w =>
          simp only [hw, Option.map_eq_some_iff] at hstep
          obtain ⟨⟨w', pool, events⟩, hmove, rfl⟩ := hstep
          exact h.work hw hmove
  | coordinator move => exact h.coordinate hstep
  | writer move =>
      simp only [System.step, Option.map_eq_some_iff] at hstep
      obtain ⟨⟨writer, link⟩, -, rfl⟩ := hstep
      exact ⟨h.readers, h.flight, h.share, h.pending, h.scans, h.tickets, h.admits⟩

end System.Limited

theorem System.Reached.limited {config : ExecutorConfig} {s : System} (h : s.Reached config) :
    s.Limited config := by
  obtain ⟨moves, hrun⟩ := h
  exact Transition.run_invariant (P := System.Limited config) .start
    (fun _ _ _ hs => hs.step) hrun

/-! ## The limits -/

/-- The readers of a device are active, but for the file that the coordinator has just handed
out; a device has no more than its share; neither the scheduler nor the tickets exceed their
capacity; and whoever takes a file out of a count finds it there. -/
structure System.WithinLimits (config : ExecutorConfig) (s : System) : Prop where
  readers : ∀ m, s.pool.readers.count m ≤
    s.coordinator.active.count m + onMount m s.coordinator.phase.uncounted
  readersShare : ∀ m, s.pool.readers.count m ≤ min config.workersPerMount maxLiveSourceWorkers
  active : ∀ m, s.coordinator.active.count m ≤ min config.workersPerMount maxLiveSourceWorkers
  pending : s.coordinator.pending.length ≤ schedulerQueueCapacity
  tickets : s.coordinator.tickets.length ≤ config.maxOutstanding
  completes : ∀ finished, s.coordinator.phase = .completing finished →
    ∃ n, completeActive s.coordinator.active finished.work.mountId = .ok n
  releases : ∀ w ∈ s.workers, ∀ work, w.phase.leaving = some work →
    ∃ n, decrementReaders s.pool.readers work.mountId = .ok n

theorem System.Limited.readers_le {config : ExecutorConfig} {s : System} (h : s.Limited config)
    (m : MountId) : s.pool.readers.count m ≤
      s.coordinator.active.count m + onMount m s.coordinator.phase.uncounted := by
  have hle : (s.workers.map fun w => onMount m w.phase.reads).sum ≤
      (s.workers.map fun w => onMount m w.phase.held).sum :=
    List.sum_le_sum fun w _ => w.phase.reads_le_held m
  have := h.readers m
  have := h.flight m
  simp only [inFlight] at this
  omega

theorem System.Limited.readers_pos {config : ExecutorConfig} {s : System} (h : s.Limited config)
    {w : SourceWorker} (hw : w ∈ s.workers) {work : Work} (hleaving : w.phase.leaving = some work) :
    0 < s.pool.readers.count work.mountId := by
  have hreads : onMount work.mountId w.phase.reads = 1 := by
    cases hphase : w.phase <;> rw [hphase] at hleaving <;> cases hleaving <;>
      simp [WorkerPhase.reads, onMount_cons]
  obtain ⟨i, hi⟩ := List.getElem?_of_mem hw
  have hle := le_sum_map (fun w => onMount work.mountId w.phase.reads) hi
  rw [h.readers]
  omega

/-- In every import the limits hold. -/
theorem within_limits {config : ExecutorConfig} {s : System} (h : s.Reached config) :
    s.WithinLimits config := by
  have hlimited := h.limited
  refine ⟨hlimited.readers_le, fun m => (hlimited.readers_le m).trans (hlimited.share m),
    fun m => ?_, hlimited.pending, hlimited.tickets, fun finished hphase => ?_,
    fun w hw work hleaving => ?_⟩
  · exact (Nat.le_add_right _ _).trans (hlimited.share m)
  · exact Counters.exists_lowered _ _ (hlimited.active_pos hphase)
  · exact Counters.exists_lowered _ _ (hlimited.readers_pos hw hleaving)

/-- A worker takes the first file before the coordinator counts it. -/
def earlyReaderMoves : List Move :=
  turnMoves [] ++ discoverMoves 0 ++
    [.coordinator .drained, .coordinator .pollClear, .coordinator .pollWriterClear,
      .coordinator (.submit (pipelineWork 0)), .worker 0 (.take (pipelineWork 0)),
      .worker 0 (.admitted (pipelineWork 0)), .worker 0 (.start (pipelineWork 0))]

theorem within_limits_earlyReader : ∃ s,
    run (System.step pipelineConfig) .start earlyReaderMoves = some s ∧
      s.WithinLimits pipelineConfig := by
  have hrun : (run (System.step pipelineConfig) .start earlyReaderMoves).isSome = true := by
    decide +kernel
  obtain ⟨s, hs⟩ := Option.isSome_iff_exists.1 hrun
  exact ⟨s, hs, within_limits ⟨earlyReaderMoves, hs⟩⟩

/-- A device can have a reader and nothing that is active. -/
theorem not_readers_le_active : ¬∀ config s, System.Reached config s → ∀ m,
    s.pool.readers.count m ≤ s.coordinator.active.count m := by
  intro hall
  have hrun : (run (System.step pipelineConfig) .start earlyReaderMoves).map (fun s =>
      (s.pool.readers.count (pipelineWork 0).mountId,
        s.coordinator.active.count (pipelineWork 0).mountId)) = some (1, 0) := by
    decide +kernel
  obtain ⟨s, hs, hcounts⟩ := Option.map_eq_some_iff.1 hrun
  rw [Prod.mk.injEq] at hcounts
  have := hall pipelineConfig s ⟨earlyReaderMoves, hs⟩ (pipelineWork 0).mountId
  omega

end MediaImporter
