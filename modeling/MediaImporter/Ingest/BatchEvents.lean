import MediaImporter.Ingest.Retained

/-!
# What is told of committed batches

The writer announces every batch that it has committed, and never drops an announcement. The
coordinator passes on what it finds on the bridge, but it looks there for the last time before
the writer is told to finish, and not at all when the import fails. A batch that is announced
after that, and one that is still on the bridge then, is not told of.

## Main definitions

* `System.delivered`, `System.onBridge` — the batches that are told of, and that could be.
* `System.Reached.batches` — every committed batch is in one of the places.
* `delivers_iff` — exactly when all of them are delivered at the end.
-/

namespace MediaImporter

open Transition (run Meeting)

/-! ## Where the batches are -/

def CatalogWriterEvent.batchSize : CatalogWriterEvent → Option ℕ
  | .batchCommitted size _ => some size
  | _ => none

def IngestEvent.batchReport : IngestEvent → Option ℕ
  | .catalogBatchCommitted size => some size
  | _ => none

/-- The batch that is committed and not yet announced. -/
def ImportWriterPhase.unannounced : ImportWriterPhase → List ℕ
  | .answering _ size => [size]
  | _ => []

/-- The sizes of the batches that the observer is told of. -/
def System.delivered (s : System) : List ℕ := s.observed.filterMap IngestEvent.batchReport

/-- The sizes of the batches that are announced and not told of. -/
def System.onBridge (s : System) : List ℕ := s.link.bridge.filterMap CatalogWriterEvent.batchSize

/-- The coordinator does not look at the bridge any more. -/
def CoordinatorPhase.past : CoordinatorPhase → Bool
  | .closing | .joining | .finishing | .joiningWriter | .done => true
  | _ => false

theorem filterMap_batchReport_passedOn (event : CatalogWriterEvent) :
    event.passedOn.toList.filterMap IngestEvent.batchReport = event.batchSize.toList := by
  cases event with
  | checkpointRequested commitSequence shutdown => cases shutdown <;> rfl
  | _ => rfl

theorem filterMap_batchReport_observeWorkOccupancy (pending : List Work)
    (active : Counters MountId) (n : ℕ) :
    (observeWorkOccupancy pending active n).filterMap IngestEvent.batchReport = [] := by
  unfold observeWorkOccupancy
  rw [List.filterMap_eq_nil_iff]
  intro event hevent
  rcases List.mem_cons.1 hevent with rfl | hevent
  · rfl
  · obtain ⟨mountId, -, rfl⟩ := List.mem_map.1 hevent
    rfl

theorem filterMap_batchReport_readCompleted (work : Work) (n : ℕ) :
    (readCompleted work n).filterMap IngestEvent.batchReport = [] := by
  unfold readCompleted
  split_ifs <;> rfl

/-! ## One move -/

theorem SourceWorker.step_batches {w w' : SourceWorker} {p p' : Pool} {events : List IngestEvent}
    {move : WorkerMove} (h : w.step p move = some (w', p', events)) :
    events.filterMap IngestEvent.batchReport = [] := by
  cases move <;> simp only [step] at h <;> (repeat' (split at h)) <;>
    simp only [Option.some.injEq, Prod.mk.injEq, reduceCtorEq] at h <;> obtain ⟨-, -, rfl⟩ := h
  all_goals
    first
      | rfl
      | exact filterMap_batchReport_readCompleted _ _

/-- The writer keeps what is announced, and announces what it has committed. -/
theorem ImportWriter.step_batches {config : CatalogWriterConfig} {w w' : ImportWriter}
    {l l' : CatalogLink} {move : ImportWriterMove} (h : w.step config l move = some (w', l'))
    (delivered : List ℕ)
    (hbatches : delivered ++ l.bridge.filterMap CatalogWriterEvent.batchSize ++
      w.phase.unannounced = w.committed) :
    delivered ++ l'.bridge.filterMap CatalogWriterEvent.batchSize ++ w'.phase.unannounced =
      w'.committed := by
  cases move <;> simp only [step] at h <;> (repeat' (split at h)) <;>
    simp only [Option.some.injEq, Prod.mk.injEq, reduceCtorEq] at h <;> obtain ⟨rfl, rfl⟩ := h
  all_goals
    simp_all [CatalogLink.emit, ImportWriterPhase.unannounced, CatalogWriterEvent.batchSize,
      List.filterMap_cons]
  all_goals
    -- a checkpoint ends in one of two phases
    next size _ _ => cases size <;> rfl

/-- A writer that is gone stays so. -/
theorem ImportWriter.step_ne_gone {config : CatalogWriterConfig} {w w' : ImportWriter}
    {l l' : CatalogLink} {move : ImportWriterMove} (h : w.step config l move = some (w', l')) :
    ¬w.Gone := by
  intro hgone
  rcases hgone with hphase | hphase <;> cases move <;> simp [step, hphase] at h

/-- Only an announcement brings a batch to the bridge, and no move of the writer takes one off. -/
theorem ImportWriter.step_onBridge {config : CatalogWriterConfig} {w w' : ImportWriter}
    {l l' : CatalogLink} {move : ImportWriterMove} (h : w.step config l move = some (w', l')) :
    ∃ announced, l'.bridge.filterMap CatalogWriterEvent.batchSize =
      l.bridge.filterMap CatalogWriterEvent.batchSize ++ announced ∧
        (announced = [] ↔ move ≠ .announce) := by
  cases move <;> simp only [step] at h <;> (repeat' (split at h)) <;>
    simp only [Option.some.injEq, Prod.mk.injEq, reduceCtorEq] at h <;> obtain ⟨-, rfl⟩ := h
  all_goals
    first
      | exact ⟨[], (List.append_nil _).symm, by simp⟩
      | exact ⟨_, List.filterMap_append, by simp [CatalogWriterEvent.batchSize]⟩

/-- A move of the coordinator passes on what it takes off the bridge. -/
def System.PassesOn (s t : System) : Prop :=
  t.delivered ++ t.onBridge = s.delivered ++ s.onBridge ∧ t.writer = s.writer

namespace System

variable {config : ExecutorConfig} {s t : System}

theorem passesOn_of_events {events : List IngestEvent}
    (hobserved : t.observed = s.observed ++ events)
    (hevents : events.filterMap IngestEvent.batchReport = [])
    (hbridge : t.link.bridge = s.link.bridge) (hwriter : t.writer = s.writer) : s.PassesOn t := by
  refine ⟨?_, hwriter⟩
  rw [delivered, delivered, hobserved, List.filterMap_append, hevents, List.append_nil, onBridge,
    onBridge, hbridge]

theorem discovered_passesOn (candidate : SourceFileCandidate)
    (disposition : Except String ImportDisposition) :
    s.PassesOn (s.discovered config candidate disposition) := by
  unfold discovered
  dsimp only
  split
  · exact passesOn_of_events rfl rfl rfl rfl
  · exact passesOn_of_events rfl rfl rfl rfl
  · have := filterMap_batchReport_observeWorkOccupancy
    split <;>
      exact passesOn_of_events rfl ((List.filterMap_cons_none rfl).trans (this _ _ _)) rfl rfl

theorem completed_passesOn (finished : CompletedWork) :
    s.PassesOn (s.completed config finished) := by
  unfold completed
  dsimp only
  split
  · exact passesOn_of_events rfl rfl rfl rfl
  · refine passesOn_of_events rfl ?_ rfl rfl
    rw [List.filterMap_append, filterMap_batchReport_observeWorkOccupancy]
    rfl

theorem submittedSkip_passesOn (candidate : SourceFileCandidate) (size : ℕ) :
    s.PassesOn (s.submittedSkip candidate size) := by
  unfold submittedSkip
  dsimp only
  split <;> exact passesOn_of_events rfl rfl rfl rfl

theorem coordinate_passesOn {move : CoordinatorMove} (h : s.coordinate config move = some t) :
    s.PassesOn t := by
  cases move <;> simp only [coordinate] at h
  case drain event =>
    -- what leaves the bridge is told of
    simp only [Option.ite_none_right_eq_some, Option.some.injEq] at h
    obtain ⟨⟨-, hhead⟩, rfl⟩ := h
    obtain ⟨rest, hrest⟩ := List.head?_eq_some_iff.1 hhead
    refine ⟨?_, rfl⟩
    simp only [delivered, onBridge, go, hrest, List.tail_cons, List.filterMap_append,
      filterMap_batchReport_passedOn, List.append_assoc]
    congr 1
    cases event <;> rfl
  case discover candidate disposition =>
    simp only [Option.ite_none_right_eq_some, Option.some.injEq] at h
    exact h.2 ▸ discovered_passesOn _ _
  case complete finished =>
    simp only [Option.ite_none_right_eq_some, Option.some.injEq] at h
    exact h.2 ▸ completed_passesOn _
  case submitSkip candidate size =>
    simp only [Option.ite_none_right_eq_some, Option.some.injEq] at h
    exact h.2 ▸ submittedSkip_passesOn _ _
  all_goals
    (repeat' (split at h)) <;> simp only [Option.some.injEq, reduceCtorEq] at h <;> subst h
  all_goals
    first
      | exact passesOn_of_events rfl rfl rfl rfl
      | exact passesOn_of_events (List.append_nil _).symm rfl rfl rfl
      | exact passesOn_of_events rfl ((List.filterMap_cons_none rfl).trans
          (filterMap_batchReport_observeWorkOccupancy _ _ _)) rfl rfl

end System

/-- The coordinator gives up, having cancelled the workers. -/
def Move.cancels : Move → Bool
  | .coordinator .cancel => true
  | _ => false

/-- The writer announces a batch. -/
def Move.announces : Move → Bool
  | .writer .announce => true
  | _ => false

theorem CoordinatorPhase.past_of_afterDrain {p q : CoordinatorPhase} (h : p.afterDrain = some q) :
    p.past = false := by
  cases p <;> first | rfl | cases h

theorem CoordinatorPhase.past_ofPoll (next : AfterPoll) : (ofPoll next).past = false := by
  cases next <;> rfl

theorem CoordinatorPhase.past_of_canFail {p : CoordinatorPhase} (h : p.CanFail = true) :
    p.past = false := by
  cases p <;> first | rfl | cases h

/-- How the coordinator comes past its last look at the bridge. -/
inductive PassesBy (s : System) (move : CoordinatorMove) (t : System) : Prop
  | before (hs : s.coordinator.phase.past = false) (ht : t.coordinator.phase.past = false)
      (hmove : move ≠ .cancel)
  | lastLook (hs : s.coordinator.phase.past = false) (hempty : s.link.bridge = [])
      (hbridge : t.link.bridge = s.link.bridge) (hmove : move ≠ .cancel)
      (hdone : t.coordinator.phase ≠ .done)
  | cancel (hs : s.coordinator.phase.past = false) (ht : t.coordinator.phase.past = true)
      (hbridge : t.link.bridge = s.link.bridge) (hmove : move = .cancel)
      (hdone : t.coordinator.phase ≠ .done)
  | after (hs : s.coordinator.phase.past = true) (ht : t.coordinator.phase.past = true)
      (hbridge : t.link.bridge = s.link.bridge) (hmove : move ≠ .cancel)
      (hdone : t.coordinator.phase = .done → s.writer.Gone)

namespace System

variable {config : ExecutorConfig} {s t : System}

theorem discovered_past (candidate : SourceFileCandidate)
    (disposition : Except String ImportDisposition) :
    (s.discovered config candidate disposition).coordinator.phase.past = false := by
  unfold discovered
  dsimp only
  split
  · rfl
  · rfl
  · split <;> rfl

theorem completed_past (finished : CompletedWork) :
    (s.completed config finished).coordinator.phase.past = false := by
  unfold completed
  dsimp only
  split <;> rfl

theorem submittedSkip_past (candidate : SourceFileCandidate) (size : ℕ) :
    (s.submittedSkip candidate size).coordinator.phase.past = false := by
  unfold submittedSkip
  dsimp only
  split <;> rfl

theorem passesBy {move : CoordinatorMove} (h : s.coordinate config move = some t) :
    PassesBy s move t := by
  cases move <;> simp only [coordinate] at h
  case drained =>
    split at h
    · next phase hphase =>
      simp only [Option.ite_none_right_eq_some, Option.some.injEq] at h
      obtain ⟨hempty, rfl⟩ := h
      refine .lastLook (CoordinatorPhase.past_of_afterDrain hphase) hempty rfl (by simp) ?_
      revert hphase
      cases s.coordinator.phase <;> rintro ⟨⟩ <;> simp [go, Coordinator.go]
    · cases h
  case drain event =>
    simp only [Option.ite_none_right_eq_some, Option.some.injEq] at h
    obtain ⟨⟨hdrains, -⟩, rfl⟩ := h
    obtain ⟨phase, hphase⟩ := Option.ne_none_iff_exists'.1 hdrains
    have hs := CoordinatorPhase.past_of_afterDrain hphase
    exact .before hs hs (by simp)
  case discover candidate disposition =>
    simp only [Option.ite_none_right_eq_some, Option.some.injEq] at h
    obtain ⟨hphase, rfl⟩ := h
    exact .before (by rw [hphase]; rfl) (discovered_past _ _) (by simp)
  case complete finished =>
    simp only [Option.ite_none_right_eq_some, Option.some.injEq] at h
    obtain ⟨hphase, rfl⟩ := h
    exact .before (by rw [hphase]; rfl) (completed_past _) (by simp)
  case submitSkip candidate size =>
    simp only [Option.ite_none_right_eq_some, Option.some.injEq] at h
    obtain ⟨⟨hphase, -⟩, rfl⟩ := h
    exact .before (by rw [hphase]; rfl) (submittedSkip_past _ _) (by simp)
  case pollWriterClear =>
    split at h
    · next next hphase =>
      simp only [Option.ite_none_right_eq_some, Option.some.injEq] at h
      obtain ⟨-, rfl⟩ := h
      exact .before (by rw [hphase]; rfl) (CoordinatorPhase.past_ofPoll next) (by simp)
    · cases h
  case resolve ticket outcome =>
    simp only [Option.ite_none_right_eq_some, Option.some.injEq] at h
    obtain ⟨⟨hresolves, -⟩, rfl⟩ := h
    have hs := CoordinatorPhase.past_of_canFail hresolves.canFail
    refine .before hs ?_ (by simp)
    simp only [go]
    split_ifs
    · rfl
    · exact hs
  case resolveFailed ticket error =>
    simp only [Option.ite_none_right_eq_some, Option.some.injEq] at h
    obtain ⟨⟨hresolves, -⟩, rfl⟩ := h
    exact .before (CoordinatorPhase.past_of_canFail hresolves.canFail) rfl (by simp)
  case panic error =>
    simp only [Option.ite_none_right_eq_some, Option.some.injEq] at h
    obtain ⟨hphase, rfl⟩ := h
    exact .before (CoordinatorPhase.past_of_canFail hphase) rfl (by simp)
  case cancel =>
    simp only [Option.ite_none_right_eq_some, Option.some.injEq] at h
    obtain ⟨hphase, rfl⟩ := h
    exact .cancel (by rw [hphase]; rfl) rfl rfl rfl (by simp [go, Coordinator.go])
  case close =>
    simp only [Option.ite_none_right_eq_some, Option.some.injEq] at h
    obtain ⟨hphase, rfl⟩ := h
    exact .after (by rw [hphase]; rfl) rfl rfl (by simp) (by simp [go, Coordinator.go])
  case joined =>
    simp only [Option.ite_none_right_eq_some, Option.some.injEq] at h
    obtain ⟨⟨hphase, -⟩, rfl⟩ := h
    exact .after (by rw [hphase]; rfl) rfl rfl (by simp) (by simp [go, Coordinator.go])
  case finish =>
    simp only [Option.ite_none_right_eq_some, Option.some.injEq] at h
    obtain ⟨hphase, rfl⟩ := h
    exact .after (by rw [hphase]; rfl) rfl rfl (by simp) (by simp [go, Coordinator.go])
  case joinedWriter =>
    simp only [Option.ite_none_right_eq_some, Option.some.injEq] at h
    obtain ⟨⟨hphase, hgone⟩, rfl⟩ := h
    exact .after (by rw [hphase]; rfl) rfl rfl (by simp) fun _ => hgone
  all_goals
    (repeat' (split at h)) <;> simp only [Option.some.injEq, reduceCtorEq] at h <;> subst h <;>
      refine .before ?_ ?_ (by simp) <;>
      simp [System.go, Coordinator.go, Coordinator.fail, System.cancelAndFail,
        System.submittedHashed, CoordinatorPhase.past, *]

end System

/-! ## Runs -/

variable {config : ExecutorConfig} {s t : System} {move : Move} {moves : List Move}

/-- Every batch that is committed is told of, or on the bridge, or about to be announced. -/
structure System.Accounts (s : System) : Prop where
  batches : s.delivered ++ s.onBridge ++ s.writer.phase.unannounced = s.writer.committed
  gone : s.coordinator.phase = .done → s.writer.Gone

theorem System.Accounts.start : System.start.Accounts := ⟨rfl, fun h => by cases h⟩

theorem System.Accounts.step (h : s.Accounts) (hstep : s.step config move = some t) :
    t.Accounts := by
  cases move with
  | worker i move =>
      simp only [System.step] at hstep
      cases hw : s.workers[i]? with
      | none => simp [hw] at hstep
      | some w =>
          simp only [hw, Option.map_eq_some_iff] at hstep
          obtain ⟨⟨w', pool, events⟩, hmove, rfl⟩ := hstep
          refine ⟨?_, h.gone⟩
          have := h.batches
          simp only [delivered, onBridge, List.filterMap_append, SourceWorker.step_batches hmove,
            List.append_nil] at this ⊢
          exact this
  | coordinator move =>
      obtain ⟨hbatches, hwriter⟩ := coordinate_passesOn hstep
      refine ⟨?_, fun hdone => ?_⟩
      · rw [hbatches, hwriter]
        exact h.batches
      · rw [hwriter]
        cases passesBy hstep with
        | before hs ht => rw [hdone] at ht; cases ht
        | lastLook _ _ _ _ hne => exact absurd hdone hne
        | cancel _ _ _ _ hne => exact absurd hdone hne
        | after _ _ _ _ hgone => exact hgone hdone
  | writer move =>
      simp only [System.step, Option.map_eq_some_iff] at hstep
      obtain ⟨⟨writer, link⟩, hmove, rfl⟩ := hstep
      refine ⟨ImportWriter.step_batches hmove s.delivered h.batches, fun hdone => ?_⟩
      exact absurd (h.gone hdone) (ImportWriter.step_ne_gone hmove)

theorem System.Reached.accounts (h : s.Reached config) : s.Accounts := by
  obtain ⟨moves, hrun⟩ := h
  exact Transition.run_invariant (P := System.Accounts) .start (fun _ _ _ h => h.step) hrun

/-- The writer announces a batch while the coordinator is still to look at the bridge, and the
coordinator gives up when no batch is left on the bridge. -/
def AnnouncedInTime (s : System) (move : Move) : Prop :=
  (move.announces = true → s.coordinator.phase.past = false) ∧
    (move.cancels = true → s.onBridge = [])

instance (s : System) (move : Move) : Decidable (AnnouncedInTime s move) :=
  inferInstanceAs (Decidable ((_ → _) ∧ (_ → _)))

/-- The coordinator leaves no batch behind. -/
def System.NoneLeft (s : System) : Prop := s.coordinator.phase.past = true → s.onBridge = []

theorem cancels_coordinator (move : CoordinatorMove) :
    (Move.coordinator move).cancels = true ↔ move = .cancel := by
  cases move <;> simp [Move.cancels]

theorem announces_writer (move : ImportWriterMove) :
    (Move.writer move).announces = true ↔ move = .announce := by
  cases move <;> simp [Move.announces]

/-- A move leaves no batch behind exactly if none was left before and the move is in time. -/
theorem noneLeft_step (hstep : s.step config move = some t) :
    t.NoneLeft ↔ s.NoneLeft ∧ AnnouncedInTime s move := by
  cases move with
  | worker i move =>
      simp only [System.step] at hstep
      cases hw : s.workers[i]? with
      | none => simp [hw] at hstep
      | some w =>
          simp only [hw, Option.map_eq_some_iff] at hstep
          obtain ⟨⟨w', pool, events⟩, -, rfl⟩ := hstep
          refine ⟨fun h => ⟨h, ?_, ?_⟩, fun h => h.1⟩ <;> intro hmove <;> cases hmove
  | coordinator move =>
      have hannounces : (Move.coordinator move).announces = true →
          s.coordinator.phase.past = false :=
        fun h => by cases h
      have hcancels : move ≠ .cancel → (Move.coordinator move).cancels = true →
          s.onBridge = [] := fun hne h => absurd ((cancels_coordinator move).1 h) hne
      cases System.passesBy hstep with
      | before hs ht hmove =>
          refine ⟨fun _ => ⟨fun h => ?_, hannounces, hcancels hmove⟩, fun _ h => ?_⟩
          · rw [hs] at h
            cases h
          · rw [ht] at h
            cases h
      | lastLook hs hempty hbridge hmove _ =>
          refine ⟨fun _ => ⟨fun h => ?_, hannounces, hcancels hmove⟩, fun _ _ => ?_⟩
          · rw [hs] at h
            cases h
          · rw [System.onBridge, hbridge, hempty]
            rfl
      | cancel hs ht hbridge hmove _ =>
          have hsame : t.onBridge = s.onBridge := by rw [System.onBridge, hbridge, System.onBridge]
          refine ⟨fun h => ⟨fun hpast => ?_, hannounces, fun _ => ?_⟩, fun h _ => ?_⟩
          · rw [hs] at hpast
            cases hpast
          · exact hsame ▸ h ht
          · rw [hsame]
            exact h.2.2 ((cancels_coordinator move).2 hmove)
      | after hs ht hbridge hmove _ =>
          have hsame : t.onBridge = s.onBridge := by rw [System.onBridge, hbridge, System.onBridge]
          refine ⟨fun h => ⟨fun _ => ?_, hannounces, hcancels hmove⟩, fun h _ => ?_⟩
          · exact hsame ▸ h ht
          · rw [hsame]
            exact h.1 hs
  | writer move =>
      simp only [System.step, Option.map_eq_some_iff] at hstep
      obtain ⟨⟨writer, link⟩, hmove, rfl⟩ := hstep
      obtain ⟨announced, hbridge, hnone⟩ := ImportWriter.step_onBridge hmove
      simp only [System.NoneLeft, System.onBridge, hbridge, List.append_eq_nil_iff]
      constructor
      · intro h
        refine ⟨fun hpast => (h hpast).1, fun hannounces => ?_, fun hcancels => by cases hcancels⟩
        have hmoves := (announces_writer move).1 hannounces
        rw [← Bool.not_eq_true]
        exact fun hpast => hnone.1 (h hpast).2 hmoves
      · intro h hpast
        refine ⟨h.1 hpast, hnone.2 fun hmoves => ?_⟩
        have := h.2.1 ((announces_writer move).2 hmoves)
        rw [hpast] at this
        cases this

theorem noneLeft_iff (hrun : run (System.step config) .start moves = some s) :
    s.NoneLeft ↔ Meeting AnnouncedInTime (System.step config) .start moves := by
  refine Transition.run_induction (P := fun moves s => s.NoneLeft ↔
    Meeting AnnouncedInTime (System.step config) .start moves) ?_ ?_ hrun
  · exact ⟨fun _ => trivial, fun _ h => by cases h⟩
  · intro moves u m t hu ih ht
    rw [noneLeft_step ht, ih, Transition.meeting_concat]
    refine and_congr_right fun _ => ⟨fun h v hv => ?_, fun h => h u hu⟩
    rw [hu, Option.some.injEq] at hv
    exact hv ▸ h

/-- Every committed batch has been told of, each once and in order. -/
structure System.TellsBatches (s : System) : Prop where
  delivered : s.delivered = s.writer.committed
  records : s.delivered.sum = s.writer.committed.sum

/-- When an import is over, every batch that is committed has been told of exactly if all of
them were announced in time. -/
theorem tellsBatches_iff (hrun : run (System.step config) .start moves = some s)
    (hdone : s.coordinator.phase = .done) :
    s.TellsBatches ↔ Meeting AnnouncedInTime (System.step config) .start moves := by
  have haccounts : s.Accounts := System.Reached.accounts ⟨moves, hrun⟩
  have hunannounced : s.writer.phase.unannounced = [] := by
    rcases haccounts.gone hdone with h | h <;> rw [h] <;> rfl
  have hbatches := haccounts.batches
  rw [hunannounced, List.append_nil] at hbatches
  rw [← noneLeft_iff hrun]
  constructor
  · intro h _
    have := h.delivered
    rwa [← hbatches, List.self_eq_append_right] at this
  · intro h
    have hempty : s.onBridge = [] := h (by rw [hdone]; rfl)
    rw [hempty, List.append_nil] at hbatches
    exact ⟨hbatches, by rw [hbatches]⟩

/-! ## An import of one file -/

def storedOutcome : ImportWriteOutcome := .imported .inserted .inserted

/-- One file is found, stored and submitted, its batch is committed, and its ticket is
answered. -/
def answeredMoves : List Move :=
  turnMoves [] ++ discoverMoves 0 ++ turnMoves [pipelineWork 0] ++
  [.coordinator .pollClear, .coordinator .pollWriterClear, .coordinator .endOfScan] ++
  readMoves 0 0 ++ [.worker 0 (.send (pipelineWork 0) pipelineBlob)] ++ turnMoves [] ++
  ([.receive ⟨pipelineWork 0, pipelineBlob⟩, .uncount ⟨pipelineWork 0, pipelineBlob⟩,
    .complete ⟨pipelineWork 0, pipelineBlob⟩, .submitHashed ⟨pipelineWork 0, pipelineBlob⟩,
    .report (.hashed (pipelineWork 0)),
    .settled (.hashed (pipelineWork 0))] : List CoordinatorMove).map .coordinator ++
  turnMoves [] ++ [.coordinator .nextTicket] ++
  ([.receive ⟨0, .imported⟩, .openBatch, .commit [storedOutcome],
    .answer] : List ImportWriterMove).map .writer ++
  ([.drain (.batchOpened 1 1), .drain (.recordCommitted 0 storedOutcome), .drained,
    .resolve ⟨0, (pipelineFile 0).relativePath⟩ storedOutcome,
    .nextTicket] : List CoordinatorMove).map .coordinator

/-- The last look at the bridge, and the workers end. -/
def joinedMoves : List Move :=
  [.coordinator .drained, .coordinator .close] ++
  (List.range maxLiveSourceWorkers).map (fun i => .worker i .close) ++ [.coordinator .joined]

/-- The writer ends. -/
def finishedMoves : List Move :=
  [.coordinator .finish] ++
  ([.next, .disconnect, .shutDown, .requestCheckpoint,
    .checkpoint 0 0 0] : List ImportWriterMove).map .writer ++ [.coordinator .joinedWriter]

theorem tellsBatches_iff_announced : ∃ s, run (System.step pipelineConfig) .start
    (answeredMoves ++ [.writer .announce, .coordinator (.drain (.batchCommitted 1 1))] ++
      joinedMoves ++ finishedMoves) = some s ∧ s.coordinator.phase = .done ∧
    (s.TellsBatches ↔ Meeting AnnouncedInTime (System.step pipelineConfig) .start
      (answeredMoves ++ [.writer .announce, .coordinator (.drain (.batchCommitted 1 1))] ++
        joinedMoves ++ finishedMoves)) := by
  have hrun : (run (System.step pipelineConfig) .start
      (answeredMoves ++ [.writer .announce, .coordinator (.drain (.batchCommitted 1 1))] ++
        joinedMoves ++ finishedMoves)).map (fun s => s.coordinator.phase) = some .done := by
    decide +kernel
  obtain ⟨s, hs, hdone⟩ := Option.map_eq_some_iff.1 hrun
  exact ⟨s, hs, hdone, tellsBatches_iff hs hdone⟩

/-- The writer answers the only ticket, the coordinator looks at the bridge for the last time,
and the writer announces the batch. The import succeeds, and nobody is told of the batch. -/
theorem not_tellsBatches_lateAnnouncement : ∃ s, run (System.step pipelineConfig) .start
    (answeredMoves ++ joinedMoves ++ [.writer .announce] ++ finishedMoves) = some s ∧
    s.coordinator.phase = .done ∧ s.coordinator.error = none ∧ s.writer.committed = [1] ∧
    s.delivered = [] ∧ ¬s.TellsBatches := by
  have hrun : (run (System.step pipelineConfig) .start
      (answeredMoves ++ joinedMoves ++ [.writer .announce] ++ finishedMoves)).map (fun s =>
        (s.coordinator.phase, s.coordinator.error, s.writer.committed, s.delivered)) =
      some (.done, none, [1], []) := by decide +kernel
  obtain ⟨s, hs, hend⟩ := Option.map_eq_some_iff.1 hrun
  simp only [Prod.mk.injEq] at hend
  obtain ⟨hdone, herror, hcommitted, hdelivered⟩ := hend
  refine ⟨s, hs, hdone, herror, hcommitted, hdelivered, fun h => ?_⟩
  have := h.delivered
  rw [hcommitted, hdelivered] at this
  cases this

end MediaImporter
