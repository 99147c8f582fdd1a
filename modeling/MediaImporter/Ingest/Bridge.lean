import MediaImporter.Ingest.Conserved

/-!
# The bridge never fills

The writer announces what it does over a bridge of bounded capacity, and waits when the bridge is
full. The coordinator empties the bridge at the head of its loops only, not while it waits for a
worker, for a ticket or for the writer. So the writer must never come to fill the bridge by
itself: what is on the bridge and what the writer can still announce of the requests that it has
is at most five events for each ticket that can be outstanding, and six for the end.

## Main definitions

* `System.load` — what is on the bridge, and what can still come.
* `bridge_never_fills` — the bound, and the room that the default configuration leaves.
-/

namespace MediaImporter

open Transition (run)

/-! ## What the writer can announce -/

/-- What is left to announce of a batch and of the shutdown, without the records. -/
def ImportWriterPhase.owes : ImportWriterPhase → ℕ
  | .receiving | .flushed _ => 3
  | .opened => 6
  | .answering left _ => left.length + 6
  | .checkpointDue (some _) => 5
  | .checkpointing (some _) => 4
  | .checkpointDue none => 2
  | .checkpointing none => 1
  | .failing _ | .stopped | .failed => 0

/-- A request that is not in a batch yet may get a batch of its own, with a checkpoint. -/
def ImportWriter.owes (w : ImportWriter) : ℕ :=
  (if w.phase = .opened then w.batch.length else 5 * w.batch.length) + w.phase.owes

/-- What is on the bridge, and what the writer can still put there. -/
def System.load (s : System) : ℕ :=
  s.link.bridge.length + 5 * s.link.requests.length + s.writer.owes

theorem ImportWriter.owes_le (w : ImportWriter) : w.owes ≤ 5 * w.asked.length + 6 := by
  have hasked : w.asked.length = w.batch.length + w.left.length := by simp [asked]
  rw [hasked]
  cases hphase : w.phase with
  | checkpointDue size | checkpointing size =>
      cases size <;> simp [owes, left, ImportWriterPhase.owes, hphase]
  | opened | answering left size =>
      simp [owes, ImportWriter.left, ImportWriterPhase.owes, hphase]
      omega
  | _ => simp [owes, left, ImportWriterPhase.owes, hphase]

/-- Whatever the writer announces, it had been counted to announce. -/
theorem ImportWriter.step_load {config : CatalogWriterConfig} {w w' : ImportWriter}
    {l l' : CatalogLink} {move : ImportWriterMove} (h : w.step config l move = some (w', l')) :
    l'.bridge.length + 5 * l'.requests.length + w'.owes ≤
      l.bridge.length + 5 * l.requests.length + w.owes := by
  cases move <;> simp only [step] at h
  case receive request =>
    simp only [Option.ite_none_right_eq_some, Option.some.injEq, Prod.mk.injEq] at h
    obtain ⟨⟨hphase, hhead, -⟩, rfl, rfl⟩ := h
    obtain ⟨rest, hrest⟩ := List.head?_eq_some_iff.1 hhead
    simp [owes, ImportWriterPhase.owes, hphase, hrest]
    omega
  case disconnect =>
    simp only [Option.ite_none_right_eq_some, Option.some.injEq, Prod.mk.injEq] at h
    obtain ⟨-, rfl, rfl⟩ := h
    exact le_rfl
  case openBatch =>
    simp only [Option.ite_none_right_eq_some, Option.some.injEq, Prod.mk.injEq] at h
    obtain ⟨⟨hphase, hbatch, -⟩, rfl, rfl⟩ := h
    have hpos := List.length_pos_of_ne_nil hbatch
    simp [owes, ImportWriterPhase.owes, hphase, CatalogLink.emit]
    omega
  case commit outcomes =>
    simp only [Option.ite_none_right_eq_some, Option.some.injEq, Prod.mk.injEq] at h
    obtain ⟨⟨hphase, hlength, -⟩, rfl, rfl⟩ := h
    simp [owes, ImportWriterPhase.owes, hphase, hlength]
  case rollBack context =>
    simp only [Option.ite_none_right_eq_some, Option.some.injEq, Prod.mk.injEq] at h
    obtain ⟨⟨hphase, -⟩, rfl, rfl⟩ := h
    simp [owes, ImportWriterPhase.owes, hphase, CatalogLink.emit]
    omega
  case answer =>
    split at h
    · next request outcome left size hphase =>
      simp only [Option.ite_none_right_eq_some, Option.some.injEq, Prod.mk.injEq] at h
      obtain ⟨-, rfl, rfl⟩ := h
      simp [owes, ImportWriterPhase.owes, hphase, CatalogLink.emit]
      omega
    · cases h
  case announce =>
    split at h
    · next size hphase =>
      simp only [Option.ite_none_right_eq_some, Option.some.injEq, Prod.mk.injEq] at h
      obtain ⟨-, rfl, rfl⟩ := h
      split_ifs <;> simp [owes, ImportWriterPhase.owes, hphase, CatalogLink.emit] <;> omega
    · cases h
  case requestCheckpoint =>
    split at h
    · next size hphase =>
      simp only [Option.ite_none_right_eq_some, Option.some.injEq, Prod.mk.injEq] at h
      obtain ⟨-, rfl, rfl⟩ := h
      cases size <;> simp [owes, ImportWriterPhase.owes, hphase, CatalogLink.emit] <;> omega
    · cases h
  case checkpoint busy log checkpointed =>
    split at h
    · next size hphase =>
      simp only [Option.ite_none_right_eq_some, Option.some.injEq, Prod.mk.injEq] at h
      obtain ⟨-, rfl, rfl⟩ := h
      cases size <;> simp [owes, ImportWriterPhase.owes, hphase, CatalogLink.emit] <;> omega
    · cases h
  case checkpointFailed context =>
    split at h
    · next size hphase =>
      obtain ⟨rfl, rfl⟩ := Prod.mk.inj (Option.some.inj h)
      cases size <;> simp [owes, ImportWriterPhase.owes, hphase]
    · cases h
  case next =>
    split at h
    · next size hphase =>
      split at h
      · simp only [Option.ite_none_right_eq_some, Option.some.injEq, Prod.mk.injEq] at h
        obtain ⟨-, rfl, rfl⟩ := h
        simp [owes, ImportWriterPhase.owes, hphase, CatalogLink.emit]
        omega
      · obtain ⟨rfl, rfl⟩ := Prod.mk.inj (Option.some.inj h)
        simp [owes, ImportWriterPhase.owes, hphase]
    · cases h
  case shutDown =>
    simp only [Option.ite_none_right_eq_some, Option.some.injEq, Prod.mk.injEq] at h
    obtain ⟨⟨hphase, -⟩, rfl, rfl⟩ := h
    simp [owes, ImportWriterPhase.owes, hphase]
  case reject =>
    split at h
    · next context hphase =>
      obtain ⟨rfl, rfl⟩ := Prod.mk.inj (Option.some.inj h)
      simp [owes, ImportWriterPhase.owes, hphase]
    · cases h

/-! ## What the coordinator adds -/

namespace CoordinatorPhase

/-- The bridge has been found empty, and nothing has been submitted since. -/
def quiet : CoordinatorPhase → Bool
  | .pollingWorkers _ | .pollingWriter _ | .dispatching | .submitted _ | .deciding | .scanning
  | .skipping _ _ | .receiving | .received _ | .completing _ | .submitting _ => true
  | _ => false

/-- The import is over, or about to be, and may have failed. -/
def ended : CoordinatorPhase → Bool
  | .failing | .closing | .joining | .finishing | .joiningWriter | .done => true
  | _ => false

variable {p q : CoordinatorPhase}

theorem quiet_of_afterDrain (h : p.afterDrain = some q) (hp : p ≠ .draining) :
    q.quiet = false := by
  cases p <;> cases h <;> first | rfl | exact absurd rfl hp

theorem ended_of_afterDrain (h : p.afterDrain = some q) (hp : p.ended = true) :
    q.ended = true := by
  cases p <;> cases h <;> cases hp

end CoordinatorPhase

/-- What every move keeps of the load: it leaves room for a request until one is submitted, and
an import that has failed submits nothing. -/
structure System.Loaded (config : ExecutorConfig) (s : System) : Prop where
  bound : s.load ≤ 5 * config.maxOutstanding + 6
  quiet : s.coordinator.phase.quiet = true → s.load + 5 ≤ 5 * config.maxOutstanding + 6
  ended : s.coordinator.error ≠ none → s.coordinator.phase.ended = true

namespace System.Loaded

variable {config : ExecutorConfig} {s t : System}

theorem start : System.start.Loaded config := by
  have hpos := config.writer.maxBatchRecords_pos
  have hload : System.start.load = 3 := rfl
  refine ⟨?_, (fun h => by cases h), fun h => absurd rfl h⟩
  rw [hload, ExecutorConfig.maxOutstanding]
  omega

theorem of_load (h : s.Loaded config) (hload : t.load ≤ s.load)
    (hquiet : t.coordinator.phase.quiet = true → s.coordinator.phase.quiet = true)
    (hended : t.coordinator.error ≠ none → t.coordinator.phase.ended = true) : t.Loaded config where
  bound := hload.trans h.bound
  quiet ht := (Nat.add_le_add_right hload 5).trans (h.quiet (hquiet ht))
  ended := hended

/-- The move that submits a request. -/
theorem of_submit (h : s.Loaded config) (hquiet : s.coordinator.phase.quiet = true)
    (hload : t.load = s.load + 5) (ht : t.coordinator.phase.quiet = false)
    (hended : t.coordinator.error ≠ none → t.coordinator.phase.ended = true) : t.Loaded config where
  bound := by
    rw [hload]
    exact h.quiet hquiet
  quiet hnext := by
    rw [ht] at hnext
    cases hnext
  ended := hended

theorem error_eq_none (h : s.Loaded config) (hphase : s.coordinator.phase.ended = false) :
    s.coordinator.error = none := by
  by_contra herror
  rw [h.ended herror] at hphase
  cases hphase

/-- When the bridge is empty, only what the outstanding tickets ask for can come. -/
theorem load_of_drained (h : s.Loaded config) (hreached : s.Reached config)
    (hphase : s.coordinator.phase = .draining) (hbridge : s.link.bridge = []) :
    s.load + 5 ≤ 5 * config.maxOutstanding + 6 := by
  have herror := h.error_eq_none (by rw [hphase]; rfl)
  obtain ⟨⟨dropped, finished, answered, hbalanced, -⟩, -⟩ := hreached.keeps herror
  have hasked : s.link.requests.length + s.writer.asked.length ≤ s.coordinator.tickets.length :=
    hbalanced.answers.asked_le_tickets hbalanced.files
  have hadmits := hreached.limited.admits (by rw [hphase]; rfl)
  have howes := s.writer.owes_le
  rw [load, hbridge, List.length_nil]
  omega

theorem coordinate (h : s.Loaded config) (hreached : s.Reached config) {move : CoordinatorMove}
    (hstep : s.coordinate config move = some t) : t.Loaded config := by
  cases move <;> simp only [System.coordinate] at hstep
  case discover candidate disposition =>
    simp only [Option.ite_none_right_eq_some, Option.some.injEq] at hstep
    obtain ⟨hphase, rfl⟩ := hstep
    have hquiet : s.coordinator.phase.quiet = true := by rw [hphase]; rfl
    have herror := h.error_eq_none (by rw [hphase]; rfl)
    unfold discovered
    dsimp only
    split
    · exact h.of_load le_rfl (fun _ => hquiet) fun _ => rfl
    · exact h.of_load le_rfl (fun _ => hquiet) fun ht => absurd herror ht
    · split
      · exact h.of_load le_rfl (fun _ => hquiet) fun ht => absurd herror ht
      · exact h.of_load le_rfl (fun _ => hquiet) fun _ => rfl
  case submitSkip candidate size =>
    simp only [Option.ite_none_right_eq_some, Option.some.injEq] at hstep
    obtain ⟨⟨hphase, -⟩, rfl⟩ := hstep
    have hquiet : s.coordinator.phase.quiet = true := by rw [hphase]; rfl
    have herror := h.error_eq_none (by rw [hphase]; rfl)
    unfold submittedSkip
    dsimp only
    split
    · exact h.of_submit hquiet (by simp [load, go, CatalogLink.submit]; omega) rfl
        fun ht => absurd herror ht
    · exact h.of_submit hquiet (by simp [load, go, CatalogLink.submit]; omega) rfl fun _ => rfl
  case submitHashed finished =>
    simp only [Option.ite_none_right_eq_some, Option.some.injEq] at hstep
    obtain ⟨⟨hphase, -⟩, rfl⟩ := hstep
    have hquiet : s.coordinator.phase.quiet = true := by rw [hphase]; rfl
    have herror := h.error_eq_none (by rw [hphase]; rfl)
    exact h.of_submit hquiet (by simp [load, submittedHashed, CatalogLink.submit]; omega) rfl
      fun ht => absurd herror ht
  case complete finished =>
    simp only [Option.ite_none_right_eq_some, Option.some.injEq] at hstep
    obtain ⟨hphase, rfl⟩ := hstep
    have hquiet : s.coordinator.phase.quiet = true := by rw [hphase]; rfl
    have herror := h.error_eq_none (by rw [hphase]; rfl)
    unfold completed
    dsimp only
    split
    · exact h.of_load le_rfl (fun _ => hquiet) fun _ => rfl
    · exact h.of_load le_rfl (fun _ => hquiet) fun ht => absurd herror ht
  case drain event =>
    simp only [Option.ite_none_right_eq_some, Option.some.injEq] at hstep
    obtain ⟨⟨-, hhead⟩, rfl⟩ := hstep
    obtain ⟨rest, hrest⟩ := List.head?_eq_some_iff.1 hhead
    refine h.of_load ?_ id h.ended
    simp [load, go, hrest]
  case drained =>
    split at hstep
    · next phase hphase =>
      simp only [Option.ite_none_right_eq_some, Option.some.injEq] at hstep
      obtain ⟨hbridge, rfl⟩ := hstep
      have hended : (s.go (s.coordinator.go phase) []).coordinator.error ≠ none →
          phase.ended = true :=
        fun herror => CoordinatorPhase.ended_of_afterDrain hphase (h.ended herror)
      by_cases hdraining : s.coordinator.phase = .draining
      · exact ⟨h.bound, fun _ => h.load_of_drained hreached hdraining hbridge, hended⟩
      · refine h.of_load le_rfl (fun hquiet => ?_) hended
        rw [show (s.go (s.coordinator.go phase) []).coordinator.phase = phase from rfl,
          CoordinatorPhase.quiet_of_afterDrain hphase hdraining] at hquiet
        cases hquiet
    · cases hstep
  case pollWriterClear =>
    split at hstep
    · next next hphase =>
      simp only [Option.ite_none_right_eq_some, Option.some.injEq] at hstep
      obtain ⟨-, rfl⟩ := hstep
      have herror := h.error_eq_none (by rw [hphase]; rfl)
      exact h.of_load le_rfl (fun _ => by rw [hphase]; rfl) fun ht => absurd herror ht
    · cases hstep
  case resolve ticket outcome =>
    simp only [Option.ite_none_right_eq_some, Option.some.injEq] at hstep
    obtain ⟨⟨hresolves, -⟩, rfl⟩ := hstep
    have hended : s.coordinator.phase.ended = false := by
      have hfail := hresolves.canFail
      revert hfail
      cases s.coordinator.phase <;> intro hfail <;> first | rfl | cases hfail
    have herror := h.error_eq_none hended
    simp only [go]
    split_ifs
    · exact h.of_load le_rfl (fun ht => by cases ht) fun ht => absurd herror ht
    · exact h.of_load le_rfl id fun ht => absurd herror ht
  all_goals
    (repeat' (split at hstep)) <;> simp only [Option.some.injEq, reduceCtorEq] at hstep <;>
      subst hstep <;> refine h.of_load le_rfl ?_ ?_ <;> have hended := h.ended <;>
      simp_all [System.go, Coordinator.go, Coordinator.fail, System.cancelAndFail,
        CoordinatorPhase.quiet, CoordinatorPhase.ended]

theorem step (h : s.Loaded config) (hreached : s.Reached config) {move : Move}
    (hstep : s.step config move = some t) : t.Loaded config := by
  cases move with
  | worker i move =>
      simp only [System.step] at hstep
      cases hw : s.workers[i]? with
      | none => simp [hw] at hstep
      | some w =>
          simp only [hw, Option.map_eq_some_iff] at hstep
          obtain ⟨_, -, rfl⟩ := hstep
          exact ⟨h.bound, h.quiet, h.ended⟩
  | coordinator move => exact h.coordinate hreached hstep
  | writer move =>
      simp only [System.step, Option.map_eq_some_iff] at hstep
      obtain ⟨⟨writer, link⟩, hmove, rfl⟩ := hstep
      exact h.of_load (ImportWriter.step_load hmove) id h.ended

end System.Loaded

theorem System.Reached.loaded {config : ExecutorConfig} {s : System} (h : s.Reached config) :
    s.Loaded config := by
  obtain ⟨moves, hrun⟩ := h
  refine Transition.run_induction (P := fun _ s => s.Loaded config) .start ?_ hrun
  intro moves u move t hu hloaded hstep
  exact hloaded.step ⟨moves, hu⟩ hstep

theorem System.Reached.hasRoom {config : ExecutorConfig} {s : System} (h : s.Reached config)
    (hlt : config.writer.maxBatchRecords < 50) : s.link.HasRoom := by
  have hbound : s.load ≤ 5 * config.writer.maxBatchRecords + 6 := h.loaded.bound
  rw [System.load] at hbound
  rw [CatalogLink.HasRoom, eventBridgeCapacity]
  omega

end MediaImporter
