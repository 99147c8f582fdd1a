import MediaImporter.Ingest.Bridge
import MediaImporter.Ingest.Dispatch
import MediaImporter.Ingest.Readers
import MediaImporter.Lib.Progress

/-!
# No wait is in vain

The coordinator waits for a worker when it decides that there is nothing else to do, for the
writer when too many tickets are outstanding, and for both at the end. It never waits for nothing:
as long as it cannot go on, a worker or the writer can move, and each of their moves lowers a
rank, so that they bring it about that it can go on in whatever order they move.

What the coordinator waits for in `recv` rests on its own count: it waits only if a file is
active, and a file that is active is with the workers unless the import is cancelled, in which case
a failure is on its way.

## Main definitions

* `System.Awaits` — why the coordinator waits.
* `System.rank` — what every move of the others lowers.
* `no_wait_in_vain` — the coordinator goes on.
-/

namespace MediaImporter

open Transition (run Inevitable)

/-! ## Why the coordinator waits -/

namespace CoordinatorPhase

/-- The coordinator is about to decide whether to wait. -/
def decides : CoordinatorPhase → Bool
  | .pollingWorkers .decide | .pollingWriter .decide | .deciding => true
  | _ => false

/-- A ticket that is left is about to be resolved. -/
def resolvesLast : CoordinatorPhase → Bool
  | .finalDraining | .finalResolving => true
  | _ => false

/-- Neither of the two, nor a wait for the workers. -/
def Plain (p : CoordinatorPhase) : Prop :=
  p.decides = false ∧ p ≠ .receiving ∧ p.resolvesLast = false

end CoordinatorPhase

/-- The coordinator decides to wait only if a file is active, and its counters are positive. -/
structure System.Awaits (s : System) : Prop where
  counters : ∀ m, s.coordinator.active.lookup m ≠ some 0
  deciding : s.coordinator.phase.decides = true → s.coordinator.active.keys = [] →
    s.coordinator.pending = []
  receiving : s.coordinator.phase = .receiving → s.coordinator.active.keys ≠ []
  tickets : s.coordinator.phase.resolvesLast = true → s.coordinator.tickets ≠ []

theorem lookup_raise_ne {counters counters' : Counters MountId} {mountId : MountId}
    (h : ∀ m, counters.lookup m ≠ some 0) (hraise : counters.raise mountId = some counters')
    (m : MountId) : counters'.lookup m ≠ some 0 := by
  unfold Counters.raise at hraise
  split_ifs at hraise
  obtain rfl := Option.some.inj hraise
  by_cases hm : m = mountId
  · rw [hm, AList.lookup_insert]
    simp
  · rw [AList.lookup_insert_ne hm]
    exact h m

theorem keys_ne_nil_of_count {counters : Counters MountId} {m : MountId}
    (h : 0 < counters.count m) : counters.keys ≠ [] := by
  intro hkeys
  rw [count_of_keys hkeys m] at h
  exact absurd h (Nat.lt_irrefl 0)

theorem exists_count_of_keys {counters : Counters MountId} (hkeys : counters.keys ≠ [])
    (h : ∀ m, counters.lookup m ≠ some 0) : ∃ m, 0 < counters.count m := by
  obtain ⟨m, hm⟩ := List.exists_mem_of_ne_nil _ hkeys
  refine ⟨m, ?_⟩
  obtain ⟨n, hn⟩ := Option.isSome_iff_exists.1 (AList.lookup_isSome.2 (AList.mem_keys.2 hm))
  have hne := h m
  rw [hn] at hne
  rw [Counters.count, hn, Option.getD_some]
  exact Nat.pos_of_ne_zero fun hzero => hne (by rw [hzero])

namespace System.Awaits

variable {config : ExecutorConfig} {s t : System}

theorem of_plain (hcounters : ∀ m, t.coordinator.active.lookup m ≠ some 0)
    (hplain : t.coordinator.phase.Plain) : t.Awaits where
  counters := hcounters
  deciding h := by
    rw [hplain.1] at h
    cases h
  receiving h := absurd h hplain.2.1
  tickets h := by
    rw [hplain.2.2] at h
    cases h

theorem start : System.start.Awaits := by
  refine .of_plain (fun m => ?_) ⟨rfl, by simp [System.start, Coordinator.start], rfl⟩
  simp [System.start, Coordinator.start]

/-- A file in the queue of the workers is active. -/
theorem keys_of_jobs (hlimited : s.Limited config)
    (huncounted : s.coordinator.phase.uncounted = []) (hjobs : s.pool.jobs ≠ []) :
    s.coordinator.active.keys ≠ [] := by
  obtain ⟨work, hwork⟩ := List.exists_mem_of_ne_nil _ hjobs
  have hflight := hlimited.flight work.mountId
  have hon : 0 < onMount work.mountId s.pool.jobs :=
    List.countP_pos_iff.2 ⟨work, hwork, by simp⟩
  rw [huncounted, onMount_nil] at hflight
  refine keys_ne_nil_of_count (m := work.mountId) ?_
  simp only [inFlight] at hflight
  omega

theorem coordinate (h : s.Awaits) (hlimited : s.Limited config) {move : CoordinatorMove}
    (hstep : s.coordinate config move = some t) : t.Awaits := by
  cases move <;> simp only [System.coordinate] at hstep
  case discover candidate disposition =>
    simp only [Option.ite_none_right_eq_some, Option.some.injEq] at hstep
    obtain ⟨-, rfl⟩ := hstep
    unfold discovered
    dsimp only
    split
    · exact .of_plain h.counters ⟨rfl, by simp [go, Coordinator.fail], rfl⟩
    · exact .of_plain h.counters ⟨rfl, by simp [go, Coordinator.go], rfl⟩
    · split
      · exact .of_plain h.counters ⟨rfl, by simp [go], rfl⟩
      · exact .of_plain h.counters ⟨rfl, by simp [go, Coordinator.fail], rfl⟩
  case submitSkip candidate size =>
    simp only [Option.ite_none_right_eq_some, Option.some.injEq] at hstep
    obtain ⟨-, rfl⟩ := hstep
    unfold submittedSkip
    dsimp only
    split
    · exact .of_plain h.counters ⟨rfl, by simp [go], rfl⟩
    · exact .of_plain h.counters ⟨rfl, by simp [go, Coordinator.fail], rfl⟩
  case complete finished =>
    simp only [Option.ite_none_right_eq_some, Option.some.injEq] at hstep
    obtain ⟨-, rfl⟩ := hstep
    unfold completed
    dsimp only
    split
    · exact .of_plain h.counters ⟨rfl, by simp [go, Coordinator.fail], rfl⟩
    · exact .of_plain (ReaderGauge.positive_settle h.counters _ _) ⟨rfl, by simp [go], rfl⟩
  case countWork work =>
    split at hstep
    · split at hstep
      · next active hraise =>
        obtain rfl := Option.some.inj hstep
        exact .of_plain (lookup_raise_ne h.counters hraise) ⟨rfl, by simp [go], rfl⟩
      · obtain rfl := Option.some.inj hstep
        exact .of_plain h.counters ⟨rfl, by simp [go, Coordinator.fail], rfl⟩
    · cases hstep
  case noneEligible =>
    simp only [Option.ite_none_right_eq_some, Option.some.injEq] at hstep
    obtain ⟨⟨-, hnone⟩, rfl⟩ := hstep
    refine ⟨h.counters, fun _ hkeys => ?_, (fun hnext => by cases hnext),
      fun hnext => by cases hnext⟩
    -- a device of which no file is active has room for one
    have hall := Coordinator.nextIndex_eq_none.1 hnone
    refine List.eq_nil_iff_forall_not_mem.2 fun work hwork => ?_
    have hneligible := hall work hwork
    have hpos : 0 < config.effectiveWorkersPerMount :=
      lt_min config.workersPerMount_pos (by decide)
    have hcount : s.coordinator.active.count work.mountId = 0 := count_of_keys hkeys _
    simp only [Coordinator.eligible, hcount, decide_eq_false_iff_not] at hneligible
    exact hneligible hpos
  case giveBack =>
    simp only [Option.ite_none_right_eq_some, Option.some.injEq] at hstep
    obtain ⟨⟨hphase, -, -, hfull⟩, rfl⟩ := hstep
    have hkeys : s.coordinator.active.keys ≠ [] := by
      refine keys_of_jobs hlimited (by rw [hphase]; rfl) fun hnone => ?_
      rw [hnone, workerQueueCapacity] at hfull
      cases hfull
    exact ⟨h.counters, fun _ hnone => absurd hnone hkeys, (fun hnext => by cases hnext),
      (fun hnext => by cases hnext)⟩
  case decide =>
    split at hstep
    · next hphase =>
      have hpending := h.deciding (by rw [hphase]; rfl)
      split at hstep
      · obtain rfl := Option.some.inj hstep
        exact .of_plain h.counters ⟨rfl, by simp [go, Coordinator.go], rfl⟩
      · next hscan =>
        split at hstep
        · obtain rfl := Option.some.inj hstep
          exact .of_plain h.counters ⟨rfl, by simp [go, Coordinator.go], rfl⟩
        · next hend =>
          obtain rfl := Option.some.inj hstep
          refine ⟨h.counters, (fun hnext => by cases hnext), fun _ hkeys => ?_,
            (fun hnext => by cases hnext)⟩
          -- with nothing active and nothing pending there is a file to scan, or the end
          have hnone := hpending hkeys
          cases hdone : s.coordinator.scannerDone with
          | false => exact hscan ⟨hdone, by rw [hnone]; decide⟩
          | true => exact hend ⟨hkeys, hnone, hdone⟩
    · cases hstep
  case nextTicket =>
    simp only [Option.ite_none_right_eq_some, Option.some.injEq] at hstep
    obtain ⟨-, rfl⟩ := hstep
    by_cases hnone : s.coordinator.tickets = []
    · rw [if_pos hnone]
      exact .of_plain h.counters ⟨rfl, by simp [go, Coordinator.go], rfl⟩
    · rw [if_neg hnone]
      exact ⟨h.counters, (fun hnext => by cases hnext), (fun hnext => by cases hnext),
        fun _ => hnone⟩
  case drain event =>
    simp only [Option.ite_none_right_eq_some, Option.some.injEq] at hstep
    obtain ⟨-, rfl⟩ := hstep
    exact ⟨h.counters, h.deciding, h.receiving, h.tickets⟩
  case drained =>
    split at hstep
    · next phase hphase =>
      simp only [Option.ite_none_right_eq_some, Option.some.injEq] at hstep
      obtain ⟨-, rfl⟩ := hstep
      by_cases hfinal : s.coordinator.phase = .finalDraining
      · have htickets := h.tickets (by rw [hfinal]; rfl)
        rw [hfinal] at hphase
        obtain rfl := Option.some.inj hphase
        exact ⟨h.counters, (fun hnext => by cases hnext), (fun hnext => by cases hnext),
          fun _ => htickets⟩
      · refine .of_plain h.counters ?_
        revert hphase hfinal
        cases s.coordinator.phase <;> intro hphase hfinal <;> cases hphase <;>
          first
            | exact absurd rfl hfinal
            | exact ⟨rfl, by simp [go, Coordinator.go], rfl⟩
    · cases hstep
  case pollClear =>
    split at hstep
    · next next hphase =>
      simp only [Option.ite_none_right_eq_some, Option.some.injEq] at hstep
      obtain ⟨-, rfl⟩ := hstep
      refine ⟨h.counters, fun hnext => h.deciding ?_, (fun hnext => by cases hnext),
        (fun hnext => by cases hnext)⟩
      rw [hphase]
      cases next <;> first | rfl | cases hnext
    · cases hstep
  case pollWriterClear =>
    split at hstep
    · next next hphase =>
      simp only [Option.ite_none_right_eq_some, Option.some.injEq] at hstep
      obtain ⟨-, rfl⟩ := hstep
      cases next with
      | decide =>
          exact ⟨h.counters, fun _ => h.deciding (by rw [hphase]; rfl),
            (fun hnext => by cases hnext), (fun hnext => by cases hnext)⟩
      | dispatch | scan =>
          exact .of_plain h.counters
            ⟨rfl, by simp [go, Coordinator.go, CoordinatorPhase.ofPoll], rfl⟩
    · cases hstep
  case resolve ticket outcome =>
    simp only [Option.ite_none_right_eq_some, Option.some.injEq] at hstep
    obtain ⟨⟨hresolves, -⟩, rfl⟩ := hstep
    simp only [go]
    split_ifs with hfinal
    · exact .of_plain h.counters ⟨rfl, by simp, rfl⟩
    · refine .of_plain h.counters ?_
      rcases hresolves with ⟨hresolving, -⟩ | hphase
      · revert hresolving
        cases s.coordinator.phase <;> intro hresolving <;> cases hresolving
        exact ⟨rfl, by simp, rfl⟩
      · exact absurd hphase hfinal
  all_goals
    (repeat' (split at hstep)) <;> simp only [Option.some.injEq, reduceCtorEq] at hstep <;>
      subst hstep <;>
      exact .of_plain h.counters ⟨rfl, by simp [go, Coordinator.go, Coordinator.fail,
        cancelAndFail, submittedHashed], rfl⟩

theorem step (h : s.Awaits) (hlimited : s.Limited config) {move : Move}
    (hstep : s.step config move = some t) : t.Awaits := by
  cases move with
  | worker i move =>
      simp only [System.step] at hstep
      cases hw : s.workers[i]? with
      | none => simp [hw] at hstep
      | some w =>
          simp only [hw, Option.map_eq_some_iff] at hstep
          obtain ⟨_, -, rfl⟩ := hstep
          exact ⟨h.counters, h.deciding, h.receiving, h.tickets⟩
  | coordinator move => exact h.coordinate hlimited hstep
  | writer move =>
      simp only [System.step, Option.map_eq_some_iff] at hstep
      obtain ⟨_, -, rfl⟩ := hstep
      exact ⟨h.counters, h.deciding, h.receiving, h.tickets⟩

end System.Awaits

theorem System.Reached.awaits {config : ExecutorConfig} {s : System} (h : s.Reached config) :
    s.Awaits := by
  obtain ⟨moves, hrun⟩ := h
  refine Transition.run_induction (P := fun _ s => s.Awaits) .start ?_ hrun
  intro moves u move t hu hawaits hstep
  have hreached : u.Reached config := ⟨moves, hu⟩
  exact hawaits.step hreached.limited hstep

/-! ## The others can move -/

/-- A worker can move unless it has nothing to wait for, or waits for a file. -/
theorem SourceWorker.exists_step {w : SourceWorker} {p : Pool} (hgone : ¬w.Gone)
    (hroom : w.signal ≠ none → p.failures = [])
    (hchannel : p.completed.length < completionQueueCapacity ∨ p.cancelled = true)
    (hidle : w.At .waiting → p.jobs ≠ [] ∨ p.jobsOpen = false) :
    ∃ move, (w.step p move).isSome = true := by
  cases hsignal : w.signal with
  | some failure =>
      have hnone := hroom (by simp [hsignal])
      exact ⟨.publish failure, by simp [step, hsignal, hnone]⟩
  | none =>
      cases hstatus : w.status with
      | exited => exact absurd ⟨hstatus, hsignal⟩ hgone
      | broken context => exact ⟨.breakDown context, by simp [step, hstatus]⟩
      | running =>
          have hat : ∀ phase, w.phase = phase → w.At phase :=
            fun phase hphase => ⟨hphase, hstatus, hsignal⟩
          cases hphase : w.phase with
          | waiting =>
              cases hjobs : p.jobs with
              | nil =>
                  have hclosed := (hidle (hat _ hphase)).resolve_left (absurd hjobs)
                  exact ⟨.close, by simp [step, hat _ hphase, hjobs, hclosed]⟩
              | cons work jobs => exact ⟨.take work, by simp [step, hat _ hphase, hjobs]⟩
          | took work =>
              cases hcancelled : p.cancelled with
              | true => exact ⟨.refuse work, by simp [step, hat _ hphase]⟩
              | false => exact ⟨.admitted work, by simp [step, hat _ hphase, hcancelled]⟩
          | rejecting work => exact ⟨.reject work, by simp [step, hat _ hphase]⟩
          | dequeued work =>
              cases hraise : p.readers.raise work.mountId with
              | none => exact ⟨.overflow work, by simp [step, hat _ hphase, hraise]⟩
              | some readers => exact ⟨.start work, by simp [step, hat _ hphase, hraise]⟩
          | reading work n => exact ⟨.fail work n "", by simp [step, hat _ hphase]⟩
          | readFailed work n context =>
              exact ⟨.signal work n context, by simp [step, hat _ hphase]⟩
          | reported work n context =>
              cases hlowered : decrementReaders p.readers work.mountId with
              | ok active =>
                  exact ⟨.return work n context, by simp [step, hat _ hphase, hlowered]⟩
              | error error =>
                  exact ⟨.miscount (.reported work n context) work,
                    by simp [step, hat _ hphase, hlowered, WorkerPhase.leaving]⟩
          | stored work blob =>
              cases hlowered : decrementReaders p.readers work.mountId with
              | ok active => exact ⟨.release work blob, by simp [step, hat _ hphase, hlowered]⟩
              | error error =>
                  exact ⟨.miscount (.stored work blob) work,
                    by simp [step, hat _ hphase, hlowered, WorkerPhase.leaving]⟩
          | uncounted work blob => exact ⟨.count work blob, by simp [step, hat _ hphase]⟩
          | holding work blob =>
              rcases hchannel with hroom | hcancelled
              · exact ⟨.send work blob, by simp [step, hat _ hphase, hroom]⟩
              · exact ⟨.abandon work blob, by simp [step, hat _ hphase, hcancelled]⟩

/-- An outcome that fits a request. -/
def ImportRequest.fitting : ImportRequest → ImportWriteOutcome
  | ⟨_, .imported⟩ => .imported .inserted .inserted
  | ⟨_, .known⟩ => .observedKnown

theorem ImportRequest.all_fits (batch : List ImportRequest) :
    (batch.zip (batch.map fitting)).all (fun answered => answered.1.Fits answered.2) = true := by
  induction batch with
  | nil => rfl
  | cons request batch ih =>
      rw [List.map_cons, List.zip_cons_cons, List.all_cons, ih]
      rcases request with ⟨n, kind⟩
      cases kind <;> rfl

/-- The writer can move if the bridge has room, unless it waits for a request. -/
theorem ImportWriter.exists_step {config : CatalogWriterConfig} {w : ImportWriter}
    {l : CatalogLink} (hgone : ¬w.Gone) (hroom : l.HasRoom)
    (hwork : l.requests ++ w.asked ≠ [] ∨ l.requestsOpen = false) :
    ∃ move, (move = .disconnect → w.closing = false) ∧ (w.step config l move).isSome = true := by
  cases hphase : w.phase with
  | receiving =>
      by_cases hbatch : w.batch = []
      · cases hrequests : l.requests with
        | cons request requests =>
            have hpos := config.maxBatchRecords_pos
            exact ⟨.receive request, by simp, by simp [step, hphase, hrequests, hbatch, hpos]⟩
        | nil =>
            have hclosed : l.requestsOpen = false := by
              refine hwork.resolve_left fun hne => hne ?_
              simp [asked, left, hrequests, hbatch, hphase]
            cases hclosing : w.closing with
            | false =>
                exact ⟨.disconnect, fun _ => rfl, by simp [step, hphase, hrequests, hclosed]⟩
            | true => exact ⟨.shutDown, by simp, by simp [step, hphase, hclosing, hbatch]⟩
      · exact ⟨.openBatch, by simp, by simp [step, hphase, hbatch, hroom]⟩
  | opened =>
      have hfits := ImportRequest.all_fits w.batch
      refine ⟨.commit (w.batch.map ImportRequest.fitting), by simp, ?_⟩
      simp only [step]
      rw [if_pos ⟨hphase, by simp, hfits⟩]
      rfl
  | answering left size =>
      cases left with
      | nil => exact ⟨.announce, by simp, by simp [step, hphase, hroom]⟩
      | cons first left => exact ⟨.answer, by simp, by simp [step, hphase, hroom]⟩
  | checkpointDue size => exact ⟨.requestCheckpoint, by simp, by simp [step, hphase, hroom]⟩
  | checkpointing size => exact ⟨.checkpoint 0 0 0, by simp, by simp [step, hphase, hroom]⟩
  | flushed size =>
      cases hclosing : w.closing with
      | true => exact ⟨.next, by simp, by simp [step, hphase, hclosing, hroom]⟩
      | false => exact ⟨.next, by simp, by simp [step, hphase, hclosing]⟩
  | failing context => exact ⟨.reject, by simp, by simp [step, hphase]⟩
  | stopped => exact absurd (.inl hphase) hgone
  | failed => exact absurd (.inr hphase) hgone

/-! ## Every move of the others lowers a rank -/

def WorkerPhase.rank : WorkerPhase → ℕ
  | .waiting => 0
  | .took _ => 2 ^ 64 + 14
  | .rejecting _ => 1
  | .dequeued _ => 2 ^ 64 + 12
  | .reading _ n => 2 ^ 64 - n + 10
  | .readFailed _ _ _ => 9
  | .reported _ _ _ => 7
  | .stored _ _ => 8
  | .uncounted _ _ => 7
  | .holding _ _ => 6

def WorkerStatus.rank : WorkerStatus → ℕ
  | .running => 4
  | .broken _ => 2
  | .exited => 0

/-- How far a worker is from having nothing to do. -/
def SourceWorker.rank (w : SourceWorker) : ℕ := w.phase.rank + w.status.rank + w.alarm

theorem SourceWorker.rank_signalling (w : SourceWorker) (p : Pool)
    (failure : SourceWorkerFailure) :
    (w.signalling p failure).rank ≤ w.phase.rank + w.status.rank + 1 := by
  unfold rank alarm signalling
  dsimp only
  split_ifs <;> omega

theorem SourceWorker.step_rank {w w' : SourceWorker} {p p' : Pool} {events : List IngestEvent}
    {move : WorkerMove} (h : w.step p move = some (w', p', events)) :
    w'.rank + (2 ^ 64 + 20) * p'.jobs.length < w.rank + (2 ^ 64 + 20) * p.jobs.length := by
  cases move <;> simp only [step] at h
  case take work =>
    simp only [Option.ite_none_right_eq_some, Option.some.injEq, Prod.mk.injEq] at h
    obtain ⟨⟨hat, hhead⟩, rfl, rfl, rfl⟩ := h
    obtain ⟨rest, hrest⟩ := List.head?_eq_some_iff.1 hhead
    simp [rank, go, alarm, WorkerPhase.rank, hat.1, hat.2.2, hrest]
    omega
  case refuse work =>
    simp only [Option.ite_none_right_eq_some, Option.some.injEq, Prod.mk.injEq] at h
    obtain ⟨hat, rfl, rfl, rfl⟩ := h
    have hrank := rank_signalling (w.go (.rejecting work)) p
      (.of work "telemetry renderer failed")
    have hphase : (w.go (.rejecting work)).phase.rank = 1 := rfl
    have hstatus : (w.go (.rejecting work)).status = w.status := rfl
    rw [hphase, hstatus] at hrank
    simp only [rank, hat.1, WorkerPhase.rank, Pool.cancel] at hrank ⊢
    omega
  case signal work n context =>
    simp only [Option.ite_none_right_eq_some, Option.some.injEq, Prod.mk.injEq] at h
    obtain ⟨hat, rfl, rfl, rfl⟩ := h
    have hrank := rank_signalling (w.go (.reported work n context)) p (.of work context)
    have hphase : (w.go (.reported work n context)).phase.rank = 7 := rfl
    have hstatus : (w.go (.reported work n context)).status = w.status := rfl
    rw [hphase, hstatus] at hrank
    simp only [rank, hat.1, WorkerPhase.rank, Pool.cancel] at hrank ⊢
    omega
  case breakDown context =>
    simp only [Option.ite_none_right_eq_some, Option.some.injEq, Prod.mk.injEq] at h
    obtain ⟨hstatus, rfl, rfl, rfl⟩ := h
    have hrank := rank_signalling { w with status := .exited } p ⟨none, none, none, context⟩
    simp only [rank, hstatus, WorkerStatus.rank, Pool.cancel] at hrank ⊢
    omega
  case publish failure =>
    simp only [Option.ite_none_right_eq_some, Option.some.injEq, Prod.mk.injEq] at h
    obtain ⟨⟨hsignal, -⟩, rfl, rfl, rfl⟩ := h
    simp [rank, alarm, hsignal]
  case stage work n size rendererFailed =>
    simp only [Option.ite_none_right_eq_some, Option.some.injEq, Prod.mk.injEq] at h
    obtain ⟨⟨hat, hpos, hlt⟩, rfl, rfl, rfl⟩ := h
    cases rendererFailed <;> simp [rank, go, alarm, WorkerPhase.rank, hat.1]
    omega
  case panic context =>
    simp only [Option.ite_none_right_eq_some, Option.some.injEq, Prod.mk.injEq] at h
    obtain ⟨⟨hstatus, -⟩, rfl, rfl, rfl⟩ := h
    simp [rank, alarm, WorkerStatus.rank, hstatus]
  all_goals
    (repeat' (split at h)) <;> simp only [Option.some.injEq, Prod.mk.injEq, reduceCtorEq] at h
    obtain ⟨rfl, rfl, rfl⟩ := h
    simp_all [At, rank, go, alarm, WorkerPhase.rank, WorkerStatus.rank]

def ImportWriterPhase.rank : ImportWriterPhase → ℕ
  | .failed | .stopped => 0
  | .failing _ => 1
  | .checkpointing none => 2
  | .checkpointDue none => 3
  | .receiving => 4
  | .flushed _ => 5
  | .checkpointing (some _) => 6
  | .checkpointDue (some _) => 7
  | .answering left _ => left.length + 8
  | .opened => 9

/-- How far the writer is from having nothing to do. -/
def ImportWriter.rank (w : ImportWriter) : ℕ :=
  (if w.phase = .opened then w.batch.length else 10 * w.batch.length) + w.phase.rank +
    if w.closing then 0 else 1

theorem ImportWriter.step_rank {config : CatalogWriterConfig} {w w' : ImportWriter}
    {l l' : CatalogLink} {move : ImportWriterMove} (h : w.step config l move = some (w', l'))
    (hclosing : move = .disconnect → w.closing = false) :
    w'.rank + 11 * l'.requests.length < w.rank + 11 * l.requests.length := by
  cases move <;> simp only [step] at h
  case receive request =>
    simp only [Option.ite_none_right_eq_some, Option.some.injEq, Prod.mk.injEq] at h
    obtain ⟨⟨hphase, hhead, -⟩, rfl, rfl⟩ := h
    obtain ⟨rest, hrest⟩ := List.head?_eq_some_iff.1 hhead
    simp [rank, ImportWriterPhase.rank, hphase, hrest]
    omega
  case disconnect =>
    simp only [Option.ite_none_right_eq_some, Option.some.injEq, Prod.mk.injEq] at h
    obtain ⟨⟨hphase, -⟩, rfl, rfl⟩ := h
    simp [rank, hphase, hclosing rfl]
  case openBatch =>
    simp only [Option.ite_none_right_eq_some, Option.some.injEq, Prod.mk.injEq] at h
    obtain ⟨⟨hphase, hbatch, -⟩, rfl, rfl⟩ := h
    have hpos := List.length_pos_of_ne_nil hbatch
    simp [rank, ImportWriterPhase.rank, hphase, CatalogLink.emit]
    omega
  case commit outcomes =>
    simp only [Option.ite_none_right_eq_some, Option.some.injEq, Prod.mk.injEq] at h
    obtain ⟨⟨hphase, hlength, -⟩, rfl, rfl⟩ := h
    simp [rank, ImportWriterPhase.rank, hphase, hlength]
  case rollBack context =>
    simp only [Option.ite_none_right_eq_some, Option.some.injEq, Prod.mk.injEq] at h
    obtain ⟨⟨hphase, -⟩, rfl, rfl⟩ := h
    simp [rank, ImportWriterPhase.rank, hphase, CatalogLink.emit]
  case answer =>
    split at h
    · next request outcome left size hphase =>
      simp only [Option.ite_none_right_eq_some, Option.some.injEq, Prod.mk.injEq] at h
      obtain ⟨-, rfl, rfl⟩ := h
      simp [rank, ImportWriterPhase.rank, hphase, CatalogLink.emit]
    · cases h
  case announce =>
    split at h
    · next size hphase =>
      simp only [Option.ite_none_right_eq_some, Option.some.injEq, Prod.mk.injEq] at h
      obtain ⟨-, rfl, rfl⟩ := h
      split_ifs <;> simp [rank, ImportWriterPhase.rank, hphase, CatalogLink.emit]
    · cases h
  case requestCheckpoint =>
    split at h
    · next size hphase =>
      simp only [Option.ite_none_right_eq_some, Option.some.injEq, Prod.mk.injEq] at h
      obtain ⟨-, rfl, rfl⟩ := h
      cases size <;> simp [rank, ImportWriterPhase.rank, hphase, CatalogLink.emit]
    · cases h
  case checkpoint busy log checkpointed =>
    split at h
    · next size hphase =>
      simp only [Option.ite_none_right_eq_some, Option.some.injEq, Prod.mk.injEq] at h
      obtain ⟨-, rfl, rfl⟩ := h
      cases size <;> simp [rank, ImportWriterPhase.rank, hphase, CatalogLink.emit]
    · cases h
  case checkpointFailed context =>
    split at h
    · next size hphase =>
      obtain ⟨rfl, rfl⟩ := Prod.mk.inj (Option.some.inj h)
      cases size <;> simp [rank, ImportWriterPhase.rank, hphase]
    · cases h
  case next =>
    split at h
    · next size hphase =>
      split at h
      · simp only [Option.ite_none_right_eq_some, Option.some.injEq, Prod.mk.injEq] at h
        obtain ⟨-, rfl, rfl⟩ := h
        simp [rank, ImportWriterPhase.rank, hphase, CatalogLink.emit]
      · obtain ⟨rfl, rfl⟩ := Prod.mk.inj (Option.some.inj h)
        simp [rank, ImportWriterPhase.rank, hphase]
    · cases h
  case shutDown =>
    simp only [Option.ite_none_right_eq_some, Option.some.injEq, Prod.mk.injEq] at h
    obtain ⟨⟨hphase, -⟩, rfl, rfl⟩ := h
    simp [rank, ImportWriterPhase.rank, hphase]
  case reject =>
    split at h
    · next context hphase =>
      obtain ⟨rfl, rfl⟩ := Prod.mk.inj (Option.some.inj h)
      simp [rank, ImportWriterPhase.rank, hphase]
      omega
    · cases h

/-- What every move of a worker and of the writer lowers. -/
def System.rank (s : System) : ℕ :=
  weigh SourceWorker.rank s.workers + (2 ^ 64 + 20) * s.pool.jobs.length + s.writer.rank +
    11 * s.link.requests.length

/-- The moves of the workers and of the writer. That no more requests come is noticed once. -/
def Move.OfOthers (s : System) : Move → Prop
  | .worker _ _ => True
  | .coordinator _ => False
  | .writer move => move = .disconnect → s.writer.closing = false

section Wait

variable {config : ExecutorConfig} {s t : System} {move : Move}

theorem Move.OfOthers.step (h : move.OfOthers s) (hstep : s.step config move = some t) :
    t.coordinator = s.coordinator ∧ t.rank < s.rank := by
  cases move with
  | worker i move =>
      simp only [System.step] at hstep
      cases hw : s.workers[i]? with
      | none => simp [hw] at hstep
      | some w =>
          simp only [hw, Option.map_eq_some_iff] at hstep
          obtain ⟨⟨w', pool, events⟩, hmove, rfl⟩ := hstep
          have hrank := SourceWorker.step_rank hmove
          have hset := weigh_set (f := SourceWorker.rank) (b := w') hw
          refine ⟨rfl, ?_⟩
          simp only [System.rank]
          omega
  | coordinator move => exact h.elim
  | writer move =>
      simp only [System.step, Option.map_eq_some_iff] at hstep
      obtain ⟨⟨writer, link⟩, hmove, rfl⟩ := hstep
      have hrank := ImportWriter.step_rank hmove h
      refine ⟨rfl, ?_⟩
      simp only [System.rank]
      omega

/-! ## The coordinator goes on -/

/-- The coordinator can make a move, and need not panic for that. -/
def System.GoesOn (config : ExecutorConfig) (s : System) : Prop :=
  ∃ move, (∀ error, move ≠ .panic error) ∧ (s.coordinate config move).isSome = true

/-- One of the others can move. -/
def System.OthersMove (config : ExecutorConfig) (s : System) : Prop :=
  ∃ move, move.OfOthers s ∧ (s.step config move).isSome = true

theorem System.OthersMove.of_worker {w : SourceWorker} (hw : w ∈ s.workers)
    (h : ∃ move, (w.step s.pool move).isSome = true) : s.OthersMove config := by
  obtain ⟨i, hi⟩ := List.getElem?_of_mem hw
  obtain ⟨move, hmove⟩ := h
  refine ⟨.worker i move, trivial, ?_⟩
  simpa [System.step, hi] using hmove

theorem System.OthersMove.of_writer
    (h : ∃ move, (move = .disconnect → s.writer.closing = false) ∧
      (s.writer.step config.writer s.link move).isSome = true) : s.OthersMove config := by
  obtain ⟨move, hclosing, hmove⟩ := h
  exact ⟨.writer move, hclosing, by simpa [System.step] using hmove⟩

namespace System.Reached

/-- The coordinator goes on from where it empties the bridge. -/
theorem goesOn_drain {phase : CoordinatorPhase}
    (hphase : s.coordinator.phase.afterDrain = some phase) : s.GoesOn config := by
  cases hbridge : s.link.bridge with
  | nil => exact ⟨.drained, by simp, by simp [coordinate, hphase, hbridge]⟩
  | cons event bridge => exact ⟨.drain event, by simp, by simp [coordinate, hphase, hbridge]⟩

/-- While requests are submitted there is room for them. -/
theorem requests_lt (h : s.Reached config) (hlt : config.writer.maxBatchRecords < 50)
    (herror : s.coordinator.error = none) (hadmits : s.coordinator.phase.admits = true) :
    s.link.requests.length < catalogQueueCapacity := by
  obtain ⟨⟨dropped, finished, answered, hbalanced, -⟩, -⟩ := h.keeps herror
  have hasked : s.link.requests.length + s.writer.asked.length ≤ s.coordinator.tickets.length :=
    hbalanced.answers.asked_le_tickets hbalanced.files
  have htickets := h.limited.admits hadmits
  rw [ExecutorConfig.maxOutstanding] at htickets
  rw [catalogQueueCapacity]
  omega

/-- A ticket that is awaited is answered, or the writer is at work. -/
theorem goesOn_of_ticket (h : s.Reached config) (hlt : config.writer.maxBatchRecords < 50)
    (herror : s.coordinator.error = none)
    (hresolves : s.coordinator.Resolves config.maxOutstanding) {ticket : PendingTicket}
    (hhead : s.coordinator.tickets.head? = some ticket) :
    s.GoesOn config ∨ s.OthersMove config := by
  cases hresponse : s.link.response ticket.sequence with
  | some answer =>
      left
      cases answer with
      | ok outcome =>
          exact ⟨.resolve ticket outcome, by simp,
            by simp [coordinate, hresolves, hhead, hresponse]⟩
      | error error =>
          exact ⟨.resolveFailed ticket error, by simp,
            by simp [coordinate, hresolves, hhead, hresponse]⟩
  | none =>
      by_cases hgone : s.writer.Gone
      · left
        exact ⟨.resolveFailed ticket "", by simp,
          by simp [coordinate, hresolves, hhead, hresponse, hgone]⟩
      · right
        obtain ⟨⟨dropped, finished, answered, hbalanced, -⟩, -⟩ := h.keeps herror
        have hasked : s.link.requests ++ s.writer.asked ≠ [] :=
          hbalanced.answers.asked_of_ticket (List.mem_of_mem_head? hhead) hresponse
        exact .of_writer (ImportWriter.exists_step hgone (h.hasRoom hlt) (.inl hasked))

/-- Where no file is in flight, none is active, unless the import is cancelled. -/
theorem keys_of_landed (h : s.Reached config) (herror : s.coordinator.error = none)
    (hphase : s.coordinator.phase = .receiving) (hcancelled : s.pool.cancelled = false)
    (hjobs : s.pool.jobs = []) (hcompleted : s.pool.completed = [])
    (hwaiting : ∀ w ∈ s.workers, w.phase = .waiting) : s.coordinator.active.keys = [] := by
  obtain ⟨⟨dropped, finished, answered, hbalanced, -⟩, -⟩ := h.keeps herror
  have hnone : dropped = [] := hbalanced.kept hcancelled
  have hreceived : s.books.received = [] := by
    simp only [books, hphase, CoordinatorPhase.inHand]
  have huncounted : s.books.uncounted = [] := by
    simp only [books, hphase, CoordinatorPhase.uncounted]
  by_contra hkeys
  obtain ⟨m, hm⟩ := exists_count_of_keys hkeys h.awaits.counters
  have hactive : s.books.flight (Work.isOn m) (s.workers.map (·.phase) ++ dropped) =
      s.coordinator.active.count m + weigh (Work.isOn m) s.books.uncounted :=
    hbalanced.files.active m
  have hphases : weigh (weigh (Work.isOn m) ∘ WorkerPhase.held) (s.workers.map (·.phase)) = 0 := by
    rw [← weigh_zero (l := s.workers.map (·.phase))]
    refine weigh_congr fun phase hphase => ?_
    obtain ⟨w, hw, rfl⟩ := List.mem_map.1 hphase
    rw [hwaiting w hw]
    rfl
  have hjobsBooks : s.books.jobs = [] := hjobs
  have hcompletedBooks : s.books.completed = [] := hcompleted
  rw [Books.flight, hnone, List.append_nil, hphases, hjobsBooks, hcompletedBooks, hreceived,
    huncounted] at hactive
  simp only [weigh_nil] at hactive
  omega

/-- The coordinator does not wait for the workers in vain. -/
theorem goesOn_receiving (h : s.Reached config) (herror : s.coordinator.error = none)
    (hphase : s.coordinator.phase = .receiving) : s.GoesOn config ∨ s.OthersMove config := by
  cases hcompleted : s.pool.completed with
  | cons done completed =>
      exact .inl ⟨.receive done, by simp, by simp [coordinate, hphase, hcompleted]⟩
  | nil =>
  cases hfailures : s.pool.failures with
  | cons failure failures =>
      exact .inl ⟨.receiveFailure failure, by simp, by simp [coordinate, hphase, hfailures]⟩
  | nil =>
  by_cases hgone : s.WorkersGone
  · exact .inl ⟨.receiveClosed, by simp, by simp [coordinate, hphase, hcompleted, hgone]⟩
  right
  have hopen : s.pool.jobsOpen = true := by
    rw [h.alert.jobsOpen, hphase]
    rfl
  have hmoves : ∀ w ∈ s.workers, ¬w.Gone → (w.At .waiting → s.pool.jobs ≠ []) →
      s.OthersMove config := by
    intro w hw hstays hidle
    refine .of_worker hw (SourceWorker.exists_step hstays (fun _ => hfailures) (.inl ?_)
      fun hat => .inl (hidle hat))
    rw [hcompleted]
    decide
  by_contra hstuck
  have hidle : ∀ w ∈ s.workers, ¬w.Gone → w.At .waiting ∧ s.pool.jobs = [] := by
    intro w hw hstays
    by_contra hbusy
    refine hstuck (hmoves w hw hstays fun hat hjobs => hbusy ⟨hat, hjobs⟩)
  cases hcancelled : s.pool.cancelled with
  | true =>
      -- the failure is not in the channel, so that a worker is about to send it
      have halarms := h.alert.rings hcancelled herror (by rw [hphase]; rfl)
      rw [alarms, hfailures, List.length_nil, Nat.add_zero] at halarms
      have hnone : weigh SourceWorker.alarm s.workers = 0 := by
        rw [← weigh_zero (l := s.workers)]
        refine weigh_congr fun w hw => if_pos ?_
        by_contra hsignal
        exact hsignal (hidle w hw fun hgone => hsignal hgone.2).1.2.2
      omega
  | false =>
      have hstay : ∀ w ∈ s.workers, ¬w.Gone := fun w hw hgone =>
        ((h.alert.calm hcancelled).2 w hw).1 hgone.1
      simp only [WorkersGone, not_forall] at hgone
      obtain ⟨w, hw, hstays⟩ := hgone
      exact h.awaits.receiving hphase (h.keys_of_landed herror hphase hcancelled
        (hidle w hw hstays).2 hcompleted fun v hv => (hidle v hv (hstay v hv)).1.1)

/-- The coordinator does not wait for the workers to leave in vain: a worker that could not send
a failure would not be the only one that has one. -/
theorem goesOn_joining (h : s.Reached config) (hphase : s.coordinator.phase = .joining) :
    s.GoesOn config ∨ s.OthersMove config := by
  by_cases hgone : s.WorkersGone
  · exact .inl ⟨.joined, by simp, by simp [coordinate, hphase, hgone]⟩
  · right
    simp only [WorkersGone, not_forall] at hgone
    obtain ⟨w, hw, hstays⟩ := hgone
    have hclosed : s.coordinator.phase.closed = true := by rw [hphase]; rfl
    have hone := h.alert.one
    have hle := le_weigh (f := SourceWorker.alarm) hw
    refine .of_worker hw (SourceWorker.exists_step hstays (fun hsignal => ?_)
      (.inr (h.alert.closed hclosed)) fun _ => .inr ?_)
    · have halarm : w.alarm = 1 := if_neg hsignal
      rw [alarms] at hone
      exact List.length_eq_zero_iff.1 (by omega)
    · rw [h.alert.jobsOpen, hclosed]
      rfl

theorem goesOn_submitting (h : s.Reached config) (hlt : config.writer.maxBatchRecords < 50)
    (herror : s.coordinator.error = none) (hadmits : s.coordinator.phase.admits = true)
    (hphase : (∃ candidate size, s.coordinator.phase = .skipping candidate size) ∨
      ∃ finished, s.coordinator.phase = .submitting finished) : s.GoesOn config := by
  have hroom := h.requests_lt hlt herror hadmits
  by_cases hgone : s.writer.Gone
  · refine ⟨.submitFailed "", by simp, ?_⟩
    rcases hphase with ⟨candidate, size, hphase⟩ | ⟨finished, hphase⟩ <;>
      simp [coordinate, hphase, hgone]
  · rcases hphase with ⟨candidate, size, hphase⟩ | ⟨finished, hphase⟩
    · exact ⟨.submitSkip candidate size, by simp, by simp [coordinate, hphase, hgone, hroom]⟩
    · exact ⟨.submitHashed finished, by simp, by simp [coordinate, hphase, hgone, hroom]⟩

theorem goesOn_dispatching (hphase : s.coordinator.phase = .dispatching) : s.GoesOn config := by
  cases hnext : s.coordinator.nextIndex config.effectiveWorkersPerMount with
  | none => exact ⟨.noneEligible, by simp, by simp [coordinate, hphase, hnext]⟩
  | some i =>
      by_cases hgone : s.WorkersGone
      · exact ⟨.queueClosed, by simp, by simp [coordinate, hphase, hnext, hgone]⟩
      · by_cases hroom : s.pool.jobs.length < workerQueueCapacity
        · obtain ⟨before, work, after, rfl, hchooses⟩ := Coordinator.chooses_of_nextIndex hnext
          refine ⟨.submit work, by simp, ?_⟩
          simp [coordinate, hphase, hnext, hgone, hroom, hchooses.pending]
        · exact ⟨.giveBack, by simp,
            by simp [coordinate, hphase, hnext, hgone, Nat.le_of_not_lt hroom]⟩

/-- In every state of an import but the last, the coordinator can go on or one of the others can
move. -/
theorem goesOn_or (h : s.Reached config) (hlt : config.writer.maxBatchRecords < 50)
    (hdone : s.coordinator.phase ≠ .done) : s.GoesOn config ∨ s.OthersMove config := by
  have herror := h.loaded.error_eq_none
  have hmax : 0 < config.maxOutstanding := config.writer.maxBatchRecords_pos
  cases hphase : s.coordinator.phase with
  | draining | finalDraining | lastDraining => exact .inl (goesOn_drain (by rw [hphase]; rfl))
  | pollingWorkers next =>
      left
      cases hfailures : s.pool.failures with
      | nil => exact ⟨.pollClear, by simp, by simp [coordinate, hphase, hfailures]⟩
      | cons failure failures =>
          exact ⟨.pollFailure failure, by simp, by simp [coordinate, hphase, hfailures]⟩
  | pollingWriter next =>
      left
      cases hterminal : s.link.terminal with
      | nil => exact ⟨.pollWriterClear, by simp, by simp [coordinate, hphase, hterminal]⟩
      | cons context terminal =>
          exact ⟨.pollWriterFailure context, by simp, by simp [coordinate, hphase, hterminal]⟩
  | dispatching => exact .inl (goesOn_dispatching hphase)
  | submitted work =>
      left
      refine ⟨.countWork work, by simp, ?_⟩
      cases hraise : s.coordinator.active.raise work.mountId <;> simp [coordinate, hphase, hraise]
  | deciding =>
      left
      refine ⟨.decide, by simp, ?_⟩
      simp only [coordinate, hphase, if_true]
      split_ifs <;> rfl
  | scanning => exact .inl ⟨.endOfScan, by simp, by simp [coordinate, hphase]⟩
  | skipping candidate size =>
      exact .inl (h.goesOn_submitting hlt (herror (by rw [hphase]; rfl)) (by rw [hphase]; rfl)
        (.inl ⟨candidate, size, hphase⟩))
  | receiving => exact h.goesOn_receiving (herror (by rw [hphase]; rfl)) hphase
  | received finished => exact .inl ⟨.uncount finished, by simp, by simp [coordinate, hphase]⟩
  | completing finished => exact .inl ⟨.complete finished, by simp, by simp [coordinate, hphase]⟩
  | submitting finished =>
      exact .inl (h.goesOn_submitting hlt (herror (by rw [hphase]; rfl)) (by rw [hphase]; rfl)
        (.inr ⟨finished, hphase⟩))
  | reporting after => exact .inl ⟨.report after, by simp, by simp [coordinate, hphase]⟩
  | resolving after =>
      by_cases hfew : s.coordinator.tickets.length < config.maxOutstanding
      · exact .inl ⟨.settled after, by simp, by simp [coordinate, hphase, hfew]⟩
      · have hmany := Nat.le_of_not_lt hfew
        cases htickets : s.coordinator.tickets with
        | nil =>
            rw [htickets, List.length_nil] at hmany
            omega
        | cons ticket tickets =>
            exact h.goesOn_of_ticket hlt (herror (by rw [hphase]; rfl))
              (.inl ⟨by rw [hphase]; rfl, hmany⟩) (show _ = some ticket by rw [htickets]; rfl)
  | ticketing => exact .inl ⟨.nextTicket, by simp, by simp [coordinate, hphase]⟩
  | finalResolving =>
      cases htickets : s.coordinator.tickets with
      | nil => exact absurd htickets (h.awaits.tickets (by rw [hphase]; rfl))
      | cons ticket tickets =>
          exact h.goesOn_of_ticket hlt (herror (by rw [hphase]; rfl)) (.inr hphase)
            (by rw [htickets]; rfl)
  | failing => exact .inl ⟨.cancel, by simp, by simp [coordinate, hphase]⟩
  | closing => exact .inl ⟨.close, by simp, by simp [coordinate, hphase]⟩
  | joining => exact h.goesOn_joining hphase
  | finishing => exact .inl ⟨.finish, by simp, by simp [coordinate, hphase]⟩
  | joiningWriter =>
      by_cases hgone : s.writer.Gone
      · exact .inl ⟨.joinedWriter, by simp, by simp [coordinate, hphase, hgone]⟩
      · right
        have hreleased : s.link.requestsOpen = false := by
          rw [h.alert.requestsOpen, hphase]
          rfl
        exact .of_writer (ImportWriter.exists_step hgone (h.hasRoom hlt) (.inr hreleased))
  | done => exact absurd hphase hdone

theorem step (h : s.Reached config) (hstep : s.step config move = some t) : t.Reached config := by
  obtain ⟨moves, hrun⟩ := h
  exact ⟨moves ++ [move], Transition.run_concat_eq_some.2 ⟨s, hrun, hstep⟩⟩

end System.Reached

end Wait

/-- **No wait is in vain**: wherever the coordinator is in an import before its end, waiting for
the workers, for an answer of the writer, for room to submit or for the threads to leave, it goes
on: as long as it cannot, a worker or the writer can move, and however they move, they cannot go
on for ever without making it possible. The bound on the batches holds for the default. -/
theorem no_wait_in_vain (config : ExecutorConfig) (s : System) (h : s.Reached config)
    (hlt : config.writer.maxBatchRecords < 50) (hdone : s.coordinator.phase ≠ .done) :
    Inevitable (System.step config) (fun s move => move.OfOthers s) (System.GoesOn config) s := by
  refine Transition.inevitable_of_rank (I := fun s => s.Reached config ∧
    s.coordinator.phase ≠ .done) System.rank ?_ ?_ ⟨h, hdone⟩
  · intro s move t hs hothers hstep
    obtain ⟨hcoordinator, hrank⟩ := hothers.step hstep
    refine ⟨⟨hs.1.step hstep, ?_⟩, hrank⟩
    rw [hcoordinator]
    exact hs.2
  · intro s hs hstuck
    rcases hs.1.goesOn_or hlt hs.2 with hgoes | ⟨move, hothers, hmove⟩
    · exact absurd hgoes hstuck
    · obtain ⟨t, ht⟩ := Option.isSome_iff_exists.1 hmove
      exact ⟨move, t, hothers, ht⟩

/-- The coordinator waits for a worker to read the only file. -/
def waitingMoves : List Move :=
  turnMoves [] ++ discoverMoves 0 ++ turnMoves [pipelineWork 0] ++
    [.coordinator .pollClear, .coordinator .pollWriterClear, .coordinator .endOfScan] ++
    turnMoves []

theorem no_wait_in_vain_one : ∃ s, run (System.step pipelineConfig) .start waitingMoves = some s ∧
    s.coordinator.phase = .receiving ∧ Inevitable (System.step pipelineConfig)
      (fun s move => move.OfOthers s) (System.GoesOn pipelineConfig) s := by
  have hrun : (run (System.step pipelineConfig) .start waitingMoves).map (·.coordinator.phase) =
      some .receiving := by decide +kernel
  obtain ⟨s, hs, hphase⟩ := Option.map_eq_some_iff.1 hrun
  exact ⟨s, hs, hphase, no_wait_in_vain pipelineConfig s ⟨waitingMoves, hs⟩ (by decide)
    (by rw [hphase]; decide)⟩

end MediaImporter
