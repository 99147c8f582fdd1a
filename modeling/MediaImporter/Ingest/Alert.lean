import MediaImporter.Ingest.Executor
import MediaImporter.Lib.Weights

/-!
# Who cancels is heard

Whoever cancels an import first also tells why: a worker sends its failure to the coordinator, and
the coordinator has an error of its own. So as long as the coordinator has no error and has not
closed the queue, a cancelled import has one failure that is about to be sent or is in the
channel, and one that is not cancelled has all of its workers, none of which gives up a file.

## Main definitions

* `SourceWorker.Calm` — a worker of an import that is not cancelled.
* `System.Alert` — what every move keeps.
-/

namespace MediaImporter

open Transition (run)

/-- The worker is about to send a failure. -/
def SourceWorker.alarm (w : SourceWorker) : ℕ := if w.signal = none then 0 else 1

/-- The worker gives up no file, and has not left. -/
def SourceWorker.Calm (w : SourceWorker) : Prop :=
  w.status ≠ .exited ∧ (∀ work, w.phase ≠ .rejecting work) ∧
    ∀ work n context, w.phase ≠ .reported work n context

/-- A worker sends its failure before it breaks down, or when it has. -/
def SourceWorker.Orderly (w : SourceWorker) : Prop :=
  ∀ context, w.status = .broken context → w.signal = none

def CoordinatorPhase.closed : CoordinatorPhase → Bool
  | .joining | .finishing | .joiningWriter | .done => true
  | _ => false

/-- The writer is told that no requests come. -/
def CoordinatorPhase.released : CoordinatorPhase → Bool
  | .joiningWriter | .done => true
  | _ => false

/-! ## Moves of the workers -/

section Worker

variable {w w' : SourceWorker} {p p' : Pool} {events : List IngestEvent} {move : WorkerMove}

/-- What a move of a worker does to the flag and to the failures. -/
structure WorkerAlert (w w' : SourceWorker) (p p' : Pool) : Prop where
  jobsOpen : p'.jobsOpen = p.jobsOpen
  orderly : w'.Orderly
  stays : p.cancelled = true → p'.cancelled = true ∧
    w'.alarm + p'.failures.length = w.alarm + p.failures.length
  calm : p.cancelled = false → p.jobsOpen = true → w.signal = none → w.Calm →
    p'.cancelled = false → w'.signal = none ∧ w'.Calm ∧ p'.failures = p.failures
  rings : p.cancelled = false → w.signal = none → p'.cancelled = true →
    w'.alarm = 1 ∧ p'.failures = p.failures

/-- A move that raises no alarm. -/
theorem WorkerAlert.of_same (hjobsOpen : p'.jobsOpen = p.jobsOpen)
    (hcancelled : p'.cancelled = p.cancelled) (hfailures : p'.failures = p.failures)
    (hsignal : w'.signal = w.signal) (horderly : w'.Orderly)
    (hcalm : p.cancelled = false → p.jobsOpen = true → w.Calm → w'.Calm) :
    WorkerAlert w w' p p' where
  jobsOpen := hjobsOpen
  orderly := horderly
  stays h := by
    rw [hcancelled, hfailures, SourceWorker.alarm, SourceWorker.alarm, hsignal]
    exact ⟨h, rfl⟩
  calm h hopen hw hwcalm _ := ⟨hsignal.trans hw, hcalm h hopen hwcalm, hfailures⟩
  rings h _ h' := by
    rw [hcancelled, h] at h'
    cases h'

/-- A move that cancels the import. -/
theorem WorkerAlert.of_signalling {v : SourceWorker} {failure : SourceWorkerFailure}
    (hsignal : w.signal = none) (hstatus : ∀ context, v.status ≠ .broken context) :
    WorkerAlert w (v.signalling p failure) p p.cancel where
  jobsOpen := rfl
  orderly context h := absurd h (hstatus context)
  stays h := by
    simp [SourceWorker.alarm, SourceWorker.signalling, Pool.cancel, h, hsignal]
  calm _ _ _ _ h := by cases h
  rings h _ _ := by
    simp [SourceWorker.alarm, SourceWorker.signalling, Pool.cancel, h]

theorem SourceWorker.step_alert (h : w.step p move = some (w', p', events))
    (horderly : w.Orderly) : WorkerAlert w w' p p' := by
  cases move <;> simp only [step] at h
  case refuse work =>
    simp only [Option.ite_none_right_eq_some, Option.some.injEq, Prod.mk.injEq] at h
    obtain ⟨hat, rfl, rfl, rfl⟩ := h
    exact .of_signalling hat.2.2 (by simp [go, hat.2.1])
  case signal work n context =>
    simp only [Option.ite_none_right_eq_some, Option.some.injEq, Prod.mk.injEq] at h
    obtain ⟨hat, rfl, rfl, rfl⟩ := h
    exact .of_signalling hat.2.2 (by simp [go, hat.2.1])
  case breakDown context =>
    simp only [Option.ite_none_right_eq_some, Option.some.injEq, Prod.mk.injEq] at h
    obtain ⟨hstatus, rfl, rfl, rfl⟩ := h
    exact .of_signalling (horderly context hstatus) (by simp)
  case publish failure =>
    simp only [Option.ite_none_right_eq_some, Option.some.injEq, Prod.mk.injEq] at h
    obtain ⟨⟨hsignal, -⟩, rfl, rfl, rfl⟩ := h
    refine ⟨rfl, fun _ _ => rfl, fun hcancelled => ⟨hcancelled, ?_⟩, fun _ _ hnone => ?_,
      fun _ hnone => ?_⟩
    · simp [alarm, hsignal]
      omega
    · rw [hsignal] at hnone
      cases hnone
    · rw [hsignal] at hnone
      cases hnone
  case panic context =>
    simp only [Option.ite_none_right_eq_some, Option.some.injEq, Prod.mk.injEq] at h
    obtain ⟨⟨-, hsignal⟩, rfl, rfl, rfl⟩ := h
    exact .of_same rfl rfl rfl rfl (fun _ _ => hsignal)
      fun _ _ hcalm => ⟨by simp, hcalm.2.1, hcalm.2.2⟩
  case close =>
    simp only [Option.ite_none_right_eq_some, Option.some.injEq, Prod.mk.injEq] at h
    obtain ⟨⟨hat, -, hclosed⟩, rfl, rfl, rfl⟩ := h
    refine .of_same rfl rfl rfl rfl (fun _ _ => hat.2.2) fun _ hopen => ?_
    rw [hclosed] at hopen
    cases hopen
  case «return» work n context =>
    split at h
    · simp only [Option.ite_none_right_eq_some, Option.some.injEq, Prod.mk.injEq] at h
      obtain ⟨hat, rfl, rfl, rfl⟩ := h
      refine .of_same rfl rfl rfl hat.2.2.symm (fun _ _ => rfl) fun _ _ hcalm => ?_
      exact absurd hat.1 (hcalm.2.2 work n context)
    · cases h
  case reject work =>
    simp only [Option.ite_none_right_eq_some, Option.some.injEq, Prod.mk.injEq] at h
    obtain ⟨hat, rfl, rfl, rfl⟩ := h
    refine .of_same rfl rfl rfl rfl (fun _ _ => hat.2.2) fun _ _ hcalm => ?_
    exact absurd hat.1 (hcalm.2.1 work)
  all_goals
    (repeat' (split at h)) <;>
      simp only [Option.some.injEq, Prod.mk.injEq, reduceCtorEq] at h <;>
      obtain ⟨rfl, rfl, rfl⟩ := h <;>
      refine .of_same rfl rfl rfl rfl ?_ ?_ <;>
      simp_all [At, go, Orderly, Calm]

end Worker

/-- The writer does not close the queue of requests. -/
theorem ImportWriter.step_requestsOpen {config : CatalogWriterConfig} {w w' : ImportWriter}
    {l l' : CatalogLink} {move : ImportWriterMove} (h : w.step config l move = some (w', l')) :
    l'.requestsOpen = l.requestsOpen := by
  cases move <;> simp only [step] at h <;> (repeat' (split at h)) <;>
    simp only [Option.some.injEq, Prod.mk.injEq, reduceCtorEq] at h <;>
    obtain ⟨rfl, rfl⟩ := h <;> rfl

/-! ## Moves of the system -/

/-- The failures that are about to be sent or are in the channel. -/
def System.alarms (s : System) : ℕ := weigh SourceWorker.alarm s.workers + s.pool.failures.length

/-- What every move keeps. -/
structure System.Alert (s : System) : Prop where
  orderly : ∀ w ∈ s.workers, w.Orderly
  one : s.alarms ≤ 1
  calm : s.pool.cancelled = false → s.alarms = 0 ∧ ∀ w ∈ s.workers, w.Calm
  rings : s.pool.cancelled = true → s.coordinator.error = none →
    s.coordinator.phase.closed = false → s.alarms = 1
  failing : s.coordinator.phase = .failing → s.coordinator.error ≠ none
  jobsOpen : s.pool.jobsOpen = !s.coordinator.phase.closed
  closed : s.coordinator.phase.closed = true → s.pool.cancelled = true
  requestsOpen : s.link.requestsOpen = !s.coordinator.phase.released

/-- What is cancelled stays so. -/
theorem System.cancelled_of_coordinate {config : ExecutorConfig} {s t : System}
    {move : CoordinatorMove} (h : s.coordinate config move = some t)
    (hcancelled : t.pool.cancelled = false) : s.pool.cancelled = false := by
  cases move <;> simp only [System.coordinate] at h
  case discover candidate disposition =>
    simp only [Option.ite_none_right_eq_some, Option.some.injEq] at h
    obtain ⟨-, rfl⟩ := h
    revert hcancelled
    unfold discovered
    dsimp only
    split
    · exact id
    · exact id
    · split <;> exact id
  case submitSkip candidate size =>
    simp only [Option.ite_none_right_eq_some, Option.some.injEq] at h
    obtain ⟨-, rfl⟩ := h
    revert hcancelled
    unfold submittedSkip
    dsimp only
    split <;> exact id
  case complete finished =>
    simp only [Option.ite_none_right_eq_some, Option.some.injEq] at h
    obtain ⟨-, rfl⟩ := h
    revert hcancelled
    unfold completed
    dsimp only
    split <;> exact id
  all_goals
    (repeat' (split at h)) <;> simp only [Option.some.injEq, reduceCtorEq] at h <;> subst h <;>
      first | exact hcancelled | cases hcancelled

namespace System.Alert

variable {config : ExecutorConfig} {s t : System}

theorem start : System.start.Alert where
  orderly w hw context hcontext := by
    rw [List.eq_of_mem_replicate hw] at hcontext
    cases hcontext
  one := Nat.zero_le 1
  calm _ := by
    refine ⟨rfl, fun w hw => ?_⟩
    rw [List.eq_of_mem_replicate hw]
    refine ⟨?_, ?_, ?_⟩ <;> simp [SourceWorker.start]
  rings h := by cases h
  failing h := by cases h
  jobsOpen := rfl
  closed h := by cases h
  requestsOpen := rfl

/-- A move of the coordinator that leaves the flag and the failures. -/
theorem of_phases (h : s.Alert) (hworkers : t.workers = s.workers)
    (hcancelled : t.pool.cancelled = s.pool.cancelled)
    (hfailures : t.pool.failures = s.pool.failures)
    (hjobsOpen : t.pool.jobsOpen = s.pool.jobsOpen)
    (hrequestsOpen : t.link.requestsOpen = s.link.requestsOpen)
    (hclosed : t.coordinator.phase.closed = s.coordinator.phase.closed)
    (hreleased : t.coordinator.phase.released = s.coordinator.phase.released)
    (hfailing : t.coordinator.phase = .failing → t.coordinator.error ≠ none)
    (herror : t.coordinator.error = none → s.coordinator.error = none) : t.Alert where
  orderly := by
    rw [hworkers]
    exact h.orderly
  one := by
    rw [alarms, hworkers, hfailures]
    exact h.one
  calm := by
    rw [alarms, hworkers, hfailures, hcancelled]
    exact h.calm
  rings hc he hp := by
    rw [alarms, hworkers, hfailures]
    exact h.rings (hcancelled ▸ hc) (herror he) (hclosed ▸ hp)
  failing := hfailing
  jobsOpen := by
    rw [hjobsOpen, hclosed]
    exact h.jobsOpen
  closed hp := by
    rw [hcancelled]
    exact h.closed (hclosed ▸ hp)
  requestsOpen := by
    rw [hrequestsOpen, hreleased]
    exact h.requestsOpen

/-- A move of the coordinator after which it has an error. -/
theorem of_failed (h : s.Alert) (hworkers : t.workers = s.workers)
    (hcancelled : s.pool.cancelled = true → t.pool.cancelled = true)
    (hfailures : t.pool.failures.length ≤ s.pool.failures.length)
    (hjobsOpen : t.pool.jobsOpen = s.pool.jobsOpen)
    (hrequestsOpen : t.link.requestsOpen = s.link.requestsOpen)
    (hs : s.coordinator.phase.closed = false) (ht : t.coordinator.phase.closed = false)
    (hreleased : t.coordinator.phase.released = s.coordinator.phase.released)
    (herror : t.coordinator.error ≠ none) : t.Alert where
  orderly := by
    rw [hworkers]
    exact h.orderly
  one := by
    have hone := h.one
    rw [alarms] at hone ⊢
    rw [hworkers]
    omega
  calm hc := by
    have hcalm : s.pool.cancelled = false := by
      by_contra hne
      rw [hcancelled (Bool.not_eq_false _ ▸ hne)] at hc
      cases hc
    obtain ⟨hnone, hall⟩ := h.calm hcalm
    rw [alarms] at hnone ⊢
    rw [hworkers]
    exact ⟨by omega, hall⟩
  rings _ he := absurd he herror
  failing _ := herror
  jobsOpen := by
    rw [hjobsOpen, ht, ← hs]
    exact h.jobsOpen
  closed hp := by
    rw [ht] at hp
    cases hp
  requestsOpen := by
    rw [hrequestsOpen, hreleased]
    exact h.requestsOpen

theorem discovered (h : s.Alert) (hphase : s.coordinator.phase = .scanning)
    (candidate : SourceFileCandidate) (disposition : Except String ImportDisposition) :
    (s.discovered config candidate disposition).Alert := by
  have hclosed : s.coordinator.phase.closed = false := by rw [hphase]; rfl
  have hreleased : s.coordinator.phase.released = false := by rw [hphase]; rfl
  unfold System.discovered
  dsimp only
  split
  · exact h.of_failed rfl id le_rfl rfl rfl hclosed rfl hreleased.symm
      (by simp [go, Coordinator.fail])
  · exact h.of_phases rfl rfl rfl rfl rfl hclosed.symm hreleased.symm (fun ht => by cases ht) id
  · split
    · exact h.of_phases rfl rfl rfl rfl rfl hclosed.symm hreleased.symm (fun ht => by cases ht) id
    · exact h.of_failed rfl id le_rfl rfl rfl hclosed rfl hreleased.symm
        (by simp [go, Coordinator.fail])

theorem coordinate (h : s.Alert) {move : CoordinatorMove}
    (hstep : s.coordinate config move = some t) : t.Alert := by
  cases move <;> simp only [System.coordinate] at hstep
  case discover candidate disposition =>
    simp only [Option.ite_none_right_eq_some, Option.some.injEq] at hstep
    obtain ⟨hphase, rfl⟩ := hstep
    exact h.discovered hphase _ _
  case submitSkip candidate size =>
    simp only [Option.ite_none_right_eq_some, Option.some.injEq] at hstep
    obtain ⟨⟨hphase, -⟩, rfl⟩ := hstep
    have hclosed : s.coordinator.phase.closed = false := by rw [hphase]; rfl
    have hreleased : s.coordinator.phase.released = false := by rw [hphase]; rfl
    unfold submittedSkip
    dsimp only
    split
    · exact h.of_phases rfl rfl rfl rfl rfl hclosed.symm hreleased.symm (fun ht => by cases ht) id
    · exact h.of_failed rfl id le_rfl rfl rfl hclosed rfl hreleased.symm
        (by simp [go, Coordinator.fail])
  case complete finished =>
    simp only [Option.ite_none_right_eq_some, Option.some.injEq] at hstep
    obtain ⟨hphase, rfl⟩ := hstep
    have hclosed : s.coordinator.phase.closed = false := by rw [hphase]; rfl
    have hreleased : s.coordinator.phase.released = false := by rw [hphase]; rfl
    unfold completed
    dsimp only
    split
    · exact h.of_failed rfl id le_rfl rfl rfl hclosed rfl hreleased.symm
        (by simp [go, Coordinator.fail])
    · exact h.of_phases rfl rfl rfl rfl rfl hclosed.symm hreleased.symm (fun ht => by cases ht) id
  case drained =>
    split at hstep
    · next phase hphase =>
      simp only [Option.ite_none_right_eq_some, Option.some.injEq] at hstep
      obtain ⟨-, rfl⟩ := hstep
      refine h.of_phases rfl rfl rfl rfl rfl ?_ ?_ ?_ id <;> simp only [go, Coordinator.go] <;>
        revert hphase <;> cases s.coordinator.phase <;> intro hphase <;> cases hphase <;>
        first | rfl | (intro ht; cases ht)
    · cases hstep
  case pollWriterClear =>
    split at hstep
    · next next hphase =>
      simp only [Option.ite_none_right_eq_some, Option.some.injEq] at hstep
      obtain ⟨-, rfl⟩ := hstep
      refine h.of_phases rfl rfl rfl rfl rfl ?_ ?_ ?_ id <;> cases next <;>
        simp [go, Coordinator.go, hphase, CoordinatorPhase.ofPoll, CoordinatorPhase.closed,
          CoordinatorPhase.released]
    · cases hstep
  case cancel =>
    simp only [Option.ite_none_right_eq_some, Option.some.injEq] at hstep
    obtain ⟨hphase, rfl⟩ := hstep
    exact h.of_failed rfl (fun _ => rfl) le_rfl rfl rfl (by rw [hphase]; rfl) rfl
      (by rw [hphase]; rfl) (h.failing hphase)
  case close =>
    simp only [Option.ite_none_right_eq_some, Option.some.injEq] at hstep
    obtain ⟨hphase, rfl⟩ := hstep
    refine ⟨h.orderly, h.one, (fun hc => by cases hc), (fun _ _ hp => by cases hp),
      (fun ht => by cases ht), rfl, fun _ => rfl, ?_⟩
    have hopen := h.requestsOpen
    rw [hphase] at hopen
    exact hopen
  case finish =>
    simp only [Option.ite_none_right_eq_some, Option.some.injEq] at hstep
    obtain ⟨hphase, rfl⟩ := hstep
    have hclosed : s.coordinator.phase.closed = true := by rw [hphase]; rfl
    have hopen := h.jobsOpen
    rw [hclosed] at hopen
    exact ⟨h.orderly, h.one, h.calm, (fun _ _ hp => by cases hp), (fun ht => by cases ht), hopen,
      fun _ => h.closed hclosed, rfl⟩
  case resolve ticket outcome =>
    simp only [Option.ite_none_right_eq_some, Option.some.injEq] at hstep
    obtain ⟨⟨hresolves, -⟩, rfl⟩ := hstep
    simp only [go]
    split_ifs with hphase
    · exact h.of_phases rfl rfl rfl rfl rfl (by rw [hphase]; rfl) (by rw [hphase]; rfl)
        (fun ht => by cases ht) id
    · exact h.of_phases rfl rfl rfl rfl rfl rfl rfl h.failing id
  case resolveFailed ticket error =>
    simp only [Option.ite_none_right_eq_some, Option.some.injEq] at hstep
    obtain ⟨⟨hresolves, -⟩, rfl⟩ := hstep
    have hphase : s.coordinator.phase.closed = false ∧ s.coordinator.phase.released = false := by
      rcases hresolves with ⟨hresolving, -⟩ | hfinal
      · revert hresolving
        cases s.coordinator.phase <;> intro hresolving <;> first
          | exact ⟨rfl, rfl⟩
          | cases hresolving
      · rw [hfinal]
        exact ⟨rfl, rfl⟩
    exact h.of_failed rfl id le_rfl rfl rfl hphase.1 rfl hphase.2.symm
      (by simp [go, Coordinator.fail])
  case panic error =>
    simp only [Option.ite_none_right_eq_some, Option.some.injEq] at hstep
    obtain ⟨hfail, rfl⟩ := hstep
    have hphase : s.coordinator.phase.closed = false ∧ s.coordinator.phase.released = false := by
      revert hfail
      cases s.coordinator.phase <;> intro hfail <;> first | exact ⟨rfl, rfl⟩ | cases hfail
    exact h.of_failed rfl id le_rfl rfl rfl hphase.1 rfl hphase.2.symm
      (by simp [go, Coordinator.fail])
  case drain event =>
    simp only [Option.ite_none_right_eq_some, Option.some.injEq] at hstep
    obtain ⟨-, rfl⟩ := hstep
    exact h.of_phases rfl rfl rfl rfl rfl rfl rfl h.failing id
  all_goals
    (repeat' (split at hstep)) <;> simp only [Option.some.injEq, reduceCtorEq] at hstep <;>
      subst hstep <;>
      first
        | exact h.of_phases rfl rfl rfl rfl rfl (by simp_all [go, Coordinator.go,
            submittedHashed, CoordinatorPhase.closed]) (by simp_all [go, Coordinator.go,
            submittedHashed, CoordinatorPhase.released]) (by simp [go, Coordinator.go,
            submittedHashed]) id
        | exact h.of_failed rfl (by simp [go, cancelAndFail, Pool.cancel])
            (by simp [go, cancelAndFail, Pool.cancel]) rfl rfl
            (by simp_all [CoordinatorPhase.closed]) rfl
            (by simp_all [go, cancelAndFail, Coordinator.fail, CoordinatorPhase.released])
            (by simp [go, cancelAndFail, Coordinator.fail])

theorem work (h : s.Alert) {w w' : SourceWorker} {i : ℕ} {pool : Pool}
    {events : List IngestEvent} {move : WorkerMove} (hw : s.workers[i]? = some w)
    (hmove : w.step s.pool move = some (w', pool, events)) :
    System.Alert { s with
      workers := s.workers.set i w', pool, observed := s.observed ++ events } := by
  have hmem := List.mem_of_getElem? hw
  have halert := SourceWorker.step_alert hmove (h.orderly w hmem)
  have hset := weigh_set (f := SourceWorker.alarm) (b := w') hw
  have hnew : ∀ P : SourceWorker → Prop, (∀ v ∈ s.workers, P v) → P w' →
      ∀ v ∈ s.workers.set i w', P v := by
    intro P hall hw' v hv
    rcases List.mem_or_eq_of_mem_set hv with hv | rfl
    · exact hall v hv
    · exact hw'
  have hclosed : pool.jobsOpen = !s.coordinator.phase.closed :=
    halert.jobsOpen.trans h.jobsOpen
  cases hcancelled : s.pool.cancelled with
  | true =>
      obtain ⟨hstays, halarm⟩ := halert.stays hcancelled
      have hsame : weigh SourceWorker.alarm (s.workers.set i w') + pool.failures.length =
          s.alarms := by
        rw [alarms]
        omega
      refine ⟨hnew _ h.orderly halert.orderly, hsame.trans_le h.one, fun hc => ?_,
        fun _ he hp => hsame.trans (h.rings hcancelled he hp), h.failing, hclosed,
        fun _ => hstays, h.requestsOpen⟩
      rw [hstays] at hc
      cases hc
  | false =>
      obtain ⟨hnone, hall⟩ := h.calm hcancelled
      have hle := le_weigh (f := SourceWorker.alarm) hmem
      rw [alarms] at hnone
      have hsignal : w.signal = none := by
        by_contra hne
        have halarm : w.alarm = 1 := if_neg hne
        omega
      have hzero : w.alarm = 0 := if_pos hsignal
      have hopen : s.coordinator.phase.closed = false := by
        by_contra hne
        rw [h.closed (Bool.not_eq_false _ ▸ hne)] at hcancelled
        cases hcancelled
      cases hpool : pool.cancelled with
      | false =>
          obtain ⟨hsignal', hcalm, hfailures⟩ := halert.calm hcancelled
            (by rw [h.jobsOpen, hopen]; rfl) hsignal (hall w hmem) hpool
          have hzero' : w'.alarm = 0 := if_pos hsignal'
          have hsame : weigh SourceWorker.alarm (s.workers.set i w') + pool.failures.length =
              0 := by
            rw [hfailures]
            omega
          refine ⟨hnew _ h.orderly halert.orderly, hsame.trans_le (Nat.zero_le 1),
            fun _ => ⟨hsame, hnew _ hall hcalm⟩, fun hc => ?_, h.failing, hclosed, fun hp => ?_,
            h.requestsOpen⟩
          · rw [hpool] at hc
            cases hc
          · rw [hopen] at hp
            cases hp
      | true =>
          obtain ⟨hone, hfailures⟩ := halert.rings hcancelled hsignal hpool
          have hsame : weigh SourceWorker.alarm (s.workers.set i w') + pool.failures.length =
              1 := by
            rw [hfailures]
            omega
          refine ⟨hnew _ h.orderly halert.orderly, hsame.le, fun hc => ?_, fun _ _ _ => hsame,
            h.failing, hclosed, fun _ => hpool, h.requestsOpen⟩
          rw [hpool] at hc
          cases hc

theorem step (h : s.Alert) {move : Move} (hstep : s.step config move = some t) : t.Alert := by
  cases move with
  | worker i move =>
      simp only [System.step] at hstep
      cases hw : s.workers[i]? with
      | none => simp [hw] at hstep
      | some w =>
          simp only [hw, Option.map_eq_some_iff] at hstep
          obtain ⟨⟨w', pool, events⟩, hmove, rfl⟩ := hstep
          exact h.work hw hmove
  | coordinator move => exact h.coordinate hstep
  | writer move =>
      simp only [System.step, Option.map_eq_some_iff] at hstep
      obtain ⟨⟨writer, link⟩, hmove, rfl⟩ := hstep
      exact ⟨h.orderly, h.one, h.calm, h.rings, h.failing, h.jobsOpen, h.closed,
        (ImportWriter.step_requestsOpen hmove).trans h.requestsOpen⟩

end System.Alert

theorem System.Reached.alert {config : ExecutorConfig} {s : System} (h : s.Reached config) :
    s.Alert := by
  obtain ⟨moves, hrun⟩ := h
  exact Transition.run_invariant .start (fun _ _ _ hu hstep => hu.step hstep) hrun

end MediaImporter
