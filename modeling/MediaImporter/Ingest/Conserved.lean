import MediaImporter.Ingest.Ledger
import MediaImporter.Ingest.Snapshot

/-!
# Work is conserved

The coordinator goes on to the tickets that are left only when it counts no file as active, so
that no worker has one then, and it comes to its end only when no ticket is left. The books are
even then: every file has had one answer, and the report and the events that were told agree
with each other.

A file that a worker drops is never missed, since it stays counted as active, and an import in
which one is dropped does not come to its end.

## Main definitions

* `System.Keeps` — the books are balanced, and how far the import has come.
* `import_conserves_work` — an import that ends without an error.
* `import_telemetry_totals` — what has been sent to the telemetry by then.
-/

namespace MediaImporter

open Transition (run Meeting)
open LedgerEntry

attribute [local simp] List.filterMap_cons IngestEvent.entry

/-! ## Runs -/

namespace CoordinatorPhase

/-- No file is left but those whose tickets are left. -/
def ticketed : CoordinatorPhase → Bool
  | .ticketing | .finalDraining | .finalResolving | .lastDraining | .closing | .joining
  | .finishing | .joiningWriter | .done => true
  | _ => false

/-- No ticket is left. -/
def atEnd : CoordinatorPhase → Bool
  | .lastDraining | .closing | .joining | .finishing | .joiningWriter | .done => true
  | _ => false

variable {p q : CoordinatorPhase}

theorem ticketed_of_atEnd (h : p.atEnd = true) : p.ticketed = true := by
  cases p <;> first | rfl | cases h

theorem free_of_ticketed (h : p.ticketed = true) : p.Free := by
  cases p <;> first | exact ⟨rfl, rfl, rfl, rfl, rfl⟩ | cases h

theorem ticketed_ofPoll (next : AfterPoll) : (ofPoll next).ticketed = false := by
  cases next <;> rfl

theorem atEnd_of_ticketed_eq_false (h : p.ticketed = false) : p.atEnd = false := by
  cases p <;> first | rfl | cases h

end CoordinatorPhase

/-- The books of a state are balanced. As long as it is not cancelled, no file is dropped. -/
structure System.Balanced (s : System) (dropped : List WorkerPhase)
    (finished : List CompletedWork) (answered : List (ImportRequest × Answer)) : Prop where
  files : s.books.Files (s.workers.map (·.phase) ++ dropped) finished
  counts : s.books.Counts finished
  reads : s.books.Reads (s.workers.map (·.phase) ++ dropped) finished
  answers : s.books.Answers s.writer finished answered
  kept : s.pool.cancelled = false → dropped = []

/-- The bytes of a state are balanced. -/
def System.BalancedBytes (s : System) (dropped : List WorkerPhase)
    (finished : List CompletedWork) : Prop :=
  s.books.Bytes (s.workers.map (·.phase) ++ dropped) finished

/-- How far an import that has not failed has come. -/
structure System.Advanced (s : System) : Prop where
  failing : s.coordinator.phase ≠ .failing
  files : s.coordinator.phase.ticketed = true →
    s.coordinator.pending = [] ∧ s.coordinator.active.keys = []
  tickets : s.coordinator.phase.atEnd = true → s.coordinator.tickets = []

section Runs

variable {config : ExecutorConfig} {s t : System} {moves : List Move}

theorem System.Advanced.of_unticketed (hfailing : s.coordinator.phase ≠ .failing)
    (h : s.coordinator.phase.ticketed = false) : s.Advanced where
  failing := hfailing
  files ht := by
    rw [h] at ht
    cases ht
  tickets ht := by
    rw [CoordinatorPhase.atEnd_of_ticketed_eq_false h] at ht
    cases ht

theorem System.Advanced.of_same (h : s.Advanced) (hfailing : t.coordinator.phase ≠ .failing)
    (hticketed : t.coordinator.phase.ticketed = true → s.coordinator.phase.ticketed = true)
    (hatEnd : t.coordinator.phase.atEnd = true → s.coordinator.phase.atEnd = true)
    (hpending : t.coordinator.pending = s.coordinator.pending)
    (hactive : t.coordinator.active = s.coordinator.active)
    (htickets : t.coordinator.tickets = s.coordinator.tickets) : t.Advanced where
  failing := hfailing
  files ht := by
    rw [hpending, hactive]
    exact h.files (hticketed ht)
  tickets ht := by
    rw [htickets]
    exact h.tickets (hatEnd ht)

theorem System.Advanced.coordinate (h : s.Advanced) {move : CoordinatorMove}
    (hstep : s.coordinate config move = some t) (herror : t.coordinator.error = none) :
    t.Advanced := by
  cases move <;> simp only [System.coordinate] at hstep
  case discover candidate disposition =>
    simp only [Option.ite_none_right_eq_some, Option.some.injEq] at hstep
    obtain ⟨-, rfl⟩ := hstep
    revert herror
    unfold discovered
    dsimp only
    split
    · intro herror
      cases herror
    · exact fun _ => .of_unticketed (by simp [go, Coordinator.go]) rfl
    · split
      · exact fun _ => .of_unticketed (by simp [go]) rfl
      · intro herror
        cases herror
  case submitSkip candidate size =>
    simp only [Option.ite_none_right_eq_some, Option.some.injEq] at hstep
    obtain ⟨-, rfl⟩ := hstep
    revert herror
    unfold submittedSkip
    dsimp only
    split
    · exact fun _ => .of_unticketed (by simp [go]) rfl
    · intro herror
      cases herror
  case complete finished =>
    simp only [Option.ite_none_right_eq_some, Option.some.injEq] at hstep
    obtain ⟨-, rfl⟩ := hstep
    revert herror
    unfold completed
    dsimp only
    split
    · intro herror
      cases herror
    · exact fun _ => .of_unticketed (by simp [go]) rfl
  case drain event =>
    simp only [Option.ite_none_right_eq_some, Option.some.injEq] at hstep
    obtain ⟨-, rfl⟩ := hstep
    exact h.of_same h.failing id id rfl rfl rfl
  case drained =>
    split at hstep
    · next phase hphase =>
      simp only [Option.ite_none_right_eq_some, Option.some.injEq] at hstep
      obtain ⟨-, rfl⟩ := hstep
      revert hphase
      cases hs : s.coordinator.phase <;> intro hphase <;> cases hphase
      · exact .of_unticketed (by simp [go, Coordinator.go]) rfl
      · exact h.of_same (by simp [go, Coordinator.go]) (by simp [hs, CoordinatorPhase.ticketed])
          (by simp [go, Coordinator.go, CoordinatorPhase.atEnd]) rfl rfl rfl
      · exact h.of_same (by simp [go, Coordinator.go]) (by simp [hs, CoordinatorPhase.ticketed])
          (by simp [hs, CoordinatorPhase.atEnd]) rfl rfl rfl
    · cases hstep
  case pollWriterClear =>
    split at hstep
    · next next hphase =>
      simp only [Option.ite_none_right_eq_some, Option.some.injEq] at hstep
      obtain ⟨-, rfl⟩ := hstep
      refine .of_unticketed ?_ (CoordinatorPhase.ticketed_ofPoll next)
      cases next <;> simp [go, Coordinator.go, CoordinatorPhase.ofPoll]
    · cases hstep
  case decide =>
    split at hstep
    · split at hstep
      · obtain rfl := Option.some.inj hstep
        exact .of_unticketed (by simp [go, Coordinator.go]) rfl
      · split at hstep
        · next hnone =>
          obtain rfl := Option.some.inj hstep
          exact ⟨by simp [go, Coordinator.go], fun _ => ⟨hnone.2.1, hnone.1⟩,
            fun ht => by cases ht⟩
        · obtain rfl := Option.some.inj hstep
          exact .of_unticketed (by simp [go, Coordinator.go]) rfl
    · cases hstep
  case nextTicket =>
    simp only [Option.ite_none_right_eq_some, Option.some.injEq] at hstep
    obtain ⟨hphase, rfl⟩ := hstep
    have hfiles := h.files (by rw [hphase]; rfl)
    by_cases hnone : s.coordinator.tickets = []
    · simp only [go, Coordinator.go, if_pos hnone]
      exact ⟨by simp, fun _ => hfiles, fun _ => hnone⟩
    · simp only [go, Coordinator.go, if_neg hnone]
      exact ⟨by simp, fun _ => hfiles, fun ht => by cases ht⟩
  case resolve ticket outcome =>
    simp only [Option.ite_none_right_eq_some, Option.some.injEq] at hstep
    obtain ⟨⟨hresolves, -⟩, rfl⟩ := hstep
    rcases hresolves with ⟨hresolving, -⟩ | hfinal
    · have hphase : s.coordinator.phase ≠ .finalResolving := by
        intro hphase
        rw [hphase] at hresolving
        cases hresolving
      simp only [go, if_neg hphase]
      refine .of_unticketed h.failing ?_
      revert hresolving
      cases s.coordinator.phase <;> intro hresolving <;> first | rfl | cases hresolving
    · simp only [go, if_pos hfinal]
      exact ⟨by simp, fun _ => h.files (by rw [hfinal]; rfl), fun ht => by cases ht⟩
  all_goals
    (repeat' (split at hstep)) <;> simp only [Option.some.injEq, reduceCtorEq] at hstep <;>
      subst hstep <;>
      first
        | cases herror
        | exact .of_unticketed (by simp [go, Coordinator.go, submittedHashed]) rfl
        | exact absurd ‹_› h.failing
        | exact h.of_same (by simp [go, Coordinator.go])
            (by simp_all [CoordinatorPhase.ticketed])
            (by simp_all [CoordinatorPhase.atEnd]) rfl rfl rfl

/-- A file that is skipped was compared with the catalog and with the CAS. -/
def Classified (_ : System) (move : Move) : Prop :=
  ∀ candidate disposition, move = .coordinator (.discover candidate (.ok disposition)) →
    ∃ (r : StoreReader) (metadataSkip : Bool) (file : ScannedFile)
      (known : Option KnownSourceFile), file.toSourceFileCandidate = candidate ∧
        validatedDisposition r (classifyImport metadataSkip file known) = .ok disposition

theorem Classified.skipsWhole {move : CoordinatorMove} (h : Classified s (.coordinator move))
    (candidate : SourceFileCandidate) (disposition : Except String ImportDisposition)
    (hmove : move = .discover candidate disposition) : SkipsWhole candidate disposition := by
  intro hash size resurrect hdisposition
  obtain ⟨r, metadataSkip, file, known, rfl, hvalid⟩ :=
    h candidate (.skip hash size resurrect) (by rw [hmove, hdisposition])
  obtain ⟨-, -, -, -, -, hsize⟩ := known_of_skip hvalid
  exact hsize.symm

/-- While an import has not failed its books are balanced, and the bytes are if the files that
are skipped are whole. -/
structure System.Keeps (whole : Prop) (s : System) : Prop where
  balanced : ∃ dropped finished answered, s.Balanced dropped finished answered ∧
    (whole → s.BalancedBytes dropped finished)
  advanced : s.Advanced

theorem System.Keeps.start {whole : Prop} : System.start.Keeps whole where
  balanced := by
    have hnone {α : Type} {P : α → Prop} : ∀ a ∈ ([] : List α), P a :=
      fun _ hmem => absurd hmem List.not_mem_nil
    refine ⟨[], [], [], ⟨⟨fun g => rfl, fun m => rfl, rfl, rfl, hnone, ?_⟩,
      ⟨rfl, rfl, rfl, rfl, rfl, rfl, rfl, rfl⟩, ⟨rfl, rfl⟩,
      ⟨rfl, hnone, hnone, fun g => rfl, fun g => rfl, hnone, rfl, rfl⟩, fun _ => rfl⟩,
      fun _ => ⟨hnone, rfl⟩⟩
    intro phase hphase
    have hworkers : System.start.workers.map (·.phase) ++ [] =
        List.replicate maxLiveSourceWorkers .waiting := rfl
    rw [hworkers] at hphase
    rw [List.eq_of_mem_replicate hphase]
    trivial
  advanced := .of_unticketed (by intro hphase; cases hphase) rfl

theorem System.Keeps.step {whole : Prop} (h : s.Keeps whole) (halert : s.Alert) {move : Move}
    (hclassified : whole → Classified s move) (hstep : s.step config move = some t)
    (herror : t.coordinator.error = none) : t.Keeps whole := by
  obtain ⟨⟨dropped, finished, answered, ⟨hfiles, hcounts, hreads, hanswers, hkept⟩, hbytes⟩,
    hadvanced⟩ := h
  cases move with
  | worker i move =>
      simp only [System.step] at hstep
      cases hw : s.workers[i]? with
      | none => simp [hw] at hstep
      | some w =>
          simp only [hw, Option.map_eq_some_iff] at hstep
          obtain ⟨⟨w', pool, events⟩, hmove, rfl⟩ := hstep
          obtain ⟨more, hwork⟩ := SourceWorker.step_books hmove
          have hphases : PhaseStep w w' (s.workers.map (·.phase) ++ dropped)
              ((s.workers.set i w').map (·.phase) ++ (dropped ++ more)) more :=
            phaseStep_set hw hwork.last
          have hbooks : System.books { s with
              workers := s.workers.set i w', pool, observed := s.observed ++ events } =
              s.books.worked pool (entries events) := by
            simp [books, Books.worked]
          refine ⟨⟨dropped ++ more, finished, answered, ⟨?_, ?_, ?_, ?_, fun hc => ?_⟩,
            fun hwhole => ?_⟩, ⟨hadvanced.failing, hadvanced.files, hadvanced.tickets⟩⟩
          · rw [hbooks]
            exact hfiles.worked hwork hphases rfl rfl
          · rw [hbooks]
            exact hcounts.worked hwork.told
          · rw [hbooks]
            exact hreads.worked hwork hphases rfl
          · rw [hbooks]
            exact hanswers.worked hwork.told
          · have hmem := List.mem_of_getElem? hw
            have hcancelled : s.pool.cancelled = false := by
              by_contra hne
              have hstays := ((SourceWorker.step_alert hmove (halert.orderly w hmem)).stays
                (Bool.not_eq_false _ ▸ hne)).1
              exact absurd (hstays.symm.trans hc) (by simp)
            rw [hkept hcancelled, hwork.calm hcancelled ((halert.calm hcancelled).2 w hmem)]
            rfl
          · rw [BalancedBytes, hbooks]
            exact (hbytes hwhole).worked hwork hphases rfl rfl
  | coordinator move =>
      obtain ⟨newly, hbook⟩ := booking_of_coordinate hstep herror
      have hworkers : t.workers = s.workers := (coordinate_retains hstep).1
      have hwriter : t.writer = s.writer := (coordinate_passesOn hstep).2
      refine ⟨⟨dropped, finished ++ newly, answered,
        ⟨?_, hcounts.booking hbook, ?_, ?_, fun hc => hkept (cancelled_of_coordinate hstep hc)⟩,
        fun hwhole => ?_⟩, hadvanced.coordinate hstep herror⟩
      · rw [hworkers]
        exact hfiles.booking hbook
      · rw [hworkers]
        exact hreads.booking hbook
      · rw [hwriter]
        exact hanswers.booking hfiles hbook
      · rw [BalancedBytes, hworkers]
        exact (hbytes hwhole).booking hfiles (finding_of_coordinate hstep
          (hclassified hwhole).skipsWhole (hbytes hwhole).finding) hbook
  | writer move =>
      simp only [System.step, Option.map_eq_some_iff] at hstep
      obtain ⟨⟨writer, link⟩, hmove, rfl⟩ := hstep
      obtain ⟨newly, hwrites⟩ := ImportWriter.step_books hmove hanswers.left
      refine ⟨⟨dropped, finished, answered ++ newly, ⟨?_, ?_, ?_, ?_, hkept⟩,
        fun hwhole => ?_⟩, ⟨hadvanced.failing, hadvanced.files, hadvanced.tickets⟩⟩
      · exact ⟨hfiles.sequences, hfiles.active, hfiles.found, hfiles.stored, hfiles.whole,
          hfiles.held⟩
      · exact ⟨hcounts.seen, hcounts.hashed, hcounts.bytesHashed, hcounts.created,
          hcounts.written, hcounts.reused, hcounts.skips, hcounts.bytesSkipped⟩
      · exact ⟨hreads.staged, hreads.readEnds⟩
      · exact hanswers.linked hwrites rfl rfl
      · exact ⟨(hbytes hwhole).finding, (hbytes hwhole).bytes⟩

/-- An import that has failed does not recover. -/
theorem System.error_of_step {move : Move} (hstep : s.step config move = some t)
    (herror : t.coordinator.error = none) : s.coordinator.error = none := by
  cases move with
  | worker i move =>
      simp only [System.step] at hstep
      cases hw : s.workers[i]? with
      | none => simp [hw] at hstep
      | some w =>
          simp only [hw, Option.map_eq_some_iff] at hstep
          obtain ⟨_, -, rfl⟩ := hstep
          exact herror
  | coordinator move => exact error_of_coordinate hstep herror
  | writer move =>
      simp only [System.step, Option.map_eq_some_iff] at hstep
      obtain ⟨_, -, rfl⟩ := hstep
      exact herror

theorem System.keeps_of_run {whole : Prop} (hrun : run (System.step config) .start moves = some s)
    (hclassified : Meeting (fun s move => whole → Classified s move) (System.step config) .start
      moves) (herror : s.coordinator.error = none) : s.Keeps whole := by
  refine Transition.run_invariant_meeting (P := fun s => s.Alert ∧
    (s.coordinator.error = none → s.Keeps whole)) ⟨.start, fun _ => .start⟩ ?_ hrun hclassified
    |>.2 herror
  intro u move t hu hmeets hstep
  exact ⟨hu.1.step hstep, fun herror =>
    (hu.2 (error_of_step hstep herror)).step hu.1 hmeets hstep herror⟩

/-- In every import that has not failed the books are balanced. -/
theorem System.Reached.keeps (h : s.Reached config) (herror : s.coordinator.error = none) :
    s.Keeps False := by
  obtain ⟨moves, hrun⟩ := h
  exact keeps_of_run hrun (Transition.meeting_of_forall fun _ _ _ hfalse => hfalse.elim) herror

end Runs

/-! ## The end of an import -/

section Landed

variable {b : Books} {phases : List WorkerPhase} {finished : List CompletedWork}

theorem eq_nil_of_isOn {works : List Work} (h : ∀ m, weigh (Work.isOn m) works = 0) :
    works = [] := by
  cases works with
  | nil => rfl
  | cons work works =>
      have hwork := h work.mountId
      simp [Work.isOn] at hwork

theorem count_of_keys {active : Counters MountId} (h : active.keys = []) (m : MountId) :
    active.count m = 0 := by
  have hnone : active.lookup m = none := by
    rw [AList.lookup_eq_none, AList.mem_keys, h]
    exact List.not_mem_nil
  rw [Counters.count, hnone]
  rfl

/-- Where no file is active, no worker has one. -/
structure Books.Landed (b : Books) (phases : List WorkerPhase) : Prop where
  jobs : b.jobs = []
  completed : b.completed = []
  received : b.received = []
  waiting : ∀ phase ∈ phases, phase = .waiting

theorem Books.Files.landed (h : b.Files phases finished) (hactive : ∀ m, b.active.count m = 0)
    (huncounted : b.uncounted = []) : b.Landed phases := by
  have hflight : ∀ m, b.flight (Work.isOn m) phases = 0 := by
    intro m
    rw [h.active m, hactive m, huncounted]
    rfl
  simp only [flight] at hflight
  have hcompleted : b.completed.map CompletedWork.work = [] := by
    apply eq_nil_of_isOn
    intro m
    have := hflight m
    rw [weigh_map]
    omega
  have hreceived : b.received.map CompletedWork.work = [] := by
    apply eq_nil_of_isOn
    intro m
    have := hflight m
    rw [weigh_map]
    omega
  refine ⟨?_, List.map_eq_nil_iff.1 hcompleted, List.map_eq_nil_iff.1 hreceived, ?_⟩
  · apply eq_nil_of_isOn
    intro m
    have := hflight m
    omega
  · intro phase hphase
    have hheld : phase.held = [] := by
      apply eq_nil_of_isOn
      intro m
      have := hflight m
      have hle := le_weigh (f := weigh (Work.isOn m) ∘ WorkerPhase.held) hphase
      simp only [Function.comp_apply] at hle
      omega
    cases phase <;> first | rfl | cases hheld

theorem Books.Landed.weigh_phases (h : b.Landed phases) {f : WorkerPhase → ℕ}
    (hf : f .waiting = 0) : weigh f phases = 0 := by
  rw [weigh_congr (g := fun _ => 0) fun phase hphase => by rw [h.waiting phase hphase, hf],
    weigh_zero]

theorem Books.Landed.flight (h : b.Landed phases) (f : Work → ℕ) : b.flight f phases = 0 := by
  have hphases := h.weigh_phases (f := weigh f ∘ WorkerPhase.held) rfl
  rw [Books.flight, h.jobs, h.completed, h.received, hphases]
  rfl

end Landed

section Even

variable {b : Books} {w : ImportWriter} {finished : List CompletedWork}
  {answered : List (ImportRequest × Answer)}

theorem lookup_of_mem {responses : List (ℕ × Answer)} (hnodup : (responses.map Prod.fst).Nodup)
    {n : ℕ} {answer : Answer} (h : (n, answer) ∈ responses) :
    responses.lookup n = some answer := by
  induction responses with
  | nil => cases h
  | cons first rest ih =>
      rw [List.map_cons, List.nodup_cons] at hnodup
      rcases List.mem_cons.1 h with rfl | h
      · simp
      · have hne : n ≠ first.1 := by
          rintro rfl
          exact hnodup.1 (List.mem_map.2 ⟨_, h, rfl⟩)
        rw [List.lookup_cons, beq_eq_false_iff_ne.2 hne]
        exact ih hnodup.2 h

theorem mem_of_lookup {responses : List (ℕ × Answer)} {n : ℕ} {answer : Answer}
    (h : responses.lookup n = some answer) : (n, answer) ∈ responses := by
  obtain ⟨l, l', rfl, -⟩ := List.lookup_eq_some_iff.1 h
  simp

/-- The books when everything has landed, and no ticket is left. -/
structure Books.Even (b : Books) (w : ImportWriter) (finished : List CompletedWork)
    (answered : List (ImportRequest × Answer)) : Prop where
  files : ∀ g : ℕ → ℕ, weigh (g ∘ CompletedWork.sequence) finished +
    weigh (g ∘ Prod.fst) b.skipped = weigh g (List.range b.sequence)
  tickets : b.tickets = []
  submitting : b.submitting = []
  answers : b.Answers w finished answered

namespace Books.Even

theorem weigh_requests (h : b.Even w finished answered) (g : ℕ → ℕ) :
    weigh (g ∘ ImportRequest.sequence) b.requests + weigh (g ∘ ImportRequest.sequence) w.asked +
      weigh (g ∘ ImportRequest.sequence ∘ Prod.fst) answered = weigh g (List.range b.sequence) := by
  have hrequested := h.answers.requested (g ∘ ImportRequest.sequence)
  have hfiles := h.files g
  have himported : (g ∘ ImportRequest.sequence) ∘ CompletedWork.request =
      g ∘ CompletedWork.sequence := rfl
  have hknown : (g ∘ ImportRequest.sequence) ∘ knownRequest = g ∘ Prod.fst := rfl
  have hanswered : (g ∘ ImportRequest.sequence) ∘ Prod.fst (β := Answer) =
      g ∘ ImportRequest.sequence ∘ Prod.fst := rfl
  rw [himported, hknown, hanswered, h.submitting, weigh_nil] at hrequested
  omega

/-- Every file has been told of as committed. -/
theorem committed_perm (h : b.Even w finished answered) :
    b.committed.Perm (List.range b.sequence) := by
  apply perm_of_weigh
  intro g
  have htickets := h.answers.tickets g
  have hrequests := h.weigh_requests g
  rw [h.tickets, weigh_nil] at htickets
  omega

/-- A request that is told of as committed has been answered, and nothing else is asked. -/
theorem asked_eq_nil (h : b.Even w finished answered) : b.requests = [] ∧ w.asked = [] := by
  have hnone : ∀ r ∈ b.requests ++ w.asked, False := by
    intro r hr
    have hlt : r.sequence ∈ List.range b.sequence := by
      by_contra hge
      have hle := h.weigh_requests fun n => if n = r.sequence then 1 else 0
      have hone := weigh_range_le_one r.sequence b.sequence
      have hpos := le_weigh
        (f := (fun n => if n = r.sequence then 1 else 0) ∘ ImportRequest.sequence) hr
      rw [List.mem_range] at hge
      rw [if_neg hge] at hone
      rw [Function.comp_apply, if_pos rfl, weigh_append] at hpos
      omega
    obtain ⟨outcome, houtcome⟩ := h.answers.resolved _ (h.committed_perm.mem_iff.2 hlt)
    have hmem := mem_of_lookup houtcome
    rw [h.answers.responses] at hmem
    obtain ⟨a, ha, heq⟩ := List.mem_map.1 hmem
    exact ne_of_weigh_le (fun g => (h.weigh_requests g).le) hr ha (Prod.mk.inj heq).1
  refine ⟨List.eq_nil_iff_forall_not_mem.2 fun r hr => hnone r (by simp [hr]),
    List.eq_nil_iff_forall_not_mem.2 fun r hr => hnone r (by simp [hr])⟩

theorem answered_perm (h : b.Even w finished answered) :
    (b.responses.map Prod.fst).Perm (List.range b.sequence) := by
  apply perm_of_weigh
  intro g
  obtain ⟨hrequests, hasked⟩ := h.asked_eq_nil
  have hweights := h.weigh_requests g
  rw [hrequests, hasked, weigh_nil] at hweights
  rw [h.answers.responses, List.map_map, weigh_map]
  have hcomp : g ∘ Prod.fst ∘ (fun a : ImportRequest × Answer => (a.1.sequence, a.2)) =
      g ∘ ImportRequest.sequence ∘ Prod.fst := rfl
  rw [hcomp]
  omega

theorem nodup_responses (h : b.Even w finished answered) : (b.responses.map Prod.fst).Nodup :=
  h.answered_perm.nodup_iff.2 List.nodup_range

theorem succeeded (h : b.Even w finished answered) {n : ℕ} {answer : Answer}
    (hmem : (n, answer) ∈ b.responses) : ∃ outcome, answer = .ok outcome := by
  have hlt : n ∈ List.range b.sequence :=
    h.answered_perm.mem_iff.1 (List.mem_map.2 ⟨_, hmem, rfl⟩)
  obtain ⟨outcome, houtcome⟩ := h.answers.resolved n (h.committed_perm.mem_iff.2 hlt)
  rw [lookup_of_mem h.nodup_responses hmem] at houtcome
  exact ⟨outcome, Option.some.inj houtcome⟩

theorem length_answered (h : b.Even w finished answered) : answered.length = b.sequence := by
  have hlength := h.answered_perm.length_eq
  rwa [List.length_map, h.answers.responses, List.length_map, List.length_range] at hlength

theorem files_eq (h : b.Even w finished answered) :
    finished.length + b.skipped.length = b.sequence := by
  have hone := h.files fun _ => 1
  rwa [show (fun _ => 1) ∘ CompletedWork.sequence = fun _ => 1 from rfl,
    show (fun _ => 1) ∘ Prod.fst (α := ℕ) (β := ℕ) = fun _ => 1 from rfl, weigh_one, weigh_one,
    weigh_one, List.length_range] at hone

/-- The answers that count as source records are those to the files that were read. -/
theorem weigh_recorded (h : b.Even w finished answered) :
    weigh (recorded b.responses) b.committed = finished.length := by
  let isImported : ImportRequest → ℕ := fun r => if r.kind = .imported then 1 else 0
  obtain ⟨hrequests, hasked⟩ := h.asked_eq_nil
  have htickets := h.answers.tickets (recorded b.responses)
  have hrequested := h.answers.requested isImported
  rw [h.tickets, hrequests, hasked, weigh_nil, weigh_nil] at htickets
  rw [hrequests, hasked, h.submitting, weigh_nil, weigh_nil] at hrequested
  have himported : weigh (isImported ∘ CompletedWork.request) finished = finished.length := by
    rw [show isImported ∘ CompletedWork.request = fun _ => 1 from rfl, weigh_one]
  have hknown : weigh (isImported ∘ knownRequest) b.skipped = 0 := by
    rw [show isImported ∘ knownRequest = fun _ => 0 from rfl, weigh_zero]
  have hsame : weigh (recorded b.responses ∘ ImportRequest.sequence ∘ Prod.fst) answered =
      weigh (isImported ∘ Prod.fst) answered := by
    apply weigh_congr
    intro a ha
    have hmem : (a.1.sequence, a.2) ∈ b.responses := by
      rw [h.answers.responses]
      exact List.mem_map.2 ⟨a, ha, rfl⟩
    obtain ⟨outcome, houtcome⟩ := h.succeeded hmem
    have hfits := h.answers.fits a ha outcome houtcome
    have hlookup := lookup_of_mem h.nodup_responses hmem
    rw [houtcome] at hlookup
    simp only [Function.comp_apply, recorded, hlookup, isImported]
    rcases a with ⟨⟨n, kind⟩, answer⟩
    cases kind <;> cases outcome <;> first | rfl | cases hfits
  omega

theorem rows (h : b.Even w finished answered) : w.committed.sum = b.sequence := by
  have hasked := h.asked_eq_nil.2
  have hleft : w.left = [] := List.map_eq_nil_iff.1 (List.append_eq_nil_iff.1 hasked).2
  have hok : answered.countP (·.2.isOk) = answered.length := by
    rw [List.countP_eq_length]
    intro a ha
    have hmem : (a.1.sequence, a.2) ∈ b.responses := by
      rw [h.answers.responses]
      exact List.mem_map.2 ⟨a, ha, rfl⟩
    obtain ⟨outcome, houtcome⟩ := h.succeeded hmem
    rw [houtcome]
    rfl
  rw [h.answers.rows, hleft, hok, h.length_answered, List.length_nil, Nat.zero_add]

end Books.Even

end Even

/-! ## Work is conserved -/

/-- Nothing is left of an import; every file that was found has one answer, and has been told of
once as committed; and the report adds up. -/
structure System.ConservesWork (s : System) : Prop where
  pending : s.coordinator.pending = []
  active : s.coordinator.active.keys = []
  jobs : s.pool.jobs = []
  completed : s.pool.completed = []
  held : ∀ w ∈ s.workers, w.phase.held = []
  tickets : s.coordinator.tickets = []
  asked : s.link.requests = [] ∧ s.writer.asked = []
  found : s.books.entries.filterMap found? = List.range s.coordinator.report.filesSeen
  answers : (s.link.responses.map Prod.fst).Perm (List.range s.coordinator.report.filesSeen)
  succeeded : ∀ a ∈ s.link.responses, ∃ outcome, a.2 = .ok outcome
  told : s.books.committed.Perm (List.range s.coordinator.report.filesSeen)
  rows : s.writer.committed.sum = s.coordinator.report.filesSeen
  files : s.coordinator.report.filesSeen =
    s.coordinator.report.filesSkipped + s.coordinator.report.filesHashed
  blobs : s.coordinator.report.filesSeen =
    s.coordinator.report.blobsCreated + s.coordinator.report.blobsReused
  records : s.coordinator.report.filesSeen =
    s.coordinator.report.sourceRecordsInserted + s.coordinator.report.sourceRecordsUpdated
  bytes : s.coordinator.report.bytesSeen =
    s.coordinator.report.bytesSkipped + s.coordinator.report.bytesHashed

/-- The files that were read and stored: the report counts them, and counts the bytes of those
that were new as written. -/
structure System.Stored (s : System) (finished : List CompletedWork) : Prop where
  told : s.books.entries.filterMap stored? = finished.map fun f => (f.sequence, f.blob.outcome)
  whole : ∀ f ∈ finished, f.Whole
  hashed : s.coordinator.report.filesHashed = finished.length
  bytesHashed : s.coordinator.report.bytesHashed = weigh CompletedWork.size finished
  created : s.coordinator.report.blobsCreated = finished.countP (·.blob.outcome = .created)
  written : s.coordinator.report.bytesWritten =
    weigh (fun f => if f.blob.outcome = .created then f.size else 0) finished

section Conserves

variable {config : ExecutorConfig} {s : System} {moves : List Move} {dropped : List WorkerPhase}
  {finished : List CompletedWork} {answered : List (ImportRequest × Answer)}

theorem System.Balanced.landed (h : s.Balanced dropped finished answered) (hadvanced : s.Advanced)
    (hend : s.coordinator.phase.atEnd = true) :
    s.books.Landed (s.workers.map (·.phase) ++ dropped) := by
  have hticketed := CoordinatorPhase.ticketed_of_atEnd hend
  have hfree := CoordinatorPhase.free_of_ticketed hticketed
  exact h.files.landed (count_of_keys (hadvanced.files hticketed).2) hfree.uncounted

theorem System.Balanced.even (h : s.Balanced dropped finished answered) (hadvanced : s.Advanced)
    (hend : s.coordinator.phase.atEnd = true) :
    s.books.Even s.writer finished answered := by
  have hlanded := h.landed hadvanced hend
  have hticketed := CoordinatorPhase.ticketed_of_atEnd hend
  have hfree := CoordinatorPhase.free_of_ticketed hticketed
  refine ⟨fun g => ?_, hadvanced.tickets hend, hfree.toSubmit, h.answers⟩
  have hsequences := h.files.sequences g
  have hpending : s.books.pending = [] := (hadvanced.files hticketed).1
  rw [hpending, hlanded.flight, weigh_nil, Nat.zero_add] at hsequences
  exact hsequences

theorem System.Balanced.stored (h : s.Balanced dropped finished answered) : s.Stored finished where
  told := h.files.stored
  whole f hf := h.files.whole f (List.mem_append_right _ hf)
  hashed := h.counts.hashed
  bytesHashed := h.counts.bytesHashed
  created := h.counts.created
  written := h.counts.written

theorem countP_outcome (finished : List CompletedWork) :
    finished.countP (·.blob.outcome = .created) + finished.countP (·.blob.outcome = .reused) =
      finished.length := by
  induction finished with
  | nil => rfl
  | cons f finished ih =>
      rw [List.countP_cons, List.countP_cons, List.length_cons]
      cases houtcome : f.blob.outcome <;> simp <;> omega

theorem System.Balanced.conservesWork (h : s.Balanced dropped finished answered)
    (hbalancedBytes : s.BalancedBytes dropped finished) (hadvanced : s.Advanced)
    (hend : s.coordinator.phase.atEnd = true) : s.ConservesWork := by
  have hlanded := h.landed hadvanced hend
  have heven := h.even hadvanced hend
  have hticketed := CoordinatorPhase.ticketed_of_atEnd hend
  have hfree := CoordinatorPhase.free_of_ticketed hticketed
  obtain ⟨hpending, hactive⟩ := hadvanced.files hticketed
  have hfinding : s.books.finding = [] := hfree.toSkip
  have hsettling : s.books.settling = [] := hfree.toSettle
  have hseen : s.coordinator.report.filesSeen = s.books.sequence := by
    have hseen := h.counts.seen
    rwa [hfinding, List.length_nil, Nat.add_zero] at hseen
  have hskipped : s.coordinator.report.filesSkipped = s.books.skipped.length := by
    have hskips := h.counts.skips
    rwa [hsettling, List.length_nil, Nat.add_zero] at hskips
  have hbytesSkipped : s.coordinator.report.bytesSkipped = weigh Prod.snd s.books.skipped := by
    have hbytes := h.counts.bytesSkipped
    rwa [hsettling, List.sum_nil, Nat.add_zero] at hbytes
  have hhashed : s.coordinator.report.filesHashed = finished.length := h.counts.hashed
  have hfiles := heven.files_eq
  refine ⟨hpending, hactive, hlanded.jobs, hlanded.completed, fun w hw => ?_,
    hadvanced.tickets hend, heven.asked_eq_nil, ?_, ?_, fun a ha => ?_, ?_, ?_, ?_, ?_, ?_, ?_⟩
  · rw [hlanded.waiting w.phase (List.mem_append_left _ (List.mem_map.2 ⟨w, hw, rfl⟩))]
    rfl
  · have hfound := h.files.found
    rw [hfinding, List.map_nil, List.append_nil] at hfound
    rw [hfound, hseen]
  · rw [hseen]
    exact heven.answered_perm
  · exact heven.succeeded (n := a.1) ha
  · rw [hseen]
    exact heven.committed_perm
  · rw [hseen]
    exact heven.rows
  · omega
  · have hcreated : s.coordinator.report.blobsCreated =
        finished.countP (·.blob.outcome = .created) := h.counts.created
    have hreused : s.coordinator.report.blobsReused =
        finished.countP (·.blob.outcome = .reused) + s.coordinator.report.filesSkipped :=
      h.counts.reused
    have hcount := countP_outcome finished
    omega
  · have hrecords : s.coordinator.report.sourceRecordsInserted +
        s.coordinator.report.sourceRecordsUpdated = s.coordinator.report.filesSkipped +
          weigh (recorded s.books.responses) s.books.committed := h.answers.records
    rw [heven.weigh_recorded] at hrecords
    omega
  · have hbytes := hbalancedBytes.bytes
    have hpendingBooks : s.books.pending = [] := hpending
    have hbytesHashed : s.coordinator.report.bytesHashed = weigh CompletedWork.size finished :=
      h.counts.bytesHashed
    have hreport : s.books.report = s.coordinator.report := rfl
    rw [hpendingBooks, hlanded.flight, hfinding, weigh_nil, weigh_nil, hreport] at hbytes
    omega

/-- **Work is conserved**: when an import comes to its end without an error, in whatever order
its threads took their steps, nothing is left of it. Each file that was found has been submitted
once, has one answer, which is not an error, and is told of once as committed; and the report
adds up. -/
theorem import_conserves_work (hrun : run (System.step config) .start moves = some s)
    (hclassified : Meeting Classified (System.step config) .start moves)
    (herror : s.coordinator.error = none) (hend : s.coordinator.phase.atEnd = true) :
    s.ConservesWork ∧ ∃ finished, s.Stored finished := by
  obtain ⟨⟨dropped, finished, answered, hbalanced, hbytes⟩, hadvanced⟩ :=
    System.keeps_of_run hrun (hclassified.imp fun _ _ h (_ : True) => h) herror
  exact ⟨hbalanced.conservesWork (hbytes trivial) hadvanced hend, finished, hbalanced.stored⟩

end Conserves

/-! ## Telemetry -/

section Telemetry

variable {config : ExecutorConfig} {s : System} {moves : List Move} {dropped : List WorkerPhase}
  {finished : List CompletedWork} {answered : List (ImportRequest × Answer)}

/-- How many events of a name an import has sent. -/
def System.sent (s : System) (name : TelemetryName) : ℕ :=
  (s.observed.flatMap (telemetry false)).countP (·.name = name)

/-- The bytes that the events of a name have counted. -/
def System.sentBytes (s : System) (name : TelemetryName) : ℕ :=
  weigh (fun e => if e.name = name then e.bytes else 0) (s.observed.flatMap (telemetry false))

/-- What is sent of an event is what is told of a file. -/
theorem System.weigh_sent {α : Type} {f : TelemetryEvent → ℕ} {told : LedgerEntry → Option α}
    {g : α → ℕ} (h : ∀ event : IngestEvent,
      weigh f (telemetry false event) = weigh g (event.entry.toList.filterMap told)) :
    weigh f (s.observed.flatMap (telemetry false)) = weigh g (s.books.entries.filterMap told) := by
  have hall : ∀ events : List IngestEvent, weigh f (events.flatMap (telemetry false)) =
      weigh g ((entries events).filterMap told) := by
    intro events
    induction events with
    | nil => rfl
    | cons event events ih =>
        simp only [List.flatMap_cons, entries_cons, List.filterMap_append, weigh_append, h event,
          ih]
  exact hall s.observed

theorem System.sent_eq {α : Type} {name : TelemetryName} {told : LedgerEntry → Option α}
    (h : ∀ event : IngestEvent,
      weigh (fun e => if e.name = name then 1 else 0) (telemetry false event) =
        weigh (fun _ => 1) (event.entry.toList.filterMap told)) :
    s.sent name = (s.books.entries.filterMap told).length := by
  have hweights := System.weigh_sent (s := s) h
  rw [weigh_indicator, weigh_one] at hweights
  exact hweights

theorem sent_found : s.sent .fileDiscovered = (s.books.entries.filterMap found?).length := by
  refine System.sent_eq fun event => ?_
  cases event with
  | casStored sequence path outcome hash => cases outcome <;> rfl
  | _ => rfl

theorem sent_skipped : s.sent .fileSkipped = (s.books.entries.filterMap skipped?).length := by
  refine System.sent_eq fun event => ?_
  cases event with
  | casStored sequence path outcome hash => cases outcome <;> rfl
  | _ => rfl

theorem sent_committed :
    s.sent .catalogRecordCommitted = (s.books.entries.filterMap committed?).length := by
  refine System.sent_eq fun event => ?_
  cases event with
  | casStored sequence path outcome hash => cases outcome <;> rfl
  | _ => rfl

theorem sent_readEnded : s.sent .fileHashed = (s.books.entries.filterMap readEnded?).length := by
  refine System.sent_eq fun event => ?_
  cases event with
  | casStored sequence path outcome hash => cases outcome <;> rfl
  | _ => rfl

/-- The name under which the blob of a file is told of. -/
def StoreOutcome.sentAs : StoreOutcome → TelemetryName
  | .created => .casBlobCreated
  | .reused => .casBlobReused

theorem sent_stored (outcome : StoreOutcome) :
    s.sent outcome.sentAs = (s.books.entries.filterMap stored?).countP (·.2 = outcome) := by
  have hweights : weigh (fun e => if e.name = outcome.sentAs then 1 else 0)
      (s.observed.flatMap (telemetry false)) =
        weigh (fun a => if a.2 = outcome then 1 else 0) (s.books.entries.filterMap stored?) := by
    refine System.weigh_sent fun event => ?_
    cases event with
    | casStored sequence path outcome' hash => cases outcome <;> cases outcome' <;> rfl
    | _ => cases outcome <;> rfl
  rw [weigh_indicator, weigh_indicator] at hweights
  exact hweights

theorem sentBytes_source :
    s.sentBytes .sourceBytesDelta = (s.books.entries.filterMap staged?).sum := by
  have hweights : s.sentBytes .sourceBytesDelta =
      weigh id (s.books.entries.filterMap staged?) := by
    refine System.weigh_sent fun event => ?_
    cases event with
    | casStored sequence path outcome hash => cases outcome <;> rfl
    | _ => rfl
  rwa [weigh, List.map_id] at hweights

theorem sentBytes_staging :
    s.sentBytes .stagingBytesDelta = (s.books.entries.filterMap staged?).sum := by
  have hweights : s.sentBytes .stagingBytesDelta =
      weigh id (s.books.entries.filterMap staged?) := by
    refine System.weigh_sent fun event => ?_
    cases event with
    | casStored sequence path outcome hash => cases outcome <;> rfl
    | sourceChunkStaged sequence path mountId size => simp [telemetry, staged?]
    | _ => rfl
  rwa [weigh, List.map_id] at hweights

/-- The events of telemetry agree with the report. Of a file that is empty no read is told. -/
structure System.TelemetryAgrees (s : System) : Prop where
  discovered : s.sent .fileDiscovered = s.coordinator.report.filesSeen
  skipped : s.sent .fileSkipped = s.coordinator.report.filesSkipped
  created : s.sent .casBlobCreated = s.coordinator.report.blobsCreated
  reused : s.sent .casBlobReused + s.coordinator.report.filesSkipped =
    s.coordinator.report.blobsReused
  committed : s.sent .catalogRecordCommitted = s.coordinator.report.filesSeen
  sourceBytes : s.sentBytes .sourceBytesDelta = s.coordinator.report.bytesHashed
  stagingBytes : s.sentBytes .stagingBytesDelta = s.coordinator.report.bytesHashed

/-- **Telemetry**: what an import that has come to its end without an error has sent agrees with
its report, but for the files that were read: of an empty one no read is told. -/
theorem import_telemetry_totals (hrun : run (System.step config) .start moves = some s)
    (hclassified : Meeting Classified (System.step config) .start moves)
    (herror : s.coordinator.error = none) (hend : s.coordinator.phase.atEnd = true) :
    s.TelemetryAgrees ∧ ∃ finished, s.Stored finished ∧
      s.sent .fileHashed = finished.countP (0 < ·.size) := by
  obtain ⟨⟨dropped, finished, answered, hbalanced, hbytes⟩, hadvanced⟩ :=
    System.keeps_of_run hrun (hclassified.imp fun _ _ h (_ : True) => h) herror
  have hconserves := hbalanced.conservesWork (hbytes trivial) hadvanced hend
  have hlanded := hbalanced.landed hadvanced hend
  have hfree := CoordinatorPhase.free_of_ticketed (CoordinatorPhase.ticketed_of_atEnd hend)
  have hstored : (s.books.entries.filterMap stored?) =
      finished.map fun f => (f.sequence, f.blob.outcome) := hbalanced.files.stored
  have hstaged : (s.books.entries.filterMap staged?).sum = s.coordinator.report.bytesHashed := by
    have hreads := hbalanced.reads.staged
    rw [hlanded.weigh_phases rfl, hlanded.completed, hlanded.received] at hreads
    have hbytes : s.coordinator.report.bytesHashed = weigh CompletedWork.size finished :=
      hbalanced.counts.bytesHashed
    simp only [weigh_nil] at hreads
    omega
  have hskipped : s.coordinator.report.filesSkipped = s.books.skipped.length := by
    have hskips := hbalanced.counts.skips
    have hsettling : s.books.settling = [] := hfree.toSettle
    rwa [hsettling, List.length_nil, Nat.add_zero] at hskips
  have hreused : s.coordinator.report.blobsReused =
      finished.countP (·.blob.outcome = .reused) + s.coordinator.report.filesSkipped :=
    hbalanced.counts.reused
  have houtcome : ∀ outcome, (s.books.entries.filterMap stored?).countP (·.2 = outcome) =
      finished.countP (·.blob.outcome = outcome) := by
    intro outcome
    rw [hstored, List.countP_map]
    rfl
  refine ⟨⟨?_, ?_, ?_, ?_, ?_, ?_, ?_⟩, finished, hbalanced.stored, ?_⟩
  · rw [sent_found, hconserves.found, List.length_range]
  · rw [sent_skipped, hskipped]
    rfl
  · have hcreated := sent_stored (s := s) .created
    rw [houtcome, ← hbalanced.stored.created] at hcreated
    exact hcreated
  · have hsent := sent_stored (s := s) .reused
    rw [houtcome] at hsent
    rw [hreused, ← hsent]
    rfl
  · rw [sent_committed]
    have hlength := hconserves.told.length_eq
    rwa [List.length_range] at hlength
  · rw [sentBytes_source, hstaged]
  · rw [sentBytes_staging, hstaged]
  · have hreads := hbalanced.reads.readEnds
    rw [hlanded.weigh_phases rfl, hlanded.completed, hlanded.received] at hreads
    have hends : weigh CompletedWork.readEnds finished = finished.countP (0 < ·.size) :=
      weigh_indicator fun f : CompletedWork => 0 < f.size
    simp only [weigh_nil] at hreads
    rw [sent_readEnded]
    omega

end Telemetry

/-! ## An import of one file to its end -/

/-- The file, with what the system says of it. -/
def pipelineScanned : ScannedFile where
  toSourceFileCandidate := pipelineFile 0
  modifiedAtMs := none
  stagedAs := []
  answers := letterSource
  sizeBytes_lt := by decide

/-- The file is not known to the catalog, is stored and submitted, and its batch is announced. -/
def conservedMoves : List Move :=
  answeredMoves ++ [.writer .announce, .coordinator (.drain (.batchCommitted 1 1))] ++
    joinedMoves ++ finishedMoves

/-- What a move finds. -/
def Move.discovery : Move → Option (SourceFileCandidate × Except String ImportDisposition)
  | .coordinator (.discover candidate disposition) => some (candidate, disposition)
  | _ => none

theorem classified_conservedMoves :
    Meeting Classified (System.step pipelineConfig) .start conservedMoves := by
  have hfound : conservedMoves.filterMap Move.discovery =
      [(pipelineFile 0, .ok (.hash .noCatalogObservation))] := rfl
  refine Transition.meeting_of_forall fun move hmove u candidate disposition hdiscover => ?_
  have hmem : (candidate, .ok disposition) ∈ conservedMoves.filterMap Move.discovery := by
    rw [List.mem_filterMap]
    exact ⟨move, hmove, by rw [hdiscover]; rfl⟩
  rw [hfound, List.mem_singleton] at hmem
  obtain ⟨rfl, hdisposition⟩ := Prod.mk.inj hmem
  obtain rfl := Except.ok.inj hdisposition
  exact ⟨⟨bareStore, fun _ => false⟩, true, pipelineScanned, none, rfl, rfl⟩

theorem run_conservedMoves : ∃ s, run (System.step pipelineConfig) .start conservedMoves = some s ∧
    s.coordinator.error = none ∧ s.coordinator.phase.atEnd = true := by
  have hrun : (run (System.step pipelineConfig) .start conservedMoves).map (fun s =>
      (s.coordinator.error, s.coordinator.phase.atEnd)) = some (none, true) := by decide +kernel
  obtain ⟨s, hs, hend⟩ := Option.map_eq_some_iff.1 hrun
  exact ⟨s, hs, (Prod.mk.inj hend).1, (Prod.mk.inj hend).2⟩

theorem import_conserves_work_one : ∃ s,
    run (System.step pipelineConfig) .start conservedMoves = some s ∧ s.ConservesWork := by
  obtain ⟨s, hrun, herror, hend⟩ := run_conservedMoves
  exact ⟨s, hrun, (import_conserves_work hrun classified_conservedMoves herror hend).1⟩

theorem import_telemetry_totals_one : ∃ s,
    run (System.step pipelineConfig) .start conservedMoves = some s ∧ s.TelemetryAgrees := by
  obtain ⟨s, hrun, herror, hend⟩ := run_conservedMoves
  exact ⟨s, hrun, (import_telemetry_totals hrun classified_conservedMoves herror hend).1⟩

end MediaImporter
