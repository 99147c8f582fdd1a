import MediaImporter.Ingest.Limits
import MediaImporter.Lib.Weights

/-!
# The books of an import

Where the files of an import are, what has been asked of the catalog writer, and what has been
counted and told: the books of an import. Most moves of the coordinator leave them as they are.
The others are ten kinds of bookings, and each says completely what it changes.

The books say nothing of an import that has failed.

## Main definitions

* `LedgerEntry` — what is told of a file.
* `Books`, `System.books` — the books.
* `Booking`, `booking_of_coordinate` — what a move of the coordinator changes in them.
-/

namespace MediaImporter

open Transition (run)

/-! ## What is told of files -/

/-- What the observer is told of a file. -/
inductive LedgerEntry
  | found (sequence : ℕ)
  | skipped (sequence size : ℕ)
  | staged (size : ℕ)
  | readEnded
  | stored (sequence : ℕ) (outcome : StoreOutcome)
  | committed (sequence : ℕ)
  deriving DecidableEq

def IngestEvent.entry : IngestEvent → Option LedgerEntry
  | .candidateDiscovered sequence _ _ => some (.found sequence)
  | .metadataSkipped sequence _ size => some (.skipped sequence size)
  | .sourceChunkStaged _ _ _ size => some (.staged size)
  | .sourceReadCompleted _ _ _ _ => some .readEnded
  | .casStored sequence _ outcome _ => some (.stored sequence outcome)
  | .catalogCommitted sequence _ => some (.committed sequence)
  | _ => none

def entries (events : List IngestEvent) : List LedgerEntry := events.filterMap IngestEvent.entry

@[simp] theorem entries_nil : entries [] = [] := rfl

@[simp] theorem entries_append (events events' : List IngestEvent) :
    entries (events ++ events') = entries events ++ entries events' :=
  List.filterMap_append

@[simp] theorem entries_cons (event : IngestEvent) (events : List IngestEvent) :
    entries (event :: events) = event.entry.toList ++ entries events := by
  cases h : event.entry <;> simp [entries, h]

@[simp] theorem entries_observeWorkOccupancy (pending : List Work) (active : Counters MountId)
    (n : ℕ) : entries (observeWorkOccupancy pending active n) = [] := by
  unfold entries observeWorkOccupancy
  rw [List.filterMap_eq_nil_iff]
  intro event hevent
  rcases List.mem_cons.1 hevent with rfl | hevent
  · rfl
  · obtain ⟨mountId, -, rfl⟩ := List.mem_map.1 hevent
    rfl

@[simp] theorem entries_observeCatalogOccupancy (requests pending n : ℕ) :
    entries (observeCatalogOccupancy requests pending n) = [] := rfl

@[simp] theorem entries_passedOn (event : CatalogWriterEvent) :
    entries event.passedOn.toList = [] := by
  cases event with
  | checkpointRequested commitSequence shutdown => cases shutdown <;> rfl
  | _ => rfl

/-! ## The books -/

namespace CoordinatorPhase

/-- The finished file that the coordinator has received. -/
def inHand : CoordinatorPhase → List CompletedWork
  | .received finished | .completing finished => [finished]
  | _ => []

/-- The file that is about to be skipped. -/
def toSkip : CoordinatorPhase → List (SourceFileCandidate × ℕ)
  | .skipping candidate size => [(candidate, size)]
  | _ => []

/-- The finished file that is about to be submitted. -/
def toSubmit : CoordinatorPhase → List CompletedWork
  | .submitting finished => [finished]
  | _ => []

/-- The size of the skipped file that is not yet reported. -/
def toSettle : CoordinatorPhase → List ℕ
  | .reporting (.skipped size) | .resolving (.skipped size) => [size]
  | _ => []

end CoordinatorPhase

structure Books where
  pending : List Work
  jobs : List Work
  completed : List CompletedWork
  received : List CompletedWork
  uncounted : List Work
  finding : List (SourceFileCandidate × ℕ)
  submitting : List CompletedWork
  settling : List ℕ
  active : Counters MountId
  tickets : List PendingTicket
  sequence : ℕ
  report : ImportReport
  requests : List ImportRequest
  responses : List (ℕ × Except String ImportWriteOutcome)
  entries : List LedgerEntry

def System.books (s : System) : Books where
  pending := s.coordinator.pending
  jobs := s.pool.jobs
  completed := s.pool.completed
  received := s.coordinator.phase.inHand
  uncounted := s.coordinator.phase.uncounted
  finding := s.coordinator.phase.toSkip
  submitting := s.coordinator.phase.toSubmit
  settling := s.coordinator.phase.toSettle
  active := s.coordinator.active
  tickets := s.coordinator.tickets
  sequence := s.coordinator.sequence
  report := s.coordinator.report
  requests := s.link.requests
  responses := s.link.responses
  entries := MediaImporter.entries s.observed

/-- What one move of the coordinator changes in the books, and the files that it completes. -/
inductive Booking (b : Books) : List CompletedWork → Books → Prop
  | nothing : Booking b [] b
  | find (candidate : SourceFileCandidate) (size : ℕ) (hfinding : b.finding = []) :
      Booking b [] { b with
        finding := [(candidate, size)]
        report := b.report.observedFile candidate
        entries := b.entries ++ [.found b.sequence] }
  | enqueue (candidate : SourceFileCandidate) (hfinding : b.finding = []) :
      Booking b [] { b with
        pending := b.pending ++ [⟨b.sequence, candidate⟩]
        sequence := b.sequence + 1
        report := b.report.observedFile candidate
        entries := b.entries ++ [.found b.sequence] }
  | skip (candidate : SourceFileCandidate) (size : ℕ) (hfinding : b.finding = [(candidate, size)])
      (hsettling : b.settling = []) :
      Booking b [] { b with
        finding := []
        settling := [size]
        sequence := b.sequence + 1
        tickets := insertTicket ⟨b.sequence, candidate.relativePath⟩ b.tickets
        requests := b.requests ++ [⟨b.sequence, .known⟩]
        entries := b.entries ++ [.skipped b.sequence size] }
  | dispatch (i : ℕ) (work : Work) (hwork : b.pending[i]? = some work)
      (huncounted : b.uncounted = []) :
      Booking b [] { b with
        pending := b.pending.eraseIdx i
        jobs := b.jobs ++ [work]
        uncounted := [work] }
  | count (work : Work) (active : Counters MountId) (huncounted : b.uncounted = [work])
      (hraise : b.active.raise work.mountId = some active) :
      Booking b [] { b with uncounted := [], active }
  | receive (finished : CompletedWork) (hhead : b.completed.head? = some finished)
      (hreceived : b.received = []) :
      Booking b [] { b with completed := b.completed.tail, received := [finished] }
  | complete (finished : CompletedWork) (n : ℕ) (hreceived : b.received = [finished])
      (hsubmitting : b.submitting = [])
      (hlowered : completeActive b.active finished.work.mountId = .ok n) :
      Booking b [finished] { b with
        received := []
        submitting := [finished]
        active := b.active.settle finished.work.mountId n
        report := b.report.hashed finished.blob finished.blob.outcome
        entries := b.entries ++ [.stored finished.work.sequence finished.blob.outcome] }
  | submit (finished : CompletedWork) (hsubmitting : b.submitting = [finished]) :
      Booking b [] { b with
        submitting := []
        tickets := insertTicket ⟨finished.work.sequence, finished.work.candidate.relativePath⟩
          b.tickets
        requests := b.requests ++ [⟨finished.work.sequence, .imported⟩] }
  | resolve (ticket : PendingTicket) (outcome : ImportWriteOutcome)
      (hhead : b.tickets.head? = some ticket)
      (hresponse : b.responses.lookup ticket.sequence = some (.ok outcome)) :
      Booking b [] { b with
        tickets := b.tickets.tail
        report := b.report.applyOutcome outcome
        entries := b.entries ++ [.committed ticket.sequence] }
  | settle (size : ℕ) (hsettling : b.settling = [size]) :
      Booking b [] { b with settling := [], report := b.report.skipped size }

/-! ## What the coordinator does to the books -/

namespace CoordinatorPhase

/-- The coordinator has nothing in its hands. -/
structure Free (p : CoordinatorPhase) : Prop where
  inHand : p.inHand = []
  uncounted : p.uncounted = []
  toSkip : p.toSkip = []
  toSubmit : p.toSubmit = []
  toSettle : p.toSettle = []

variable {p q : CoordinatorPhase}

theorem free_of_afterDrain (h : p.afterDrain = some q) : p.Free ∧ q.Free := by
  cases p <;> cases h <;> exact ⟨⟨rfl, rfl, rfl, rfl, rfl⟩, ⟨rfl, rfl, rfl, rfl, rfl⟩⟩

theorem free_ofPoll (next : AfterPoll) : (ofPoll next).Free := by
  cases next <;> exact ⟨rfl, rfl, rfl, rfl, rfl⟩

end CoordinatorPhase

/-- A file that is skipped is so with the size that the scan has found. -/
def SkipsWhole (candidate : SourceFileCandidate)
    (disposition : Except String ImportDisposition) : Prop :=
  ∀ hash size resurrect, disposition = .ok (.skip hash size resurrect) →
    size = candidate.sizeBytes

section Coordinate

attribute [local simp] CoordinatorPhase.inHand CoordinatorPhase.uncounted CoordinatorPhase.toSkip
  CoordinatorPhase.toSubmit CoordinatorPhase.toSettle IngestEvent.entry
  IngestEvent.completedBlobs

variable {config : ExecutorConfig} {s t : System} {move : CoordinatorMove}

/-- Moves between phases in which the coordinator has nothing in its hands. -/
theorem Booking.of_free (hpending : t.coordinator.pending = s.coordinator.pending)
    (hjobs : t.pool.jobs = s.pool.jobs) (hcompleted : t.pool.completed = s.pool.completed)
    (hs : s.coordinator.phase.Free) (ht : t.coordinator.phase.Free)
    (hactive : t.coordinator.active = s.coordinator.active)
    (htickets : t.coordinator.tickets = s.coordinator.tickets)
    (hsequence : t.coordinator.sequence = s.coordinator.sequence)
    (hreport : t.coordinator.report = s.coordinator.report)
    (hrequests : t.link.requests = s.link.requests)
    (hresponses : t.link.responses = s.link.responses)
    (hentries : MediaImporter.entries t.observed = MediaImporter.entries s.observed) :
    Booking s.books [] t.books := by
  have hbooks : t.books = s.books := by
    simp only [System.books, hpending, hjobs, hcompleted, hactive, htickets, hsequence, hreport,
      hrequests, hresponses, hentries, hs.inHand, hs.uncounted, hs.toSkip, hs.toSubmit,
      hs.toSettle, ht.inHand, ht.uncounted, ht.toSkip, ht.toSubmit, ht.toSettle]
  rw [hbooks]
  exact .nothing

theorem Booking.of_eq (h : t.books = s.books) : Booking s.books [] t.books := by
  rw [h]
  exact .nothing

namespace System

theorem booking_discovered (hphase : s.coordinator.phase = .scanning)
    (candidate : SourceFileCandidate) (disposition : Except String ImportDisposition)
    (herror : (s.discovered config candidate disposition).coordinator.error = none) :
    Booking s.books [] (s.discovered config candidate disposition).books := by
  have hfinding : s.books.finding = [] := by
    simp only [books, hphase, CoordinatorPhase.toSkip]
  cases disposition with
  | error error => cases herror
  | ok disposition =>
      cases disposition with
      | skip hash size resurrect =>
          have hbook := Booking.find candidate size hfinding
          simp only [books, hphase] at hbook
          simpa [books, discovered, go, Coordinator.go, hphase] using hbook
      | hash reason =>
          have hbook := Booking.enqueue candidate hfinding
          simp only [books, hphase] at hbook
          unfold discovered at herror ⊢
          dsimp only at herror ⊢
          split at herror
          · rw [if_pos ‹_›]
            simpa [books, go, Coordinator.enqueue, hphase] using hbook
          · cases herror

theorem booking_submittedSkip {candidate : SourceFileCandidate} {size : ℕ}
    (hphase : s.coordinator.phase = .skipping candidate size)
    (herror : (s.submittedSkip candidate size).coordinator.error = none) :
    Booking s.books [] (s.submittedSkip candidate size).books := by
  have hbook := Booking.skip (b := s.books) candidate size (by simp only [books, hphase]; rfl)
    (by simp only [books, hphase]; rfl)
  unfold submittedSkip at herror ⊢
  dsimp only at herror ⊢
  split at herror
  · rw [if_pos ‹_›]
    simp only [books, hphase] at hbook ⊢
    simpa [go, CatalogLink.submit] using hbook
  · cases herror

theorem booking_completed {finished : CompletedWork}
    (hphase : s.coordinator.phase = .completing finished)
    (herror : (s.completed config finished).coordinator.error = none) :
    Booking s.books [finished] (s.completed config finished).books := by
  unfold completed at herror ⊢
  dsimp only at herror ⊢
  split at herror
  · cases herror
  · next n hlowered =>
    have hbook := Booking.complete (b := s.books) finished n (by simp only [books, hphase]; rfl)
      (by simp only [books, hphase]; rfl) hlowered
    simp only [books, hphase] at hbook ⊢
    simpa [go] using hbook

theorem booking_submittedHashed {finished : CompletedWork}
    (hphase : s.coordinator.phase = .submitting finished) :
    Booking s.books [] (s.submittedHashed finished).books := by
  have hbook := Booking.submit (b := s.books) finished (by simp only [books, hphase]; rfl)
  simp only [books, hphase] at hbook ⊢
  simpa [submittedHashed, CatalogLink.submit] using hbook

/-- A move of the coordinator that does not fail is a booking. -/
theorem booking_of_coordinate (h : s.coordinate config move = some t)
    (herror : t.coordinator.error = none) : ∃ newly, Booking s.books newly t.books := by
  cases move <;> simp only [coordinate] at h
  case discover candidate disposition =>
    simp only [Option.ite_none_right_eq_some, Option.some.injEq] at h
    obtain ⟨hphase, rfl⟩ := h
    exact ⟨[], booking_discovered hphase _ _ herror⟩
  case submitSkip candidate size =>
    simp only [Option.ite_none_right_eq_some, Option.some.injEq] at h
    obtain ⟨⟨hphase, -⟩, rfl⟩ := h
    exact ⟨[], booking_submittedSkip hphase herror⟩
  case submitHashed finished =>
    simp only [Option.ite_none_right_eq_some, Option.some.injEq] at h
    obtain ⟨⟨hphase, -⟩, rfl⟩ := h
    exact ⟨[], booking_submittedHashed hphase⟩
  case complete finished =>
    simp only [Option.ite_none_right_eq_some, Option.some.injEq] at h
    obtain ⟨hphase, rfl⟩ := h
    exact ⟨[finished], booking_completed hphase herror⟩
  case receive finished =>
    simp only [Option.ite_none_right_eq_some, Option.some.injEq] at h
    obtain ⟨⟨hphase, hhead⟩, rfl⟩ := h
    have hbook := Booking.receive (b := s.books) finished hhead (by simp only [books, hphase]; rfl)
    simp only [books, hphase] at hbook ⊢
    exact ⟨[], by simpa [go, Coordinator.go] using hbook⟩
  case submit work =>
    split at h
    · next i hnext =>
      simp only [Option.ite_none_right_eq_some, Option.some.injEq] at h
      obtain ⟨⟨hphase, hwork, -⟩, rfl⟩ := h
      have hbook := Booking.dispatch (b := s.books) i work hwork (by simp only [books, hphase]; rfl)
      simp only [books, hphase] at hbook ⊢
      exact ⟨[], by simpa [go] using hbook⟩
    · cases h
  case countWork work =>
    split at h
    · next hphase =>
      split at h
      · next active hraise =>
        obtain rfl := Option.some.inj h
        have hbook := Booking.count (b := s.books) work active (by simp only [books, hphase]; rfl)
          hraise
        simp only [books, hphase] at hbook ⊢
        exact ⟨[], by simpa [go] using hbook⟩
      · obtain rfl := Option.some.inj h
        cases herror
    · cases h
  case resolve ticket outcome =>
    simp only [Option.ite_none_right_eq_some, Option.some.injEq] at h
    obtain ⟨⟨-, hhead, hresponse⟩, rfl⟩ := h
    have hbook := Booking.resolve (b := s.books) ticket outcome hhead hresponse
    refine ⟨[], ?_⟩
    simp only [go]
    split_ifs with hphase
    · simp only [books, hphase] at hbook ⊢
      simpa using hbook
    · simpa only [books, entries_append, entries_cons, IngestEvent.entry, Option.toList_some,
        entries_nil, List.append_nil] using hbook
  case settled after =>
    simp only [Option.ite_none_right_eq_some, Option.some.injEq] at h
    obtain ⟨⟨hphase, -⟩, rfl⟩ := h
    cases after with
    | skipped size =>
        have hbook := Booking.settle (b := s.books) size (by simp only [books, hphase]; rfl)
        simp only [books, hphase] at hbook ⊢
        exact ⟨[], by simpa [go] using hbook⟩
    | hashed work => exact ⟨[], .of_eq (by simp [books, go, hphase])⟩
  case uncount finished =>
    simp only [Option.ite_none_right_eq_some, Option.some.injEq] at h
    obtain ⟨hphase, rfl⟩ := h
    exact ⟨[], .of_eq (by simp [books, go, Coordinator.go, hphase])⟩
  case report after =>
    simp only [Option.ite_none_right_eq_some, Option.some.injEq] at h
    obtain ⟨hphase, rfl⟩ := h
    cases after <;> exact ⟨[], .of_eq (by simp [books, go, Coordinator.go, hphase])⟩
  case drain event =>
    simp only [Option.ite_none_right_eq_some, Option.some.injEq] at h
    obtain ⟨-, rfl⟩ := h
    exact ⟨[], .of_eq (by simp [books, go])⟩
  case drained =>
    split at h
    · next phase hphase =>
      obtain ⟨hs, ht⟩ := CoordinatorPhase.free_of_afterDrain hphase
      simp only [Option.ite_none_right_eq_some, Option.some.injEq] at h
      obtain ⟨-, rfl⟩ := h
      exact ⟨[], .of_free rfl rfl rfl hs ht rfl rfl rfl rfl rfl rfl (by simp [go])⟩
    · cases h
  case pollWriterClear =>
    split at h
    · next next hphase =>
      simp only [Option.ite_none_right_eq_some, Option.some.injEq] at h
      obtain ⟨-, rfl⟩ := h
      exact ⟨[], .of_free rfl rfl rfl (by rw [hphase]; exact ⟨rfl, rfl, rfl, rfl, rfl⟩)
        (CoordinatorPhase.free_ofPoll next) rfl rfl rfl rfl rfl rfl (by simp [go])⟩
    · cases h
  all_goals
    -- the import fails, or both phases are known and nothing is in the hands of the coordinator
    (repeat' (split at h)) <;> simp only [Option.some.injEq, reduceCtorEq] at h <;> subst h <;>
      first
        | cases herror
        | exact ⟨[], .of_free rfl rfl rfl (by simp_all; exact ⟨rfl, rfl, rfl, rfl, rfl⟩)
            ⟨rfl, rfl, rfl, rfl, rfl⟩ rfl rfl rfl rfl rfl rfl (by simp [go])⟩

/-- The files that are about to be skipped are whole if those that are found are. -/
theorem finding_of_coordinate (h : s.coordinate config move = some t)
    (hsize : ∀ candidate disposition, move = .discover candidate disposition →
      SkipsWhole candidate disposition)
    (hfinding : ∀ found ∈ s.books.finding, found.2 = found.1.sizeBytes) :
    ∀ found ∈ t.books.finding, found.2 = found.1.sizeBytes := by
  have hnone : ∀ u : System, u.coordinator.phase.toSkip = [] →
      ∀ found ∈ u.books.finding, found.2 = found.1.sizeBytes := by
    intro u hu found hfound
    rw [books, hu] at hfound
    cases hfound
  cases move <;> simp only [coordinate] at h
  case discover candidate disposition =>
    simp only [Option.ite_none_right_eq_some, Option.some.injEq] at h
    obtain ⟨-, rfl⟩ := h
    have hwhole := hsize candidate disposition rfl
    unfold discovered
    dsimp only
    split
    · exact hnone _ rfl
    · next hash size resurrect =>
      intro found hfound
      obtain rfl := List.mem_singleton.1 hfound
      exact hwhole hash size resurrect rfl
    · split <;> exact hnone _ rfl
  case submitSkip candidate size =>
    simp only [Option.ite_none_right_eq_some, Option.some.injEq] at h
    obtain ⟨-, rfl⟩ := h
    unfold submittedSkip
    dsimp only
    split <;> exact hnone _ rfl
  case complete finished =>
    simp only [Option.ite_none_right_eq_some, Option.some.injEq] at h
    obtain ⟨-, rfl⟩ := h
    unfold completed
    dsimp only
    split <;> exact hnone _ rfl
  case drained =>
    split at h
    · next phase hphase =>
      simp only [Option.ite_none_right_eq_some, Option.some.injEq] at h
      obtain ⟨-, rfl⟩ := h
      exact hnone _ (CoordinatorPhase.free_of_afterDrain hphase).2.toSkip
    · cases h
  case pollWriterClear =>
    split at h
    · next next hphase =>
      simp only [Option.ite_none_right_eq_some, Option.some.injEq] at h
      obtain ⟨-, rfl⟩ := h
      exact hnone _ (CoordinatorPhase.free_ofPoll next).toSkip
    · cases h
  case resolve ticket outcome =>
    simp only [Option.ite_none_right_eq_some, Option.some.injEq] at h
    obtain ⟨-, rfl⟩ := h
    simp only [go]
    split_ifs
    · exact hnone _ rfl
    · exact hfinding
  all_goals
    (repeat' (split at h)) <;> simp only [Option.some.injEq, reduceCtorEq] at h <;> subst h <;>
      first
        | exact hfinding
        | exact hnone _ rfl

/-- An import that has failed does not recover. -/
theorem error_of_coordinate (h : s.coordinate config move = some t)
    (herror : t.coordinator.error = none) : s.coordinator.error = none := by
  cases move <;> simp only [coordinate] at h
  case discover candidate disposition =>
    simp only [Option.ite_none_right_eq_some, Option.some.injEq] at h
    obtain ⟨-, rfl⟩ := h
    revert herror
    unfold discovered
    dsimp only
    split
    · intro herror
      cases herror
    · exact id
    · split
      · exact id
      · intro herror
        cases herror
  case submitSkip candidate size =>
    simp only [Option.ite_none_right_eq_some, Option.some.injEq] at h
    obtain ⟨-, rfl⟩ := h
    revert herror
    unfold submittedSkip
    dsimp only
    split
    · exact id
    · intro herror
      cases herror
  case complete finished =>
    simp only [Option.ite_none_right_eq_some, Option.some.injEq] at h
    obtain ⟨-, rfl⟩ := h
    revert herror
    unfold completed
    dsimp only
    split
    · intro herror
      cases herror
    · exact id
  all_goals
    (repeat' (split at h)) <;> simp only [Option.some.injEq, reduceCtorEq] at h <;> subst h <;>
      first
        | cases herror
        | exact herror

end System

end Coordinate

end MediaImporter
