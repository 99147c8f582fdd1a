import MediaImporter.Ingest.Books
import MediaImporter.Ingest.BatchEvents
import MediaImporter.Ingest.Alert

/-!
# What is balanced in the books

As long as an import does not fail, its books are balanced: every sequence number that has been
given to a file is in one place, every request that has been made is with the writer or has been
answered, and what the workers have staged is that of the files that are still with them or have
come back. Each kind of booking keeps the balance, and so does each move of a worker and of the
writer.

Balances are stated of weights, so that one move changes two places by the same number.

## Main definitions

* `WorkerBooks`, `WriterBooks` — what a move of a worker, and of the writer, does to the books.
* `Books.Files`, `Books.Bytes`, `Books.Counts`, `Books.Reads`, `Books.Answers` — what is
  balanced.
-/

namespace MediaImporter

open Transition (run Meeting)

/-! ## Files that are read -/

/-- What of a file has been staged. -/
def WorkerPhase.staged : WorkerPhase → ℕ
  | .reading _ n | .readFailed _ n _ | .reported _ n _ => n
  | .stored _ blob | .uncounted _ blob | .holding _ blob => blob.sizeBytes
  | _ => 0

/-- The end of a read is told of if anything was read. -/
def toldEnds (stagedBytes : ℕ) : ℕ := if 0 < stagedBytes then 1 else 0

def WorkerPhase.readEnds : WorkerPhase → ℕ
  | .readFailed _ n _ | .reported _ n _ => toldEnds n
  | .stored _ blob | .uncounted _ blob | .holding _ blob => toldEnds blob.sizeBytes
  | _ => 0

def CompletedWork.size (finished : CompletedWork) : ℕ := finished.blob.sizeBytes

def CompletedWork.readEnds (finished : CompletedWork) : ℕ := toldEnds finished.blob.sizeBytes

def CompletedWork.sequence (finished : CompletedWork) : ℕ := finished.work.sequence

/-- All of the file was stored. -/
def CompletedWork.Whole (finished : CompletedWork) : Prop :=
  finished.blob.sizeBytes = finished.work.candidate.sizeBytes

def WorkerPhase.Whole : WorkerPhase → Prop
  | .stored work blob | .uncounted work blob | .holding work blob =>
      blob.sizeBytes = work.candidate.sizeBytes
  | _ => True

namespace LedgerEntry

def found? : LedgerEntry → Option ℕ
  | .found sequence => some sequence
  | _ => none

def skipped? : LedgerEntry → Option (ℕ × ℕ)
  | .skipped sequence size => some (sequence, size)
  | _ => none

def staged? : LedgerEntry → Option ℕ
  | .staged size => some size
  | _ => none

def readEnded? : LedgerEntry → Option Unit
  | .readEnded => some ()
  | _ => none

def stored? : LedgerEntry → Option (ℕ × StoreOutcome)
  | .stored sequence outcome => some (sequence, outcome)
  | _ => none

def committed? : LedgerEntry → Option ℕ
  | .committed sequence => some sequence
  | _ => none

/-- What workers tell. -/
def ofRead : LedgerEntry → Bool
  | .staged _ | .readEnded => true
  | _ => false

end LedgerEntry

open LedgerEntry

attribute [local simp] List.filterMap_cons IngestEvent.entry

/-! ### Moves of the workers -/

theorem weigh_staged_readCompleted (work : Work) (n : ℕ) :
    ((entries (readCompleted work n)).filterMap staged?).sum = 0 ∧
      ((entries (readCompleted work n)).filterMap readEnded?).length = toldEnds n ∧
      ∀ e ∈ entries (readCompleted work n), e.ofRead = true := by
  unfold readCompleted toldEnds
  split_ifs <;> simp [staged?, readEnded?, ofRead]

/-- What a move of a worker does to the files, and what it tells of them. The file that it drops
was in its last phase. -/
structure WorkerBooks (w w' : SourceWorker) (p p' : Pool) (told : List LedgerEntry)
    (dropped : List WorkerPhase) : Prop where
  last : ∀ phase ∈ dropped, phase = w.phase
  files : ∀ f : Work → ℕ, weigh f p'.jobs + weigh f w'.phase.held +
      weigh (f ∘ CompletedWork.work) p'.completed + weigh (weigh f ∘ WorkerPhase.held) dropped =
    weigh f p.jobs + weigh f w.phase.held + weigh (f ∘ CompletedWork.work) p.completed
  whole : w.phase.Whole → w'.phase.Whole ∧
    ∀ finished ∈ p'.completed, finished ∈ p.completed ∨ finished.Whole
  staged : w'.phase.staged + weigh CompletedWork.size p'.completed +
      weigh WorkerPhase.staged dropped =
    w.phase.staged + weigh CompletedWork.size p.completed + (told.filterMap staged?).sum
  readEnds : w'.phase.readEnds + weigh CompletedWork.readEnds p'.completed +
      weigh WorkerPhase.readEnds dropped =
    w.phase.readEnds + weigh CompletedWork.readEnds p.completed +
      (told.filterMap readEnded?).length
  told : ∀ e ∈ told, e.ofRead = true
  calm : p.cancelled = false → w.Calm → dropped = []

section Worker

variable {w w' : SourceWorker} {p p' : Pool} {events : List IngestEvent} {move : WorkerMove}

/-- A move that changes neither the queues nor the file, and tells nothing. -/
theorem WorkerBooks.of_same (hjobs : p'.jobs = p.jobs) (hcompleted : p'.completed = p.completed)
    (hheld : w'.phase.held = w.phase.held) (hwhole : w.phase.Whole → w'.phase.Whole)
    (hstaged : w'.phase.staged = w.phase.staged) (hends : w'.phase.readEnds = w.phase.readEnds)
    (hevents : entries events = []) : WorkerBooks w w' p p' (entries events) [] := by
  rw [hevents]
  refine ⟨by simp, fun f => ?_, fun h => ⟨hwhole h, fun finished hmem => .inl ?_⟩, ?_, ?_,
    by simp, fun _ _ => rfl⟩
  · rw [hjobs, hcompleted, hheld]
    simp
  · rwa [hcompleted] at hmem
  · rw [hcompleted, hstaged]
    simp
  · rw [hcompleted, hends]
    simp

theorem SourceWorker.step_books (h : w.step p move = some (w', p', events)) :
    ∃ dropped, WorkerBooks w w' p p' (entries events) dropped := by
  cases move <;> simp only [step] at h
  case take work =>
    simp only [Option.ite_none_right_eq_some, Option.some.injEq, Prod.mk.injEq] at h
    obtain ⟨⟨⟨hphase, -⟩, hhead⟩, rfl, rfl, rfl⟩ := h
    refine ⟨[], by simp, fun f => ?_, fun _ => ⟨trivial, fun _ => .inl⟩, ?_, ?_, by simp,
      fun _ _ => rfl⟩
    · have := weigh_tail (f := f) hhead
      simp only [hphase, go, WorkerPhase.held, weigh_cons, weigh_nil]
      omega
    · simp [hphase, go, WorkerPhase.staged]
    · simp [hphase, go, WorkerPhase.readEnds]
  case send work blob =>
    simp only [Option.ite_none_right_eq_some, Option.some.injEq, Prod.mk.injEq] at h
    obtain ⟨⟨⟨hphase, -⟩, -⟩, rfl, rfl, rfl⟩ := h
    refine ⟨[], by simp, fun f => ?_, fun hwhole => ⟨trivial, fun finished hmem => ?_⟩, ?_, ?_,
      by simp, fun _ _ => rfl⟩
    · simp only [hphase, go, WorkerPhase.held, weigh_append, weigh_cons, weigh_nil,
        Function.comp_apply]
      omega
    · rw [hphase] at hwhole
      rcases List.mem_append.1 hmem with hmem | hmem
      · exact .inl hmem
      · rw [List.mem_singleton.1 hmem]
        exact .inr hwhole
    · simp [hphase, go, WorkerPhase.staged, CompletedWork.size]
      omega
    · simp [hphase, go, WorkerPhase.readEnds, CompletedWork.readEnds]
      omega
  case reject work =>
    simp only [Option.ite_none_right_eq_some, Option.some.injEq, Prod.mk.injEq] at h
    obtain ⟨⟨hphase, -⟩, rfl, rfl, rfl⟩ := h
    refine ⟨[w.phase], by simp, fun f => ?_, fun _ => ⟨trivial, fun _ => .inl⟩, ?_, ?_,
      by simp, fun _ hcalm => absurd hphase (hcalm.2.1 work)⟩
    · simp [hphase, go, WorkerPhase.held]
      omega
    · simp [hphase, go, WorkerPhase.staged]
    · simp [hphase, go, WorkerPhase.readEnds]
  case abandon work blob =>
    simp only [Option.ite_none_right_eq_some, Option.some.injEq, Prod.mk.injEq] at h
    obtain ⟨⟨⟨hphase, -⟩, hcancelled⟩, rfl, rfl, rfl⟩ := h
    refine ⟨[w.phase], by simp, fun f => ?_, fun _ => ⟨trivial, fun _ => .inl⟩, ?_, ?_,
      by simp, fun hc => absurd (hcancelled.symm.trans hc) (by simp)⟩
    · simp [hphase, go, WorkerPhase.held]
      omega
    · simp [hphase, go, WorkerPhase.staged]
      omega
    · simp [hphase, go, WorkerPhase.readEnds]
      omega
  case «return» work n context =>
    split at h
    · next active hlowered =>
      simp only [Option.ite_none_right_eq_some, Option.some.injEq, Prod.mk.injEq] at h
      obtain ⟨⟨hphase, -⟩, rfl, rfl, rfl⟩ := h
      refine ⟨[w.phase], by simp, fun f => ?_, fun _ => ⟨trivial, fun _ => .inl⟩, ?_, ?_,
        by simp, fun _ hcalm => absurd hphase (hcalm.2.2 work n context)⟩
      · simp [hphase, WorkerPhase.held]
        omega
      · simp [hphase, WorkerPhase.staged]
        omega
      · simp [hphase, WorkerPhase.readEnds]
        omega
    · cases h
  case stage work n size rendererFailed =>
    simp only [Option.ite_none_right_eq_some, Option.some.injEq, Prod.mk.injEq] at h
    obtain ⟨⟨⟨hphase, -⟩, hpos, -⟩, rfl, rfl, rfl⟩ := h
    obtain ⟨hsum, hends, htold⟩ := weigh_staged_readCompleted work (n + size)
    cases rendererFailed with
    | false =>
        refine ⟨[], by simp, fun f => ?_, fun _ => ⟨trivial, fun _ => .inl⟩, ?_, ?_,
          by simp [ofRead], fun _ _ => rfl⟩
        · simp [hphase, go, WorkerPhase.held]
        · simp [hphase, go, WorkerPhase.staged, staged?]
          omega
        · simp [hphase, go, WorkerPhase.readEnds, readEnded?]
    | true =>
        refine ⟨[], by simp, fun f => ?_, fun _ => ⟨trivial, fun _ => .inl⟩, ?_, ?_, ?_,
          fun _ _ => rfl⟩
        · simp [hphase, go, WorkerPhase.held]
        · simp [hphase, go, WorkerPhase.staged, staged?, hsum]
          omega
        · simp [hphase, go, WorkerPhase.readEnds, readEnded?, hends]
          omega
        · simpa [ofRead] using htold
  case store work n hash outcome =>
    simp only [Option.ite_none_right_eq_some, Option.some.injEq, Prod.mk.injEq] at h
    obtain ⟨⟨⟨hphase, -⟩, hsize⟩, rfl, rfl, rfl⟩ := h
    obtain ⟨hsum, hends, htold⟩ := weigh_staged_readCompleted work n
    refine ⟨[], by simp, fun f => ?_, fun _ => ⟨hsize, fun _ => .inl⟩, ?_, ?_, htold,
      fun _ _ => rfl⟩
    · simp [hphase, go, WorkerPhase.held]
    · simp [hphase, go, WorkerPhase.staged, hsum]
    · simp [hphase, go, WorkerPhase.readEnds, hends]
      omega
  case fail work n context =>
    simp only [Option.ite_none_right_eq_some, Option.some.injEq, Prod.mk.injEq] at h
    obtain ⟨⟨hphase, -⟩, rfl, rfl, rfl⟩ := h
    obtain ⟨hsum, hends, htold⟩ := weigh_staged_readCompleted work n
    refine ⟨[], by simp, fun f => ?_, fun _ => ⟨trivial, fun _ => .inl⟩, ?_, ?_, htold,
      fun _ _ => rfl⟩
    · simp [hphase, go, WorkerPhase.held]
    · simp [hphase, go, WorkerPhase.staged, hsum]
    · simp [hphase, go, WorkerPhase.readEnds, hends]
      omega
  all_goals
    (repeat' (split at h)) <;> simp only [Option.some.injEq, Prod.mk.injEq, reduceCtorEq] at h
    obtain ⟨rfl, rfl, rfl⟩ := h
    refine ⟨[], .of_same rfl rfl ?_ ?_ ?_ ?_ ?_⟩ <;>
      simp_all [At, go, signalling, WorkerPhase.held, WorkerPhase.Whole, WorkerPhase.staged,
        WorkerPhase.readEnds, IngestEvent.completedBlobs]

end Worker

/-! ## What is balanced -/

def Work.isOn (m : MountId) (work : Work) : ℕ := if work.mountId = m then 1 else 0

def Work.size (work : Work) : ℕ := work.candidate.sizeBytes

def CompletedWork.request (finished : CompletedWork) : ImportRequest :=
  ⟨finished.sequence, .imported⟩

def knownRequest (skipped : ℕ × ℕ) : ImportRequest := ⟨skipped.1, .known⟩

/-- The outcomes that are not answered yet. -/
def ImportWriter.left (w : ImportWriter) : List (ImportRequest × ImportWriteOutcome) :=
  match w.phase with
  | .answering left _ => left
  | _ => []

/-- What the writer has been asked and has not answered. -/
def ImportWriter.asked (w : ImportWriter) : List ImportRequest := w.batch ++ w.left.map Prod.fst

abbrev Answer := Except String ImportWriteOutcome

/-- The answer counts as a source record. -/
def recorded (responses : List (ℕ × Answer)) (sequence : ℕ) : ℕ :=
  match responses.lookup sequence with
  | some (.ok (.imported _ _)) => 1
  | _ => 0

namespace Books

variable (b : Books)

def skipped : List (ℕ × ℕ) := b.entries.filterMap skipped?

def committed : List ℕ := b.entries.filterMap committed?

/-- The weight of the files that are with the workers, or on the way to them or from them. -/
def flight (f : Work → ℕ) (phases : List WorkerPhase) : ℕ :=
  weigh f b.jobs + weigh (weigh f ∘ WorkerPhase.held) phases +
    weigh (f ∘ CompletedWork.work) b.completed + weigh (f ∘ CompletedWork.work) b.received

/-- Every file is in one place. -/
structure Files (phases : List WorkerPhase) (finished : List CompletedWork) : Prop where
  sequences : ∀ g : ℕ → ℕ, weigh (g ∘ Work.sequence) b.pending +
      b.flight (g ∘ Work.sequence) phases + weigh (g ∘ CompletedWork.sequence) finished +
      weigh (g ∘ Prod.fst) b.skipped = weigh g (List.range b.sequence)
  active : ∀ m, b.flight (Work.isOn m) phases =
    b.active.count m + weigh (Work.isOn m) b.uncounted
  found : b.entries.filterMap found? = List.range b.sequence ++ b.finding.map fun _ => b.sequence
  stored : b.entries.filterMap stored? = finished.map fun f => (f.sequence, f.blob.outcome)
  whole : ∀ f ∈ b.completed ++ b.received ++ finished, f.Whole
  held : ∀ p ∈ phases, p.Whole

/-- The bytes that were found are those of the files. -/
structure Bytes (phases : List WorkerPhase) (finished : List CompletedWork) : Prop where
  finding : ∀ found ∈ b.finding, found.2 = found.1.sizeBytes
  bytes : b.report.bytesSeen = weigh Work.size b.pending + b.flight Work.size phases +
    weigh CompletedWork.size finished + weigh Prod.snd b.skipped + weigh Prod.snd b.finding

/-- The report is that of the files that are completed or skipped. -/
structure Counts (finished : List CompletedWork) : Prop where
  seen : b.report.filesSeen = b.sequence + b.finding.length
  hashed : b.report.filesHashed = finished.length
  bytesHashed : b.report.bytesHashed = weigh CompletedWork.size finished
  created : b.report.blobsCreated = finished.countP (·.blob.outcome = .created)
  written : b.report.bytesWritten =
    weigh (fun f => if f.blob.outcome = .created then f.size else 0) finished
  reused : b.report.blobsReused =
    finished.countP (·.blob.outcome = .reused) + b.report.filesSkipped
  skips : b.report.filesSkipped + b.settling.length = b.skipped.length
  bytesSkipped : b.report.bytesSkipped + b.settling.sum = weigh Prod.snd b.skipped

/-- What is staged is told of. -/
structure Reads (phases : List WorkerPhase) (finished : List CompletedWork) : Prop where
  staged : (b.entries.filterMap staged?).sum = weigh WorkerPhase.staged phases +
    weigh CompletedWork.size b.completed + weigh CompletedWork.size b.received +
    weigh CompletedWork.size finished
  readEnds : (b.entries.filterMap readEnded?).length = weigh WorkerPhase.readEnds phases +
    weigh CompletedWork.readEnds b.completed + weigh CompletedWork.readEnds b.received +
    weigh CompletedWork.readEnds finished

/-- Every request is for one file, and is with the writer or has its answer. -/
structure Answers (w : ImportWriter) (finished : List CompletedWork)
    (answered : List (ImportRequest × Answer)) : Prop where
  responses : b.responses = answered.map fun a => (a.1.sequence, a.2)
  fits : ∀ a ∈ answered, ∀ outcome, a.2 = .ok outcome → a.1.Fits outcome = true
  left : ∀ a ∈ w.left, a.1.Fits a.2 = true
  requested : ∀ g : ImportRequest → ℕ, weigh g b.requests + weigh g w.asked +
      weigh (g ∘ Prod.fst) answered + weigh (g ∘ CompletedWork.request) b.submitting =
    weigh (g ∘ CompletedWork.request) finished + weigh (g ∘ knownRequest) b.skipped
  tickets : ∀ g : ℕ → ℕ, weigh (g ∘ PendingTicket.sequence) b.tickets + weigh g b.committed =
    weigh (g ∘ ImportRequest.sequence) b.requests + weigh (g ∘ ImportRequest.sequence) w.asked +
      weigh (g ∘ ImportRequest.sequence ∘ Prod.fst) answered
  resolved : ∀ n ∈ b.committed, ∃ outcome, b.responses.lookup n = some (.ok outcome)
  records : b.report.sourceRecordsInserted + b.report.sourceRecordsUpdated =
    b.report.filesSkipped + weigh (recorded b.responses) b.committed
  rows : w.committed.sum = w.left.length + answered.countP (·.2.isOk)

end Books

/-! ### What a booking keeps -/

section Booking

variable {b b' : Books} {phases : List WorkerPhase} {finished newly : List CompletedWork}
  {w : ImportWriter} {answered : List (ImportRequest × Answer)}

namespace Books

theorem Files.booking (h : b.Files phases finished) (hbook : Booking b newly b') :
    b'.Files phases (finished ++ newly) := by
  cases hbook with
  | nothing => simpa using h
  | find candidate size hnone =>
      refine ⟨fun g => ?_, fun m => ?_, ?_, ?_, by simpa using h.whole, h.held⟩
      · have := h.sequences g
        simpa [skipped, flight, skipped?] using this
      · simpa [flight] using h.active m
      · simp [h.found, hnone, found?]
      · simp [h.stored, stored?]
  | enqueue candidate hnone =>
      refine ⟨fun g => ?_, fun m => ?_, ?_, ?_, by simpa using h.whole, h.held⟩
      · have := h.sequences g
        simp [skipped, flight, skipped?, weigh_range_succ] at this ⊢
        omega
      · simpa [flight] using h.active m
      · simp [h.found, hnone, found?, List.range_succ]
      · simp [h.stored, stored?]
  | skip candidate size hone hsettling =>
      refine ⟨fun g => ?_, fun m => ?_, ?_, ?_, by simpa using h.whole, h.held⟩
      · have := h.sequences g
        simp [skipped, flight, skipped?, weigh_range_succ] at this ⊢
        omega
      · simpa [flight] using h.active m
      · simp [h.found, hone, found?, List.range_succ]
      · simp [h.stored, stored?]
  | dispatch i work hwork hnone =>
      refine ⟨fun g => ?_, fun m => ?_, h.found, by simpa using h.stored, by simpa using h.whole,
        h.held⟩
      · have := h.sequences g
        have hpending := weigh_eraseIdx (f := g ∘ Work.sequence) hwork
        simp [skipped, flight] at this hpending ⊢
        omega
      · have := h.active m
        simp [flight, hnone] at this ⊢
        omega
  | count work active hone hraise =>
      refine ⟨fun g => ?_, fun m => ?_, h.found, by simpa using h.stored, by simpa using h.whole,
        h.held⟩
      · simpa [skipped, flight] using h.sequences g
      · have := h.active m
        have hcount := Counters.raise_eq_some hraise m
        simp [flight, hone, Work.isOn, eq_comm] at this hcount ⊢
        omega
  | receive one hhead hnone =>
      refine ⟨fun g => ?_, fun m => ?_, h.found, by simpa using h.stored, ?_, h.held⟩
      · have := h.sequences g
        have htail := weigh_tail (f := (g ∘ Work.sequence) ∘ CompletedWork.work) hhead
        simp [skipped, flight, hnone] at this htail ⊢
        omega
      · have := h.active m
        have htail := weigh_tail (f := Work.isOn m ∘ CompletedWork.work) hhead
        simp [flight, hnone] at this htail ⊢
        omega
      · obtain ⟨rest, hrest⟩ := List.head?_eq_some_iff.1 hhead
        intro f hf
        apply h.whole
        simp [hrest, hnone] at hf ⊢
        tauto
  | complete one n hone hnone hlowered =>
      refine ⟨fun g => ?_, fun m => ?_, ?_, ?_, ?_, h.held⟩
      · have := h.sequences g
        simp [skipped, flight, skipped?, hone, CompletedWork.sequence] at this ⊢
        omega
      · have := h.active m
        have hcount := Counters.count_settle_lowered hlowered m
        simp [flight, hone, Work.isOn, eq_comm] at this hcount ⊢
        omega
      · simp [h.found, found?]
      · simp [h.stored, stored?, CompletedWork.sequence]
      · intro f hf
        apply h.whole
        simp [hone] at hf ⊢
        tauto
  | submit one hone =>
      refine ⟨fun g => ?_, fun m => ?_, h.found, by simpa using h.stored, by simpa using h.whole,
        h.held⟩
      · simpa [skipped, flight] using h.sequences g
      · simpa [flight] using h.active m
  | resolve ticket outcome hhead hresponse =>
      refine ⟨fun g => ?_, fun m => ?_, ?_, ?_, by simpa using h.whole, h.held⟩
      · simpa [skipped, flight, skipped?] using h.sequences g
      · simpa [flight] using h.active m
      · simp [h.found, found?]
      · simp [h.stored, stored?]
  | settle size hone =>
      refine ⟨fun g => ?_, fun m => ?_, h.found, by simpa using h.stored, by simpa using h.whole,
        h.held⟩
      · simpa [skipped, flight] using h.sequences g
      · simpa [flight] using h.active m

theorem Bytes.booking (h : b.Bytes phases finished) (hfiles : b.Files phases finished)
    (hfinding : ∀ found ∈ b'.finding, found.2 = found.1.sizeBytes)
    (hbook : Booking b newly b') : b'.Bytes phases (finished ++ newly) := by
  have hbytes := h.bytes
  refine ⟨hfinding, ?_⟩
  cases hbook with
  | nothing => simpa using hbytes
  | find candidate size hnone =>
      have hsize : size = candidate.sizeBytes := hfinding (candidate, size) (by simp)
      simp [skipped, flight, skipped?, hnone, ImportReport.observedFile] at hbytes ⊢
      omega
  | enqueue candidate hnone =>
      simp [skipped, flight, skipped?, hnone, ImportReport.observedFile, Work.size] at hbytes ⊢
      omega
  | skip candidate size hone hsettling =>
      have hsize : size = candidate.sizeBytes := h.finding (candidate, size) (by simp [hone])
      simp [skipped, flight, skipped?, hone] at hbytes ⊢
      omega
  | dispatch i work hwork hnone =>
      have hpending := weigh_eraseIdx (f := Work.size) hwork
      simp [skipped, flight] at hbytes hpending ⊢
      omega
  | receive one hhead hnone =>
      have htail := weigh_tail (f := Work.size ∘ CompletedWork.work) hhead
      simp [skipped, flight, hnone] at hbytes htail ⊢
      omega
  | complete one n hone hnone hlowered =>
      have hwhole : one.Whole := hfiles.whole one (by simp [hone])
      simp only [CompletedWork.Whole] at hwhole
      simp [skipped, flight, skipped?, hone, ImportReport.hashed, CompletedWork.size,
        Work.size] at hbytes ⊢
      unfold ImportReport.storeOutcome
      split <;> simp <;> omega
  | resolve ticket outcome hhead hresponse =>
      have hreport : (b.report.applyOutcome outcome).bytesSeen = b.report.bytesSeen := by
        cases outcome with
        | observedKnown => rfl
        | imported blob source => cases source <;> rfl
      simpa [skipped, flight, skipped?, hreport] using hbytes
  | count | submit => simpa [skipped, flight] using hbytes
  | settle => simpa [skipped, flight, ImportReport.skipped] using hbytes

theorem Counts.booking (h : b.Counts finished) (hbook : Booking b newly b') :
    b'.Counts (finished ++ newly) := by
  cases hbook with
  | find candidate size hnone | enqueue candidate hnone =>
      rw [List.append_nil]
      refine ⟨?_, h.hashed, h.bytesHashed, h.created, h.written, h.reused, ?_, ?_⟩
      · have := h.seen
        simp [ImportReport.observedFile, hnone] at this ⊢
        omega
      · simpa [skipped, skipped?, ImportReport.observedFile] using h.skips
      · simpa [skipped, skipped?, ImportReport.observedFile] using h.bytesSkipped
  | skip candidate size hone hnone =>
      rw [List.append_nil]
      refine ⟨?_, h.hashed, h.bytesHashed, h.created, h.written, h.reused, ?_, ?_⟩
      · have := h.seen
        simp [hone] at this ⊢
        omega
      · have := h.skips
        simp [skipped, skipped?, hnone] at this ⊢
        omega
      · have := h.bytesSkipped
        simp [skipped, skipped?, hnone] at this ⊢
        omega
  | nothing | dispatch i work hwork hnone | count work active hone hraise
  | receive one hhead hnone | submit one hone =>
      rw [List.append_nil]
      exact ⟨h.seen, h.hashed, h.bytesHashed, h.created, h.written, h.reused, h.skips,
        h.bytesSkipped⟩
  | complete one n hone hnone hlowered =>
      have hseen := h.seen
      have hhashed := h.hashed
      have hbytes := h.bytesHashed
      have hcreated := h.created
      have hwritten := h.written
      have hreused := h.reused
      have hskips := h.skips
      have hbytesSkipped := h.bytesSkipped
      cases houtcome : one.blob.outcome <;>
        refine ⟨?_, ?_, ?_, ?_, ?_, ?_, ?_, ?_⟩ <;>
        simp_all [ImportReport.hashed, ImportReport.storeOutcome, skipped, skipped?,
          CompletedWork.size, List.countP_append]
      omega
  | resolve ticket outcome hhead hresponse =>
      have hreport : ∃ inserted updated, b.report.applyOutcome outcome = { b.report with
          sourceRecordsInserted := inserted, sourceRecordsUpdated := updated } := by
        cases outcome with
        | observedKnown => exact ⟨_, _, rfl⟩
        | imported blob source => cases source <;> exact ⟨_, _, rfl⟩
      obtain ⟨inserted, updated, hreport⟩ := hreport
      rw [List.append_nil]
      refine ⟨?_, ?_, ?_, ?_, ?_, ?_, ?_, ?_⟩ <;> simp only [hreport]
      · exact h.seen
      · exact h.hashed
      · exact h.bytesHashed
      · exact h.created
      · exact h.written
      · exact h.reused
      · simpa [skipped, skipped?] using h.skips
      · simpa [skipped, skipped?] using h.bytesSkipped
  | settle size hone =>
      rw [List.append_nil]
      refine ⟨h.seen, h.hashed, h.bytesHashed, h.created, h.written, ?_, ?_, ?_⟩
      · have := h.reused
        simp [ImportReport.skipped] at this ⊢
        omega
      · have := h.skips
        simp [ImportReport.skipped, hone, skipped] at this ⊢
        omega
      · have := h.bytesSkipped
        simp [ImportReport.skipped, hone, skipped] at this ⊢
        omega

theorem Reads.booking (h : b.Reads phases finished) (hbook : Booking b newly b') :
    b'.Reads phases (finished ++ newly) := by
  have hstaged := h.staged
  have hends := h.readEnds
  cases hbook with
  | receive one hhead hnone =>
      have hsize := weigh_tail (f := CompletedWork.size) hhead
      have hread := weigh_tail (f := CompletedWork.readEnds) hhead
      constructor
      · simp [hnone] at hstaged ⊢
        omega
      · simp [hnone] at hends ⊢
        omega
  | complete one n hone hnone hlowered =>
      constructor
      · simp [hone, staged?] at hstaged ⊢
        omega
      · simp [hone, readEnded?] at hends ⊢
        omega
  | nothing | dispatch i work hwork hnone | count work active hone hraise | submit one hone
  | settle size hone =>
      rw [List.append_nil]
      exact ⟨hstaged, hends⟩
  | find | enqueue | skip | resolve =>
      rw [List.append_nil]
      constructor
      · simpa [staged?] using hstaged
      · simpa [readEnded?] using hends

/-! ### Tickets -/

theorem weigh_insertTicket (f : PendingTicket → ℕ) (ticket : PendingTicket)
    {tickets : List PendingTicket} (hnew : ∀ t ∈ tickets, t.sequence ≠ ticket.sequence) :
    weigh f (insertTicket ticket tickets) = f ticket + weigh f tickets := by
  induction tickets with
  | nil => rfl
  | cons t tickets ih =>
      have hfirst := hnew t List.mem_cons_self
      have hrest := ih fun t' ht' => hnew t' (List.mem_cons_of_mem _ ht')
      unfold insertTicket
      rw [if_neg hfirst.symm]
      split_ifs
      · simp
      · simp only [weigh_cons, hrest]
        omega

/-- No number is in a range twice. -/
theorem weigh_range_le_one (a n : ℕ) :
    weigh (fun m => if m = a then 1 else 0) (List.range n) ≤ if a < n then 1 else 0 := by
  rw [weigh_indicator]
  split_ifs with h
  · have := List.nodup_iff_count_le_one.1 (List.nodup_range (n := n)) a
    rw [List.count_eq_countP] at this
    simpa only [beq_eq_decide] using this
  · rw [Nat.le_zero, List.countP_eq_zero]
    intro m hm
    have := List.mem_range.1 hm
    simp only [decide_eq_true_eq]
    omega

/-- Requests and files have the same numbers. -/
theorem Answers.weigh_requests_le (h : b.Answers w finished answered)
    (hfiles : b.Files phases finished) (g : ℕ → ℕ) :
    weigh (g ∘ ImportRequest.sequence) b.requests + weigh (g ∘ ImportRequest.sequence) w.asked +
      weigh (g ∘ ImportRequest.sequence ∘ Prod.fst) answered +
      weigh (g ∘ CompletedWork.sequence) b.submitting ≤ weigh g (List.range b.sequence) := by
  have hrequested := h.requested (g ∘ ImportRequest.sequence)
  have hsequences := hfiles.sequences g
  have himported : (g ∘ ImportRequest.sequence) ∘ CompletedWork.request =
      g ∘ CompletedWork.sequence := rfl
  have hknown : (g ∘ ImportRequest.sequence) ∘ knownRequest = g ∘ Prod.fst := rfl
  have hanswered : (g ∘ ImportRequest.sequence) ∘ Prod.fst (β := Answer) =
      g ∘ ImportRequest.sequence ∘ Prod.fst := rfl
  rw [himported, hknown, hanswered] at hrequested
  omega

theorem Answers.weigh_le (h : b.Answers w finished answered) (hfiles : b.Files phases finished)
    (g : ℕ → ℕ) : weigh (g ∘ PendingTicket.sequence) b.tickets + weigh g b.committed +
      weigh (g ∘ CompletedWork.sequence) b.submitting ≤ weigh g (List.range b.sequence) := by
  have htickets := h.tickets g
  have hrequests := h.weigh_requests_le hfiles g
  omega

/-- What has been answered is not asked any more, if requests have different numbers. -/
theorem ne_of_weigh_le {n : ℕ} (hle : ∀ g : ℕ → ℕ,
      weigh (g ∘ ImportRequest.sequence) b.requests + weigh (g ∘ ImportRequest.sequence) w.asked +
        weigh (g ∘ ImportRequest.sequence ∘ Prod.fst) answered ≤ weigh g (List.range n))
    {r : ImportRequest} {a : ImportRequest × Answer} (hr : r ∈ b.requests ++ w.asked)
    (ha : a ∈ answered) : a.1.sequence ≠ r.sequence := by
  intro hsequence
  have hweights := hle fun n => if n = r.sequence then 1 else 0
  have hone := weigh_range_le_one r.sequence n
  have hpos := le_weigh
    (f := (fun n => if n = r.sequence then 1 else 0) ∘ ImportRequest.sequence) hr
  have hpos' := le_weigh
    (f := (fun n => if n = r.sequence then 1 else 0) ∘ ImportRequest.sequence ∘ Prod.fst) ha
  rw [Function.comp_apply, if_pos rfl, weigh_append] at hpos
  rw [Function.comp_apply, Function.comp_apply, if_pos hsequence] at hpos'
  split_ifs at hone <;> omega

theorem Answers.lookup_of_asked (h : b.Answers w finished answered)
    (hfiles : b.Files phases finished) {r : ImportRequest} (hr : r ∈ b.requests ++ w.asked) :
    b.responses.lookup r.sequence = none := by
  rw [h.responses, List.lookup_eq_none_iff]
  intro p hp
  obtain ⟨a, ha, rfl⟩ := List.mem_map.1 hp
  have hne := ne_of_weigh_le (n := b.sequence)
    (fun g => le_trans (Nat.le_add_right _ _) (h.weigh_requests_le hfiles g)) hr ha
  exact bne_iff_ne.2 hne.symm

/-- What is asked and not answered has its ticket. -/
theorem Answers.asked_le_tickets (h : b.Answers w finished answered)
    (hfiles : b.Files phases finished) :
    b.requests.length + w.asked.length ≤ b.tickets.length := by
  let open? : ℕ → ℕ := fun n => if b.responses.lookup n = none then 1 else 0
  have hasked : ∀ r ∈ b.requests ++ w.asked, (open? ∘ ImportRequest.sequence) r = 1 :=
    fun r hr => if_pos (h.lookup_of_asked hfiles hr)
  have htickets := h.tickets open?
  have hrequests : weigh (open? ∘ ImportRequest.sequence) b.requests = b.requests.length := by
    rw [← weigh_one (l := b.requests)]
    exact weigh_congr fun r hr => hasked r (List.mem_append_left _ hr)
  have hwriter : weigh (open? ∘ ImportRequest.sequence) w.asked = w.asked.length := by
    rw [← weigh_one (l := w.asked)]
    exact weigh_congr fun r hr => hasked r (List.mem_append_right _ hr)
  have hle : weigh (open? ∘ PendingTicket.sequence) b.tickets ≤ b.tickets.length := by
    rw [← weigh_one (l := b.tickets)]
    refine weigh_le_weigh fun t _ => ?_
    simp only [Function.comp_apply, open?]
    split_ifs <;> omega
  have hcommitted : weigh open? b.committed = 0 := by
    rw [← weigh_zero (l := b.committed)]
    refine weigh_congr fun n hn => if_neg ?_
    obtain ⟨outcome, houtcome⟩ := h.resolved n hn
    rw [houtcome]
    exact Option.some_ne_none _
  omega

/-- A ticket that has no answer is asked for. -/
theorem Answers.asked_of_ticket (h : b.Answers w finished answered) {t : PendingTicket}
    (ht : t ∈ b.tickets) (hnone : b.responses.lookup t.sequence = none) :
    b.requests ++ w.asked ≠ [] := by
  intro hempty
  obtain ⟨hrequests, hasked⟩ := List.append_eq_nil_iff.1 hempty
  let same : ℕ → ℕ := fun n => if n = t.sequence then 1 else 0
  have htickets := h.tickets same
  have hpos := le_weigh (f := same ∘ PendingTicket.sequence) ht
  have hanswered : weigh (same ∘ ImportRequest.sequence ∘ Prod.fst) answered = 0 := by
    rw [← weigh_zero (l := answered)]
    refine weigh_congr fun a ha => if_neg fun hsequence => ?_
    rw [h.responses, List.lookup_eq_none_iff] at hnone
    have hne := hnone (a.1.sequence, a.2) (List.mem_map.2 ⟨a, ha, rfl⟩)
    exact bne_iff_ne.1 hne hsequence.symm
  rw [hrequests, hasked, hanswered, weigh_nil] at htickets
  rw [Function.comp_apply, show same t.sequence = 1 from if_pos rfl] at hpos
  omega

/-- A number that is not in use is that of no ticket. -/
theorem Answers.ticket_ne (h : b.Answers w finished answered) (hfiles : b.Files phases finished)
    {a : ℕ} (hnew : b.sequence ≤ a ∨ ∃ one, b.submitting = [one] ∧ one.sequence = a) :
    ∀ t ∈ b.tickets, t.sequence ≠ a := by
  intro t ht heq
  have hle := h.weigh_le hfiles fun m => if m = a then 1 else 0
  have hone := weigh_range_le_one a b.sequence
  have hticket := le_weigh (f := (fun m => if m = a then 1 else 0) ∘ PendingTicket.sequence) ht
  rw [Function.comp_apply, if_pos heq] at hticket
  rcases hnew with hnew | ⟨one, hsubmitting, hsequence⟩
  · rw [if_neg (by omega)] at hone
    omega
  · rw [hsubmitting] at hle
    simp only [weigh_cons, weigh_nil, Function.comp_apply, hsequence, if_true] at hle
    split_ifs at hone <;> omega

theorem lookup_append {responses more : List (ℕ × Answer)} {n : ℕ} {answer : Answer}
    (h : responses.lookup n = some answer) : (responses ++ more).lookup n = some answer := by
  rw [List.lookup_append, h]
  rfl

theorem Answers.booking (h : b.Answers w finished answered) (hfiles : b.Files phases finished)
    (hbook : Booking b newly b') : b'.Answers w (finished ++ newly) answered := by
  cases hbook with
  | nothing => simpa using h
  | find candidate size hnone =>
      refine ⟨h.responses, h.fits, h.left, fun g => ?_, fun g => ?_, ?_, ?_, h.rows⟩
      · simpa [skipped, skipped?] using h.requested g
      · simpa [committed, committed?] using h.tickets g
      · simpa [committed, committed?] using h.resolved
      · simpa [committed, committed?, ImportReport.observedFile] using h.records
  | enqueue candidate hnone =>
      refine ⟨h.responses, h.fits, h.left, fun g => ?_, fun g => ?_, ?_, ?_, h.rows⟩
      · simpa [skipped, skipped?] using h.requested g
      · simpa [committed, committed?] using h.tickets g
      · simpa [committed, committed?] using h.resolved
      · simpa [committed, committed?, ImportReport.observedFile] using h.records
  | skip candidate size hone hnone =>
      have hnew := h.ticket_ne hfiles (.inl (le_refl b.sequence))
      refine ⟨h.responses, h.fits, h.left, fun g => ?_, fun g => ?_, ?_, ?_, h.rows⟩
      · have := h.requested g
        simp [skipped, skipped?, knownRequest] at this ⊢
        omega
      · have := h.tickets g
        have hinsert := weigh_insertTicket (g ∘ PendingTicket.sequence)
          ⟨b.sequence, candidate.relativePath⟩ hnew
        simp [committed, committed?] at this hinsert ⊢
        omega
      · simpa [committed, committed?] using h.resolved
      · simpa [committed, committed?] using h.records
  | dispatch i work hwork hnone =>
      rw [List.append_nil]
      exact ⟨h.responses, h.fits, h.left, h.requested, h.tickets, h.resolved, h.records, h.rows⟩
  | count work active hone hraise =>
      rw [List.append_nil]
      exact ⟨h.responses, h.fits, h.left, h.requested, h.tickets, h.resolved, h.records, h.rows⟩
  | receive one hhead hnone =>
      rw [List.append_nil]
      exact ⟨h.responses, h.fits, h.left, h.requested, h.tickets, h.resolved, h.records, h.rows⟩
  | complete one n hone hnone hlowered =>
      refine ⟨h.responses, h.fits, h.left, fun g => ?_, fun g => ?_, ?_, ?_, h.rows⟩
      · have := h.requested g
        simp [skipped, skipped?, hnone] at this ⊢
        omega
      · simpa [committed, committed?] using h.tickets g
      · simpa [committed, committed?] using h.resolved
      · have hreport : (b.report.hashed one.blob one.blob.outcome).sourceRecordsInserted =
              b.report.sourceRecordsInserted ∧
            (b.report.hashed one.blob one.blob.outcome).sourceRecordsUpdated =
              b.report.sourceRecordsUpdated ∧
            (b.report.hashed one.blob one.blob.outcome).filesSkipped = b.report.filesSkipped := by
          cases houtcome : one.blob.outcome <;>
            simp [ImportReport.hashed, ImportReport.storeOutcome]
        simpa [committed, committed?, hreport.1, hreport.2.1, hreport.2.2] using h.records
  | submit one hone =>
      have hnew := h.ticket_ne hfiles (.inr ⟨one, hone, rfl⟩)
      rw [List.append_nil]
      refine ⟨h.responses, h.fits, h.left, fun g => ?_, fun g => ?_, h.resolved, h.records,
        h.rows⟩
      · have := h.requested g
        simp [skipped, hone, CompletedWork.request, CompletedWork.sequence] at this ⊢
        omega
      · have := h.tickets g
        have hinsert := weigh_insertTicket (g ∘ PendingTicket.sequence)
          ⟨one.work.sequence, one.work.candidate.relativePath⟩ hnew
        simp [committed] at this hinsert ⊢
        omega
  | resolve ticket outcome hhead hresponse =>
      rw [List.append_nil]
      refine ⟨h.responses, h.fits, h.left, fun g => ?_, fun g => ?_, ?_, ?_, h.rows⟩
      · simpa [skipped, skipped?] using h.requested g
      · have := h.tickets g
        have htail := weigh_tail (f := g ∘ PendingTicket.sequence) hhead
        simp [committed, committed?] at this htail ⊢
        omega
      · intro n hn
        simp only [committed, List.filterMap_append, List.filterMap_cons, committed?,
          List.filterMap_nil, List.mem_append, List.mem_singleton] at hn
        rcases hn with hn | rfl
        · exact h.resolved n hn
        · exact ⟨outcome, hresponse⟩
      · have := h.records
        have hrecorded : recorded b.responses ticket.sequence =
            match (some (.ok outcome) : Option Answer) with
            | some (.ok (.imported _ _)) => 1
            | _ => 0 := by
          rw [← hresponse]
          rfl
        cases outcome with
        | observedKnown =>
            simp [committed, committed?, ImportReport.applyOutcome, hrecorded] at this ⊢
            omega
        | imported blob source =>
            cases source <;>
              simp [committed, committed?, ImportReport.applyOutcome, ImportReport.sourceOutcome,
                hrecorded] at this ⊢ <;> omega
  | settle size hone =>
      rw [List.append_nil]
      refine ⟨h.responses, h.fits, h.left, h.requested, h.tickets, h.resolved, ?_, h.rows⟩
      have := h.records
      simp [committed, ImportReport.skipped] at this ⊢
      omega

end Books

end Booking

/-! ### What a worker keeps -/

/-- One worker goes on to another phase, and files are dropped in the phase it was in. -/
structure PhaseStep (w w' : SourceWorker) (phases phases' dropped : List WorkerPhase) :
    Prop where
  weights : ∀ f : WorkerPhase → ℕ,
    weigh f phases' + f w.phase = weigh f phases + f w'.phase + weigh f dropped
  before : w.phase ∈ phases
  after : ∀ phase ∈ phases', phase ∈ phases ∨ phase = w'.phase

theorem phaseStep_set {workers : List SourceWorker} {w w' : SourceWorker} {i : ℕ}
    {dropped more : List WorkerPhase} (hw : workers[i]? = some w)
    (hmore : ∀ phase ∈ more, phase = w.phase) :
    PhaseStep w w' (workers.map (·.phase) ++ dropped)
      ((workers.set i w').map (·.phase) ++ (dropped ++ more)) more := by
  have hmem : w.phase ∈ workers.map (·.phase) :=
    List.mem_map.2 ⟨w, List.mem_of_getElem? hw, rfl⟩
  refine ⟨fun f => ?_, List.mem_append_left _ hmem, fun phase hphase => ?_⟩
  · have hset := weigh_set (f := f ∘ SourceWorker.phase) (b := w') hw
    simp only [weigh_append, weigh_map, Function.comp_apply] at hset ⊢
    have hcomp : f ∘ (fun v : SourceWorker => v.phase) = f ∘ SourceWorker.phase := rfl
    rw [hcomp]
    omega
  · rcases List.mem_append.1 hphase with hphase | hphase
    · obtain ⟨v, hv, rfl⟩ := List.mem_map.1 hphase
      rcases List.mem_or_eq_of_mem_set hv with hv | rfl
      · exact .inl (List.mem_append_left _ (List.mem_map.2 ⟨v, hv, rfl⟩))
      · exact .inr rfl
    · left
      rcases List.mem_append.1 hphase with hphase | hphase
      · exact List.mem_append_right _ hphase
      · rw [hmore phase hphase]
        exact List.mem_append_left _ hmem

theorem filterMap_of_read {α : Type} {f : LedgerEntry → Option α} {told : List LedgerEntry}
    (hf : ∀ e, e.ofRead = true → f e = none) (htold : ∀ e ∈ told, e.ofRead = true) :
    told.filterMap f = [] :=
  List.filterMap_eq_nil_iff.2 fun e he => hf e (htold e he)

section Work

variable {b : Books} {w w' : SourceWorker} {p p' : Pool} {told : List LedgerEntry}
  {phases phases' dropped : List WorkerPhase} {finished : List CompletedWork}
  {writer : ImportWriter} {answered : List (ImportRequest × Answer)}

/-- The books after a move of a worker. -/
def Books.worked (b : Books) (p : Pool) (told : List LedgerEntry) : Books :=
  { b with jobs := p.jobs, completed := p.completed, entries := b.entries ++ told }

namespace Books

theorem skipped_worked (htold : ∀ e ∈ told, e.ofRead = true) :
    (b.worked p told).skipped = b.skipped := by
  have hnone := filterMap_of_read (f := skipped?) (fun e he => by cases e <;> simp_all [ofRead,
    skipped?]) htold
  simp [worked, skipped, hnone]

theorem committed_worked (htold : ∀ e ∈ told, e.ofRead = true) :
    (b.worked p told).committed = b.committed := by
  have hnone := filterMap_of_read (f := committed?) (fun e he => by cases e <;> simp_all [ofRead,
    committed?]) htold
  simp [worked, committed, hnone]

theorem flight_worked (hwork : WorkerBooks w w' p p' told dropped)
    (hphases : PhaseStep w w' phases phases' dropped) (hjobs : b.jobs = p.jobs)
    (hcompleted : b.completed = p.completed) (f : Work → ℕ) :
    (b.worked p' told).flight f phases' = b.flight f phases := by
  have hfiles := hwork.files f
  have hweights := hphases.weights (weigh f ∘ WorkerPhase.held)
  simp only [flight, worked, hjobs, hcompleted, Function.comp_apply] at hfiles hweights ⊢
  omega

theorem Files.worked (h : b.Files phases finished) (hwork : WorkerBooks w w' p p' told dropped)
    (hphases : PhaseStep w w' phases phases' dropped) (hjobs : b.jobs = p.jobs)
    (hcompleted : b.completed = p.completed) : (b.worked p' told).Files phases' finished := by
  have hflight := flight_worked hwork hphases hjobs hcompleted
  have hskipped := skipped_worked (b := b) (p := p') hwork.told
  have hfound := filterMap_of_read (f := found?) (fun e he => by cases e <;> simp_all [ofRead,
    found?]) hwork.told
  have hstored := filterMap_of_read (f := stored?) (fun e he => by cases e <;> simp_all [ofRead,
    stored?]) hwork.told
  obtain ⟨hwhole, hnew⟩ := hwork.whole (h.held _ hphases.before)
  refine ⟨fun g => ?_, fun m => ?_, ?_, ?_, ?_, ?_⟩
  · rw [hflight, hskipped]
    exact h.sequences g
  · rw [hflight]
    exact h.active m
  · simpa [Books.worked, hfound] using h.found
  · simpa [Books.worked, hstored] using h.stored
  · intro f hf
    rcases List.mem_append.1 hf with hf | hf
    · rcases List.mem_append.1 hf with hf | hf
      · rcases hnew f hf with hold | hwhole
        · exact h.whole f (by simp [hcompleted, hold])
        · exact hwhole
      · have hf : f ∈ b.received := hf
        exact h.whole f (by simp [hf])
    · exact h.whole f (by simp [hf])
  · intro phase hphase
    rcases hphases.after phase hphase with hphase | rfl
    · exact h.held phase hphase
    · exact hwhole

theorem Bytes.worked (h : b.Bytes phases finished) (hwork : WorkerBooks w w' p p' told dropped)
    (hphases : PhaseStep w w' phases phases' dropped) (hjobs : b.jobs = p.jobs)
    (hcompleted : b.completed = p.completed) : (b.worked p' told).Bytes phases' finished := by
  refine ⟨h.finding, ?_⟩
  rw [flight_worked hwork hphases hjobs hcompleted, skipped_worked (b := b) (p := p') hwork.told]
  exact h.bytes

theorem Counts.worked (h : b.Counts finished) (htold : ∀ e ∈ told, e.ofRead = true) :
    (b.worked p told).Counts finished := by
  have hskipped := skipped_worked (b := b) (p := p) htold
  refine ⟨h.seen, h.hashed, h.bytesHashed, h.created, h.written, h.reused, ?_, ?_⟩
  · rw [hskipped]
    exact h.skips
  · rw [hskipped]
    exact h.bytesSkipped

theorem Reads.worked (h : b.Reads phases finished) (hwork : WorkerBooks w w' p p' told dropped)
    (hphases : PhaseStep w w' phases phases' dropped) (hcompleted : b.completed = p.completed) :
    (b.worked p' told).Reads phases' finished := by
  constructor
  · have hstaged := h.staged
    have hmove := hwork.staged
    have hweights := hphases.weights WorkerPhase.staged
    simp only [Books.worked, List.filterMap_append, List.sum_append, hcompleted] at hstaged ⊢
    omega
  · have hends := h.readEnds
    have hmove := hwork.readEnds
    have hweights := hphases.weights WorkerPhase.readEnds
    simp only [Books.worked, List.filterMap_append, List.length_append, hcompleted] at hends ⊢
    omega

theorem Answers.worked (h : b.Answers writer finished answered)
    (htold : ∀ e ∈ told, e.ofRead = true) :
    (b.worked p told).Answers writer finished answered := by
  have hskipped := skipped_worked (b := b) (p := p) htold
  have hcommitted := committed_worked (b := b) (p := p) htold
  refine ⟨h.responses, h.fits, h.left, fun g => ?_, fun g => ?_, ?_, ?_, h.rows⟩
  · rw [hskipped]
    exact h.requested g
  · rw [hcommitted]
    exact h.tickets g
  · rw [hcommitted]
    exact h.resolved
  · rw [hcommitted]
    exact h.records

end Books

end Work

/-! ### What the writer keeps -/

section Writer

variable {b : Books} {config : CatalogWriterConfig} {w w' : ImportWriter} {l l' : CatalogLink}
  {finished : List CompletedWork} {answered newly : List (ImportRequest × Answer)}
  {move : ImportWriterMove}

/-- What a move of the writer does to the requests, and the answers that it gives. -/
structure WriterBooks (w w' : ImportWriter) (l l' : CatalogLink)
    (newly : List (ImportRequest × Answer)) : Prop where
  responses : l'.responses = l.responses ++ newly.map fun a => (a.1.sequence, a.2)
  fits : ∀ a ∈ newly, ∀ outcome, a.2 = .ok outcome → a.1.Fits outcome = true
  left : ∀ a ∈ w'.left, a.1.Fits a.2 = true
  requests : ∀ g : ImportRequest → ℕ, weigh g l'.requests + weigh g w'.asked +
    weigh (g ∘ Prod.fst) newly = weigh g l.requests + weigh g w.asked
  rows : w'.committed.sum + w.left.length =
    w.committed.sum + w'.left.length + newly.countP (·.2.isOk)

/-- A move that neither asks nor answers anything. -/
theorem WriterBooks.of_same (hresponses : l'.responses = l.responses)
    (hrequests : l'.requests = l.requests) (hbatch : w'.batch = w.batch)
    (hleft' : w'.left = w.left) (hcommitted : w'.committed = w.committed)
    (hleft : ∀ a ∈ w.left, a.1.Fits a.2 = true) : WriterBooks w w' l l' [] := by
  refine ⟨by simp [hresponses], by simp, by rwa [hleft'], fun g => ?_, ?_⟩
  · simp [hrequests, ImportWriter.asked, hbatch, hleft']
  · simp [hleft', hcommitted]

theorem ImportWriter.step_books (h : w.step config l move = some (w', l'))
    (hleft : ∀ a ∈ w.left, a.1.Fits a.2 = true) : ∃ newly, WriterBooks w w' l l' newly := by
  cases move <;> simp only [step] at h
  case receive request =>
    simp only [Option.ite_none_right_eq_some, Option.some.injEq, Prod.mk.injEq] at h
    obtain ⟨⟨hphase, hhead, -⟩, rfl, rfl⟩ := h
    refine ⟨[], by simp, by simp, hleft, fun g => ?_, by simp [left]⟩
    have := weigh_tail (f := g) hhead
    simp [asked, left, hphase]
    omega
  case commit outcomes =>
    simp only [Option.ite_none_right_eq_some, Option.some.injEq, Prod.mk.injEq] at h
    obtain ⟨⟨hphase, hlength, hall⟩, rfl, rfl⟩ := h
    have hfst : (w.batch.zip outcomes).map Prod.fst = w.batch :=
      List.map_fst_zip (Nat.le_of_eq hlength)
    refine ⟨[], by simp, by simp, ?_, fun g => ?_, ?_⟩
    · intro a ha
      exact List.all_eq_true.1 hall a ha
    · simp only [asked, left, hphase, hfst]
      simp
    · simp [left, hphase, hlength]
  case rollBack context =>
    simp only [Option.ite_none_right_eq_some, Option.some.injEq, Prod.mk.injEq] at h
    obtain ⟨⟨hphase, -⟩, rfl, rfl⟩ := h
    refine ⟨w.batch.map fun r => (r, .error context), ?_, ?_, ?_, fun g => ?_, ?_⟩
    · simp [Function.comp_def]
    · simp
    · simp [left]
    · simp [asked, left, hphase, CatalogLink.emit, Function.comp_def]
    · simp [left, hphase, List.countP_map, Function.comp_def, Except.isOk, Except.toBool]
  case answer =>
    split at h
    · next request outcome rest size hphase =>
      simp only [Option.ite_none_right_eq_some, Option.some.injEq, Prod.mk.injEq] at h
      obtain ⟨-, rfl, rfl⟩ := h
      have hcons : w.left = (request, outcome) :: rest := by rw [left, hphase]
      rw [hcons] at hleft
      refine ⟨[(request, .ok outcome)], ?_, ?_, ?_, fun g => ?_, ?_⟩
      · simp
      · simpa using hleft _ List.mem_cons_self
      · intro a ha
        exact hleft a (List.mem_cons_of_mem _ ha)
      · simp only [asked, hcons]
        simp [left, CatalogLink.emit]
        omega
      · rw [hcons]
        simp [left, Except.isOk, Except.toBool]
        omega
    · cases h
  case reject =>
    split at h
    · next context hphase =>
      obtain ⟨rfl, rfl⟩ := Prod.mk.inj (Option.some.inj h)
      refine ⟨l.requests.map fun r => (r, .error context), ?_, ?_, ?_, fun g => ?_, ?_⟩
      · simp [Function.comp_def]
      · simp
      · simp [left]
      · have hcomp : (g ∘ Prod.fst) ∘ (fun r : ImportRequest => (r, (.error context : Answer))) =
            g := rfl
        simp [asked, left, hphase, hcomp]
        omega
      · simp [left, hphase, List.countP_map, Function.comp_def, Except.isOk, Except.toBool]
    · cases h
  all_goals
    (repeat' (split at h)) <;> simp only [Option.some.injEq, Prod.mk.injEq, reduceCtorEq] at h <;>
      obtain ⟨rfl, rfl⟩ := h <;>
      refine ⟨[], .of_same rfl rfl rfl ?_ rfl hleft⟩ <;> simp_all [left]
  next size _ _ => cases size <;> rfl

/-- The books after a move of the writer. -/
def Books.linked (b : Books) (l : CatalogLink) : Books :=
  { b with requests := l.requests, responses := l.responses }

theorem recorded_append {responses more : List (ℕ × Answer)} {n : ℕ}
    (h : ∃ outcome, responses.lookup n = some (.ok outcome)) :
    recorded (responses ++ more) n = recorded responses n := by
  obtain ⟨outcome, houtcome⟩ := h
  rw [recorded, recorded, Books.lookup_append houtcome, houtcome]

theorem Books.Answers.linked (h : b.Answers w finished answered)
    (hwrites : WriterBooks w w' l l' newly) (hrequests : b.requests = l.requests)
    (hresponses : b.responses = l.responses) :
    (b.linked l').Answers w' finished (answered ++ newly) := by
  have hall : (b.linked l').responses = b.responses ++ newly.map fun a => (a.1.sequence, a.2) := by
    rw [hresponses]
    exact hwrites.responses
  refine ⟨?_, ?_, hwrites.left, fun g => ?_, fun g => ?_, ?_, ?_, ?_⟩
  · rw [hall, h.responses, List.map_append]
  · intro a ha
    rcases List.mem_append.1 ha with ha | ha
    · exact h.fits a ha
    · exact hwrites.fits a ha
  · have hrequested := h.requested g
    have hmove := hwrites.requests g
    rw [hrequests] at hrequested
    simp only [Books.linked, Books.skipped, weigh_append] at hrequested ⊢
    omega
  · have htickets := h.tickets g
    have hmove := hwrites.requests (g ∘ ImportRequest.sequence)
    have hcomp : (g ∘ ImportRequest.sequence) ∘ Prod.fst (β := Answer) =
        g ∘ ImportRequest.sequence ∘ Prod.fst := rfl
    rw [hrequests] at htickets
    rw [hcomp] at hmove
    simp only [Books.linked, Books.committed, weigh_append] at htickets ⊢
    omega
  · intro n hn
    obtain ⟨outcome, houtcome⟩ := h.resolved n hn
    exact ⟨outcome, by rw [hall]; exact Books.lookup_append houtcome⟩
  · have hsame : weigh (recorded (b.linked l').responses) b.committed =
        weigh (recorded b.responses) b.committed := by
      rw [hall]
      exact weigh_congr fun n hn => recorded_append (h.resolved n hn)
    rw [show (b.linked l').committed = b.committed from rfl, hsame]
    exact h.records
  · have := h.rows
    have := hwrites.rows
    rw [List.countP_append]
    omega

end Writer

end MediaImporter
