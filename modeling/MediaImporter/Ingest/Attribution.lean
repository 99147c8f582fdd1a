import MediaImporter.Catalog.Answers
import MediaImporter.Lib.Transition

/-!
# Which file is named as the failed one

The coordinator submits files to the catalog writer in the order in which they are stored, and
awaits the tickets it gets for that in the order of their sequences. When a record fails in the
writer, `resolve_ticket` names the file that the answer to the awaited ticket tells of. That is
the file that has failed if the awaited one was in its batch. A file behind the batch is told
of itself, and is named instead.

## Main definitions

* `resolveTicket` — what is said of a ticket that is awaited.
* `Awaiting`, `Awaiting.step` — the coordinator, between its tickets and the writer.
* `resolveTicket_names` — when the file that is named is the one that has failed.
-/

namespace MediaImporter

open Transition (run run_invariant)

/-- The path of the file that a request is about. -/
def PendingImport.path (item : PendingImport) : SourceRelativePath := item.request.sourcePath

/-- `resolve catalog outcome for sequence ... source ... (awaiting sequence ... source ...)`. -/
structure OutcomeFailure where
  failedSequence : ℕ
  failedPath : SourceRelativePath
  awaited : PendingImport
  cause : ImportWriteFailure

/-- Await the ticket of a request, while others are outstanding. -/
def resolveTicket (outbox : List Message) (ticket : PendingImport) (pending : List PendingImport) :
    Except OutcomeFailure ImportWriteOutcome :=
  match resolveDetailed outbox ticket with
  | .ok outcome => .ok outcome
  | .error error => .error
      { failedSequence := error.sequence
        failedPath :=
          if error.sequence = ticket.sequence then ticket.path
          else ((pending.find? (·.sequence = error.sequence)).map (·.path)).getD ticket.path
        awaited := ticket
        cause := error }

/-- Tickets are kept in the order of their sequences. -/
def keepTicket (item : PendingImport) : List PendingImport → List PendingImport
  | [] => [item]
  | t :: tickets =>
      if item.sequence < t.sequence then item :: t :: tickets
      else if item.sequence = t.sequence then item :: tickets
      else t :: keepTicket item tickets

/-- What has been submitted, in order, what of it is outstanding, and the failure that has ended
the import. -/
structure Awaiting where
  submitted : List PendingImport
  tickets : List PendingImport
  failure : Option OutcomeFailure

def Awaiting.start : Awaiting := ⟨[], [], none⟩

inductive AwaitMove
  | submit (item : PendingImport)
  | resolve

/-- Requests are submitted in any order, each with a sequence and a channel of its own, and the
first ticket can be awaited at any time. `outbox` is what the writer has answered in the end. -/
def Awaiting.step (outbox : List Message) (s : Awaiting) : AwaitMove → Option Awaiting
  | .submit item =>
      if s.failure.isNone ∧ item.sequence ∉ s.submitted.map PendingImport.sequence ∧
          item.response ∉ s.submitted.map PendingImport.response then
        some { s with
          submitted := s.submitted ++ [item]
          tickets := keepTicket item s.tickets }
      else none
  | .resolve => match s.failure, s.tickets with
    | none, ticket :: tickets => match resolveTicket outbox ticket tickets with
      | .ok _ => some { s with tickets }
      | .error failure => some { s with tickets, failure := some failure }
    | _, _ => none

section Tickets

variable {item other : PendingImport} {tickets submitted : List PendingImport}

theorem mem_keepTicket (item : PendingImport) (tickets : List PendingImport) :
    item ∈ keepTicket item tickets := by
  induction tickets with
  | nil => exact List.mem_singleton_self item
  | cons t tickets ih =>
      rw [keepTicket]
      split_ifs
      · exact List.mem_cons_self
      · exact List.mem_cons_self
      · exact List.mem_cons_of_mem _ ih

/-- A ticket of another sequence is kept. -/
theorem mem_keepTicket_of_mem (h : other ∈ tickets) (hne : other.sequence ≠ item.sequence) :
    other ∈ keepTicket item tickets := by
  induction tickets with
  | nil => cases h
  | cons t tickets ih =>
      rw [keepTicket]
      rcases List.mem_cons.1 h with rfl | h
      · split_ifs with hlt heq
        · exact List.mem_cons_of_mem _ List.mem_cons_self
        · exact absurd heq.symm hne
        · exact List.mem_cons_self
      · split_ifs
        · exact List.mem_cons_of_mem _ (List.mem_cons_of_mem _ h)
        · exact List.mem_cons_of_mem _ h
        · exact List.mem_cons_of_mem _ (ih h)

theorem mem_of_mem_keepTicket (h : other ∈ keepTicket item tickets) :
    other = item ∨ other ∈ tickets := by
  induction tickets with
  | nil => exact Or.inl (List.mem_singleton.1 h)
  | cons t tickets ih =>
      rw [keepTicket] at h
      split_ifs at h
      · exact List.mem_cons.1 h
      · exact (List.mem_cons.1 h).imp id (List.mem_cons_of_mem _)
      · rcases List.mem_cons.1 h with rfl | h
        · exact Or.inr List.mem_cons_self
        · exact (ih h).imp id (List.mem_cons_of_mem _)

/-- Requests are told apart by their sequences. -/
theorem eq_of_sequence_eq (hdistinct : (submitted.map PendingImport.sequence).Nodup)
    (hitem : item ∈ submitted) (hother : other ∈ submitted)
    (h : item.sequence = other.sequence) : item = other :=
  List.inj_on_of_nodup_map hdistinct hitem hother h

end Tickets

namespace Awaiting

variable {outbox : List Message} {s t : Awaiting}

/-- What holds while tickets are awaited: the requests are told apart, the outstanding ones are
submitted, and the others have been answered well. A failure is the one of a ticket that was
outstanding with all the others that had not been answered. -/
structure Sound (outbox : List Message) (s : Awaiting) : Prop where
  sequences : (s.submitted.map PendingImport.sequence).Nodup
  channels : (s.submitted.map PendingImport.response).Nodup
  subset : s.tickets ⊆ s.submitted
  answered : ∀ item ∈ s.submitted, item ∈ s.tickets ∨
    (∃ failure, s.failure = some failure ∧ failure.awaited = item) ∨
    ∃ outcome, resolveDetailed outbox item = .ok outcome
  failed : ∀ failure, s.failure = some failure → failure.awaited ∈ s.submitted ∧
    resolveTicket outbox failure.awaited s.tickets = .error failure

theorem Sound.start (outbox : List Message) : start.Sound outbox :=
  ⟨List.nodup_nil, List.nodup_nil, List.Subset.refl _, (fun item hitem => by cases hitem),
    fun failure h => by cases h⟩

theorem Sound.submit (h : s.Sound outbox) {item : PendingImport} (hfailure : s.failure = none)
    (hsequence : item.sequence ∉ s.submitted.map PendingImport.sequence)
    (hchannel : item.response ∉ s.submitted.map PendingImport.response) :
    ({ s with submitted := s.submitted ++ [item], tickets := keepTicket item s.tickets } :
      Awaiting).Sound outbox := by
  have nodup_snoc : ∀ (l : List ℕ) (n : ℕ), l.Nodup → n ∉ l → (l ++ [n]).Nodup := by
    intro l n hl hn
    rw [List.nodup_append]
    refine ⟨hl, List.nodup_singleton n, fun a ha b hb hab => hn ?_⟩
    rw [← List.mem_singleton.1 hb, ← hab]
    exact ha
  refine ⟨?_, ?_, fun other hother => ?_, fun other hother => ?_, fun failure hfailed => ?_⟩
  · rw [List.map_append]
    exact nodup_snoc _ _ h.sequences hsequence
  · rw [List.map_append]
    exact nodup_snoc _ _ h.channels hchannel
  · rcases mem_of_mem_keepTicket hother with rfl | hother
    · exact List.mem_append_right _ (List.mem_singleton_self _)
    · exact List.mem_append_left _ (h.subset hother)
  · rcases List.mem_append.1 hother with hold | hnew
    · rcases h.answered other hold with hticket | ⟨failure, hfailed, -⟩ | houtcome
      · left
        apply mem_keepTicket_of_mem hticket
        intro hsame
        apply hsequence
        rw [← hsame]
        exact List.mem_map_of_mem hold
      · rw [hfailure] at hfailed
        cases hfailed
      · exact Or.inr (Or.inr houtcome)
    · left
      rw [List.mem_singleton.1 hnew]
      exact mem_keepTicket item s.tickets
  · change s.failure = some failure at hfailed
    rw [hfailure] at hfailed
    cases hfailed

theorem resolveTicket_ok {ticket : PendingImport} {pending : List PendingImport}
    {outcome : ImportWriteOutcome} (h : resolveTicket outbox ticket pending = .ok outcome) :
    resolveDetailed outbox ticket = .ok outcome := by
  rw [resolveTicket] at h
  split at h
  · next outcome' hdetailed =>
      rw [hdetailed, Except.ok.inj h]
  · cases h

theorem awaited_of_resolveTicket {ticket : PendingImport} {pending : List PendingImport}
    {failure : OutcomeFailure} (h : resolveTicket outbox ticket pending = .error failure) :
    failure.awaited = ticket := by
  rw [resolveTicket] at h
  split at h
  · cases h
  · rw [← Except.error.inj h]

theorem Sound.step (h : s.Sound outbox) (move : AwaitMove)
    (hstep : s.step outbox move = some t) : t.Sound outbox := by
  cases move with
  | submit item =>
      simp only [Awaiting.step, Option.ite_none_right_eq_some, Option.some.injEq] at hstep
      obtain ⟨⟨hfailure, hsequence, hchannel⟩, rfl⟩ := hstep
      exact h.submit (Option.isNone_iff_eq_none.1 hfailure) hsequence hchannel
  | resolve =>
      rw [Awaiting.step] at hstep
      split at hstep
      · next ticket tickets hfailure htickets =>
          have hsubset : ∀ other ∈ tickets, other ∈ s.submitted := fun other hother =>
            h.subset (by rw [htickets]; exact List.mem_cons_of_mem _ hother)
          have hticket : ticket ∈ s.submitted :=
            h.subset (by rw [htickets]; exact List.mem_cons_self)
          have hothers : ∀ item ∈ s.submitted, item = ticket ∨ item ∈ tickets ∨
              ∃ outcome, resolveDetailed outbox item = .ok outcome := by
            intro item hitem
            rcases h.answered item hitem with hmem | ⟨failure, hfailed, -⟩ | houtcome
            · rw [htickets] at hmem
              exact (List.mem_cons.1 hmem).imp id Or.inl
            · rw [hfailure] at hfailed
              cases hfailed
            · exact Or.inr (Or.inr houtcome)
          cases hresolve : resolveTicket outbox ticket tickets with
          | ok outcome =>
              rw [hresolve] at hstep
              cases hstep
              refine ⟨h.sequences, h.channels, hsubset, fun item hitem => ?_, fun failure hf => ?_⟩
              · rcases hothers item hitem with rfl | hmem | houtcome
                · exact Or.inr (Or.inr ⟨outcome, resolveTicket_ok hresolve⟩)
                · exact Or.inl hmem
                · exact Or.inr (Or.inr houtcome)
              · change s.failure = some failure at hf
                rw [hfailure] at hf
                cases hf
          | error failure =>
              rw [hresolve] at hstep
              cases hstep
              have hawaited := awaited_of_resolveTicket hresolve
              refine ⟨h.sequences, h.channels, hsubset, fun item hitem => ?_, fun other hf => ?_⟩
              · rcases hothers item hitem with rfl | hmem | houtcome
                · exact Or.inr (Or.inl ⟨failure, rfl, hawaited⟩)
                · exact Or.inl hmem
                · exact Or.inr (Or.inr houtcome)
              · obtain rfl : failure = other := Option.some.inj hf
                rw [hawaited]
                exact ⟨hticket, hresolve⟩
      · cases hstep

theorem sound_of_run {moves : List AwaitMove} (h : run (step outbox) start moves = some s) :
    s.Sound outbox :=
  run_invariant (P := Sound outbox) (.start outbox) (fun _ m _ hu => hu.step m) h

/-- A ticket that is told of a record of the batch: the record is named with its own path. -/
theorem Sound.names_batch (h : s.Sound outbox) {failure : OutcomeFailure} {item : PendingImport}
    {context : String} (hfailure : s.failure = some failure) (hitem : item ∈ s.submitted)
    (htold : resolveDetailed outbox failure.awaited = .error ⟨item.sequence, context⟩)
    (hfailed : ∀ outcome, resolveDetailed outbox item ≠ .ok outcome) :
    failure.failedSequence = item.sequence ∧ failure.failedPath = item.path := by
  obtain ⟨hawaited, hresolve⟩ := h.failed failure hfailure
  rw [resolveTicket, htold] at hresolve
  have hnamed := (Except.error.inj hresolve).symm
  rw [hnamed]
  refine ⟨rfl, ?_⟩
  dsimp only
  split_ifs with hown
  · rw [eq_of_sequence_eq h.sequences hitem hawaited hown]
  · have houtstanding : item ∈ s.tickets := by
      rcases h.answered item hitem with hticket | ⟨other, hother, hsame⟩ | ⟨outcome, hok⟩
      · exact hticket
      · rw [hfailure] at hother
        cases hother
        exact absurd (congrArg PendingImport.sequence hsame.symm) hown
      · exact absurd hok (hfailed outcome)
    have hfound : (s.tickets.find? (·.sequence = item.sequence)).isSome = true := by
      rw [List.find?_isSome]
      exact ⟨item, houtstanding, by simp⟩
    obtain ⟨found, hfind⟩ := Option.isSome_iff_exists.1 hfound
    have hsame : found.sequence = item.sequence := by simpa using List.find?_some hfind
    have hmem := h.subset (List.mem_of_find?_eq_some hfind)
    rw [hfind, eq_of_sequence_eq h.sequences hmem hitem hsame]
    rfl

/-- A ticket that is told of itself is named. -/
theorem Sound.names_awaited (h : s.Sound outbox) {failure : OutcomeFailure} {context : String}
    (hfailure : s.failure = some failure)
    (htold : resolveDetailed outbox failure.awaited = .error ⟨failure.awaited.sequence, context⟩) :
    failure.failedSequence = failure.awaited.sequence := by
  obtain ⟨-, hresolve⟩ := h.failed failure hfailure
  rw [resolveTicket, htold] at hresolve
  rw [← Except.error.inj hresolve]

end Awaiting

section Names

variable [SqlArithmetic] {config : CatalogWriterConfig} {env : WriterEnvironment} {n : ℕ}
  {world v : WriterWorld} {s : Awaiting} {moves : List AwaitMove} {failure : OutcomeFailure}
  {sequence : ℕ} {path : SourceRelativePath} {cause : String}

/-- **Attribution**: the requests are taken in the order in which they are submitted, in batches
as the clock has it, and one of their records fails. The first ticket that is told of a failure
names the record that has failed if and only if it is one of the batch of that record. -/
theorem resolveTicket_names (hempty : world.outbox = []) (honly : OnlyImports world.arrivals)
    (hwriter : Program.exec (writerHandler env) (writerLoop config n) world =
      (.error (.batchFailed sequence path cause), v))
    (hrun : run (Awaiting.step v.outbox) .start moves = some s)
    (harrivals : imports world.arrivals = s.submitted) (hfailure : s.failure = some failure) :
    ∃ committed batch behind, s.submitted = committed ++ batch ++ behind ∧
      (∃ item ∈ batch, item.sequence = sequence ∧ item.path = path) ∧
      (∀ item ∈ committed, ∃ outcome, resolveDetailed v.outbox item = .ok outcome) ∧
      (∀ item ∈ batch, resolveDetailed v.outbox item =
        .error ⟨sequence, "catalog import batch rolled back"⟩) ∧
      (failure.failedSequence = sequence ∧ failure.failedPath = path ↔
        failure.awaited ∈ batch) := by
  have hsound := Awaiting.sound_of_run hrun
  have hchannels := hsound.channels
  rw [← harrivals] at hchannels
  obtain ⟨committed, batch, behind, hsplit, ⟨item, hitem, hsequence, hpath⟩, hcommitted, hbatch,
    hbehind⟩ := answers_writerLoop honly hempty hchannels hwriter
  rw [harrivals] at hsplit
  have hmem : item ∈ s.submitted := by
    rw [hsplit]
    exact List.mem_append_left _ (List.mem_append_right _ hitem)
  refine ⟨committed, batch, behind, hsplit, ⟨item, hitem, hsequence, hpath⟩, hcommitted, hbatch, ?_⟩
  obtain ⟨hawaited, hresolve⟩ := hsound.failed failure hfailure
  constructor
  · intro ⟨hnamed, _⟩
    have hplace := hawaited
    rw [hsplit, List.append_assoc, List.mem_append, List.mem_append] at hplace
    rcases hplace with hdone | hthere | hlater
    · exfalso
      obtain ⟨outcome, hok⟩ := hcommitted failure.awaited hdone
      rw [resolveTicket, hok] at hresolve
      cases hresolve
    · exact hthere
    · obtain ⟨context, htold⟩ := hbehind failure.awaited hlater
      have hself := hsound.names_awaited hfailure htold
      have hsame : failure.awaited = item := by
        apply eq_of_sequence_eq hsound.sequences hawaited hmem
        rw [← hself, hnamed, hsequence]
      rw [hsame]
      exact hitem
  · intro hthere
    have htold := hbatch failure.awaited hthere
    rw [← hsequence] at htold
    have hnamed := hsound.names_batch hfailure hmem htold (by
      intro outcome hok
      rw [hbatch item hitem] at hok
      cases hok)
    rw [← hsequence, ← hpath]
    exact hnamed

end Names

/-- A file whose path is one letter. -/
def letterPath (letter : Char) (h : IsRelativeText [letter]) : SourceRelativePath := ⟨[letter], h⟩

def letterObservation (path : SourceRelativePath) : SourceObservation :=
  ⟨['/'], path, photoHash, 0, none, 1⟩

/-- The request to record a file, answered on the channel of its sequence. -/
def letterImport (sequence : ℕ) (path : SourceRelativePath) : PendingImport :=
  ⟨sequence, .imported ⟨photoHash, 0, 1⟩ (letterObservation path), sequence⟩

def letterArrival (sequence : ℕ) (path : SourceRelativePath) : Received :=
  .request (.imported sequence ⟨photoHash, 0, 1⟩ (letterObservation path) sequence)

theorem isRelativeText_a : IsRelativeText ['a'] := by decide
theorem isRelativeText_b : IsRelativeText ['b'] := by decide

def pathA : SourceRelativePath := letterPath 'a' isRelativeText_a
def pathB : SourceRelativePath := letterPath 'b' isRelativeText_b

/-- The engine fails at the first record. -/
def firstRecordFails : WriterEnvironment :=
  ⟨id, 1, fun _ => (0, 0, 0), fun n =>
    if n = 1 then some ⟨"database or disk is full", false⟩ else none⟩

def failedRun (arrivals : List Received) :
    Except WriterError (Writer ⊕ CatalogWriterReport) × WriterWorld :=
  let _ := integerSums
  Program.exec (writerHandler firstRecordFails) (writerLoop .default 6)
    ⟨⟨Catalog.fresh, none, 0⟩, arrivals, 0, []⟩

/-- The second file is stored first, and the first one in time for its batch or too late. -/
def inTime : List Received := [letterArrival 1 pathB, letterArrival 0 pathA, .timeout]

def tooLate : List Received := [letterArrival 1 pathB, .timeout, letterArrival 0 pathA]

def letterMoves : List AwaitMove :=
  [.submit (letterImport 1 pathB), .submit (letterImport 0 pathA), .resolve]

def failedRecord {α : Type} : Except WriterError α → Option (ℕ × SourceRelativePath)
  | .error (.batchFailed sequence path _) => some (sequence, path)
  | _ => none

theorem exists_of_failedRecord {α : Type} {r : Except WriterError α} {sequence : ℕ}
    {path : SourceRelativePath} (h : failedRecord r = some (sequence, path)) :
    ∃ cause, r = .error (.batchFailed sequence path cause) := by
  cases r with
  | ok a => cases h
  | error e =>
      cases e with
      | report text => cases h
      | batchFailed sequence path cause =>
          cases h
          exact ⟨cause, rfl⟩

/-- What is named after a run of the writer. -/
def namedAfter (arrivals : List Received) : Option (ℕ × SourceRelativePath) :=
  (run (Awaiting.step (failedRun arrivals).2.outbox) .start letterMoves).bind fun s =>
    s.failure.map fun failure => (failure.failedSequence, failure.failedPath)

theorem exists_of_namedAfter {arrivals : List Received} {named : ℕ × SourceRelativePath}
    (h : namedAfter arrivals = some named) : ∃ s failure,
      run (Awaiting.step (failedRun arrivals).2.outbox) .start letterMoves = some s ∧
        s.failure = some failure ∧ (failure.failedSequence, failure.failedPath) = named := by
  obtain ⟨s, hrun, hs⟩ := Option.bind_eq_some_iff.1 h
  obtain ⟨failure, hfailure, hnamed⟩ := Option.map_eq_some_iff.1 hs
  exact ⟨s, failure, hrun, hfailure, hnamed⟩

/-- The first file is in time for the batch of the second one, which fails and is named. -/
theorem resolveTicket_names_inTime : ∃ s failure committed batch behind,
    run (Awaiting.step (failedRun inTime).2.outbox) .start letterMoves = some s ∧
      s.failure = some failure ∧ s.submitted = committed ++ batch ++ behind ∧
      failure.awaited ∈ batch := by
  have hrecord : failedRecord (failedRun inTime).1 = some (1, pathB) := by decide +kernel
  have hnames : namedAfter inTime = some (1, pathB) := by decide +kernel
  have honly : OnlyImports inTime := by
    intro received hreceived
    simp only [inTime, List.mem_cons, List.not_mem_nil, or_false] at hreceived
    rcases hreceived with rfl | rfl | rfl
    · exact Or.inr ⟨_, _, rfl, rfl⟩
    · exact Or.inr ⟨_, _, rfl, rfl⟩
    · exact Or.inl rfl
  have hsubmitted : (run (Awaiting.step (failedRun inTime).2.outbox) .start letterMoves).map
      Awaiting.submitted = some (imports inTime) := by decide +kernel
  obtain ⟨cause, hcause⟩ := exists_of_failedRecord hrecord
  obtain ⟨s, failure, hrun, hfailure, hnamed⟩ := exists_of_namedAfter hnames
  rw [hrun, Option.map_some, Option.some.injEq] at hsubmitted
  rw [Prod.mk.injEq] at hnamed
  let _ := integerSums
  obtain ⟨committed, batch, behind, hsplit, -, -, -, hiff⟩ := resolveTicket_names
    (show (⟨⟨Catalog.fresh, none, 0⟩, inTime, 0, []⟩ : WriterWorld).outbox = [] from rfl) honly
    (Prod.ext hcause rfl) hrun hsubmitted.symm hfailure
  exact ⟨s, failure, committed, batch, behind, hrun, hfailure, hsplit, hiff.1 hnamed⟩

/-- The first file comes too late for that batch. The second one fails, and the first one is
named. -/
theorem resolveTicket_names_tooLate :
    failedRecord (failedRun tooLate).1 = some (1, pathB) ∧
      namedAfter tooLate = some (0, pathA) ∧ (0, pathA) ≠ (1, pathB) := by
  decide +kernel

end MediaImporter
