import MediaImporter.Telemetry.Totals

/-!
# What the renderer has received

When the transport is closed and has not failed, nothing is pending. The dashboard shows the
same totals as for the events as they were taken, and the events that cannot be coalesced
have come through in order, the terminal event at the end.

## Main definitions

* `Exact` — what holds in every state of a transport that has not failed.
* `renderer_receives_totals` — the state at the end.
* `coalescing_not_exact` — streams that are not `Clear`, and too many parked failures.
-/

namespace MediaImporter

namespace Telemetry

/-! ## Totals -/

section Totals

variable {c : DashboardCounter} {event terminal : TelemetryEvent}
  {events events' : List TelemetryEvent}

/-- What a counter shows after the events. -/
def dashboardTotal (command : String) (c : DashboardCounter) (events : List TelemetryEvent) : ℕ :=
  (events.foldl DashboardState.emit (.new command)).counter c

theorem counter_foldl_emit (c : DashboardCounter) (events : List TelemetryEvent)
    (d : DashboardState) : (events.foldl DashboardState.emit d).counter c =
      events.foldl (fun n event => (updateOf c event).apply n) (d.counter c) := by
  induction events generalizing d with
  | nil => rfl
  | cons event events ih => rw [List.foldl_cons, List.foldl_cons, ih, counter_emit]

theorem foldl_apply_of_add (h : ∀ event ∈ events, ∀ n, updateOf c event ≠ .set n) (n : ℕ) :
    events.foldl (fun n event => (updateOf c event).apply n) n = n + weights c events := by
  induction events generalizing n with
  | nil => rfl
  | cons event events ih =>
      rw [List.foldl_cons, ih fun e he => h e (List.mem_cons_of_mem _ he)]
      have hevent : (updateOf c event).apply n = n + weight c event := by
        rw [weight]
        cases hupdate : updateOf c event with
        | add m => rfl
        | set m => exact absurd hupdate (h event List.mem_cons_self m)
      rw [hevent, Nat.add_assoc]
      rfl

/-- Events that add nothing can be left out. -/
theorem foldl_apply_filter (p : TelemetryEvent → Prop) [DecidablePred p]
    (h : ∀ event ∈ events, p event → updateOf c event = .add 0) (n : ℕ) :
    events.foldl (fun n event => (updateOf c event).apply n) n =
      (events.filter (¬ p ·)).foldl (fun n event => (updateOf c event).apply n) n := by
  induction events generalizing n with
  | nil => rfl
  | cons event events ih =>
      have hrest := ih fun e he => h e (List.mem_cons_of_mem _ he)
      by_cases hp : p event
      · rw [List.filter_cons_of_neg (by simpa using hp), List.foldl_cons,
          h event List.mem_cons_self hp]
        exact hrest n
      · rw [List.filter_cons_of_pos (by simpa using hp), List.foldl_cons, List.foldl_cons]
        exact hrest _

theorem weights_filter (c : DashboardCounter) (p : TelemetryEvent → Prop) [DecidablePred p]
    (events : List TelemetryEvent) : weights c events =
      weights c (events.filter (p ·)) + weights c (events.filter (¬ p ·)) := by
  induction events with
  | nil => rfl
  | cons event events ih =>
      change weight c event + weights c events = _
      by_cases hp : p event
      · rw [List.filter_cons_of_pos (by simpa using hp),
          List.filter_cons_of_neg (by simpa using hp), ih, ← Nat.add_assoc]
        rfl
      · rw [List.filter_cons_of_neg (by simpa using hp),
          List.filter_cons_of_pos (by simpa using hp), ih, Nat.add_left_comm]
        rfl

theorem weight_le_weights (h : event ∈ events) : weight c event ≤ weights c events :=
  List.single_le_sum (by simp) _ (List.mem_map_of_mem h)

theorem updateOf_terminal (c : DashboardCounter) (h : IsTerminal terminal) :
    updateOf c terminal = .add 0 := by
  rcases h with h | h <;> simp [updateOf, dashboardUpdates, h]

theorem not_hasRule_terminal (h : IsTerminal terminal) : ¬ HasRule terminal := by
  have hdelta : ¬ IsDelta terminal.event := by
    rcases h with h | h <;> rw [h] <;> decide +kernel
  have hfact : factDelta terminal.event = none := by
    rcases h with h | h <;> rw [h] <;> rfl
  have hgauge : ¬ terminal.isGauge := by
    rcases h with h | h <;> simp [TelemetryEvent.isGauge, h]
  have hfailure : ¬ IsFailure terminal := by
    rcases h with h | h <;> simp [IsFailure, h]
  simp [HasRule, hdelta, hfact, hgauge, hfailure]

/-- Streams show the same total when they agree on the events without a rule, and the others
add as much. -/
theorem dashboardTotal_eq (command : String)
    (hclear : (∀ event ∈ events ++ events', ∀ n, updateOf c event ≠ .set n) ∨
      ∀ event ∈ events ++ events', HasRule event → updateOf c event = .add 0)
    (horder : events.filter (¬ HasRule ·) = events'.filter (¬ HasRule ·))
    (hweights : weights c (events.filter (HasRule ·)) = weights c (events'.filter (HasRule ·))) :
    dashboardTotal command c events = dashboardTotal command c events' := by
  rw [dashboardTotal, dashboardTotal, counter_foldl_emit, counter_foldl_emit]
  rcases hclear with hadd | hzero
  · rw [foldl_apply_of_add fun event hevent => hadd event (List.mem_append_left _ hevent),
      foldl_apply_of_add fun event hevent => hadd event (List.mem_append_right _ hevent),
      weights_filter c HasRule events, weights_filter c HasRule events', horder, hweights]
  · rw [foldl_apply_filter HasRule fun event hevent => hzero event (List.mem_append_left _ hevent),
      foldl_apply_filter HasRule fun event hevent => hzero event (List.mem_append_right _ hevent),
      horder]

end Totals

namespace RendererTransport

section Exact

variable {s t : RendererTransport} {scripts : List (List TelemetryEvent)}
  {terminal : TelemetryEvent}

/-- What holds while the transport has not failed. -/
structure Exact (scripts : List (List TelemetryEvent)) (terminal : TelemetryEvent)
    (s : RendererTransport) : Prop where
  conserved : s.Conserved scripts.flatten terminal
  scripted : Scripted scripts s
  drained : Drained terminal s

theorem exact_start (scripts : List (List TelemetryEvent)) (terminal : TelemetryEvent) :
    Exact scripts terminal (start scripts) :=
  ⟨conserved_start scripts, scripted_start scripts, drained_of_working rfl⟩

theorem exact_step (hclear : Clear scripts.flatten) {m : TransportMove}
    (h : s.failed = false → Exact scripts terminal s) (hstep : step terminal s m = some t)
    (hfailed : t.failed = false) : Exact scripts terminal t := by
  cases m with
  | produce k =>
      unfold step at hstep
      dsimp only at hstep
      split at hstep
      · rename_i producer hproducer
        obtain ⟨hs, hprogress⟩ := produce_progress hstep hfailed
        have hexact := h hs
        have howner := owner_of_produce hexact.drained hproducer hstep
        have htold : s.owner.told = false := by
          rw [howner]
          rfl
        refine ⟨?_, scripted_progress hexact.scripted hproducer hprogress,
          drained_of_working ((owner_of_progress hprogress).trans howner)⟩
        exact conserved_progress hclear hexact.conserved hproducer
          (fun _ hevent => hexact.scripted.hand hproducer hevent) htold hprogress
      · simp at hstep
  | own =>
      obtain ⟨hflag, hproducers, hrouted⟩ := own_frame hstep
      have hs : s.failed = false := hflag ▸ hfailed
      have hexact := h hs
      exact ⟨conserved_own hexact.conserved hs hstep, hexact.scripted.congr hproducers hrouted,
        drained_own hexact.drained hs hstep⟩
  | take =>
      unfold step at hstep
      dsimp only at hstep
      split at hstep
      · rename_i event rest hinbox
        obtain rfl := Option.some.inj hstep
        have hexact := h hfailed
        exact ⟨conserved_take hexact.conserved hinbox, hexact.scripted.congr rfl rfl,
          drained_take hexact.drained hinbox⟩
      · simp at hstep

theorem exact_run (hclear : Clear scripts.flatten) {moves : List TransportMove}
    (h : Transition.run (step terminal) (start scripts) moves = some t)
    (hfailed : t.failed = false) : Exact scripts terminal t :=
  Transition.run_invariant (P := fun s => s.failed = false → Exact scripts terminal s)
    (fun _ => exact_start scripts terminal) (fun _ _ _ hs hstep => exact_step hclear hs hstep)
    h hfailed

/-! ## The end -/

theorem Exact.stream_eq (hclosed : t.Closed) :
    t.stream terminal = t.routed.map Prod.snd ++ [terminal] := by
  simp [stream, hclosed.1, OwnerPhase.told]

theorem Exact.through_eq (hclosed : t.Closed) : t.through = t.delivered := by
  rw [through, hclosed.2, List.append_nil]

theorem Exact.stopped (h : Exact scripts terminal t) (hclosed : t.Closed) : t.Stopped :=
  h.drained.stopped (by simp [hclosed.1])

theorem Exact.owed_eq (h : Exact scripts terminal t) (hclosed : t.Closed) (c : DashboardCounter) :
    t.owed c = 0 := by
  have hpending : t.pendingDeltas = [] := h.drained.deltas (by simp [hclosed.1, OwnerPhase.drained])
  have hbytes : (t.producers.map fun producer => weights c producer.phase.bytes).sum = 0 := by
    rw [List.sum_eq_zero_iff_forall_eq_nat]
    intro n hn
    obtain ⟨producer, hproducer, rfl⟩ := List.mem_map.1 hn
    rw [h.stopped hclosed producer hproducer]
    rfl
  rw [owed, hpending, hbytes]
  rfl

theorem Exact.routedFrom_eq (h : Exact scripts terminal t) (hclosed : t.Closed) {k : ℕ}
    {script : List TelemetryEvent} (hscript : scripts[k]? = some script) :
    t.routedFrom k = script := by
  obtain ⟨producer, hproducer, hall⟩ := h.scripted.producer k script hscript
  have hidle := h.stopped hclosed producer (List.mem_of_getElem? hproducer)
  rw [hidle] at hall
  simpa [ProducerPhase.hand] using hall

/-- What the events at the end do to a total: none sets it, or those with a rule add nothing. -/
theorem Exact.update_cases (h : Exact scripts terminal t) (hterminal : IsTerminal terminal)
    (hclear : Clear scripts.flatten) (hclosed : t.Closed) {c : DashboardCounter}
    (hc : c ∈ totals) :
    (∀ event ∈ t.delivered ++ (t.routed.map Prod.snd ++ [terminal]), ∀ n,
      updateOf c event ≠ .set n) ∨
    ∀ event ∈ t.delivered ++ (t.routed.map Prod.snd ++ [terminal]), HasRule event →
      updateOf c event = .add 0 := by
  have hdelivered : ∀ event ∈ t.delivered,
      event ∈ scripts.flatten ∨ IsDelta event.event ∨ event = terminal := by
    rw [← Exact.through_eq hclosed]
    exact h.conserved.known
  have hstream : ∀ event ∈ t.routed.map Prod.snd ++ [terminal],
      event ∈ scripts.flatten ∨ event = terminal := by
    intro event hevent
    rcases List.mem_append.1 hevent with htaken | hlast
    · exact .inl (h.scripted.taken htaken)
    · exact .inr (List.mem_singleton.1 hlast)
  rcases hclear.totals c hc with hset | hzero
  · left
    intro event hevent n
    have hknown : event ∈ scripts.flatten ∨ IsDelta event.event ∨ event = terminal := by
      rcases List.mem_append.1 hevent with hmem | hmem
      · exact hdelivered event hmem
      · exact (hstream event hmem).imp_right .inr
    rcases hknown with hmem | hdelta | rfl
    · exact hset event hmem n
    · simp [updateOf_of_delta c hdelta]
    · simp [updateOf_terminal c hterminal]
  · right
    -- the events that were taken add nothing, so what was delivered in their place adds nothing
    have htaken : ∀ event ∈ t.routed.map Prod.snd ++ [terminal], HasRule event →
        updateOf c event = .add 0 := by
      intro event hevent hrule
      rcases hstream event hevent with hmem | rfl
      · exact hzero event hmem hrule
      · exact absurd hrule (not_hasRule_terminal hterminal)
    have hnone : weights c ((t.routed.map Prod.snd ++ [terminal]).filter (HasRule ·)) = 0 := by
      rw [weights, List.sum_eq_zero_iff_forall_eq_nat]
      intro n hn
      obtain ⟨event, hevent, rfl⟩ := List.mem_map.1 hn
      obtain ⟨hmem, hrule⟩ := List.mem_filter.1 hevent
      rw [weight, htaken event hmem (by simpa using hrule)]
    have haccount := h.conserved.account c hc
    rw [Exact.through_eq hclosed, Exact.stream_eq hclosed, h.owed_eq hclosed, hnone,
      Nat.add_zero] at haccount
    intro event hevent hrule
    rcases List.mem_append.1 hevent with hmem | hmem
    · rcases hdelivered event hmem with hold | hdelta | rfl
      · exact hzero event hold hrule
      · have hle : weight c event ≤ weights c (t.delivered.filter (HasRule ·)) :=
          weight_le_weights (List.mem_filter.2 ⟨hmem, by simpa using hrule⟩)
        simp only [weight, updateOf_of_delta c hdelta, haccount] at hle
        rw [updateOf_of_delta c hdelta, Nat.le_zero.1 hle]
      · exact absurd hrule (not_hasRule_terminal hterminal)
    · exact htaken event hmem hrule

/-- **Coalescing keeps the totals.** For streams that are clear, whatever the renderer's speed
and the order of the steps, a transport that has not failed ends like this: the events of every
producer were taken in order; the renderer has received events that show the same totals; the
events without a rule and the worker failures came through once each, the former in order; and
the terminal event was the last. -/
theorem renderer_receives_totals (scripts : List (List TelemetryEvent)) (terminal : TelemetryEvent)
    (hterminal : IsTerminal terminal) (hclear : Clear scripts.flatten)
    (moves : List TransportMove) (t : RendererTransport)
    (h : Transition.run (step terminal) (start scripts) moves = some t) (hclosed : t.Closed)
    (hfailed : t.failed = false) (command : String) :
    (∀ k script, scripts[k]? = some script → t.routedFrom k = script) ∧
    (∀ entry ∈ t.routed, entry.1 < scripts.length) ∧
    (∀ c ∈ totals, dashboardTotal command c t.delivered =
      dashboardTotal command c (t.routed.map Prod.snd ++ [terminal])) ∧
    t.delivered.filter (¬ HasRule ·) =
      (t.routed.map Prod.snd ++ [terminal]).filter (¬ HasRule ·) ∧
    (t.delivered.filter (IsFailure ·)).Perm
      ((t.routed.map Prod.snd ++ [terminal]).filter (IsFailure ·)) ∧
    t.delivered.getLast? = some terminal := by
  have hexact := exact_run hclear h hfailed
  have horder := hexact.conserved.order
  have hfailures := hexact.conserved.failures
  have hparked : t.pendingFailures = [] :=
    hexact.drained.failures (by simp [hclosed.1, OwnerPhase.drained])
  rw [Exact.through_eq hclosed, Exact.stream_eq hclosed] at horder
  rw [Exact.through_eq hclosed, Exact.stream_eq hclosed, hparked, List.append_nil] at hfailures
  refine ⟨fun k script hscript => hexact.routedFrom_eq hclosed hscript, hexact.scripted.routed,
    fun c hc => ?_, horder, hfailures, ?_⟩
  · have haccount := hexact.conserved.account c hc
    rw [Exact.through_eq hclosed, Exact.stream_eq hclosed, hexact.owed_eq hclosed,
      Nat.add_zero] at haccount
    refine dashboardTotal_eq command ?_ horder haccount
    exact hexact.update_cases hterminal hclear hclosed hc
  · obtain ⟨before, hbefore⟩ := hexact.drained.last (by simp [hclosed.1, OwnerPhase.told])
    rw [Exact.through_eq hclosed] at hbefore
    rw [hbefore, List.getLast?_concat]

/-! ## Runs that meet a full inbox -/

def commandSummary : TelemetryEvent := ⟨"import", "command_summary", []⟩

def catalogBatchCommitted : TelemetryEvent := ⟨"import", "catalog_batch_committed", []⟩

def sourceBytes (bytes : ℕ) : TelemetryEvent :=
  ⟨"import", "source_bytes_delta", [⟨"bytes", .count bytes⟩]⟩

/-- A producer fills the inbox, and then has these events. -/
def busyScript (events : List TelemetryEvent) : List (List TelemetryEvent) :=
  [List.replicate rendererCapacity catalogBatchCommitted ++ events]

/-- The producer takes its first steps while the renderer does nothing. The renderer catches up,
and everyone ends. -/
def busyMoves (before after owned taken : ℕ) : List TransportMove :=
  List.replicate (5 * rendererCapacity + before) (.produce 0) ++
    List.replicate rendererCapacity .take ++ List.replicate after (.produce 0) ++
    List.replicate owned .own ++ List.replicate taken .take

def busyRun (events : List TelemetryEvent) (before after owned taken : ℕ) :
    Option RendererTransport :=
  Transition.run (step commandSummary) (start (busyScript events))
    (busyMoves before after owned taken)

/-- Bytes that are merged while the inbox is full come through as one event. -/
theorem renderer_receives_totals_bytes : ∃ t : RendererTransport,
    busyRun [sourceBytes 3, sourceBytes 4] 12 0 9 2 = some t ∧ t.delivered.length = 258 ∧
    dashboardTotal "import" .read t.delivered = 7 := by
  have hrun : ∃ t ∈ busyRun [sourceBytes 3, sourceBytes 4] 12 0 9 2, t.Closed ∧
      t.failed = false ∧ t.delivered.length = 258 ∧
      dashboardTotal "import" .read (t.routed.map Prod.snd ++ [commandSummary]) = 7 := by
    decide +kernel
  have hadd : ∀ event ∈ (busyScript [sourceBytes 3, sourceBytes 4]).flatten, ∀ c n,
      updateOf c event ≠ .set n := by
    intro event hevent c n
    simp only [busyScript, List.flatten_cons, List.flatten_nil, List.append_nil, List.mem_append,
      List.mem_replicate, List.mem_cons, List.not_mem_nil, or_false] at hevent
    rcases hevent with ⟨-, rfl⟩ | rfl | rfl
    · cases c <;> simp [updateOf, dashboardUpdates, catalogBatchCommitted, lookup_cons_eq_ite]
    · rw [updateOf_of_delta c (by decide +kernel)]
      simp
    · rw [updateOf_of_delta c (by decide +kernel)]
      simp
  have hclear : Clear (busyScript [sourceBytes 3, sourceBytes 4]).flatten :=
    ⟨by decide +kernel, by decide +kernel, by decide +kernel,
      fun c _ => .inl fun event hevent => hadd event hevent c⟩
  obtain ⟨t, ht, hclosed, hfailed, hlength, htotal⟩ := hrun
  refine ⟨t, ht, hlength, ?_⟩
  rw [← htotal]
  exact (renderer_receives_totals _ commandSummary (.inl rfl) hclear _ t ht hclosed hfailed
    "import").2.2.1 .read (by decide)

/-- Coalescing is not exact for streams that are not clear: the bytes of a hashed file, the
staged bytes of a hashed blob, a field that comes twice, and a counter that is set after an
event that is merged. With nine parked failures the terminal event is dropped. -/
theorem coalescing_not_exact :
    (∃ t ∈ busyRun [⟨"import", "file_hashed", [⟨"bytes_read", .count 5⟩]⟩] 6 0 9 2,
      t.Closed ∧ t.failed = false ∧ dashboardTotal "import" .read t.delivered = 0 ∧
      dashboardTotal "import" .read (t.routed.map Prod.snd ++ [commandSummary]) = 5) ∧
    (∃ t ∈ busyRun [⟨"audit", "blob_hashed", [⟨"staging_bytes", .count 5⟩]⟩] 6 0 9 2,
      t.Closed ∧ t.failed = false ∧ dashboardTotal "import" .written t.delivered = 0 ∧
      dashboardTotal "import" .written (t.routed.map Prod.snd ++ [commandSummary]) = 5) ∧
    (∃ t ∈ busyRun [⟨"import", "source_bytes_delta", [⟨"bytes", .count 3⟩, ⟨"bytes", .count 4⟩]⟩]
        6 0 9 2,
      t.Closed ∧ t.failed = false ∧ dashboardTotal "import" .read t.delivered = 7 ∧
      dashboardTotal "import" .read (t.routed.map Prod.snd ++ [commandSummary]) = 3) ∧
    (∃ t ∈ busyRun [⟨"import", "cas_blob_created", []⟩,
        ⟨"audit", "audit_cas_scanned", [⟨"cas_blob_files", .count 0⟩]⟩] 12 1 9 3,
      t.Closed ∧ t.failed = false ∧ dashboardTotal "import" .created t.delivered = 1 ∧
      dashboardTotal "import" .created (t.routed.map Prod.snd ++ [commandSummary]) = 0) ∧
    ∃ t ∈ busyRun (List.replicate 9 ⟨"import", "operational_failure", []⟩) 46 1 12 9,
      t.Closed ∧ t.delivered.getLast? ≠ some commandSummary := by
  refine ⟨?_, ?_, ?_, ?_, ?_⟩
  all_goals decide +kernel

end Exact

end RendererTransport

end Telemetry

end MediaImporter
