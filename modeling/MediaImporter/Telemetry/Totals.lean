import MediaImporter.Telemetry.Coalesce

/-!
# Coalescing keeps the totals

What the renderer has received, what is in the inbox and what is pending together add as much
to a total as the events that the transport took. An event without a rule goes through the
inbox, in the order in which it was taken. When the transport is closed nothing is pending,
and the terminal event was the last.

## Main definitions

* `Conserved`, `Scripted`, `Drained` — what holds in every state.
* `renderer_receives_totals` — what the renderer has received when the transport is closed.
-/

namespace MediaImporter

namespace Telemetry

/-! ## What the parts say together -/

section Weights

variable {c : DashboardCounter} {event : TelemetryEvent}

theorem weight_of_isGauge (hc : c ∈ totals) (h : event.isGauge) : weight c event = 0 := by
  simp only [totals, List.mem_cons, List.not_mem_nil, or_false] at hc
  rcases h with h | h | h <;> rcases hc with rfl | rfl | rfl | rfl | rfl | rfl | rfl <;>
    simp [weight, updateOf, dashboardUpdates, h, lookup_cons_eq_ite]

theorem weight_of_isFailure (h : IsFailure event) : weight c event = 0 := by
  have hname : event.event = "operational_failure" := h
  simp [weight, updateOf, dashboardUpdates, hname]

theorem hasRule_deltaEvent {entry : DeltaKey × ℕ} (h : IsDelta (deltaEvent entry).event) :
    HasRule (deltaEvent entry) :=
  .inl ⟨h, _, List.mem_cons_self, rfl⟩

theorem not_isFailure_of_delta (h : IsDelta event.event) : ¬ IsFailure event := by
  intro hname
  rw [show event.event = "operational_failure" from hname] at h
  exact absurd h (by decide +kernel)

theorem weights_singleton (c : DashboardCounter) (event : TelemetryEvent) :
    weights c [event] = weight c event := by
  simp [weights]

end Weights

/-- The owner has sent the terminal event. -/
def OwnerPhase.told : OwnerPhase → Bool
  | .draining _ closing => closing
  | .closed => true
  | .working | .sending => false

namespace RendererTransport

section Conserved

variable (s : RendererTransport)

/-- What has gone through the inbox. -/
def through : List TelemetryEvent := s.delivered ++ s.inbox

/-- The events without any coalescing, in the order in which they were taken. -/
def stream (terminal : TelemetryEvent) : List TelemetryEvent :=
  s.routed.map Prod.snd ++ if s.owner.told then [terminal] else []

/-- What is pending for a counter. -/
def owed (c : DashboardCounter) : ℕ :=
  weights c (s.pendingDeltas.map deltaEvent) +
    (s.producers.map fun producer => weights c producer.phase.bytes).sum

/-- What holds in every state: events without a rule pass in order, and the others are
accounted for. -/
structure Conserved (events : List TelemetryEvent) (terminal : TelemetryEvent) : Prop where
  tidy : Tidy s.pendingDeltas
  order : s.through.filter (¬ HasRule ·) = (s.stream terminal).filter (¬ HasRule ·)
  account : ∀ c ∈ totals, weights c (s.through.filter (HasRule ·)) + s.owed c =
    weights c ((s.stream terminal).filter (HasRule ·))
  failures : (s.through.filter (IsFailure ·) ++ s.pendingFailures).Perm
    ((s.stream terminal).filter (IsFailure ·))
  parked : ∀ event ∈ s.pendingFailures, IsFailure event ∧ event ∈ events
  gauges : ∀ entry ∈ s.pendingGauges, entry.2.isGauge ∧ entry.2 ∈ events
  known : ∀ event ∈ s.through, event ∈ events ∨ IsDelta event.event ∨ event = terminal

variable {s} {t : RendererTransport} {events : List TelemetryEvent} {terminal : TelemetryEvent}

theorem through_send (s : RendererTransport) (event : TelemetryEvent) :
    (s.send event).through = s.through ++ [event] := by
  simp [through, send]

/-- An event that has a rule goes from what is pending to the inbox. -/
theorem Conserved.pass (h : s.Conserved events terminal) {event : TelemetryEvent}
    (hrule : HasRule event) (hknown : event ∈ events ∨ IsDelta event.event)
    (hthrough : t.through = s.through ++ [event]) (hstream : t.stream terminal = s.stream terminal)
    (htidy : Tidy t.pendingDeltas) (howed : ∀ c ∈ totals, weight c event + t.owed c = s.owed c)
    (hfailures : [event].filter (IsFailure ·) ++ t.pendingFailures = s.pendingFailures)
    (hgauges : ∀ entry ∈ t.pendingGauges, entry ∈ s.pendingGauges) :
    t.Conserved events terminal := by
  refine ⟨htidy, ?_, fun c hc => ?_, ?_, fun e he => h.parked e ?_, fun entry he =>
    h.gauges entry (hgauges entry he), fun e he => ?_⟩
  · rw [hthrough, hstream, List.filter_append, h.order]
    simp [hrule]
  · have hweight := h.account c hc
    have hpending := howed c hc
    rw [hthrough, hstream, List.filter_append, weights_append, List.filter_cons_of_pos (by simpa),
      List.filter_nil, weights_singleton]
    omega
  · rw [hthrough, hstream, List.filter_append, List.append_assoc, hfailures]
    exact h.failures
  · rw [← hfailures]
    exact List.mem_append_right _ he
  · rw [hthrough] at he
    rcases List.mem_append.1 he with hold | hnew
    · exact h.known e hold
    · obtain rfl := List.mem_singleton.1 hnew
      rcases hknown with hmem | hdelta
      · exact .inl hmem
      · exact .inr (.inl hdelta)

theorem conserved_flushed (h : s.Conserved events terminal) (hflush : Flushed s t) :
    t.Conserved events terminal := by
  cases hflush with
  | delta entry pending hpending =>
      have hmem : entry ∈ s.pendingDeltas := by simp [hpending]
      have hdelta := h.tidy.delta entry hmem
      refine h.pass (hasRule_deltaEvent hdelta) (.inr hdelta) (through_send s _) rfl ⟨?_, ?_⟩
        (fun c _ => ?_) ?_ fun _ he => he
      · have hnodup := h.tidy.nodup
        rw [hpending, List.map_cons, List.nodup_cons] at hnodup
        exact hnodup.2
      · intro other hother
        exact h.tidy.delta other (by simp [hpending, show other ∈ pending from hother])
      · simp only [owed, hpending, List.map_cons]
        change weight c (deltaEvent entry) + (weights c (pending.map deltaEvent) + _) =
          (weight c (deltaEvent entry) + weights c (pending.map deltaEvent)) + _
        exact (Nat.add_assoc _ _ _).symm
      · rw [List.filter_cons_of_neg (by simpa using not_isFailure_of_delta hdelta)]
        rfl
  | failure event pending hpending =>
      obtain ⟨hfailure, hmem⟩ := h.parked event (by simp [hpending])
      refine h.pass (.inr (.inr (.inr hfailure))) (.inl hmem) (through_send s _) rfl h.tidy
        (fun c _ => ?_) ?_ fun _ he => he
      · rw [weight_of_isFailure hfailure, Nat.zero_add]
        rfl
      · rw [List.filter_cons_of_pos (by simpa using hfailure), hpending]
        rfl
  | gauge entry pending hpending =>
      obtain ⟨hgauge, hmem⟩ := h.gauges entry (by simp [hpending])
      refine h.pass (.inr (.inr (.inl hgauge))) (.inl hmem) (through_send s _) rfl h.tidy
        (fun c hc => ?_) ?_ fun other hother => ?_
      · rw [weight_of_isGauge hc hgauge, Nat.zero_add]
        rfl
      · have hnot : ¬ IsFailure entry.2 := by
          intro hname
          rcases hgauge with hgauge | hgauge | hgauge <;> simp [IsFailure, hgauge] at hname
        rw [List.filter_cons_of_neg (by simpa using hnot)]
        rfl
      · rw [hpending]
        exact List.mem_cons_of_mem _ hother

/-- An event goes to the inbox as it is. -/
theorem Conserved.direct (h : s.Conserved events terminal) {event : TelemetryEvent}
    (hknown : event ∈ events ∨ event = terminal)
    (hthrough : t.through = s.through ++ [event])
    (hstream : t.stream terminal = s.stream terminal ++ [event])
    (hdeltas : t.pendingDeltas = s.pendingDeltas) (howed : ∀ c, t.owed c = s.owed c)
    (hfailures : t.pendingFailures = s.pendingFailures)
    (hgauges : t.pendingGauges = s.pendingGauges) : t.Conserved events terminal := by
  refine ⟨hdeltas ▸ h.tidy, ?_, fun c hc => ?_, ?_, hfailures ▸ h.parked, hgauges ▸ h.gauges,
    fun e he => ?_⟩
  · rw [hthrough, hstream, List.filter_append, List.filter_append, h.order]
  · have hweight := h.account c hc
    rw [hthrough, hstream, List.filter_append, List.filter_append, weights_append, weights_append,
      howed]
    omega
  · rw [hthrough, hstream, List.filter_append, List.filter_append, hfailures, List.append_assoc]
    refine (List.Perm.append_left _ List.perm_append_comm).trans ?_
    rw [← List.append_assoc]
    exact h.failures.append_right _
  · rw [hthrough] at he
    rcases List.mem_append.1 he with hold | hnew
    · exact h.known e hold
    · obtain rfl := List.mem_singleton.1 hnew
      rcases hknown with hmem | heq
      · exact .inl hmem
      · exact .inr (.inr heq)

/-- Events with a rule are taken without going to the inbox. -/
theorem Conserved.withhold (h : s.Conserved events terminal) (taken : List TelemetryEvent)
    (hrule : ∀ event ∈ taken, HasRule event) (hthrough : t.through = s.through)
    (hstream : t.stream terminal = s.stream terminal ++ taken) (htidy : Tidy t.pendingDeltas)
    (howed : ∀ c ∈ totals, t.owed c = s.owed c + weights c taken)
    (hfailures : t.pendingFailures = s.pendingFailures ++ taken.filter (IsFailure ·))
    (hparked : ∀ event ∈ taken, IsFailure event → event ∈ events)
    (hgauges : ∀ entry ∈ t.pendingGauges, entry.2.isGauge ∧ entry.2 ∈ events) :
    t.Conserved events terminal := by
  have hall : taken.filter (HasRule ·) = taken := by
    rw [List.filter_eq_self]
    exact fun event hevent => by simpa using hrule event hevent
  have hnone : taken.filter (¬ HasRule ·) = [] := by
    rw [List.filter_eq_nil_iff]
    exact fun event hevent => by simpa using hrule event hevent
  refine ⟨htidy, ?_, fun c hc => ?_, ?_, fun e he => ?_, hgauges, hthrough ▸ h.known⟩
  · rw [hthrough, hstream, List.filter_append, hnone, List.append_nil]
    exact h.order
  · have hweight := h.account c hc
    rw [hthrough, hstream, List.filter_append, hall, weights_append, howed c hc]
    omega
  · rw [hthrough, hstream, List.filter_append, hfailures, ← List.append_assoc]
    exact h.failures.append_right _
  · rw [hfailures] at he
    rcases List.mem_append.1 he with hold | hnew
    · exact h.parked e hold
    · obtain ⟨hmem, hfailure⟩ := List.mem_filter.1 hnew
      have hfailure : IsFailure e := by simpa using hfailure
      exact ⟨hfailure, hparked e hmem hfailure⟩

/-- What is owed when a producer goes on. -/
theorem owed_setProducer {k n : ℕ} {producer producer' : Producer}
    (hproducer : s.producers[k]? = some producer) (hproducers : t.producers = s.producers)
    (c : DashboardCounter)
    (h : weights c (t.pendingDeltas.map deltaEvent) + weights c producer'.phase.bytes =
      weights c (s.pendingDeltas.map deltaEvent) + weights c producer.phase.bytes + n) :
    (t.setProducer k producer').owed c = s.owed c + n := by
  have hset := sum_map_set (b := producer')
    (fun producer : Producer => weights c producer.phase.bytes) hproducer
  simp only [owed, setProducer, hproducers]
  omega

theorem conserved_progress {k : ℕ} {producer : Producer} (hclear : Clear events)
    (h : s.Conserved events terminal) (hproducer : s.producers[k]? = some producer)
    (hhand : ∀ event ∈ producer.phase.hand, event ∈ events) (htold : s.owner.told = false)
    (hprogress : Progress s k producer.todo producer.phase t) : t.Conserved events terminal := by
  obtain ⟨todo, phase⟩ := producer
  have hrouted : ∀ (u : RendererTransport) (event : TelemetryEvent) (p : Producer),
      u.routed = s.routed → u.owner = s.owner →
      ((u.route k event).setProducer k p).stream terminal = s.stream terminal ++ [event] := by
    intro u event p hu howner
    simp [stream, route, setProducer, hu, howner, htold]
  cases hprogress with
  | moved phase phase' todo' hmove hbytes hbytes' =>
      refine h.withhold [] (by simp) rfl (List.append_nil _).symm h.tidy (fun c _ => ?_)
        (List.append_nil _).symm (by simp) h.gauges
      exact owed_setProducer hproducer rfl c (by simp [hbytes, hbytes', weights])
  | flushed phase t hflush => exact conserved_flushed h hflush
  | sent phase event hphase hbytes =>
      have hmem : event ∈ events := hhand event (by simp [hphase])
      refine h.direct (.inl hmem) (through_send s event) (hrouted _ _ _ rfl rfl) rfl (fun c => ?_)
        rfl rfl
      exact owed_setProducer (n := 0) hproducer rfl c (by rw [hbytes]; rfl)
  | coalesced event u hcoalesced phase' hhand' hbytes =>
      have hmem : event ∈ events := hhand event (by simp [ProducerPhase.hand])
      have hwithhold : HasRule event → u.through = s.through → u.routed = s.routed →
          u.owner = s.owner → u.producers = s.producers → Tidy u.pendingDeltas →
          (∀ c ∈ totals, weights c (u.pendingDeltas.map deltaEvent) + weights c phase'.bytes =
            weights c (s.pendingDeltas.map deltaEvent) + weight c event) →
          u.pendingFailures = s.pendingFailures ++ [event].filter (IsFailure ·) →
          (∀ entry ∈ u.pendingGauges, entry.2.isGauge ∧ entry.2 ∈ events) →
          ((u.route k event).setProducer k ⟨todo, phase'⟩).Conserved events terminal := by
        intro hrule hthrough hu howner hproducers htidy hweights hfailures hgauges
        refine h.withhold [event] (by simpa using hrule) hthrough
          (hrouted u event _ hu howner) htidy
          (fun c hc => ?_) hfailures (fun e he _ => List.mem_singleton.1 he ▸ hmem) hgauges
        refine owed_setProducer (t := u.route k event) hproducer hproducers c ?_
        rw [weights_singleton]
        exact hweights c hc
      have hnofailure : ¬ IsFailure event →
          s.pendingFailures = s.pendingFailures ++ [event].filter (IsFailure ·) := by
        intro hnot
        rw [List.filter_cons_of_neg (by simpa using hnot), List.filter_nil, List.append_nil]
      cases hcoalesced with
      | counts pending hdelta hcount hfact hadd =>
          obtain ⟨htidy, hweights⟩ := addCounts_spec h.tidy hdelta hadd
          have hblob : event.event ≠ "blob_hashed" := by
            intro heq
            simp [heq, factDelta] at hfact
          rw [if_neg fun hboth => hblob hboth.1] at hbytes
          refine hwithhold (.inl ⟨hdelta, hcount⟩) rfl rfl rfl rfl htidy (fun c _ => ?_)
            (hnofailure (not_isFailure_of_delta hdelta)) h.gauges
          have hcounts := weights_countEvents c hdelta (hclear.fields event hmem hdelta)
          rw [countEvents] at hcounts
          rw [hbytes, hweights, hcounts]
          rfl
      | fact delta pending hfact hadd =>
          obtain ⟨htidy, hweights⟩ := addPending_spec h.tidy (isDelta_of_factDelta hfact) hadd
          have hnot : ¬ IsFailure event := by
            intro hname
            rw [show event.event = "operational_failure" from hname] at hfact
            simp [factDelta] at hfact
          refine hwithhold (.inr (.inl (by simp [hfact]))) rfl rfl rfl rfl htidy (fun c _ => ?_)
            (hnofailure hnot) h.gauges
          rw [hbytes, hweights, weight_of_factDelta hclear hmem hfact c, Nat.add_assoc]
          congr 2
          by_cases hblob : event.event = "blob_hashed"
          · by_cases hzero : countField event "bytes_read" = 0
            · rw [if_neg fun hboth => hboth.2 hzero, if_pos hblob, bytesEvent, hzero,
                weight_deltaEvent c _ _ _ _ (by decide +kernel)]
              simp [weights]
            · rw [if_pos ⟨hblob, hzero⟩, if_pos hblob, weights_singleton]
          · rw [if_neg fun hboth => hblob hboth.1, if_neg hblob]
            rfl
      | gauge key hgauge =>
          have hblob : event.event ≠ "blob_hashed" := by
            intro heq
            rcases hgauge with hgauge | hgauge | hgauge <;> simp [hgauge] at heq
          have hnot : ¬ IsFailure event := by
            intro hname
            rcases hgauge with hgauge | hgauge | hgauge <;> simp [IsFailure, hgauge] at hname
          rw [if_neg fun hboth => hblob hboth.1] at hbytes
          refine hwithhold (.inr (.inr (.inl hgauge))) rfl rfl rfl rfl h.tidy (fun c hc => ?_)
            (hnofailure hnot) fun entry hentry => ?_
          · rw [hbytes, weight_of_isGauge hc hgauge]
            rfl
          · rcases mem_insertOrdered hentry with rfl | hold
            · exact ⟨hgauge, hmem⟩
            · exact h.gauges entry hold
      | failure hfailure =>
          have hblob : event.event ≠ "blob_hashed" := by
            intro heq
            rw [IsFailure, heq] at hfailure
            simp at hfailure
          rw [if_neg fun hboth => hblob hboth.1] at hbytes
          refine hwithhold (.inr (.inr (.inr hfailure))) rfl rfl rfl rfl h.tidy (fun c _ => ?_) ?_
            h.gauges
          · rw [hbytes, weight_of_isFailure hfailure]
            rfl
          · rw [List.filter_cons_of_pos (by simpa using hfailure), List.filter_nil]
  | bytes event pending hpending =>
      obtain ⟨htidy, hweights⟩ := addPending_spec h.tidy (by decide +kernel) hpending
      refine h.withhold [] (by simp) rfl (List.append_nil _).symm htidy (fun c _ => ?_)
        (List.append_nil _).symm (by simp) h.gauges
      refine owed_setProducer (t := { s with pendingDeltas := pending }) hproducer rfl c ?_
      rw [hweights]
      change _ + 0 = _ + weights c [bytesEvent event] + 0
      rw [weights_singleton, bytesEvent]

/-- The owner sends what is pending, and the terminal event. -/
theorem conserved_own (h : s.Conserved events terminal) (hfailed : s.failed = false)
    (hown : s.own terminal = some t) : t.Conserved events terminal := by
  have hmoved : ∀ owner, owner.told = s.owner.told → some { s with owner := owner } = some t →
      t.Conserved events terminal := by
    intro owner htold heq
    obtain rfl := Option.some.inj heq
    have hstream : ({ s with owner := owner } : RendererTransport).stream terminal =
        s.stream terminal := by
      rw [stream, stream, htold]
    exact ⟨h.tidy, hstream ▸ h.order, hstream ▸ h.account, hstream ▸ h.failures, h.parked,
      h.gauges, h.known⟩
  unfold own at hown
  split at hown
  · rename_i howner
    split at hown
    · exact hmoved _ (by rw [howner, hfailed]; rfl) hown
    · simp at hown
  · rename_i closing howner
    split at hown
    · rename_i entry pending hpending
      split at hown
      · obtain rfl := Option.some.inj hown
        exact conserved_flushed h (.delta entry pending hpending)
      · simp at hown
    · exact hmoved _ (by rw [howner]; rfl) hown
  · rename_i closing howner
    split at hown
    · rename_i failure pending hpending
      split at hown
      · obtain rfl := Option.some.inj hown
        exact conserved_flushed h (.failure failure pending hpending)
      · simp at hown
    · exact hmoved _ (by rw [howner]; rfl) hown
  · rename_i closing howner
    split at hown
    · rename_i key gauge pending hpending
      split at hown
      · obtain rfl := Option.some.inj hown
        exact conserved_flushed h (.gauge (key, gauge) pending hpending)
      · simp at hown
    · refine hmoved _ ?_ hown
      rw [howner]
      cases closing <;> rfl
  · rename_i howner
    rw [hfailed, if_neg Bool.false_ne_true] at hown
    split at hown
    · obtain rfl := Option.some.inj hown
      refine h.direct (.inr rfl) (through_send s terminal) ?_ rfl (fun _ => rfl) rfl rfl
      simp [stream, howner, OwnerPhase.told, send]
    · simp at hown
  · simp at hown

theorem conserved_take (h : s.Conserved events terminal) {event : TelemetryEvent}
    {rest : List TelemetryEvent} (hinbox : s.inbox = event :: rest) :
    ({ s with inbox := rest, delivered := s.delivered ++ [event] } :
      RendererTransport).Conserved events terminal := by
  have hthrough : ({ s with inbox := rest, delivered := s.delivered ++ [event] } :
      RendererTransport).through = s.through := by
    simp [through, hinbox]
  exact ⟨h.tidy, hthrough ▸ h.order, hthrough ▸ h.account, hthrough ▸ h.failures, h.parked,
    h.gauges, hthrough ▸ h.known⟩

theorem conserved_start (scripts : List (List TelemetryEvent)) :
    (start scripts).Conserved events terminal := by
  refine ⟨⟨List.nodup_nil, by simp [start]⟩, rfl, fun c _ => ?_, List.Perm.nil, by simp [start],
    by simp [start], by simp [start, through]⟩
  have hnone : ∀ l : List (List TelemetryEvent),
      ((l.map fun script => (⟨script, .idle⟩ : Producer)).map fun producer =>
        weights c producer.phase.bytes).sum = 0 := by
    intro l
    induction l with
    | nil => rfl
    | cons script l ih =>
        rw [List.map_cons, List.map_cons, List.sum_cons, ih]
        rfl
  have howed : (start scripts).owed c = 0 := by
    rw [owed, start, hnone]
    rfl
  rw [howed]
  rfl

end Conserved

/-! ## The scripts of the producers -/

section Scripted

variable {s t : RendererTransport} {scripts : List (List TelemetryEvent)}

/-- The events that were taken from a producer. -/
def routedFrom (s : RendererTransport) (k : ℕ) : List TelemetryEvent :=
  (s.routed.filter (·.1 = k)).map Prod.snd

/-- Each producer has handed over the events of its script in order. -/
structure Scripted (scripts : List (List TelemetryEvent)) (s : RendererTransport) : Prop where
  producer : ∀ k script, scripts[k]? = some script → ∃ producer, s.producers[k]? = some producer ∧
    s.routedFrom k ++ producer.phase.hand ++ producer.todo = script
  length : s.producers.length = scripts.length
  routed : ∀ entry ∈ s.routed, entry.1 < scripts.length

theorem Scripted.mem {k : ℕ} {producer : Producer} (h : Scripted scripts s)
    (hproducer : s.producers[k]? = some producer) :
    ∃ script, scripts[k]? = some script ∧
      s.routedFrom k ++ producer.phase.hand ++ producer.todo = script := by
  have hk : k < scripts.length := h.length ▸ (List.getElem?_eq_some_iff.1 hproducer).1
  obtain ⟨producer', hproducer', hscript⟩ :=
    h.producer k scripts[k] (List.getElem?_eq_getElem hk)
  obtain rfl := Option.some.inj (hproducer.symm.trans hproducer')
  exact ⟨scripts[k], List.getElem?_eq_getElem hk, hscript⟩

theorem Scripted.hand {k : ℕ} {producer : Producer} (h : Scripted scripts s)
    (hproducer : s.producers[k]? = some producer) {event : TelemetryEvent}
    (hevent : event ∈ producer.phase.hand) : event ∈ scripts.flatten := by
  obtain ⟨script, hscript, hall⟩ := h.mem hproducer
  refine List.mem_flatten.2 ⟨script, List.mem_of_getElem? hscript, ?_⟩
  rw [← hall]
  simp [hevent]

theorem Scripted.taken (h : Scripted scripts s) {event : TelemetryEvent}
    (hevent : event ∈ s.routed.map Prod.snd) : event ∈ scripts.flatten := by
  obtain ⟨⟨k, e⟩, hentry, rfl⟩ := List.mem_map.1 hevent
  have hk := h.routed _ hentry
  obtain ⟨producer, -, hscript⟩ := h.producer k scripts[k] (List.getElem?_eq_getElem hk)
  refine List.mem_flatten.2 ⟨scripts[k], List.getElem_mem hk, ?_⟩
  rw [← hscript]
  have hfrom : e ∈ s.routedFrom k := List.mem_map.2 ⟨(k, e), by simp [hentry], rfl⟩
  simp [hfrom]

theorem Scripted.congr (h : Scripted scripts s) (hproducers : t.producers = s.producers)
    (hrouted : t.routed = s.routed) : Scripted scripts t := by
  have hfrom : ∀ k, t.routedFrom k = s.routedFrom k := by
    intro k
    rw [routedFrom, hrouted]
    rfl
  refine ⟨fun k script hscript => ?_, hproducers ▸ h.length, hrouted ▸ h.routed⟩
  obtain ⟨producer, hproducer, hall⟩ := h.producer k script hscript
  exact ⟨producer, hproducers ▸ hproducer, by rw [hfrom, hall]⟩

/-- A producer goes on, and some of its events are taken. -/
theorem Scripted.go {k : ℕ} {producer producer' : Producer} (h : Scripted scripts s)
    (hproducer : s.producers[k]? = some producer) (taken : List TelemetryEvent)
    (hproducers : t.producers = s.producers.set k producer')
    (hrouted : t.routed = s.routed ++ taken.map (k, ·))
    (hhand : taken ++ producer'.phase.hand ++ producer'.todo =
      producer.phase.hand ++ producer.todo) : Scripted scripts t := by
  have hk : k < s.producers.length := (List.getElem?_eq_some_iff.1 hproducer).1
  refine ⟨fun j script hscript => ?_, ?_, fun entry hentry => ?_⟩
  · obtain ⟨old, hold, hall⟩ := h.producer j script hscript
    by_cases hj : j = k
    · subst hj
      obtain rfl := Option.some.inj (hproducer.symm.trans hold)
      refine ⟨producer', by rw [hproducers, List.getElem?_set_self hk], ?_⟩
      have hfrom : t.routedFrom j = s.routedFrom j ++ taken := by
        rw [routedFrom, hrouted, List.filter_append, List.map_append]
        congr 1
        have hself : (taken.map (j, ·)).filter (·.1 = j) = taken.map (j, ·) := by
          simp [List.filter_eq_self]
        rw [hself, List.map_map]
        exact List.map_id _
      rw [hfrom, ← hall, List.append_assoc, List.append_assoc, List.append_assoc, ← hhand,
        List.append_assoc]
    · refine ⟨old, by rw [hproducers, List.getElem?_set_ne (Ne.symm hj)]; exact hold, ?_⟩
      have hfrom : t.routedFrom j = s.routedFrom j := by
        rw [routedFrom, hrouted, List.filter_append, List.map_append]
        have hnone : (taken.map (k, ·)).filter (·.1 = j) = [] := by
          simp [List.filter_eq_nil_iff, Ne.symm hj]
        rw [hnone, List.map_nil, List.append_nil]
        rfl
      rw [hfrom]
      exact hall
  · rw [hproducers, List.length_set]
    exact h.length
  · rw [hrouted] at hentry
    rcases List.mem_append.1 hentry with hold | hnew
    · exact h.routed entry hold
    · obtain ⟨event, -, rfl⟩ := List.mem_map.1 hnew
      exact h.length ▸ hk

theorem scripted_progress {k : ℕ} {producer : Producer} (h : Scripted scripts s)
    (hproducer : s.producers[k]? = some producer)
    (hprogress : Progress s k producer.todo producer.phase t) : Scripted scripts t := by
  obtain ⟨todo, phase⟩ := producer
  cases hprogress with
  | moved phase phase' todo' hhand _ _ =>
      exact h.go hproducer [] rfl (List.append_nil _).symm hhand
  | flushed phase t hflush =>
      cases hflush <;> exact h.congr rfl rfl
  | sent phase event hhand _ =>
      refine h.go hproducer [event] rfl rfl ?_
      rw [hhand]
      rfl
  | coalesced event u hcoalesced phase' hhand _ =>
      have hsame : u.producers = s.producers ∧ u.routed = s.routed := by
        cases hcoalesced <;> exact ⟨rfl, rfl⟩
      refine h.go (k := k) hproducer [event] (?_ : _ = s.producers.set k ⟨todo, phase'⟩) ?_ ?_
      · rw [← hsame.1]
        rfl
      · rw [← hsame.2]
        rfl
      · rw [hhand]
        rfl
  | bytes event pending _ =>
      exact h.go hproducer [] rfl (List.append_nil _).symm rfl

theorem scripted_start (scripts : List (List TelemetryEvent)) :
    Scripted scripts (start scripts) := by
  refine ⟨fun k script hscript => ⟨⟨script, .idle⟩, ?_, rfl⟩, by simp [start], by simp [start]⟩
  simp [start, hscript]

end Scripted

/-! ## The end of the command -/

end RendererTransport

/-- What the owner has drained. -/
def OwnerPhase.drained : OwnerPhase → DrainStage → Bool
  | .working, _ | .draining .deltas false, _ => false
  | .draining .failures false, stage => decide (stage = .deltas)
  | .draining .gauges false, stage => decide (stage ≠ .gauges)
  | .draining _ true, _ | .sending, _ | .closed, _ => true

namespace RendererTransport

section Drained

variable {s t : RendererTransport} {terminal : TelemetryEvent}

/-- When the producers have stopped nothing new is pending, and the terminal event is last. -/
structure Drained (terminal : TelemetryEvent) (s : RendererTransport) : Prop where
  stopped : s.owner ≠ .working → s.Stopped
  deltas : s.owner.drained .deltas = true → s.pendingDeltas = []
  failures : s.owner.drained .failures = true → s.pendingFailures = []
  gauges : s.owner.drained .gauges = true → s.pendingGauges = []
  last : s.owner.told = true → ∃ before, s.through = before ++ [terminal]

/-- What a step of the owner leaves alone. -/
theorem own_frame (h : s.own terminal = some t) :
    t.failed = s.failed ∧ t.producers = s.producers ∧ t.routed = s.routed := by
  unfold own at h
  split at h
  · split at h
    · obtain rfl := Option.some.inj h
      exact ⟨rfl, rfl, rfl⟩
    · simp at h
  · split at h
    · split at h
      · obtain rfl := Option.some.inj h
        exact ⟨rfl, rfl, rfl⟩
      · simp at h
    · obtain rfl := Option.some.inj h
      exact ⟨rfl, rfl, rfl⟩
  · split at h
    · split at h
      · obtain rfl := Option.some.inj h
        exact ⟨rfl, rfl, rfl⟩
      · simp at h
    · obtain rfl := Option.some.inj h
      exact ⟨rfl, rfl, rfl⟩
  · split at h
    · split at h
      · obtain rfl := Option.some.inj h
        exact ⟨rfl, rfl, rfl⟩
      · simp at h
    · obtain rfl := Option.some.inj h
      exact ⟨rfl, rfl, rfl⟩
  · split at h
    · obtain rfl := Option.some.inj h
      exact ⟨rfl, rfl, rfl⟩
    · split at h
      · obtain rfl := Option.some.inj h
        exact ⟨rfl, rfl, rfl⟩
      · simp at h
  · simp at h

/-- A producer that takes a step has not stopped, so the owner is still at work. -/
theorem owner_of_produce {k : ℕ} {producer : Producer} (h : Drained terminal s)
    (hproducer : s.producers[k]? = some producer)
    (hproduce : s.produce k producer.todo producer.phase = some t) : s.owner = .working := by
  by_contra hne
  have hidle := h.stopped hne producer (List.mem_of_getElem? hproducer)
  subst hidle
  simp [produce] at hproduce

theorem owner_of_progress {k : ℕ} {todo : List TelemetryEvent} {phase : ProducerPhase}
    (h : Progress s k todo phase t) : t.owner = s.owner := by
  cases h with
  | flushed _ _ hflush => cases hflush <;> rfl
  | coalesced _ _ hcoalesced => cases hcoalesced <;> rfl
  | moved | sent | bytes => rfl

theorem drained_of_working (h : s.owner = .working) : Drained terminal s := by
  refine ⟨fun hne => absurd h hne, fun hd => ?_, fun hd => ?_, fun hd => ?_, fun hd => ?_⟩ <;>
    simp [h, OwnerPhase.drained, OwnerPhase.told] at hd

/-- The owner goes on without sending anything. -/
theorem Drained.advance (h : Drained terminal s) {owner : OwnerPhase}
    (hne : s.owner ≠ .working) (htold : owner.told = s.owner.told)
    (hdeltas : owner.drained .deltas = true → s.pendingDeltas = [])
    (hfailures : owner.drained .failures = true → s.pendingFailures = [])
    (hgauges : owner.drained .gauges = true → s.pendingGauges = []) :
    Drained terminal { s with owner := owner } :=
  ⟨fun _ => h.stopped hne, hdeltas, hfailures, hgauges, fun hlast => h.last (htold ▸ hlast)⟩

theorem drained_own (h : Drained terminal s) (hfailed : s.failed = false)
    (hown : s.own terminal = some t) : Drained terminal t := by
  unfold own at hown
  split at hown
  · rename_i howner
    split at hown
    · rename_i hstopped
      obtain rfl := Option.some.inj hown
      rw [hfailed]
      exact ⟨fun _ => hstopped, by simp [OwnerPhase.drained], by simp [OwnerPhase.drained],
        by simp [OwnerPhase.drained], by simp [OwnerPhase.told]⟩
    · simp at hown
  · rename_i closing howner
    have hne : s.owner ≠ .working := by simp [howner]
    split at hown
    · rename_i entry pending hpending
      cases closing with
      | true => exact absurd (h.deltas (by rw [howner]; rfl)) (by simp [hpending])
      | false =>
          split at hown
          · obtain rfl := Option.some.inj hown
            refine ⟨fun _ => h.stopped hne, fun hd => ?_, h.failures, h.gauges, fun hlast => ?_⟩
            · simp [send, howner, OwnerPhase.drained] at hd
            · simp [send, howner, OwnerPhase.told] at hlast
          · simp at hown
    · rename_i hpending
      obtain rfl := Option.some.inj hown
      refine h.advance hne (by rw [howner]; rfl) (fun _ => hpending) (fun hd => ?_) fun hd => ?_
      · cases closing with
        | true => exact h.failures (by rw [howner]; rfl)
        | false => simp [OwnerPhase.drained] at hd
      · cases closing with
        | true => exact h.gauges (by rw [howner]; rfl)
        | false => simp [OwnerPhase.drained] at hd
  · rename_i closing howner
    have hne : s.owner ≠ .working := by simp [howner]
    have hdeltas : s.pendingDeltas = [] := h.deltas (by rw [howner]; cases closing <;> rfl)
    split at hown
    · rename_i failure pending hpending
      cases closing with
      | true => exact absurd (h.failures (by rw [howner]; rfl)) (by simp [hpending])
      | false =>
          split at hown
          · obtain rfl := Option.some.inj hown
            refine ⟨fun _ => h.stopped hne, fun _ => hdeltas, fun hd => ?_, h.gauges,
              fun hlast => ?_⟩
            · simp [send, howner, OwnerPhase.drained] at hd
            · simp [send, howner, OwnerPhase.told] at hlast
          · simp at hown
    · rename_i hpending
      obtain rfl := Option.some.inj hown
      refine h.advance hne (by rw [howner]; rfl) (fun _ => hdeltas) (fun _ => hpending) fun hd => ?_
      cases closing with
      | true => exact h.gauges (by rw [howner]; rfl)
      | false => simp [OwnerPhase.drained] at hd
  · rename_i closing howner
    have hne : s.owner ≠ .working := by simp [howner]
    have hdeltas : s.pendingDeltas = [] := h.deltas (by rw [howner]; cases closing <;> rfl)
    have hfailures : s.pendingFailures = [] := h.failures (by rw [howner]; cases closing <;> rfl)
    split at hown
    · rename_i key gauge pending hpending
      cases closing with
      | true => exact absurd (h.gauges (by rw [howner]; rfl)) (by simp [hpending])
      | false =>
          split at hown
          · obtain rfl := Option.some.inj hown
            refine ⟨fun _ => h.stopped hne, fun _ => hdeltas, fun _ => hfailures, fun hd => ?_,
              fun hlast => ?_⟩
            · simp [send, howner, OwnerPhase.drained] at hd
            · simp [send, howner, OwnerPhase.told] at hlast
          · simp at hown
    · rename_i hpending
      obtain rfl := Option.some.inj hown
      refine h.advance hne ?_ (fun _ => hdeltas) (fun _ => hfailures) fun _ => hpending
      rw [howner]
      cases closing <;> rfl
  · rename_i howner
    have hne : s.owner ≠ .working := by simp [howner]
    rw [hfailed, if_neg Bool.false_ne_true] at hown
    split at hown
    · obtain rfl := Option.some.inj hown
      exact ⟨fun _ => h.stopped hne, fun _ => h.deltas (by rw [howner]; rfl),
        fun _ => h.failures (by rw [howner]; rfl), fun _ => h.gauges (by rw [howner]; rfl),
        fun _ => ⟨s.through, through_send s terminal⟩⟩
    · simp at hown
  · simp at hown

theorem drained_take (h : Drained terminal s) {event : TelemetryEvent}
    {rest : List TelemetryEvent} (hinbox : s.inbox = event :: rest) :
    Drained terminal { s with inbox := rest, delivered := s.delivered ++ [event] } := by
  refine ⟨h.stopped, h.deltas, h.failures, h.gauges, fun hlast => ?_⟩
  obtain ⟨before, hbefore⟩ := h.last hlast
  exact ⟨before, by rw [← hbefore]; simp [through, hinbox]⟩

end Drained

end RendererTransport

end Telemetry

end MediaImporter
