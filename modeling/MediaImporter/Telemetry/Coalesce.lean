import MediaImporter.Telemetry.Transport

/-!
# What coalescing does

An event that meets a full inbox is merged into counters that are pending, which are sent as
counter events later. The counters of the dashboard get the same from these as from the
event, for streams that are `Clear`.

## Main definitions

* `weight`, `weights` — what events add to a counter.
* `HasRule`, `Clear` — the events that can be coalesced, and streams for which that is exact.
* `Progress`, `produce_progress` — what a producer does in a step.
-/

namespace MediaImporter

namespace Telemetry

/-! ## Maps in the order of their keys -/

section OrderedMap

variable {κ ν : Type} [LinearOrder κ] {m : List (κ × ν)} {k : κ} {v : ν}

theorem insertOrdered_perm (m : List (κ × ν)) (k : κ) (v : ν) :
    (insertOrdered m k v).Perm ((k, v) :: m.filter (·.1 ≠ k)) := by
  have hless : (m.filter (·.1 ≠ k)).filter (·.1 < k) = m.filter (·.1 < k) := by
    rw [List.filter_filter]
    refine List.filter_congr fun e _ => ?_
    by_cases h : e.1 < k
    · simp [h, h.ne]
    · simp [h]
  have hmore : (m.filter (·.1 ≠ k)).filter (fun e => !decide (e.1 < k)) = m.filter (k < ·.1) := by
    rw [List.filter_filter]
    refine List.filter_congr fun e _ => ?_
    rcases lt_trichotomy e.1 k with h | h | h
    · simp [h, h.le]
    · simp [h]
    · simp [h, h.le, h.ne']
  have hperm := List.filter_append_perm (fun e => decide (e.1 < k)) (m.filter (·.1 ≠ k))
  rw [hless, hmore] at hperm
  exact List.perm_middle.trans (hperm.cons _)

theorem nodup_insertOrdered (h : (m.map Prod.fst).Nodup) :
    ((insertOrdered m k v).map Prod.fst).Nodup := by
  rw [((insertOrdered_perm m k v).map Prod.fst).nodup_iff, List.map_cons, List.nodup_cons]
  constructor
  · intro hmem
    obtain ⟨e, he, hk⟩ := List.mem_map.1 hmem
    simpa [hk] using (List.mem_filter.1 he).2
  · exact h.sublist (List.filter_sublist.map _)

theorem mem_insertOrdered {e : κ × ν} (h : e ∈ insertOrdered m k v) : e = (k, v) ∨ e ∈ m := by
  rcases List.mem_cons.1 ((insertOrdered_perm m k v).mem_iff.1 h) with heq | hmem
  · exact .inl heq
  · exact .inr (List.mem_filter.1 hmem).1

/-- What an entry with a free key adds to a sum. -/
theorem sum_insertOrdered_of_free [BEq κ] [LawfulBEq κ] (g : κ × ν → ℕ) (h : m.lookup k = none) :
    ((insertOrdered m k v).map g).sum = (m.map g).sum + g (k, v) := by
  have hall : m.filter (·.1 ≠ k) = m := by
    rw [List.filter_eq_self]
    intro e he
    have hne : k ≠ e.1 := by simpa using List.lookup_eq_none_iff.1 h e he
    simpa using hne.symm
  rw [((insertOrdered_perm m k v).map g).sum_eq, hall, List.map_cons, List.sum_cons]
  omega

/-- What an entry adds to a sum in place of an older one. -/
theorem sum_insertOrdered_of_lookup [BEq κ] [LawfulBEq κ] {old : ν} (g : κ × ν → ℕ)
    (hnodup : (m.map Prod.fst).Nodup) (h : m.lookup k = some old) :
    ((insertOrdered m k v).map g).sum + g (k, old) = (m.map g).sum + g (k, v) := by
  rw [((insertOrdered_perm m k v).map g).sum_eq, List.map_cons, List.sum_cons]
  have hrest : ((m.filter (·.1 ≠ k)).map g).sum + g (k, old) = (m.map g).sum := by
    induction m with
    | nil => simp at h
    | cons e m ih =>
        obtain ⟨k', v'⟩ := e
        rw [List.map_cons, List.nodup_cons] at hnodup
        rw [List.lookup_cons] at h
        by_cases hk : k = k'
        · subst hk
          rw [beq_self_eq_true] at h
          obtain rfl : v' = old := Option.some.inj h
          have hnone : m.filter (·.1 ≠ k) = m := by
            rw [List.filter_eq_self]
            intro e' he'
            have hne : e'.1 ≠ k := by
              intro heq
              exact hnodup.1 (List.mem_map.2 ⟨e', he', heq⟩)
            simpa using hne
          rw [List.filter_cons_of_neg (by simp), hnone, List.map_cons, List.sum_cons]
          omega
        · rw [beq_false_of_ne hk] at h
          rw [List.filter_cons_of_pos (by simpa using Ne.symm hk), List.map_cons, List.map_cons,
            List.sum_cons, List.sum_cons]
          have := ih hnodup.2 h
          omega
  omega

end OrderedMap

/-! ## What events add -/

/-- What an event adds to a counter. -/
def weight (c : DashboardCounter) (event : TelemetryEvent) : ℕ :=
  match updateOf c event with
  | .add n => n
  | .set _ => 0

/-- What the events of a list add. -/
def weights (c : DashboardCounter) (events : List TelemetryEvent) : ℕ :=
  (events.map (weight c)).sum

theorem weights_append (c : DashboardCounter) (l l' : List TelemetryEvent) :
    weights c (l ++ l') = weights c l + weights c l' := by
  simp [weights]

theorem updateOf_of_delta (c : DashboardCounter) {event : TelemetryEvent}
    (h : IsDelta event.event) : updateOf c event = .add
      (if c ∈ (deltaTargets event.event).1 then
        countField event (deltaTargets event.event).2 else 0) := by
  have hlookup : ∀ (l : List DashboardCounter) (u : Update),
      (l.map fun c' => (c', u)).lookup c = if c ∈ l then some u else none := by
    intro l u
    induction l with
    | nil => rfl
    | cons c' l ih =>
        rw [List.map_cons, List.lookup_cons, ih]
        by_cases hc : c = c'
        · simp [hc]
        · simp [beq_false_of_ne hc, hc]
  rw [updateOf, dashboardUpdates_of_delta h, hlookup]
  split <;> rfl

/-- What a pending counter adds, by its field. -/
theorem weight_deltaEvent (c : DashboardCounter) (command event field : String) (value : ℕ)
    (h : IsDelta event) : weight c (deltaEvent (deltaKey command event field, value)) =
      if c ∈ (deltaTargets event).1 ∧ field = (deltaTargets event).2 then value else 0 := by
  have hdelta : IsDelta (deltaEvent (deltaKey command event field, value)).event := h
  have hcount : ∀ name, countField (deltaEvent (deltaKey command event field, value)) name =
      if field = name then value else 0 := by
    intro name
    by_cases hname : field = name
    · simp [countField, TelemetryEvent.fieldValue, deltaEvent, deltaKey, hname,
        TelemetryValue.asU64]
    · simp [countField, TelemetryEvent.fieldValue, deltaEvent, deltaKey, hname]
  rw [weight, updateOf_of_delta c hdelta, hcount]
  change (if c ∈ (deltaTargets event).1 then
    if field = (deltaTargets event).2 then value else 0 else 0) = _
  by_cases hc : c ∈ (deltaTargets event).1
  · simp [hc]
  · simp [hc]

/-- The counts of an event, each as an event of its own. -/
def countEvents (event : TelemetryEvent) : List TelemetryEvent :=
  event.fields.filterMap fun field => field.value.asU64.map fun value =>
    deltaEvent (deltaKey event.command event.event field.name, value)

theorem sum_counts (fields : List TelemetryField) (hfields : (fields.map (·.name)).Nodup)
    (name : String) :
    (fields.map fun field => if field.name = name then field.value.asU64.getD 0 else 0).sum =
      (((fields.find? (·.name = name)).map (·.value)).bind (·.asU64)).getD 0 := by
  induction fields with
  | nil => rfl
  | cons field fields ih =>
      rw [List.map_cons, List.nodup_cons] at hfields
      rw [List.map_cons, List.sum_cons, ih hfields.2]
      by_cases hname : field.name = name
      · have hnone : fields.find? (·.name = name) = none := by
          rw [List.find?_eq_none]
          intro other hother heq
          have hother' : other.name = field.name := by simpa [hname] using heq
          exact hfields.1 (List.mem_map.2 ⟨other, hother, hother'⟩)
        simp [hname, hnone]
      · simp [hname]

/-- A counter event adds what its counts add one by one. -/
theorem weights_countEvents (c : DashboardCounter) {event : TelemetryEvent}
    (h : IsDelta event.event) (hfields : (event.fields.map (·.name)).Nodup) :
    weights c (countEvents event) = weight c event := by
  have hsum : ∀ fields : List TelemetryField,
      weights c (fields.filterMap fun field => field.value.asU64.map fun value =>
        deltaEvent (deltaKey event.command event.event field.name, value)) =
      if c ∈ (deltaTargets event.event).1 then
        (fields.map fun field => if field.name = (deltaTargets event.event).2 then
          field.value.asU64.getD 0 else 0).sum else 0 := by
    intro fields
    induction fields with
    | nil => simp [weights]
    | cons field fields ih =>
        cases hvalue : field.value.asU64 with
        | none =>
            rw [List.filterMap_cons_none (by rw [hvalue]; rfl), ih]
            simp [hvalue]
        | some value =>
            rw [List.filterMap_cons_some (by rw [hvalue]; rfl)]
            change weight c _ + weights c _ = _
            rw [ih, weight_deltaEvent c _ _ _ _ h]
            by_cases hc : c ∈ (deltaTargets event.event).1
            · simp [hc, hvalue]
            · simp [hc]
  rw [countEvents, hsum, weight, updateOf_of_delta c h]
  dsimp only
  rw [sum_counts event.fields hfields]
  rfl

/-! ## Pending counters -/

/-- Each counter is pending once, and is sent as a counter event. -/
structure Tidy (pending : List (DeltaKey × ℕ)) : Prop where
  nodup : (pending.map Prod.fst).Nodup
  delta : ∀ entry ∈ pending, IsDelta (deltaEvent entry).event

namespace RendererTransport

theorem addPending_spec {pending pending' : List (DeltaKey × ℕ)} {command event field : String}
    {value : ℕ} (hp : Tidy pending) (hdelta : IsDelta event)
    (h : addPending pending (deltaKey command event field) value = some pending') :
    Tidy pending' ∧ ∀ c, weights c (pending'.map deltaEvent) =
      weights c (pending.map deltaEvent) +
        weight c (deltaEvent (deltaKey command event field, value)) := by
  have htidy : ∀ v, Tidy (insertOrdered pending (deltaKey command event field) v) := by
    intro v
    refine ⟨nodup_insertOrdered hp.nodup, fun entry hentry => ?_⟩
    rcases mem_insertOrdered hentry with rfl | hold
    · exact hdelta
    · exact hp.delta entry hold
  have hweights : ∀ (c : DashboardCounter) (l : List (DeltaKey × ℕ)),
      weights c (l.map deltaEvent) = (l.map fun entry => weight c (deltaEvent entry)).sum := by
    intro c l
    rw [weights, List.map_map]
    rfl
  unfold addPending at h
  split at h
  · rename_i hnone
    obtain rfl := Option.some.inj h
    refine ⟨htidy value, fun c => ?_⟩
    rw [hweights, hweights, sum_insertOrdered_of_free _ hnone]
  · rename_i total hsome
    split at h
    · obtain rfl := Option.some.inj h
      refine ⟨htidy (total + value), fun c => ?_⟩
      have hsum := sum_insertOrdered_of_lookup (v := total + value)
        (fun entry => weight c (deltaEvent entry)) hp.nodup hsome
      rw [hweights, hweights]
      simp only [weight_deltaEvent c _ _ _ _ hdelta] at hsum ⊢
      split at hsum
      · rename_i htarget
        rw [if_pos htarget]
        omega
      · rename_i htarget
        rw [if_neg htarget]
        omega
    · simp at h

theorem addCounts_spec {pending pending' : List (DeltaKey × ℕ)} {command event : String}
    {fields : List TelemetryField} (hp : Tidy pending) (hdelta : IsDelta event)
    (h : addCounts command event pending fields = (pending', true)) :
    Tidy pending' ∧ ∀ c, weights c (pending'.map deltaEvent) =
      weights c (pending.map deltaEvent) +
        weights c (fields.filterMap fun field => field.value.asU64.map fun value =>
          deltaEvent (deltaKey command event field.name, value)) := by
  induction fields generalizing pending with
  | nil =>
      obtain rfl : pending = pending' := congrArg Prod.fst h
      exact ⟨hp, fun c => by simp [weights]⟩
  | cons field fields ih =>
      obtain ⟨name, value⟩ := field
      cases value with
      | boolean _ | text _ => exact ih hp h
      | count value =>
          rw [addCounts] at h
          split at h
          · rename_i pending₁ hadd
            obtain ⟨hp₁, hw₁⟩ := addPending_spec hp hdelta hadd
            obtain ⟨hp', hw'⟩ := ih hp₁ h
            refine ⟨hp', fun c => ?_⟩
            rw [hw', hw₁]
            change _ = _ + weights c (deltaEvent (deltaKey command event name, value) :: _)
            rw [show ∀ (e : TelemetryEvent) l, weights c (e :: l) = weight c e + weights c l from
              fun _ _ => rfl]
            omega
          · simp at h

/-- Without counts nothing is added. -/
theorem addCounts_of_not_hasCount {pending : List (DeltaKey × ℕ)} {command event : String}
    {fields : List TelemetryField} (h : ¬ ∃ field ∈ fields, field.value.asU64.isSome) :
    addCounts command event pending fields = (pending, true) := by
  induction fields with
  | nil => rfl
  | cons field fields ih =>
      obtain ⟨name, value⟩ := field
      have hrest : ¬ ∃ field ∈ fields, field.value.asU64.isSome := by
        intro ⟨other, hother, hcount⟩
        exact h ⟨other, List.mem_cons_of_mem _ hother, hcount⟩
      cases value with
      | boolean _ | text _ => exact ih hrest
      | count value => exact absurd ⟨_, List.mem_cons_self, rfl⟩ h

end RendererTransport

/-! ## Events with a rule -/

/-- The counter that stands for an event. -/
def factDelta : String → Option String
  | "file_discovered" => some "file_discovered_delta"
  | "file_skipped" => some "file_skipped_delta"
  | "file_hashed" => some "file_hashed_delta"
  | "blob_hashed" => some "blob_hashed_delta"
  | "cas_blob_created" => some "cas_blob_created_delta"
  | "cas_blob_reused" => some "cas_blob_reused_delta"
  | _ => none

def IsFailure (event : TelemetryEvent) : Prop := event.event = "operational_failure"

instance (event : TelemetryEvent) : Decidable (IsFailure event) :=
  inferInstanceAs (Decidable (_ = _))

/-- The event can be merged or parked when the inbox is full. -/
def HasRule (event : TelemetryEvent) : Prop :=
  IsDelta event.event ∧ HasCount event ∨ (factDelta event.event).isSome ∨ event.isGauge ∨
    IsFailure event

instance (event : TelemetryEvent) : Decidable (HasRule event) := by
  unfold HasRule
  infer_instance

/-- The totals of the dashboard. -/
def totals : List DashboardCounter :=
  [.files, .completed, .skipped, .read, .written, .created, .reused]

/-- What the events of a stream are like when coalescing them is exact. -/
structure Clear (events : List TelemetryEvent) : Prop where
  /-- The bytes of a hashed file come in counter events. -/
  fileHashed : ∀ event ∈ events, event.event = "file_hashed" →
    countField event "bytes_read" = 0 ∧ countField event "staging_bytes" = 0
  blobHashed : ∀ event ∈ events, event.event = "blob_hashed" →
    countField event "staging_bytes" = 0
  fields : ∀ event ∈ events, IsDelta event.event → (event.fields.map (·.name)).Nodup
  /-- A total that an event sets gets nothing from events that can be coalesced. -/
  totals : ∀ c ∈ totals, (∀ event ∈ events, ∀ n, updateOf c event ≠ .set n) ∨
    ∀ event ∈ events, HasRule event → updateOf c event = .add 0

/-- The bytes of a hashed blob as an event of its own. -/
def bytesEvent (event : TelemetryEvent) : TelemetryEvent :=
  deltaEvent (deltaKey event.command "audit_bytes_delta" "bytes", countField event "bytes_read")

theorem isDelta_of_factDelta {name delta : String} (h : factDelta name = some delta) :
    IsDelta delta := by
  unfold factDelta at h
  split at h
  all_goals first
    | (obtain rfl := Option.some.inj h; decide +kernel)
    | simp at h

theorem lookup_cons_eq_ite (c c' : DashboardCounter) (u : Update)
    (l : List (DashboardCounter × Update)) :
    ((c', u) :: l).lookup c = if c = c' then some u else l.lookup c := by
  by_cases h : c = c'
  · simp [h]
  · rw [List.lookup_cons, beq_false_of_ne h, if_neg h]

/-- The counter that stands for an event says as much as the event. -/
theorem weight_of_factDelta {events : List TelemetryEvent} (hclear : Clear events)
    {event : TelemetryEvent} (hmem : event ∈ events) {delta : String}
    (h : factDelta event.event = some delta) (c : DashboardCounter) :
    weight c event = weight c (deltaEvent (deltaKey event.command delta "count", 1)) +
      if event.event = "blob_hashed" then weight c (bytesEvent event) else 0 := by
  have hbytes : weight c (bytesEvent event) =
      if c = .read then countField event "bytes_read" else 0 := by
    rw [bytesEvent, weight_deltaEvent c _ _ _ _ (by decide +kernel)]
    simp [deltaTargets]
  have hfile := hclear.fileHashed event hmem
  have hblob := hclear.blobHashed event hmem
  rw [weight_deltaEvent c _ _ _ _ (isDelta_of_factDelta h), hbytes, weight, updateOf,
    dashboardUpdates]
  generalize event.event = name at h hfile hblob ⊢
  unfold factDelta at h
  split at h
  all_goals first
    | (obtain rfl := Option.some.inj h
       cases c <;> simp_all [deltaTargets, lookup_cons_eq_ite])
    | simp at h

/-! ## What a step can do -/

/-- The event that the producer has not handed over yet. -/
def ProducerPhase.hand : ProducerPhase → List TelemetryEvent
  | .flushingDeltas event | .flushingFailures event | .flushingGauges event | .sending event
  | .coalescing event | .waiting event => [event]
  | .idle | .addingBytes _ => []

/-- What the producer has to add after it has handed the event over. -/
def ProducerPhase.bytes : ProducerPhase → List TelemetryEvent
  | .addingBytes event => [bytesEvent event]
  | _ => []

namespace RendererTransport

variable {s t : RendererTransport}

/-- Something that is pending goes to the inbox. -/
inductive Flushed (s : RendererTransport) : RendererTransport → Prop
  | delta (entry : DeltaKey × ℕ) (pending : List (DeltaKey × ℕ))
      (h : s.pendingDeltas = entry :: pending) :
      Flushed s { s.send (deltaEvent entry) with pendingDeltas := pending }
  | failure (event : TelemetryEvent) (pending : List TelemetryEvent)
      (h : s.pendingFailures = event :: pending) :
      Flushed s { s.send event with pendingFailures := pending }
  | gauge (entry : (String ×ₗ String ×ₗ String) × TelemetryEvent)
      (pending : List ((String ×ₗ String ×ₗ String) × TelemetryEvent))
      (h : s.pendingGauges = entry :: pending) :
      Flushed s { s.send entry.2 with pendingGauges := pending }

/-- An event that meets a full inbox is merged or parked. -/
inductive Coalesced (s : RendererTransport) (event : TelemetryEvent) : RendererTransport → Prop
  | counts (pending : List (DeltaKey × ℕ)) (hdelta : IsDelta event.event)
      (hcount : HasCount event) (hfact : factDelta event.event = none)
      (h : addCounts event.command event.event s.pendingDeltas event.fields = (pending, true)) :
      Coalesced s event { s with pendingDeltas := pending }
  | fact (delta : String) (pending : List (DeltaKey × ℕ))
      (hfact : factDelta event.event = some delta)
      (h : addPending s.pendingDeltas (deltaKey event.command delta "count") 1 = some pending) :
      Coalesced s event { s with pendingDeltas := pending }
  | gauge (key : String ×ₗ String ×ₗ String) (hgauge : event.isGauge) :
      Coalesced s event { s with pendingGauges := insertOrdered s.pendingGauges key event }
  | failure (hfailure : IsFailure event) :
      Coalesced s event { s with pendingFailures := s.pendingFailures ++ [event] }

/-- What a producer does in a step, in which nothing fails. -/
inductive Progress (s : RendererTransport) (k : ℕ) (todo : List TelemetryEvent) :
    ProducerPhase → RendererTransport → Prop
  | moved (phase phase' : ProducerPhase) (todo' : List TelemetryEvent)
      (hhand : phase'.hand ++ todo' = phase.hand ++ todo) (hbytes : phase.bytes = [])
      (hbytes' : phase'.bytes = []) : Progress s k todo phase (s.setProducer k ⟨todo', phase'⟩)
  | flushed (phase : ProducerPhase) (t : RendererTransport) (h : Flushed s t) :
      Progress s k todo phase t
  | sent (phase : ProducerPhase) (event : TelemetryEvent) (hhand : phase.hand = [event])
      (hbytes : phase.bytes = []) :
      Progress s k todo phase (((s.send event).route k event).setProducer k ⟨todo, .idle⟩)
  | coalesced (event : TelemetryEvent) (t : RendererTransport) (h : Coalesced s event t)
      (phase' : ProducerPhase) (hhand : phase'.hand = [])
      (hbytes : phase'.bytes = if event.event = "blob_hashed" ∧ countField event "bytes_read" ≠ 0
        then [bytesEvent event] else []) :
      Progress s k todo (.coalescing event) ((t.route k event).setProducer k ⟨todo, phase'⟩)
  | bytes (event : TelemetryEvent) (pending : List (DeltaKey × ℕ))
      (h : addPending s.pendingDeltas (deltaKey event.command "audit_bytes_delta" "bytes")
        (countField event "bytes_read") = some pending) :
      Progress s k todo (.addingBytes event)
        ({ s with pendingDeltas := pending }.setProducer k ⟨todo, .idle⟩)

theorem coalesceDelta_false {event : TelemetryEvent} (h : s.coalesceDelta event = (t, false))
    (hfailed : t.failed = false) : t = s ∧ ¬ (IsDelta event.event ∧ HasCount event) := by
  unfold coalesceDelta at h
  split at h
  · rename_i hdelta
    obtain rfl : s = t := congrArg Prod.fst h
    exact ⟨rfl, fun hboth => hdelta hboth.1⟩
  · split at h
    · rename_i pending hadd
      have hcount : ¬ HasCount event := by simpa using congrArg Prod.snd h
      rw [addCounts_of_not_hasCount hcount] at hadd
      obtain rfl : s.pendingDeltas = pending := congrArg Prod.fst hadd
      exact ⟨(congrArg Prod.fst h).symm, fun hboth => hcount hboth.2⟩
    · obtain rfl : _ = t := congrArg Prod.fst h
      simp at hfailed

theorem coalesceDelta_true {event : TelemetryEvent} (h : s.coalesceDelta event = (t, true)) :
    IsDelta event.event ∧ HasCount event ∧ ∃ pending,
      addCounts event.command event.event s.pendingDeltas event.fields = (pending, true) ∧
      t = { s with pendingDeltas := pending } := by
  unfold coalesceDelta at h
  split at h
  · simp at h
  · rename_i hdelta
    split at h
    · rename_i pending hadd
      have hcount : HasCount event := by simpa using congrArg Prod.snd h
      exact ⟨not_not.1 hdelta, hcount, pending, hadd, (congrArg Prod.fst h).symm⟩
    · simp at h

theorem addFact_cases {event : TelemetryEvent} {name field : String} {value : ℕ} {r : Bool}
    (h : s.addFact event name field value = (t, r)) (hfailed : t.failed = false) :
    r = true ∧ ∃ pending, addPending s.pendingDeltas (deltaKey event.command name field) value =
      some pending ∧ t = { s with pendingDeltas := pending } := by
  unfold addFact at h
  split at h
  · rename_i pending hadd
    obtain ⟨rfl, rfl⟩ := Prod.mk.inj h
    exact ⟨rfl, pending, hadd, rfl⟩
  · obtain ⟨rfl, rfl⟩ := Prod.mk.inj h
    simp at hfailed

theorem factDelta_of_delta {name : String} (h : IsDelta name) : factDelta name = none := by
  unfold factDelta
  split
  all_goals first
    | exact absurd h (by decide +kernel)
    | rfl

/-- What becomes of an event whose counts are not merged. -/
theorem coalesceWorkerFact_cases {event : TelemetryEvent} {r : Bool}
    (hcounts : ¬ (IsDelta event.event ∧ HasCount event))
    (h : s.coalesceWorkerFact event = (t, r)) (hfailed : t.failed = false) :
    r = true ∧ Coalesced s event t ∨ r = false ∧ t = s ∧ ¬ HasRule event := by
  have hfact : ∀ delta, factDelta event.event = some delta →
      s.addFact event delta "count" 1 = (t, r) → r = true ∧ Coalesced s event t := by
    intro delta hdelta hadd
    obtain ⟨hr, pending, hpending, rfl⟩ := addFact_cases hadd hfailed
    exact ⟨hr, .fact delta pending hdelta hpending⟩
  have hgauge : event.isGauge → s.coalesceGauge event = (t, r) →
      r = true ∧ Coalesced s event t := by
    intro hgauge hpark
    obtain ⟨rfl, rfl⟩ := Prod.mk.inj hpark
    exact ⟨rfl, .gauge _ hgauge⟩
  have hdelta : ∀ name, event.event = name → IsDelta name → ¬ event.isGauge →
      ¬ IsFailure event → s.coalesceDelta event = (t, r) →
      r = true ∧ Coalesced s event t ∨ r = false ∧ t = s ∧ ¬ HasRule event := by
    intro name hname hsuffix hnogauge hnofailure hmerge
    rw [← hname] at hsuffix
    cases r with
    | true =>
        obtain ⟨hdelta, hcount, pending, hadd, rfl⟩ := coalesceDelta_true hmerge
        exact absurd ⟨hdelta, hcount⟩ hcounts
    | false =>
        refine .inr ⟨rfl, (coalesceDelta_false hmerge hfailed).1, ?_⟩
        simp [HasRule, hcounts, factDelta_of_delta hsuffix, hnogauge, hnofailure]
  unfold coalesceWorkerFact at h
  split at h
  all_goals rename_i hname
  · exact .inl (hfact _ (by rw [hname]; rfl) h)
  · exact .inl (hfact _ (by rw [hname]; rfl) h)
  · exact .inl (hfact _ (by rw [hname]; rfl) h)
  · exact .inl (hfact _ (by rw [hname]; rfl) h)
  · exact .inl (hfact _ (by rw [hname]; rfl) h)
  · exact .inl (hfact _ (by rw [hname]; rfl) h)
  · exact .inl (hgauge (.inl hname) h)
  · exact .inl (hgauge (.inr (.inl hname)) h)
  · exact .inl (hgauge (.inr (.inr hname)) h)
  · unfold coalesceWorkerFailure at h
    split at h
    · obtain ⟨rfl, rfl⟩ := Prod.mk.inj h
      exact .inl ⟨rfl, .failure hname⟩
    · obtain ⟨rfl, rfl⟩ := Prod.mk.inj h
      simp at hfailed
  · exact hdelta _ hname (by decide +kernel) (by simp [TelemetryEvent.isGauge, hname])
      (by simp [IsFailure, hname]) h
  · exact hdelta _ hname (by decide +kernel) (by simp [TelemetryEvent.isGauge, hname])
      (by simp [IsFailure, hname]) h
  · obtain ⟨rfl, rfl⟩ := Prod.mk.inj h
    refine .inr ⟨rfl, rfl, ?_⟩
    have hnone : factDelta event.event = none := by
      unfold factDelta
      split <;> simp_all
    simp_all [HasRule, TelemetryEvent.isGauge, IsFailure]

theorem failed_of_coalesceWorkerFact {event : TelemetryEvent} {r : Bool}
    (h : s.coalesceWorkerFact event = (t, r)) (hfailed : t.failed = false) :
    s.failed = false := by
  have hfact : ∀ {name value}, s.addFact event name "count" value = (t, r) →
      s.failed = false := by
    intro name value hadd
    obtain ⟨-, pending, -, rfl⟩ := addFact_cases hadd hfailed
    exact hfailed
  have hmerge : s.coalesceDelta event = (t, r) → s.failed = false := by
    intro hmerge
    cases r with
    | true =>
        obtain ⟨-, -, pending, -, rfl⟩ := coalesceDelta_true hmerge
        exact hfailed
    | false =>
        obtain ⟨rfl, -⟩ := coalesceDelta_false hmerge hfailed
        exact hfailed
  unfold coalesceWorkerFact at h
  split at h
  · exact hfact h
  · exact hfact h
  · exact hfact h
  · exact hfact h
  · exact hfact h
  · exact hfact h
  · exact (congrArg (fun r => r.1.failed) h).trans hfailed
  · exact (congrArg (fun r => r.1.failed) h).trans hfailed
  · exact (congrArg (fun r => r.1.failed) h).trans hfailed
  · unfold coalesceWorkerFailure at h
    split at h
    · exact (congrArg (fun r => r.1.failed) h).trans hfailed
    · obtain ⟨rfl, rfl⟩ := Prod.mk.inj h
      simp at hfailed
  · exact hmerge h
  · exact hmerge h
  · exact (congrArg (fun r => r.1.failed) h).trans hfailed

/-- **The next step of a producer**, when nothing fails in it. -/
theorem produce_progress {k : ℕ} {todo : List TelemetryEvent} {phase : ProducerPhase}
    (h : s.produce k todo phase = some t) (hfailed : t.failed = false) :
    s.failed = false ∧ Progress s k todo phase t := by
  have hmoved : ∀ {phase' todo'}, some (s.setProducer k ⟨todo', phase'⟩) = some t →
      phase'.hand ++ todo' = phase.hand ++ todo → phase.bytes = [] → phase'.bytes = [] →
      s.failed = false ∧ Progress s k todo phase t := by
    intro phase' todo' heq hhand hbytes hbytes'
    obtain rfl := Option.some.inj heq
    exact ⟨hfailed, .moved phase phase' todo' hhand hbytes hbytes'⟩
  have hflushed : Flushed s t → s.failed = false ∧ Progress s k todo phase t := by
    intro hflush
    refine ⟨?_, .flushed phase t hflush⟩
    cases hflush <;> exact hfailed
  cases phase with
  | idle =>
      unfold produce at h
      dsimp only at h
      split at h
      · simp at h
      · split at h
        · simp at h
        · split at h
          · rename_i hs
            obtain rfl := Option.some.inj h
            exact absurd (hs.symm.trans hfailed) (by simp)
          · exact hmoved h rfl rfl rfl
  | flushingDeltas event =>
      have hnext : some (s.setProducer k ⟨todo, if s.failed then .sending event
          else .flushingFailures event⟩) = some t →
          s.failed = false ∧ Progress s k todo (.flushingDeltas event) t := by
        intro heq
        by_cases hs : s.failed = true
        · rw [if_pos hs] at heq
          exact hmoved heq rfl rfl rfl
        · rw [if_neg hs] at heq
          exact hmoved heq rfl rfl rfl
      unfold produce at h
      dsimp only at h
      split at h
      · rename_i entry pending hpending
        split at h
        · obtain rfl := Option.some.inj h
          exact hflushed (.delta entry pending hpending)
        · exact hnext h
      · exact hnext h
  | flushingFailures event =>
      unfold produce at h
      dsimp only at h
      split at h
      · rename_i failure pending hpending
        split at h
        · obtain rfl := Option.some.inj h
          exact hflushed (.failure failure pending hpending)
        · exact hmoved h rfl rfl rfl
      · exact hmoved h rfl rfl rfl
  | flushingGauges event =>
      unfold produce at h
      dsimp only at h
      split at h
      · rename_i key gauge pending hpending
        split at h
        · obtain rfl := Option.some.inj h
          exact hflushed (.gauge (key, gauge) pending hpending)
        · exact hmoved h rfl rfl rfl
      · exact hmoved h rfl rfl rfl
  | sending event =>
      unfold produce at h
      dsimp only at h
      split at h
      · obtain rfl := Option.some.inj h
        exact ⟨hfailed, .sent _ event rfl rfl⟩
      · exact hmoved h rfl rfl rfl
  | coalescing event =>
      unfold produce at h
      dsimp only at h
      split at h
      · rename_i u hmerge
        obtain rfl := Option.some.inj h
        obtain ⟨hdelta, hcount, pending, hadd, rfl⟩ := coalesceDelta_true hmerge
        have hblob : event.event ≠ "blob_hashed" := by
          intro heq
          rw [heq] at hdelta
          exact absurd hdelta (by decide +kernel)
        exact ⟨hfailed, .coalesced event _ (.counts pending hdelta hcount
          (factDelta_of_delta hdelta) hadd) .idle rfl (by simp [hblob, ProducerPhase.bytes])⟩
      · rename_i u hmerge
        split at h
        · rename_i v hpark
          have hv : v.failed = false := by
            split at h
            · obtain rfl := Option.some.inj h
              exact hfailed
            · obtain rfl := Option.some.inj h
              exact hfailed
          have hu := failed_of_coalesceWorkerFact hpark hv
          obtain ⟨rfl, hcounts⟩ := coalesceDelta_false hmerge hu
          rcases coalesceWorkerFact_cases hcounts hpark hv with ⟨-, hcoalesced⟩ | ⟨hr, -⟩
          · refine ⟨hu, ?_⟩
            split at h
            · rename_i hblob
              obtain rfl := Option.some.inj h
              exact .coalesced event v hcoalesced (.addingBytes event) rfl
                (by rw [if_pos hblob]; rfl)
            · rename_i hblob
              obtain rfl := Option.some.inj h
              exact .coalesced event v hcoalesced .idle rfl (by rw [if_neg hblob]; rfl)
          · simp at hr
        · rename_i v hpark
          have hv : v.failed = false := by
            obtain rfl := Option.some.inj h
            exact hfailed
          have hu := failed_of_coalesceWorkerFact hpark hv
          obtain ⟨rfl, hcounts⟩ := coalesceDelta_false hmerge hu
          rcases coalesceWorkerFact_cases hcounts hpark hv with ⟨hr, -⟩ | ⟨-, rfl, -⟩
          · simp at hr
          · exact hmoved h rfl rfl rfl
  | addingBytes event =>
      unfold produce at h
      dsimp only at h
      split at h
      · rename_i u hadd
        obtain rfl := Option.some.inj h
        obtain ⟨-, pending, hpending, rfl⟩ := addFact_cases hadd hfailed
        exact ⟨hfailed, .bytes event pending hpending⟩
      · rename_i u hadd
        obtain rfl := Option.some.inj h
        exact absurd (addFact_cases hadd hfailed).1 (by simp)
  | waiting event =>
      unfold produce at h
      dsimp only at h
      split at h
      · obtain rfl := Option.some.inj h
        exact ⟨hfailed, .sent _ event rfl rfl⟩
      · simp at h

end RendererTransport

end Telemetry

end MediaImporter
