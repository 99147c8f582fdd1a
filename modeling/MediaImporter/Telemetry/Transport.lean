import MediaImporter.Telemetry.Dashboard
import MediaImporter.Telemetry.Gauges

/-!
# The transport to the renderer

Producers hand events to the renderer through a bounded inbox. An event that meets a full
inbox is merged into pending counters, or parked, or its producer waits for room. Whoever
sends next first flushes what is pending. After all producers have stopped, the owner drains
what is pending, sends the terminal event and closes the transport.

The renderer and the producers take turns in any order. The renderer does not fail, but the
transport can be marked as failed, by a counter that overflows and by too many parked
failures. From then on events are dropped.

## Main definitions

* `RendererTransport`, `TransportMove`, `RendererTransport.step` — the system.
* `coalesceDelta`, `coalesceWorkerFact` — what happens to an event that meets a full inbox.
-/

namespace MediaImporter

namespace Telemetry

/-- A counter: its command, its event and its field. -/
abbrev DeltaKey := String ×ₗ String ×ₗ String

def deltaKey (command event field : String) : DeltaKey := toLex (command, toLex (event, field))

/-- The event that a pending counter is sent as. -/
def deltaEvent (entry : DeltaKey × ℕ) : TelemetryEvent :=
  ⟨(ofLex entry.1).1, (ofLex (ofLex entry.1).2).1,
    [⟨(ofLex (ofLex entry.1).2).2, .count entry.2⟩]⟩

/-- The event has a count. -/
def HasCount (event : TelemetryEvent) : Prop :=
  ∃ field ∈ event.fields, field.value.asU64.isSome

instance (event : TelemetryEvent) : Decidable (HasCount event) :=
  inferInstanceAs (Decidable (∃ field ∈ event.fields, _))

/-- The events that the owner of a command sends last. -/
def IsTerminal (event : TelemetryEvent) : Prop :=
  event.event = "command_summary" ∨ event.event = "command_failed"

instance (event : TelemetryEvent) : Decidable (IsTerminal event) :=
  inferInstanceAs (Decidable (_ ∨ _))

/-- How far a producer has come with an event. -/
inductive ProducerPhase
  | idle
  | flushingDeltas (event : TelemetryEvent)
  | flushingFailures (event : TelemetryEvent)
  | flushingGauges (event : TelemetryEvent)
  | sending (event : TelemetryEvent)
  /-- The inbox was full. -/
  | coalescing (event : TelemetryEvent)
  /-- The bytes of a hashed blob come after the blob. -/
  | addingBytes (event : TelemetryEvent)
  /-- The event is neither merged nor parked. -/
  | waiting (event : TelemetryEvent)
  deriving DecidableEq

/-- A producer, with the events that it has not begun with. -/
structure Producer where
  todo : List TelemetryEvent
  phase : ProducerPhase
  deriving DecidableEq

inductive DrainStage
  | deltas
  | failures
  | gauges
  deriving DecidableEq

/-- How far the owner of the command has come. -/
inductive OwnerPhase
  | working
  /-- Draining, before the terminal event is sent or when the transport is closed. -/
  | draining (stage : DrainStage) (closing : Bool)
  | sending
  | closed
  deriving DecidableEq

structure RendererTransport where
  inbox : List TelemetryEvent
  /-- What the renderer has received. -/
  delivered : List TelemetryEvent
  failed : Bool
  pendingDeltas : List (DeltaKey × ℕ)
  pendingGauges : List ((String ×ₗ String ×ₗ String) × TelemetryEvent)
  pendingFailures : List TelemetryEvent
  producers : List Producer
  owner : OwnerPhase
  /-- The events in the order in which the transport takes them, with their producers. -/
  routed : List (ℕ × TelemetryEvent)

namespace RendererTransport

/-- The producers have these events to send. -/
def start (scripts : List (List TelemetryEvent)) : RendererTransport where
  inbox := []
  delivered := []
  failed := false
  pendingDeltas := []
  pendingGauges := []
  pendingFailures := []
  producers := scripts.map (⟨·, .idle⟩)
  owner := .working
  routed := []

/-! ## Merging and parking -/

/-- Add to a pending counter, unless it overflows. -/
def addPending (pending : List (DeltaKey × ℕ)) (key : DeltaKey) (value : ℕ) :
    Option (List (DeltaKey × ℕ)) :=
  match pending.lookup key with
  | none => some (insertOrdered pending key value)
  | some total =>
      if total + value < 2 ^ 64 then some (insertOrdered pending key (total + value)) else none

/-- Add all counts of an event. What was added stays when one overflows. -/
def addCounts (command event : String) :
    List (DeltaKey × ℕ) → List TelemetryField → List (DeltaKey × ℕ) × Bool
  | pending, [] => (pending, true)
  | pending, ⟨name, .count value⟩ :: fields =>
      match addPending pending (deltaKey command event name) value with
      | some pending' => addCounts command event pending' fields
      | none => (pending, false)
  | pending, _ :: fields => addCounts command event pending fields

variable (s : RendererTransport)

def coalesceDelta (event : TelemetryEvent) : RendererTransport × Bool :=
  if ¬ IsDelta event.event then (s, false)
  else match addCounts event.command event.event s.pendingDeltas event.fields with
    | (pending, true) => ({ s with pendingDeltas := pending }, decide (HasCount event))
    | (pending, false) => ({ s with pendingDeltas := pending, failed := true }, false)

/-- Add to the counter that stands for an event. -/
def addFact (event : TelemetryEvent) (name field : String) (value : ℕ) :
    RendererTransport × Bool :=
  match addPending s.pendingDeltas (deltaKey event.command name field) value with
  | some pending => ({ s with pendingDeltas := pending }, true)
  | none => ({ s with failed := true }, false)

def coalesceGauge (event : TelemetryEvent) : RendererTransport × Bool :=
  let key := toLex (event.gaugeKey.1, toLex event.gaugeKey.2)
  ({ s with pendingGauges := insertOrdered s.pendingGauges key event }, true)

def coalesceWorkerFailure (event : TelemetryEvent) : RendererTransport × Bool :=
  if s.pendingFailures.length < 8 then
    ({ s with pendingFailures := s.pendingFailures ++ [event] }, true)
  else ({ s with failed := true }, false)

/-- The bytes of a hashed blob are added in a step of their own. -/
def coalesceWorkerFact (event : TelemetryEvent) : RendererTransport × Bool :=
  match event.event with
  | "file_discovered" => s.addFact event "file_discovered_delta" "count" 1
  | "file_skipped" => s.addFact event "file_skipped_delta" "count" 1
  | "file_hashed" => s.addFact event "file_hashed_delta" "count" 1
  | "blob_hashed" => s.addFact event "blob_hashed_delta" "count" 1
  | "cas_blob_created" => s.addFact event "cas_blob_created_delta" "count" 1
  | "cas_blob_reused" => s.addFact event "cas_blob_reused_delta" "count" 1
  | "active_content_workers" | "queue_occupancy" | "queue_backpressure" => s.coalesceGauge event
  | "operational_failure" => s.coalesceWorkerFailure event
  | "source_bytes_delta" | "staging_bytes_delta" => s.coalesceDelta event
  | _ => (s, false)

/-! ## Steps -/

/-- There is room in the inbox. -/
def Room : Prop := s.inbox.length < rendererCapacity

instance : Decidable s.Room := inferInstanceAs (Decidable (_ < _))

/-- Put an event into the inbox. -/
def send (event : TelemetryEvent) : RendererTransport := { s with inbox := s.inbox ++ [event] }

/-- The transport takes the event of a producer. -/
def route (k : ℕ) (event : TelemetryEvent) : RendererTransport :=
  { s with routed := s.routed ++ [(k, event)] }

def setProducer (k : ℕ) (producer : Producer) : RendererTransport :=
  { s with producers := s.producers.set k producer }

/-- The next step of a producer. -/
def produce (k : ℕ) (todo : List TelemetryEvent) : ProducerPhase → Option RendererTransport
  | .idle => match todo with
    | [] => none
    | event :: rest =>
        -- a terminal event is sent by the owner
        if IsTerminal event then none
        else if s.failed then some (s.setProducer k ⟨rest, .idle⟩)
        else some (s.setProducer k ⟨rest, .flushingDeltas event⟩)
  | .flushingDeltas event => match s.pendingDeltas with
    | entry :: pending =>
        if s.Room then some { s.send (deltaEvent entry) with pendingDeltas := pending }
        else some (s.setProducer k ⟨todo, if s.failed then .sending event
          else .flushingFailures event⟩)
    | [] => some (s.setProducer k ⟨todo, if s.failed then .sending event
        else .flushingFailures event⟩)
  | .flushingFailures event => match s.pendingFailures with
    | failure :: pending =>
        if s.Room then some { s.send failure with pendingFailures := pending }
        else some (s.setProducer k ⟨todo, .sending event⟩)
    | [] => some (s.setProducer k ⟨todo, .flushingGauges event⟩)
  | .flushingGauges event => match s.pendingGauges with
    | (_, gauge) :: pending =>
        if s.Room then some { s.send gauge with pendingGauges := pending }
        else some (s.setProducer k ⟨todo, .sending event⟩)
    | [] => some (s.setProducer k ⟨todo, .sending event⟩)
  | .sending event =>
      if s.Room then some (((s.send event).route k event).setProducer k ⟨todo, .idle⟩)
      else some (s.setProducer k ⟨todo, .coalescing event⟩)
  | .coalescing event => match s.coalesceDelta event with
    | (s', true) => some ((s'.route k event).setProducer k ⟨todo, .idle⟩)
    | (s', false) => match s'.coalesceWorkerFact event with
      | (s', true) =>
          if event.event = "blob_hashed" ∧ countField event "bytes_read" ≠ 0 then
            some ((s'.route k event).setProducer k ⟨todo, .addingBytes event⟩)
          else some ((s'.route k event).setProducer k ⟨todo, .idle⟩)
      | (s', false) => some (s'.setProducer k ⟨todo, .waiting event⟩)
  | .addingBytes event =>
      match s.addFact event "audit_bytes_delta" "bytes" (countField event "bytes_read") with
      | (s', true) => some (s'.setProducer k ⟨todo, .idle⟩)
      | (s', false) => some (s'.setProducer k ⟨todo, .waiting event⟩)
  | .waiting event =>
      if s.Room then some (((s.send event).route k event).setProducer k ⟨todo, .idle⟩) else none

/-- All producers have stopped. -/
def Stopped : Prop := ∀ producer ∈ s.producers, producer = ⟨[], .idle⟩

instance : Decidable s.Stopped := inferInstanceAs (Decidable (∀ producer ∈ s.producers, _))

/-- The next step of the owner, who waits for room. -/
def own (terminal : TelemetryEvent) : Option RendererTransport := match s.owner with
  | .working =>
      if s.Stopped then some { s with owner := .draining .deltas s.failed } else none
  | .draining .deltas closing => match s.pendingDeltas with
    | entry :: pending =>
        if s.Room then some { s.send (deltaEvent entry) with pendingDeltas := pending } else none
    | [] => some { s with owner := .draining .failures closing }
  | .draining .failures closing => match s.pendingFailures with
    | failure :: pending =>
        if s.Room then some { s.send failure with pendingFailures := pending } else none
    | [] => some { s with owner := .draining .gauges closing }
  | .draining .gauges closing => match s.pendingGauges with
    | (_, gauge) :: pending =>
        if s.Room then some { s.send gauge with pendingGauges := pending } else none
    | [] => some { s with owner := if closing then .closed else .sending }
  | .sending =>
      if s.failed then some { s with owner := .draining .deltas true }
      else if s.Room then some { s.send terminal with owner := .draining .deltas true } else none
  | .closed => none

end RendererTransport

inductive TransportMove
  | produce (k : ℕ)
  | own
  /-- The renderer takes an event. -/
  | take
  deriving DecidableEq

namespace RendererTransport

def step (terminal : TelemetryEvent) (s : RendererTransport) :
    TransportMove → Option RendererTransport
  | .produce k => match s.producers[k]? with
    | some producer => s.produce k producer.todo producer.phase
    | none => none
  | .own => s.own terminal
  | .take => match s.inbox with
    | event :: rest => some { s with inbox := rest, delivered := s.delivered ++ [event] }
    | [] => none

/-- The transport is closed, and the renderer has received everything. -/
def Closed (s : RendererTransport) : Prop := s.owner = .closed ∧ s.inbox = []

instance (s : RendererTransport) : Decidable s.Closed := inferInstanceAs (Decidable (_ ∧ _))

end RendererTransport

end Telemetry

end MediaImporter
