import MediaImporter.Lib.Transition
import MediaImporter.Telemetry.Event

/-!
# The gauges of the renderer

Workers send telemetry to the renderer through a bounded inbox and never wait for it. A
sample of a gauge that meets a full inbox is parked, over an older parked sample of the same
gauge, and whoever sends next tries to flush what is parked first.

Flushing the parked samples and sending the new one are separate attempts. When the renderer
takes an event between the two, the new sample is sent and the older one stays parked, to be
sent later.

The samples come from one producer. What other producers do is to fill the inbox, and to
flush; what the shutdown does is to flush.

## Main definitions

* `GaugeTransport`, `GaugeMove` — the inbox, the parked samples, and the moves.
* `SendsInOrder` — no sample is sent past a parked one of its gauge.
* `gauges_end_at_last` — with it, gauges end at their last values.
-/

namespace MediaImporter

namespace Telemetry

/-! ## Maps in the order of their keys -/

section OrderedMap

variable {κ ν : Type} [LinearOrder κ]

/-- Insert into a map that is kept in the order of its keys, over an older entry. -/
def insertOrdered (m : List (κ × ν)) (k : κ) (v : ν) : List (κ × ν) :=
  m.filter (·.1 < k) ++ (k, v) :: m.filter (k < ·.1)

theorem filter_insertOrdered (m : List (κ × ν)) (k : κ) (v : ν) (q : κ) :
    (insertOrdered m k v).filter (·.1 = q) = if q = k then [(k, v)] else m.filter (·.1 = q) := by
  have hnone {p : κ → Bool} (h : p q = false) :
      (m.filter fun e => p e.1).filter (·.1 = q) = [] := by
    rw [List.filter_filter, List.filter_eq_nil_iff]
    intro e _ he
    rw [Bool.and_eq_true, decide_eq_true_iff] at he
    rw [he.1, h] at he
    exact Bool.false_ne_true he.2
  have hall {p : κ → Bool} (h : p q = true) :
      (m.filter fun e => p e.1).filter (·.1 = q) = m.filter (·.1 = q) := by
    rw [List.filter_filter]
    refine List.filter_congr fun e _ => ?_
    by_cases he : e.1 = q
    · simp [he, h]
    · simp [he]
  rw [insertOrdered, List.filter_append, List.filter_cons]
  by_cases hq : q = k
  · subst hq
    rw [hnone (p := fun x => decide (x < q)) (by simp),
      hnone (p := fun x => decide (q < x)) (by simp)]
    simp
  · rw [if_neg hq, if_neg (by simpa using Ne.symm hq)]
    rcases lt_or_gt_of_ne hq with hlt | hgt
    · rw [hall (p := fun x => decide (x < k)) (by simpa using hlt),
        hnone (p := fun x => decide (k < x)) (by simpa using hlt.le), List.append_nil]
    · rw [hnone (p := fun x => decide (x < k)) (by simpa using hgt.le),
        hall (p := fun x => decide (k < x)) (by simpa using hgt), List.nil_append]

end OrderedMap

/-! ## The transport -/

/-- The renderer's inbox holds this many events. -/
def rendererCapacity : ℕ := 256

/-- The events that are coalesced as gauges. -/
def TelemetryEvent.isGauge (event : TelemetryEvent) : Prop :=
  event.event = "active_content_workers" ∨ event.event = "queue_occupancy" ∨
    event.event = "queue_backpressure"

instance (event : TelemetryEvent) : Decidable event.isGauge := by
  unfold TelemetryEvent.isGauge
  exact inferInstanceAs (Decidable (_ ∨ _))

/-- A sample. The number tells it from the other samples of the producer. -/
structure GaugeSample where
  number : ℕ
  event : TelemetryEvent
  deriving DecidableEq

def GaugeSample.key (sample : GaugeSample) : String ×ₗ String ×ₗ String :=
  toLex (sample.event.gaugeKey.1, toLex sample.event.gaugeKey.2)

/-- Where the producer is in its call. -/
inductive EmitPhase
  | idle
  /-- Flushing what is parked, before it sends the sample. -/
  | flushing (sample : GaugeSample)
  | sending (sample : GaugeSample)
  /-- The inbox was full. -/
  | coalescing (sample : GaugeSample)
  deriving DecidableEq

/-- The inbox also holds events that are not samples of gauges. -/
structure GaugeTransport where
  inbox : List (Option GaugeSample)
  delivered : List GaugeSample
  parked : List ((String ×ₗ String ×ₗ String) × GaugeSample)
  phase : EmitPhase
  /-- Every sample so far, in the order of the calls. -/
  emitted : List GaugeSample

namespace GaugeTransport

def start : GaugeTransport := ⟨[], [], [], .idle, []⟩

end GaugeTransport

inductive GaugeMove
  /-- The producer calls with a sample. -/
  | emit (event : TelemetryEvent)
  /-- Send the first parked sample, if there is room; by whoever flushes or drains. -/
  | flush
  /-- The producer is done flushing: nothing is parked, or the inbox was full. -/
  | flushed
  | send
  | coalesce
  /-- Another event is sent. -/
  | other
  /-- The renderer takes an event. -/
  | take
  deriving DecidableEq

namespace GaugeTransport

def step (s : GaugeTransport) : GaugeMove → Option GaugeTransport
  | .emit event =>
      if s.phase = .idle ∧ event.isGauge then
        let sample : GaugeSample := ⟨s.emitted.length, event⟩
        some { s with phase := .flushing sample, emitted := s.emitted ++ [sample] }
      else none
  | .flush => match s.parked with
      | (_, sample) :: rest =>
          if s.inbox.length < rendererCapacity then
            some { s with inbox := s.inbox ++ [some sample], parked := rest }
          else none
      | [] => none
  | .flushed => match s.phase with
      | .flushing sample =>
          if s.parked = [] ∨ rendererCapacity ≤ s.inbox.length then
            some { s with phase := .sending sample }
          else none
      | _ => none
  | .send => match s.phase with
      | .sending sample =>
          if s.inbox.length < rendererCapacity then
            some { s with inbox := s.inbox ++ [some sample], phase := .idle }
          else some { s with phase := .coalescing sample }
      | _ => none
  | .coalesce => match s.phase with
      | .coalescing sample =>
          some { s with parked := insertOrdered s.parked sample.key sample, phase := .idle }
      | _ => none
  | .other =>
      if s.inbox.length < rendererCapacity then some { s with inbox := s.inbox ++ [none] }
      else none
  | .take => match s.inbox with
      | item :: rest => some { s with inbox := rest, delivered := s.delivered ++ item.toList }
      | [] => none

/-- After the producer has stopped, everything was flushed and the renderer is done. -/
def Settled (s : GaugeTransport) : Prop := s.phase = .idle ∧ s.inbox = [] ∧ s.parked = []

instance (s : GaugeTransport) : Decidable s.Settled := inferInstanceAs (Decidable (_ ∧ _))

/-- A sample is sent directly only when no older sample of its gauge is parked. -/
def SendsInOrder (s : GaugeTransport) : GaugeMove → Prop
  | .send => match s.phase with
      | .sending sample =>
          s.inbox.length < rendererCapacity → ∀ entry ∈ s.parked, entry.1 ≠ sample.key
      | _ => True
  | _ => True

instance (s : GaugeTransport) (m : GaugeMove) : Decidable (SendsInOrder s m) := by
  unfold SendsInOrder
  cases m <;> dsimp only
  case send => cases s.phase <;> dsimp only <;> infer_instance
  all_goals infer_instance

/-! ## The samples of one gauge -/

variable (s : GaugeTransport) (k : String ×ₗ String ×ₗ String)

/-- The samples of a gauge among others. -/
def ofGauge (samples : List GaugeSample) : List GaugeSample := samples.filter (·.key = k)

def parkedOf : List GaugeSample := (s.parked.filter (·.1 = k)).map (·.2)

/-- The sample that the producer has in hand. -/
def inHand : List GaugeSample := match s.phase with
  | .idle => []
  | .flushing sample | .sending sample | .coalescing sample => [sample]

/-- What was delivered of a gauge, and what will be if nothing overtakes it. -/
def pipeline : List GaugeSample :=
  ofGauge k s.delivered ++ ofGauge k s.inbox.reduceOption ++ s.parkedOf k ++ ofGauge k s.inHand

variable {s k}

@[simp] theorem ofGauge_append (l l' : List GaugeSample) :
    ofGauge k (l ++ l') = ofGauge k l ++ ofGauge k l' := List.filter_append _ _

/-- The samples of a gauge on their way are some of those emitted, in the same order, and end
with the last one. -/
structure Orderly (s : GaugeTransport) : Prop where
  /-- A sample is parked under its own key. -/
  keys : ∀ entry ∈ s.parked, entry.2.key = entry.1
  single : ∀ k, (s.parkedOf k).length ≤ 1
  sublist : ∀ k, (s.pipeline k).Sublist (ofGauge k s.emitted)
  last : ∀ k, (s.pipeline k).getLast? = (ofGauge k s.emitted).getLast?

theorem orderly_start : Orderly start where
  keys entry hentry := by cases hentry
  single k := Nat.zero_le _
  sublist k := .refl _
  last k := rfl

variable {t : GaugeTransport}

/-- A move that leaves the samples on their way and the emitted ones alone. -/
theorem Orderly.congr (h : Orderly s) (hkeys : ∀ entry ∈ t.parked, entry.2.key = entry.1)
    (hsingle : ∀ k, (t.parkedOf k).length ≤ 1) (hpipeline : ∀ k, t.pipeline k = s.pipeline k)
    (hemitted : t.emitted = s.emitted) : Orderly t where
  keys := hkeys
  single := hsingle
  sublist k := by rw [hpipeline, hemitted]; exact h.sublist k
  last k := by rw [hpipeline, hemitted]; exact h.last k

theorem orderly_emit {event : TelemetryEvent} (h : Orderly s)
    (hstep : s.step (.emit event) = some t) : Orderly t := by
  unfold step at hstep
  dsimp only at hstep
  split_ifs at hstep with hidle
  cases hstep
  have hhand : s.inHand = [] := by rw [inHand, hidle.1]
  have hpipeline (k) : pipeline { s with
      phase := .flushing ⟨s.emitted.length, event⟩
      emitted := s.emitted ++ [⟨s.emitted.length, event⟩] } k =
        s.pipeline k ++ ofGauge k [⟨s.emitted.length, event⟩] := by
    unfold pipeline
    rw [hhand]
    simp [inHand, parkedOf, ofGauge]
  refine ⟨h.keys, h.single, fun k => ?_, fun k => ?_⟩
  · rw [hpipeline, ofGauge_append]
    exact (h.sublist k).append (.refl _)
  · rw [hpipeline, ofGauge_append, List.getLast?_append, List.getLast?_append, h.last]

theorem orderly_flush (h : Orderly s) (hstep : s.step .flush = some t) : Orderly t := by
  unfold step at hstep
  dsimp only at hstep
  split at hstep
  · rename_i key sample rest hparked
    split_ifs at hstep with hroom
    cases hstep
    have hkey : sample.key = key := h.keys (key, sample) (hparked ▸ List.mem_cons_self)
    have hcons (k) : s.parkedOf k = ofGauge k [sample] ++ (rest.filter (·.1 = k)).map (·.2) := by
      rw [parkedOf, hparked, List.filter_cons]
      by_cases hk : key = k
      · simp [hk, ofGauge, hkey]
      · simp [hk, ofGauge, hkey]
    refine h.congr ?_ ?_ ?_ rfl
    · exact fun entry hentry => h.keys entry (hparked ▸ List.mem_cons_of_mem _ hentry)
    · intro k
      have hlen := h.single k
      rw [hcons, List.length_append] at hlen
      exact le_trans (Nat.le_add_left _ _) hlen
    · intro k
      have hreduce : (s.inbox ++ [some sample]).reduceOption =
          s.inbox.reduceOption ++ [sample] := by
        rw [List.reduceOption_append]
        rfl
      unfold pipeline
      rw [hcons, hreduce, ofGauge_append]
      simp only [List.append_assoc]
      rfl
  · cases hstep

theorem orderly_flushed (h : Orderly s) (hstep : s.step .flushed = some t) : Orderly t := by
  unfold step at hstep
  dsimp only at hstep
  split at hstep
  · rename_i sample hphase
    split_ifs at hstep
    cases hstep
    refine h.congr h.keys h.single (fun k => ?_) rfl
    unfold pipeline
    rw [inHand, inHand, hphase]
    rfl
  · cases hstep

theorem orderly_send (h : Orderly s) (horder : SendsInOrder s .send)
    (hstep : s.step .send = some t) : Orderly t := by
  unfold step at hstep
  dsimp only at hstep
  split at hstep
  · rename_i sample hphase
    have hhand : s.inHand = [sample] := by rw [inHand, hphase]
    split_ifs at hstep with hroom
    · cases hstep
      refine h.congr h.keys h.single (fun k => ?_) rfl
      -- nothing is parked of the gauge whose sample is sent past the parked ones
      have hparked : ofGauge k [sample] = [] ∨ s.parkedOf k = [] := by
        by_cases hk : sample.key = k
        · right
          unfold SendsInOrder at horder
          rw [hphase] at horder
          rw [parkedOf, List.map_eq_nil_iff, List.filter_eq_nil_iff]
          intro entry hentry heq
          exact horder hroom entry hentry ((of_decide_eq_true heq).trans hk.symm)
        · left
          simp [ofGauge, hk]
      have hreduce : (s.inbox ++ [some sample]).reduceOption =
          s.inbox.reduceOption ++ [sample] := by
        rw [List.reduceOption_append]
        rfl
      unfold pipeline
      rw [hhand, hreduce, ofGauge_append]
      change _ ++ s.parkedOf k ++ ofGauge k [] = _
      rcases hparked with hnil | hnil
      · rw [hnil]
        simp [ofGauge]
      · rw [hnil]
        simp [ofGauge]
    · cases hstep
      refine h.congr h.keys h.single (fun k => ?_) rfl
      unfold pipeline
      rw [hhand]
      rfl
  · cases hstep

/-- Parking a sample over an older one of its gauge leaves the others in order. -/
theorem orderly_coalesce (h : Orderly s) (hstep : s.step .coalesce = some t) : Orderly t := by
  unfold step at hstep
  dsimp only at hstep
  split at hstep
  · rename_i sample hphase
    have hhand : s.inHand = [sample] := by rw [inHand, hphase]
    cases hstep
    have hparked (k) : parkedOf { s with
        parked := insertOrdered s.parked sample.key sample, phase := .idle } k =
          if k = sample.key then [sample] else s.parkedOf k := by
      rw [parkedOf, filter_insertOrdered]
      split_ifs <;> rfl
    have hpipeline (k) : pipeline { s with
        parked := insertOrdered s.parked sample.key sample, phase := .idle } k =
          ofGauge k s.delivered ++ ofGauge k s.inbox.reduceOption ++
            if k = sample.key then [sample] else s.parkedOf k := by
      unfold pipeline
      rw [hparked]
      simp [inHand, ofGauge]
    have hbefore (k) : s.pipeline k = ofGauge k s.delivered ++ ofGauge k s.inbox.reduceOption ++
        (s.parkedOf k ++ if k = sample.key then [sample] else []) := by
      unfold pipeline
      rw [hhand, List.append_assoc, ofGauge, ofGauge, ofGauge]
      by_cases hk : k = sample.key
      · simp [hk]
      · simp [hk, Ne.symm hk]
    refine ⟨?_, fun k => ?_, fun k => ?_, fun k => ?_⟩
    · intro entry hentry
      rcases List.mem_append.1 hentry with hentry | hentry
      · exact h.keys entry (List.mem_filter.1 hentry).1
      · rcases List.mem_cons.1 hentry with rfl | hentry
        · rfl
        · exact h.keys entry (List.mem_filter.1 hentry).1
    · rw [hparked]
      split_ifs
      · exact le_rfl
      · exact h.single k
    · refine List.Sublist.trans ?_ (h.sublist k)
      rw [hpipeline, hbefore]
      refine (List.Sublist.refl _).append ?_
      split_ifs
      · exact List.sublist_append_right _ _
      · rw [List.append_nil]
    · refine Eq.trans ?_ (h.last k)
      rw [hpipeline, hbefore]
      by_cases hk : k = sample.key
      · simp [hk]
      · simp [hk]
  · cases hstep

theorem orderly_other (h : Orderly s) (hstep : s.step .other = some t) : Orderly t := by
  unfold step at hstep
  dsimp only at hstep
  split_ifs at hstep
  cases hstep
  refine h.congr h.keys h.single (fun k => ?_) rfl
  have hreduce : (s.inbox ++ [none]).reduceOption = s.inbox.reduceOption := by
    rw [List.reduceOption_append]
    exact List.append_nil _
  unfold pipeline
  rw [hreduce]
  rfl

theorem orderly_take (h : Orderly s) (hstep : s.step .take = some t) : Orderly t := by
  unfold step at hstep
  dsimp only at hstep
  split at hstep
  · rename_i item rest hinbox
    cases hstep
    refine h.congr h.keys h.single (fun k => ?_) rfl
    have hreduce : s.inbox.reduceOption = item.toList ++ rest.reduceOption := by
      rw [hinbox]
      cases item <;> rfl
    unfold pipeline
    rw [hreduce, ofGauge_append, ofGauge_append, ← List.append_assoc]
    rfl
  · cases hstep

theorem orderly_step {m : GaugeMove} (h : Orderly s) (horder : SendsInOrder s m)
    (hstep : s.step m = some t) : Orderly t := by
  cases m with
  | emit event => exact orderly_emit h hstep
  | flush => exact orderly_flush h hstep
  | flushed => exact orderly_flushed h hstep
  | send => exact orderly_send h horder hstep
  | coalesce => exact orderly_coalesce h hstep
  | other => exact orderly_other h hstep
  | take => exact orderly_take h hstep

/-- **Gauges end at their last values** when no sample is sent past a parked one of its
gauge: in every run of that kind the renderer is given samples of a gauge in the order in
which they were emitted, and once everything has been flushed and delivered the last one it
was given is the last one emitted. -/
theorem gauges_end_at_last (moves : List GaugeMove) (t : GaugeTransport)
    (h : Transition.run step start moves = some t)
    (horder : Transition.Meeting SendsInOrder step start moves) :
    ∀ k, (ofGauge k t.delivered).Sublist (ofGauge k t.emitted) ∧
      (t.Settled → (ofGauge k t.delivered).getLast? = (ofGauge k t.emitted).getLast?) := by
  have horderly : Orderly t :=
    Transition.run_invariant_meeting orderly_start (fun _ _ _ => orderly_step) h horder
  intro k
  constructor
  · refine List.Sublist.trans ?_ (horderly.sublist k)
    unfold pipeline
    simp only [List.append_assoc]
    exact List.sublist_append_left _ _
  · rintro ⟨hphase, hinbox, hparked⟩
    rw [← horderly.last k, pipeline, inHand, hphase, hinbox, parkedOf, hparked]
    simp [ofGauge]

/-! ## A sample that is overtaken -/

def activeWorkers (active : ℕ) : TelemetryEvent :=
  ⟨"import", "active_content_workers", [⟨"active", .count active⟩, ⟨"mounts", .count 1⟩]⟩

/-- Two samples while the inbox is full, and then everything is flushed and delivered. The
renderer takes an event before or after the second sample is sent. -/
def twoSamples (takeFirst : Bool) : List GaugeMove :=
  List.replicate rendererCapacity GaugeMove.other ++
    [GaugeMove.emit (activeWorkers 2), .flushed, .send, .coalesce, .emit (activeWorkers 1),
      .flushed] ++
    (if takeFirst then [GaugeMove.take, .send] else [.send, .coalesce, .take]) ++
    List.replicate (rendererCapacity - 1) GaugeMove.take ++
    (if takeFirst then [GaugeMove.take, .flush, .take] else [.flush, .take])

theorem gauges_end_at_last_parked : ∃ t : GaugeTransport, t.Settled ∧
    Transition.run step start (twoSamples false) = some t ∧
    (ofGauge (GaugeSample.key ⟨1, activeWorkers 1⟩) t.delivered).getLast? =
      (ofGauge (GaugeSample.key ⟨1, activeWorkers 1⟩) t.emitted).getLast? := by
  obtain ⟨t, ht⟩ : ∃ t, Transition.run step start (twoSamples false) = some t :=
    Option.isSome_iff_exists.1 (by decide +kernel)
  have hsettled : ∀ u ∈ Transition.run step start (twoSamples false), u.Settled := by
    decide +kernel
  exact ⟨t, hsettled t ht, ht,
    (gauges_end_at_last _ t ht (by decide +kernel) _).2 (hsettled t ht)⟩

/-- The second sample is sent past the first, which is parked: the gauge ends at two active
workers, although one was reported last. -/
theorem gauge_overtaken : ∃ t : GaugeTransport, t.Settled ∧
    Transition.run step start (twoSamples true) = some t ∧
    t.delivered = [⟨1, activeWorkers 1⟩, ⟨0, activeWorkers 2⟩] ∧
    t.emitted = [⟨0, activeWorkers 2⟩, ⟨1, activeWorkers 1⟩] := by
  have hall : ∃ t ∈ Transition.run step start (twoSamples true), t.Settled ∧
      t.delivered = [⟨1, activeWorkers 1⟩, ⟨0, activeWorkers 2⟩] ∧
      t.emitted = [⟨0, activeWorkers 2⟩, ⟨1, activeWorkers 1⟩] := by
    decide +kernel
  obtain ⟨t, ht, hsettled, hdelivered, hemitted⟩ := hall
  exact ⟨t, hsettled, ht, hdelivered, hemitted⟩

end GaugeTransport

end Telemetry

end MediaImporter
