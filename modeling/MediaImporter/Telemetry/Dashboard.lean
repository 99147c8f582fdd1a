import MediaImporter.Telemetry.Event

/-!
# The dashboard

The dashboard of the command line counts what the events say. Most events add to counters;
an event that reports on a whole phase sets them.

## Main definitions

* `DashboardState`, `dashboardUpdates` — the counters, and what an event does to them.
* `updateOf`, `counter_emit` — what an event does to one counter.
* `deltaTargets` — the counters that a counter event adds to.
-/

namespace MediaImporter

namespace Telemetry

/-- The counters of the dashboard. What they mean differs from command to command. -/
inductive DashboardCounter
  | files
  | completed
  | skipped
  | read
  | written
  | created
  | reused
  | active
  | mounts
  | committed
  | batches
  | checkpoints
  | queue
  | gcCandidates
  | reclaimable
  | unlinked
  | treeDirectories
  deriving DecidableEq

/-- What happens to a counter. -/
inductive Update
  | add (n : ℕ)
  | set (n : ℕ)
  deriving DecidableEq

def Update.apply : Update → ℕ → ℕ
  | .add n, value => value + n
  | .set n, _ => n

structure DashboardState where
  command : String
  counter : DashboardCounter → ℕ

namespace DashboardState

def new (command : String) : DashboardState := ⟨command, fun _ => 0⟩

end DashboardState

/-- What an event does to the counters, one after the other. -/
def dashboardUpdates (event : TelemetryEvent) : List (DashboardCounter × Update) :=
  let count := countField event
  match event.event with
  | "file_discovered" | "blob_discovered" => [(.files, .add 1)]
  | "file_discovered_delta" => [(.files, .add (count "count"))]
  | "file_skipped" => [(.skipped, .add 1), (.completed, .add 1)]
  | "file_skipped_delta" => [(.skipped, .add (count "count")), (.completed, .add (count "count"))]
  | "file_hashed" | "blob_hashed" =>
      [(.completed, .add 1), (.read, .add (count "bytes_read")),
        (.written, .add (count "staging_bytes"))]
  | "file_hashed_delta" | "blob_hashed_delta" => [(.completed, .add (count "count"))]
  | "cas_blob_created" => [(.created, .add 1)]
  | "cas_blob_created_delta" => [(.created, .add (count "count"))]
  | "cas_blob_reused" => [(.reused, .add 1)]
  | "cas_blob_reused_delta" => [(.reused, .add (count "count"))]
  | "catalog_record_committed" => [(.committed, .add 1)]
  | "catalog_batch_committed" => [(.batches, .add 1)]
  | "catalog_checkpoint_completed" => [(.checkpoints, .add 1)]
  | "catalog_final_checkpoint" => [(.checkpoints, .set (count "checkpoints"))]
  | "source_bytes_delta" | "audit_bytes_delta" => [(.read, .add (count "bytes"))]
  | "staging_bytes_delta" => [(.written, .add (count "bytes"))]
  | "active_content_workers" =>
      [(.active, .set (count "active")), (.mounts, .set (count "mounts"))]
  | "queue_occupancy" => [(.queue, .set (count "occupancy"))]
  | "audit_catalog_scanned" =>
      [(.committed, .set (count "catalog_blobs")), (.gcCandidates, .set (count "gc_candidates"))]
  | "audit_cas_scanned" => [(.created, .set (count "cas_blob_files"))]
  | "finding" => [(.skipped, .add 1)]
  | "gc_preflight_started" =>
      [(.files, .set (count "sweep_candidates")), (.gcCandidates, .set (count "sweep_candidates")),
        (.completed, .set 0)]
  | "gc_blob_hashed" => [(.read, .add (count "bytes_read")), (.created, .add 1)]
  | "gc_preflight_complete" =>
      [(.files, .set (count "planned_actions")), (.skipped, .set (count "findings")),
        (.committed, .set (count "catalog_blobs")), (.completed, .set 0),
        (.reclaimable, .set (count "bytes_reclaimable"))]
  | "gc_action" => [(.completed, .add 1)]
  | "gc_catalog_committed" => [(.batches, .add 1), (.unlinked, .add (count "bytes_unlinked"))]
  | "tree_entry_planned" => [(.files, .add 1)]
  | "tree_link_applied" => [(.completed, .add 1)]
  | "tree_directory_applied" => [(.treeDirectories, .add 1)]
  | "tree_planned" => [(.files, .set (count "entries"))]
  | "tree_applied" =>
      [(.completed, .set (count "links_created" + count "links_replaced" +
          count "stale_links_removed")),
        (.created, .set (count "links_created")), (.written, .set (count "links_replaced")),
        (.skipped, .set (count "stale_links_removed")),
        (.treeDirectories, .set (count "directories_created" + count "directories_pruned"))]
  | _ => []

/-- Apply the updates one after the other. -/
def applyUpdates (counter : DashboardCounter → ℕ) (updates : List (DashboardCounter × Update)) :
    DashboardCounter → ℕ :=
  updates.foldl (fun f update => Function.update f update.1 (update.2.apply (f update.1))) counter

def DashboardState.emit (d : DashboardState) (event : TelemetryEvent) : DashboardState where
  command := if event.event = "command_started" then event.command else d.command
  counter := applyUpdates d.counter (dashboardUpdates event)

/-! ## One counter -/

/-- What an event does to a counter. -/
def updateOf (c : DashboardCounter) (event : TelemetryEvent) : Update :=
  ((dashboardUpdates event).lookup c).getD (.add 0)

theorem applyUpdates_lookup {updates : List (DashboardCounter × Update)}
    (h : (updates.map Prod.fst).Nodup) (counter : DashboardCounter → ℕ) (c : DashboardCounter) :
    applyUpdates counter updates c = ((updates.lookup c).getD (.add 0)).apply (counter c) := by
  induction updates generalizing counter with
  | nil => rfl
  | cons update updates ih =>
      obtain ⟨c', u⟩ := update
      rw [List.map_cons, List.nodup_cons] at h
      change applyUpdates (Function.update counter c' (u.apply (counter c'))) updates c = _
      rw [ih h.2, List.lookup_cons]
      by_cases hc : c = c'
      · subst hc
        have hnone : updates.lookup c = none := by
          rw [List.lookup_eq_none_iff]
          intro other hother
          have hne : c ≠ other.1 := by
            intro heq
            exact h.1 (List.mem_map.2 ⟨other, hother, heq.symm⟩)
          simpa using hne
        rw [hnone, Function.update_self, beq_self_eq_true]
        rfl
      · rw [Function.update_of_ne hc, beq_false_of_ne hc]

theorem nodup_dashboardUpdates (event : TelemetryEvent) :
    ((dashboardUpdates event).map Prod.fst).Nodup := by
  unfold dashboardUpdates
  dsimp only
  split <;> simp

@[simp] theorem counter_emit (d : DashboardState) (event : TelemetryEvent)
    (c : DashboardCounter) :
    (d.emit event).counter c = (updateOf c event).apply (d.counter c) :=
  applyUpdates_lookup (nodup_dashboardUpdates event) d.counter c

/-! ## Counter events -/

/-- The name of a counter event. -/
def IsDelta (name : String) : Prop := "_delta".toList <:+ name.toList

instance (name : String) : Decidable (IsDelta name) :=
  inferInstanceAs (Decidable ("_delta".toList <:+ name.toList))

/-- The counters that a counter event adds to, and the field with what it adds. -/
def deltaTargets : String → List DashboardCounter × String
  | "file_discovered_delta" => ([.files], "count")
  | "file_skipped_delta" => ([.skipped, .completed], "count")
  | "file_hashed_delta" | "blob_hashed_delta" => ([.completed], "count")
  | "cas_blob_created_delta" => ([.created], "count")
  | "cas_blob_reused_delta" => ([.reused], "count")
  | "source_bytes_delta" | "audit_bytes_delta" => ([.read], "bytes")
  | "staging_bytes_delta" => ([.written], "bytes")
  | _ => ([], "")

theorem dashboardUpdates_of_delta {event : TelemetryEvent} (h : IsDelta event.event) :
    dashboardUpdates event = (deltaTargets event.event).1.map fun c =>
      (c, .add (countField event (deltaTargets event.event).2)) := by
  generalize hname : event.event = name at h ⊢
  unfold dashboardUpdates
  rw [hname]
  dsimp only
  split
  -- the other names of the table do not end like a counter's
  all_goals first
    | exact absurd h (by decide +kernel)
    | rfl
    | skip
  unfold deltaTargets
  split <;> simp_all

end Telemetry

end MediaImporter
