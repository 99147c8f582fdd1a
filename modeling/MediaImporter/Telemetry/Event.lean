import MediaImporter.Lib.Utf8

/-!
# Telemetry events

An event has a name and named values. The transport between the workers and the renderer
treats some of them by their names when its inbox is full: a gauge says how things are now,
so a later sample of it takes the place of an earlier one.

## Main definitions

* `TelemetryEvent`, `countField` — events and their counts.
* `TelemetryEvent.gaugeKey` — which gauge a sample is of.
-/

namespace MediaImporter

namespace Telemetry

open Utf8

inductive TelemetryValue
  | boolean (value : Bool)
  | count (value : ℕ)
  | text (value : String)
  deriving DecidableEq

def TelemetryValue.asU64 : TelemetryValue → Option ℕ
  | .count value => some value
  | .boolean _ | .text _ => none

def TelemetryValue.asText : TelemetryValue → Option String
  | .text value => some value
  | .boolean _ | .count _ => none

structure TelemetryField where
  name : String
  value : TelemetryValue
  deriving DecidableEq

structure TelemetryEvent where
  command : String
  event : String
  fields : List TelemetryField
  deriving DecidableEq

/-- The first value with the name. -/
def TelemetryEvent.fieldValue (event : TelemetryEvent) (name : String) : Option TelemetryValue :=
  (event.fields.find? (·.name = name)).map (·.value)

/-- The count in the first field with the name, or zero. -/
def countField (event : TelemetryEvent) (name : String) : ℕ :=
  ((event.fieldValue name).bind (·.asU64)).getD 0

/-- The key of a gauge: its command, its event, and its stage if it has one. -/
abbrev GaugeKey := String × String × String

def TelemetryEvent.gaugeKey (event : TelemetryEvent) : GaugeKey :=
  (event.command, event.event, ((event.fieldValue "stage").bind (·.asText)).getD "")

end Telemetry

end MediaImporter
