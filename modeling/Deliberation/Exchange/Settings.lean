import Deliberation.Agent.Cycle
import Deliberation.Exchange.Logic
import Deliberation.Society.Scheduler

/-!
Documents of settings, results and events.

A field that is missing in a document of settings has its default.
-/

namespace Deliberation

namespace AgentId

def toJson (id : AgentId) : Json :=
  .text id.render

def ofJson? (j : Json) : Option AgentId :=
  j.text?.bind parse?

instance : Documented AgentId := ⟨toJson, ofJson?⟩

end AgentId

namespace Aggregation

def all : List Aggregation :=
  [.mean, .min, .max, .product]

/-- The aggregation with a name. -/
def ofName? (name : String) : Option Aggregation :=
  all.find? fun a => a.name == name

def toJson (a : Aggregation) : Json :=
  .text a.name

def ofJson? : Json → Option Aggregation :=
  Json.choice? (all.map fun a => (a.name, a))

instance : Documented Aggregation := ⟨toJson, ofJson?⟩

end Aggregation

namespace Graded

def toJson (g : Graded Bool) : Json :=
  .object [("value", .bool g.value), ("degree", .ofFloat g.degree)]

def ofJson? (j : Json) : Option (Graded Bool) := do
  let fields ← j.known? ["value", "degree"]
  let value ← Json.required? fields "value" Json.bool?
  let degree ← Json.required? fields "degree" Json.float?
  (Graded.of value degree).toOption

instance : Documented (Graded Bool) := ⟨toJson, ofJson?⟩

end Graded

namespace BeliefChange

def name : BeliefChange → String
  | .add => "add"
  | .remove => "remove"
  | .update => "update"

def toJson (c : BeliefChange) : Json :=
  .text c.name

def ofJson? : Json → Option BeliefChange :=
  Json.choice? ([.add, .remove, .update].map fun c => (c.name, c))

instance : Documented BeliefChange := ⟨toJson, ofJson?⟩

end BeliefChange

namespace BeliefEvent

def toJson (e : BeliefEvent) : Json :=
  .object <|
    [("kind", e.change.toJson), ("literal", e.literal.toJson)] ++
      Json.optionalField "previous" Literal.toJson e.previous ++ [("sequence", .whole e.sequence)]

def ofJson? (j : Json) : Option BeliefEvent := do
  let fields ← j.known? ["kind", "literal", "previous", "sequence"]
  let change ← Json.required? fields "kind" BeliefChange.ofJson?
  let literal ← Json.required? fields "literal" Literal.ofJson?
  let previous ← Json.optional? fields "previous" none (Json.option? Literal.ofJson?)
  let sequence ← Json.required? fields "sequence" Json.nat?
  return { change, literal, previous, sequence }

instance : Documented BeliefEvent := ⟨toJson, ofJson?⟩

end BeliefEvent

namespace FrameState

/-- The name in documents, which is longer for a frame that waits for a sub-goal. -/
def documentName : FrameState → String
  | .suspended => "suspended_on_subgoal"
  | s => s.name

def toJson (s : FrameState) : Json :=
  .text s.documentName

def ofJson? : Json → Option FrameState :=
  Json.choice? ([.waiting, .running, .suspended, .succeeded, .failed].map fun s =>
    (s.documentName, s))

instance : Documented FrameState := ⟨toJson, ofJson?⟩

end FrameState

namespace TickOutcome

def toJson (o : TickOutcome) : Json :=
  .text o.name

def ofJson? : Json → Option TickOutcome :=
  Json.choice? ([.idle, .progressed, .terminated].map fun o => (o.name, o))

instance : Documented TickOutcome := ⟨toJson, ofJson?⟩

end TickOutcome

namespace AgentConfig

def toJson (c : AgentConfig) : Json :=
  .object
    [("name", .text c.name), ("aggregation", c.aggregation.toJson),
      ("success_threshold", .ofFloat c.successThreshold),
      ("max_pending_events", .whole c.maxPendingEvents),
      ("report_capacity", .whole c.reportCapacity),
      ("consistency_bias", .ofFloat c.consistencyBias)]

def ofJson? (j : Json) : Option AgentConfig := do
  let fields ← j.known?
    ["name", "aggregation", "success_threshold", "max_pending_events", "report_capacity",
      "consistency_bias"]
  let name ← Json.optional? fields "name" default.name Json.text?
  let aggregation ← Json.optional? fields "aggregation" default.aggregation Aggregation.ofJson?
  let successThreshold ←
    Json.optional? fields "success_threshold" default.successThreshold Json.float?
  let maxPendingEvents ←
    Json.optional? fields "max_pending_events" default.maxPendingEvents Json.nat?
  let reportCapacity ← Json.optional? fields "report_capacity" default.reportCapacity Json.nat?
  let consistencyBias ←
    Json.optional? fields "consistency_bias" default.consistencyBias Json.float?
  return { name, aggregation, successThreshold, maxPendingEvents, reportCapacity, consistencyBias }

instance : Documented AgentConfig := ⟨toJson, ofJson?⟩

end AgentConfig

namespace Compression

def name : Compression → String
  | .deflate => "deflate"
  | .gzip => "gzip"
  | .zlib => "zlib"

def all : List Compression :=
  [.deflate, .gzip, .zlib]

/-- The container with a name. -/
def ofName? (name : String) : Option Compression :=
  all.find? fun c => c.name == name

def toJson (c : Compression) : Json :=
  .text c.name

def ofJson? : Json → Option Compression :=
  Json.choice? (all.map fun c => (c.name, c))

instance : Documented Compression := ⟨toJson, ofJson?⟩

end Compression

namespace Algorithm

def toJson : Algorithm Float → Json
  | .fixPoint n => .object [("kind", .text "fix_point"), ("iterations", .whole n)]
  | .converge tolerance n =>
    .object
      [("kind", .text "converge"), ("tolerance", .ofFloat tolerance), ("max_iterations", .whole n)]

def ofJson? (j : Json) : Option (Algorithm Float) := do
  let (kind, j) ← j.selfTagged? "kind"
  match kind with
  | "fix_point" =>
    let fields ← j.known? ["iterations"]
    (Json.required? fields "iterations" Json.nat?).map .fixPoint
  | "converge" =>
    let fields ← j.known? ["tolerance", "max_iterations"]
    let tolerance ← Json.required? fields "tolerance" Json.float?
    let n ← Json.required? fields "max_iterations" Json.nat?
    return .converge tolerance n
  | _ => none

instance : Documented (Algorithm Float) := ⟨toJson, ofJson?⟩

end Algorithm

namespace ConsistencyConfig

def toJson (c : ConsistencyConfig Float) : Json :=
  .object [("algorithm", c.algorithm.toJson), ("epsilon", .ofFloat c.epsilon)]

def ofJson? (j : Json) : Option (ConsistencyConfig Float) := do
  let fields ← j.known? ["algorithm", "epsilon"]
  let algorithm ← Json.optional? fields "algorithm" default.algorithm Algorithm.ofJson?
  let epsilon ← Json.optional? fields "epsilon" default.epsilon Json.float?
  return { algorithm, epsilon }

instance : Documented (ConsistencyConfig Float) := ⟨toJson, ofJson?⟩

end ConsistencyConfig

namespace Observation

def toJson : Observation → Json
  | .all => .object [("kind", .text "all")]
  | .beliefs paths =>
    .object [("kind", .text "beliefs"), ("paths", .list (paths.map Path.toJson))]
  | .running => .object [("kind", .text "running_plans")]

def ofJson? (j : Json) : Option Observation := do
  let (kind, j) ← j.selfTagged? "kind"
  match kind with
  | "all" => some .all
  | "beliefs" =>
    let fields ← j.known? ["paths"]
    (Json.required? fields "paths" (Json.list? Path.ofJson?)).map .beliefs
  | "running_plans" => some .running
  | _ => none

instance : Documented Observation := ⟨toJson, ofJson?⟩

end Observation

namespace SchedulerConfig

def toJson (c : SchedulerConfig) : Json :=
  .object
    [("workers", .whole c.workers), ("queue_capacity", .whole c.queueCapacity),
      ("recompute_each_round", .bool c.recomputeEachRound)]

def ofJson? (j : Json) : Option SchedulerConfig := do
  let fields ← j.known? ["workers", "queue_capacity", "recompute_each_round"]
  let workers ← Json.optional? fields "workers" default.workers Json.nat?
  let queueCapacity ← Json.optional? fields "queue_capacity" default.queueCapacity Json.nat?
  let recomputeEachRound ←
    Json.optional? fields "recompute_each_round" default.recomputeEachRound Json.bool?
  return { workers, queueCapacity, recomputeEachRound }

instance : Documented SchedulerConfig := ⟨toJson, ofJson?⟩

end SchedulerConfig

/-- The settings of a mailbox. -/
structure ProbeConfig where
  /-- How many events can wait. -/
  capacity : Nat
  deriving DecidableEq

namespace ProbeConfig

def default : ProbeConfig := ⟨1024⟩

def toJson (c : ProbeConfig) : Json :=
  .object [("capacity", .whole c.capacity)]

def ofJson? (j : Json) : Option ProbeConfig := do
  let fields ← j.known? ["capacity"]
  (Json.optional? fields "capacity" default.capacity Json.nat?).map ProbeConfig.mk

instance : Documented ProbeConfig := ⟨toJson, ofJson?⟩

end ProbeConfig

namespace RunningStatistics

def toJson (s : RunningStatistics Float) : Json :=
  .object
    [("count", .whole s.count), ("mean", .ofFloat s.mean), ("m2", .ofFloat s.squares),
      ("sum", .ofFloat s.sum), ("min", .ofOption .ofFloat s.min), ("max", .ofOption .ofFloat s.max)]

def ofJson? (j : Json) : Option (RunningStatistics Float) := do
  let fields ← j.known? ["count", "mean", "m2", "sum", "min", "max"]
  let count ← Json.required? fields "count" Json.nat?
  let mean ← Json.required? fields "mean" Json.float?
  let squares ← Json.required? fields "m2" Json.float?
  let sum ← Json.required? fields "sum" Json.float?
  let min ← Json.optional? fields "min" none (Json.option? Json.float?)
  let max ← Json.optional? fields "max" none (Json.option? Json.float?)
  return { count, mean, squares, sum, min, max }

instance : Documented (RunningStatistics Float) := ⟨toJson, ofJson?⟩

end RunningStatistics
end Deliberation
