import Deliberation.Number.Statistics
import Deliberation.Society.Distance
import Deliberation.Society.Observation
import Deliberation.Society.Ranking
import Deliberation.Society.Standing

/-!
A population of agents and how consistent each is with the others.

The population knows each member by the last snapshot that it published. A recompute looks at the
observed part of each snapshot, compares every two members, leaves those out that the metric fails
on, and ranks the rest. A refresh does so only if some member came, went or published another state.
-/

namespace Deliberation

structure Member (α : Type) where
  id : AgentId
  /-- Where the snapshots come from; two agents of one name have different sources. -/
  source : Nat
  snapshot : Snapshot
  standing : Standing α
  /-- The fingerprint of the snapshot that the last recompute looked at. -/
  seen : Option String

/-- The result of a recompute. -/
structure Verdict (α : Type) where
  /-- The number of recomputes so far, with this one. -/
  round : Nat
  statistics : RunningStatistics α
  /-- The scores, in the order of joining. -/
  scores : List (AgentId × α)
  stale : List AgentId

structure Population (α : Type) where
  config : ConsistencyConfig α
  observe : Snapshot → List Literal
  metric : Metric α
  /-- The members, in the order of joining. -/
  members : List (Member α)
  statistics : RunningStatistics α
  /-- The number of recomputes so far, taken as unbounded. -/
  round : Nat
  /-- Whether a member came or went since the last recompute. -/
  dirty : Bool
  last : Option (Verdict α)

namespace Population

variable {α : Type} [Scalar α]

def start (config : ConsistencyConfig α) (observe : Snapshot → List Literal) (metric : Metric α) :
    Except ValidationError (Population α) := do
  config.validate
  return ⟨config, observe, metric, [], .empty, 0, true, none⟩

def contains (p : Population α) (id : AgentId) : Bool :=
  p.members.any fun m => m.id = id

def size (p : Population α) : Nat :=
  p.members.length

/-- Adds a member, unless there is one of that name. The answer tells whether it was added. -/
def add (p : Population α) (id : AgentId) (source : Nat) (snapshot : Snapshot) :
    Bool × Population α :=
  if p.contains id then (false, p)
  else
    (true, { p with
      members := p.members ++ [⟨id, source, snapshot, .pending, none⟩]
      dirty := true })

/-- Removes a member. The answer tells whether there was one. -/
def remove (p : Population α) (id : AgentId) : Bool × Population α :=
  let removed := p.contains id
  (removed, { p with
    members := p.members.filter fun m => m.id ≠ id
    dirty := p.dirty || removed })

/-- Takes note of a snapshot. -/
def publish (p : Population α) (source : Nat) (snapshot : Snapshot) : Population α :=
  { p with
    members := p.members.map fun m => if m.source = source then { m with snapshot } else m }

/-- The standing of a member. -/
def standing? (p : Population α) (id : AgentId) : Option (Standing α) :=
  (p.members.find? fun m => m.id = id).map (·.standing)

/-- The standing of an agent that should be a member. -/
def standing (p : Population α) (id : AgentId) : Except ConsistencyError (Standing α) :=
  match p.standing? id with
  | some s => .ok s
  | none => .error (.unknownAgent id)

/-- Whether a recompute could give another result than the last one. -/
def changed (p : Population α) : Bool :=
  p.dirty || p.members.any fun m => m.seen != some m.snapshot.fingerprint

/-- The distance of two states, if the metric gives a proper number; none is below zero. -/
def distance? (metric : Metric α) (left right : List Literal) : Option α :=
  match metric.distance left right with
  | .ok d => if Scalar.isFinite d then some (Scalar.larger d 0) else none
  | .error _ => none

/-- The distances of a state to those that come after it. -/
def rowAfter (metric : Metric α) (state : List Literal) (later : List (List Literal)) :
    List (Option α) :=
  later.map (distance? metric state)

/-- The distances of each two states, the earlier one compared with the later one. -/
def upperRows (metric : Metric α) : List (List Literal) → List (List (Option α))
  | [] => []
  | state :: later => rowAfter metric state later :: upperRows metric later

/-- The distance of the states at two places. -/
def entry (rows : List (List (Option α))) (i j : Nat) : Option α :=
  if i = j then some 0
  else (rows[min i j]?.bind fun row => row[max i j - min i j - 1]?).join

/-- The pairs of places whose states could not be compared. -/
def failedPairs (rows : List (List (Option α))) : List (Nat × Nat) :=
  rows.zipIdx.flatMap fun (row, i) =>
    row.zipIdx.filterMap fun (d, k) => if d.isNone then some (i, i + k + 1) else none

/-- The scores of the places that are not left out, each with its place. -/
def scorePlaces (config : ConsistencyConfig α) (rows : List (List (Option α)))
    (stale : List Bool) : List (Nat × α) :=
  let fresh := (List.range stale.length).filter fun i => stale[i]? == some false
  let matrix := fresh.map fun i => fresh.map fun j => (entry rows i j).getD 0
  fresh.zip (Ranking.scores config matrix)

/-- A member after a recompute. -/
def settle (m : Member α) (score : Option α) : Member α :=
  { m with
    standing := match score with
      | some value => ⟨value, false, true⟩
      | none => { m.standing with stale := true }
    seen := some m.snapshot.fingerprint }

/-- Scores the members by their last snapshots. -/
def recompute (p : Population α) : Verdict α × Population α :=
  let rows := upperRows p.metric (p.members.map fun m => p.observe m.snapshot)
  let stale := Ranking.blame p.members.length (failedPairs rows)
  let placed := scorePlaces p.config rows stale
  let members := p.members.zipIdx.map fun (m, i) => settle m (placed.lookup i)
  let scores := placed.filterMap fun (i, value) => p.members[i]?.map fun m => (m.id, value)
  let verdict : Verdict α :=
    { round := p.round + 1
      statistics := .ofList (scores.map (·.2))
      scores
      stale := (p.members.zip stale).filterMap fun (m, out) => if out then some m.id else none }
  (verdict, { p with
    members
    statistics := verdict.statistics
    round := verdict.round
    dirty := false
    last := some verdict })

/-- Recomputes if something changed, and gives the last result otherwise. -/
def refresh (p : Population α) : Verdict α × Population α :=
  match p.changed, p.last with
  | false, some verdict => (verdict, p)
  | _, _ => p.recompute

end Population

def Population.describe (p : Population Float) : String :=
  "Consistency \x7b config: " ++ p.config.describe ++ ", metric: " ++ Text.quoted p.metric.name ++
    ", agents: " ++ toString p.size ++ ", round: " ++ toString p.round ++ ", .. \x7d"

end Deliberation
