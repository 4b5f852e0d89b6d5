import Deliberation.Agent.Action
import Deliberation.Agent.Config
import Deliberation.Agent.Snapshot
import Deliberation.Intention.Frame
import Deliberation.Society.Bias

/-!
The state of an agent.

An agent has beliefs, a queue of triggers that it did not look at yet, and intentions, oldest first.
Everything that happens to it goes through the operations of this and the following modules.

The counters of an agent (`nextIntention`, `cycle`, `fresh`) and those of its plans are taken as
unbounded: no run is long enough for one of them to start again from zero.
-/

namespace Deliberation

/-- A sleep; without `remaining` it lasts until someone ends it. -/
structure Sleep where
  remaining : Option Nat
  /-- What the agent is reminded of when it wakes up. -/
  terms : List Term

/-- The consistency score that an agent last heard of itself, and which population it comes from. -/
structure Hearing where
  population : Nat
  standing : Option (Standing Float)

structure Agent where
  id : AgentId
  config : AgentConfig
  library : PlanLibrary
  actions : ActionRegistry
  scorer : Scorer Float
  /-- For an agent that weighs its plans by its consistency. -/
  hearing : Option Hearing
  beliefs : BeliefBase
  /-- The triggers to be handled, oldest first. -/
  pending : List Trigger
  frames : FrameArena
  /-- The intentions, oldest first. -/
  intentions : List Intention
  /-- The number of the next intention. -/
  nextIntention : Nat
  /-- How often each plan ended in success and in failure. -/
  statistics : List PlanStatistic
  /-- The reports that were not taken yet, oldest first. -/
  reports : List Report
  /-- The number of ticks so far. -/
  cycle : Nat
  sleep : Option Sleep
  terminated : Bool
  /-- The number of names that were made up so far. -/
  fresh : Nat
  /-- What the agent let others see last. -/
  snapshot : Snapshot

/-- The goal that a waking agent is given. -/
def wakeupGoal : String := "wakeup"

/-- The literal with its free variables renamed to names that no plan uses, and the number of names
made up until then. The names are numbered from `fresh + 1` on. -/
def Literal.freshen (fresh : Nat) (l : Literal) : Literal × Nat :=
  match l.freeNames with
  | [] => (l, fresh)
  | names =>
    let table := Substitution.ofList <| names.zipIdx.map fun (name, i) =>
      (name, .variable (name ++ "#" ++ toString (fresh + i + 1)))
    (table.applyLiteral l, fresh + names.length)

namespace Agent

/-- The triggers to be handled, with those that the beliefs will raise. -/
def pendingCount (a : Agent) : Nat :=
  a.pending.length + a.beliefs.events.length

/-- How often a plan ended in success and in failure. -/
def statistic (a : Agent) (plan : PlanId) : PlanStatistic :=
  a.statistics[plan.index]?.getD .zero

/-- The frames of an intention, the one that was started first at the front. -/
def framesOf (a : Agent) (i : Intention) : List Frame :=
  i.stack.reverse.filterMap a.frames.find?

/-- What all frames were started for, under their bindings. -/
def running (a : Agent) : List Literal :=
  (a.intentions.flatMap a.framesOf).map Frame.instantiated

/-- Puts a trigger at the end of the queue. -/
def enqueue (a : Agent) (t : Trigger) : Agent :=
  { a with pending := a.pending ++ [t] }

/-- Puts the changes of beliefs into the queue as triggers. -/
def collectBeliefEvents (a : Agent) : Agent :=
  let (events, beliefs) := a.beliefs.drainEvents
  { a with beliefs, pending := a.pending ++ events.map Trigger.ofEvent }

/-- How the agent scores plans: its own scorer, biased by the consistency that it heard of. -/
def effectiveScorer (a : Agent) : Scorer Float :=
  match a.hearing with
  | none => a.scorer
  | some h => Scorer.biased a.config.consistencyBias (fun _ => h.standing) a.scorer

/-- The best plan for a trigger. -/
def select? (a : Agent) (t : Trigger) : Option (Selection Float) :=
  a.library.select (a.library.candidates t) a.effectiveScorer
    { agent := a.id
      beliefs := a.beliefs
      aggregation := a.config.aggregation
      threshold := a.config.successThreshold
      statistics := a.statistics }

/-- Adds a report; the oldest ones go if there is no room. -/
def addReport (a : Agent) (r : Report) : Agent :=
  { a with
    reports := a.reports.drop (a.reports.length + 1 - a.config.reportCapacity) ++ [r] }

/-- Takes the reports since the last call. -/
def drainReports (a : Agent) : List Report × Agent :=
  (a.reports, { a with reports := [] })

/-- Hands a trigger to the agent from outside. A trigger about beliefs has to be ground. -/
def trigger (a : Agent) (t : Trigger) : Except ValidationError Agent :=
  if !t.kind.isGoal && !t.literal.isGround then
    .error (.nonGroundLiteral t.literal.render)
  else
    let (literal, fresh) := t.literal.freshen a.fresh
    .ok ({ a with fresh }.enqueue ⟨t.kind, literal⟩)

/-- Hands a goal to the agent. -/
def achieve (a : Agent) (goal : Literal) : Except ValidationError Agent :=
  a.trigger ⟨.addGoal, goal⟩

/-- Puts the agent to sleep, for a number of ticks or until it is woken. -/
def fallAsleep (a : Agent) (cycles : Option Nat) (terms : List Term) : Agent :=
  { a with sleep := some ⟨cycles, terms⟩ }

/-- The goals of waking up: one for each term, or one without a term. -/
def wakeupTriggers (terms : List Term) : List Trigger :=
  match terms with
  | [] => [⟨.addGoal, .of wakeupGoal []⟩]
  | _ :: _ => terms.map fun t => ⟨.addGoal, .of wakeupGoal [t]⟩

/-- Ends a sleep. The answer tells whether there was one. -/
def wakeUp (a : Agent) (terms : List Term) : Bool × Agent :=
  match a.sleep with
  | none => (false, a)
  | some sleep =>
    (true, { a with
      sleep := none
      pending := a.pending ++ wakeupTriggers (sleep.terms ++ terms) })

/-- Stops the agent for good. -/
def terminate (a : Agent) : Agent :=
  { a with terminated := true }

/-- Lets others see the state. -/
def publish (a : Agent) : Agent :=
  { a with snapshot := ⟨a.id, a.config.name, a.cycle, a.beliefs.toList, a.running⟩ }

def describe (a : Agent) : String :=
  "Agent \x7b id: AgentId(" ++ a.id.render ++ "), name: " ++ Text.quoted a.config.name ++
    ", cycle: " ++ toString a.cycle ++ ", beliefs: " ++ toString a.beliefs.size ++
    ", pending: " ++ toString a.pending.length ++ ", intentions: " ++
    toString a.intentions.length ++ ", .. \x7d"

end Agent
end Deliberation
