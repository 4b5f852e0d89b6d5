import Deliberation.Society.Ensemble

/-!
Ticking the agents of an ensemble in rounds.

A round ticks every agent once. The ticks may be done in any order, since an agent is touched by its
own tick only; each reply is filed under the place of its agent, and the report lists the replies by
place. After the ticks the scores are brought up to date.
-/

namespace Deliberation

structure SchedulerConfig where
  /-- How many ticks are worked on at a time; at least one. -/
  workers : Nat
  /-- How many ticks can wait; at least one. -/
  queueCapacity : Nat
  /-- Whether scores are brought up to date after each round. -/
  recomputeEachRound : Bool
  deriving DecidableEq

namespace SchedulerConfig

def default : SchedulerConfig := ⟨4, 1024, true⟩

instance : Inhabited SchedulerConfig := ⟨default⟩

/-- How many ticks can wait. -/
def waitingRoom (c : SchedulerConfig) : Nat :=
  max c.queueCapacity 1

/-- How many ticks are taken on while none of them can be finished. -/
def room (c : SchedulerConfig) : Nat :=
  max c.workers 1 + c.waitingRoom

def describe (c : SchedulerConfig) : String :=
  "RuntimeConfig \x7b workers: " ++ toString c.workers ++ ", queue_capacity: " ++
    toString c.queueCapacity ++ ", recompute_each_round: " ++ toString c.recomputeEachRound ++
    " \x7d"

end SchedulerConfig

/-- What comes back from a tick. -/
structure Reply where
  /-- The place of the agent. -/
  place : Nat
  agent : AgentId
  outcome : TickOutcome

structure RoundReport where
  /-- The number of rounds so far, with this one. -/
  round : Nat
  /-- How the ticks went, in the order of arrival of the agents. -/
  outcomes : List (AgentId × TickOutcome)
  verdict : Option (Verdict Float)

/-- Whether no agent got on. -/
def RoundReport.isIdle (r : RoundReport) : Bool :=
  r.outcomes.all fun (_, outcome) => outcome ≠ .progressed

structure Scheduler where
  config : SchedulerConfig
  ensemble : Ensemble
  /-- The number of rounds so far. -/
  round : Nat

namespace Ensemble

/-- Ticks the agent at a place. -/
def tickAt (e : Ensemble) (place : Nat) : Option (Reply × Ensemble) :=
  e.actAt place fun a =>
    let (outcome, a) := a.tick
    (⟨place, a.id, outcome⟩, a)

/-- Ticks the agents at some places, one after another. -/
def tickEach (e : Ensemble) : List Nat → List Reply × Ensemble
  | [] => ([], e)
  | place :: rest =>
    match e.tickAt place with
    | none => e.tickEach rest
    | some (reply, e) =>
      let (replies, e) := e.tickEach rest
      (reply :: replies, e)

end Ensemble

namespace Scheduler

/-- The name of the queue in messages. -/
def queueName : String := "tick"

def start (config : SchedulerConfig) : Scheduler := ⟨config, .empty, 0⟩

/-- The replies by place. -/
def collect (places : Nat) (replies : List Reply) : List (AgentId × TickOutcome) :=
  (List.range places).filterMap fun place =>
    (replies.find? fun r => r.place = place).map fun r => (r.agent, r.outcome)

/-- A round in which the ticks are done in a given order of places. -/
def runRoundIn (order : List Nat) (s : Scheduler) : RoundReport × Scheduler :=
  let (replies, ensemble) := s.ensemble.tickEach order
  let (verdict, ensemble) :=
    if s.config.recomputeEachRound then ensemble.revise Population.refresh else (none, ensemble)
  let round := s.round + 1
  ({ round, outcomes := collect s.ensemble.size replies, verdict },
    { s with ensemble, round })

/-- Ticks every agent once. -/
def runRound (s : Scheduler) : RoundReport × Scheduler :=
  s.runRoundIn (List.range s.ensemble.size)

/-- Runs rounds until no agent gets on, but not more than a given number. The answer is the number
of rounds that were run. -/
def runUntilIdle : (limit : Nat) → Scheduler → Nat × Scheduler
  | 0, s => (0, s)
  | limit + 1, s =>
    let (report, s) := s.runRound
    if report.isIdle then (1, s)
    else
      let (rounds, s) := runUntilIdle limit s
      (rounds + 1, s)

/-- Ticks the first agent with a name. -/
def tickNamed (s : Scheduler) (id : AgentId) : Option (TickOutcome × Scheduler) :=
  (s.ensemble.act id Agent.tick).map fun (outcome, ensemble) => (outcome, { s with ensemble })

/-- Does a single tick. -/
def submit (s : Scheduler) (id : AgentId) : Except EngineError (TickOutcome × Scheduler) :=
  match s.tickNamed id with
  | some result => .ok result
  | none => .error (.consistency (.unknownAgent id))

/-- Ticks an agent a number of times. -/
def tickTimes (s : Scheduler) (id : AgentId) : (times : Nat) → List TickOutcome × Scheduler
  | 0 => ([], s)
  | times + 1 =>
    match s.tickNamed id with
    | none => ([], s)
    | some (outcome, s) =>
      let (outcomes, s) := s.tickTimes id times
      (outcome :: outcomes, s)

/-- Asks for a number of ticks of one agent while none of them can be finished. Those for which
there is room are done, the others are refused. -/
def flood (s : Scheduler) (id : AgentId) (count : Nat) :
    Option ((List TickOutcome × List EngineError) × Scheduler) :=
  if (s.ensemble.place? id).isNone then none
  else
    let accepted := min count s.config.room
    let (outcomes, s) := s.tickTimes id accepted
    let refused : EngineError := .queue (.full queueName s.config.waitingRoom)
    some ((outcomes, List.replicate (count - accepted) refused), s)

/-- Asks for a tick and gives up the wait for it; the tick is done all the same. -/
def giveUpWaiting (s : Scheduler) (id : AgentId) (milliseconds : Nat) :
    Option (QueueError × Scheduler) :=
  (s.tickNamed id).map fun (_, s) => (.timeout milliseconds, s)

def describe (s : Scheduler) : String :=
  "Runtime \x7b config: " ++ s.config.describe ++ ", agents: " ++ toString s.ensemble.size ++
    ", round: " ++ toString s.round ++ ", .. \x7d"

end Scheduler
end Deliberation
