import Deliberation.Agent.Setup
import Deliberation.Society.Population

/-!
Agents that live together, and the population in which they are scored.

What an agent publishes reaches the population, and what the population finds reaches the agents
that weigh their plans by it. There may be no population, and a new one may take the place of an old
one; agents that listened to the old one keep what they heard last.
-/

namespace Deliberation

structure Resident where
  /-- Tells residents apart, also those of one name. -/
  source : Nat
  agent : Agent

structure Ensemble where
  /-- The residents, in the order of arrival. -/
  residents : List Resident
  /-- How many residents ever arrived. -/
  arrivals : Nat
  population : Option (Population Float)
  /-- How many populations there ever were. -/
  generation : Nat

namespace Ensemble

def empty : Ensemble := ⟨[], 0, none, 0⟩

instance : Inhabited Ensemble := ⟨empty⟩

def size (e : Ensemble) : Nat :=
  e.residents.length

def ids (e : Ensemble) : List AgentId :=
  e.residents.map (·.agent.id)

/-- The place of the first resident with a name. -/
def place? (e : Ensemble) (id : AgentId) : Option Nat :=
  e.residents.findIdx? fun r => r.agent.id = id

/-- The first resident with a name. -/
def find? (e : Ensemble) (id : AgentId) : Option Agent :=
  (e.residents.find? fun r => r.agent.id = id).map (·.agent)

/-- What a new agent hears that listens to the population. -/
def hearing? (e : Ensemble) (id : AgentId) : Option Hearing :=
  e.population.map fun p => ⟨e.generation, p.standing? id⟩

/-- An agent after it was told its standing, if it listens to the current population. -/
def inform (generation : Nat) (p : Population Float) (a : Agent) : Agent :=
  match a.hearing with
  | some h =>
    if h.population = generation then
      { a with hearing := some { h with standing := p.standing? a.id } }
    else a
  | none => a

/-- Puts a changed population in the place of the current one and tells the residents. -/
def setPopulation (e : Ensemble) (p : Population Float) : Ensemble :=
  { e with
    residents := e.residents.map fun r => { r with agent := inform e.generation p r.agent }
    population := some p }

/-- Does something to the population, if there is one. -/
def revise {β : Type} (e : Ensemble) (change : Population Float → β × Population Float) :
    Option β × Ensemble :=
  match e.population with
  | none => (none, e)
  | some p =>
    let (result, p) := change p
    (some result, e.setPopulation p)

/-- A resident arrives, without joining the population. -/
def arrive (e : Ensemble) (a : Agent) : Ensemble :=
  { e with
    residents := e.residents ++ [⟨e.arrivals, a⟩]
    arrivals := e.arrivals + 1 }

/-- A resident joins the population. The answer tells whether it was not there yet. -/
def join (e : Ensemble) (r : Resident) : Bool × Ensemble :=
  let (added, e) := e.revise fun p => p.add r.agent.id r.source r.agent.snapshot
  (added.getD false, e)

/-- The first resident with a name joins the population; no answer without such a resident. -/
def joinNamed (e : Ensemble) (id : AgentId) : Option Bool × Ensemble :=
  match e.residents.find? fun r => r.agent.id = id with
  | none => (none, e)
  | some r =>
    let (added, e) := e.join r
    (some added, e)

/-- A resident arrives and joins the population. -/
def enroll (e : Ensemble) (a : Agent) : Ensemble :=
  ((e.arrive a).join ⟨e.arrivals, a⟩).2

/-- All residents join the population. -/
def joinAll (e : Ensemble) : Ensemble :=
  e.residents.foldl (fun e r => (e.join r).2) e

/-- A new population takes the place of the current one, and all residents join it. -/
def attach (e : Ensemble) (p : Population Float) : Ensemble :=
  { e with population := some p, generation := e.generation + 1 }.joinAll

/-- Does something to the agent at a place. What it publishes reaches the population. -/
def actAt {β : Type} (e : Ensemble) (place : Nat) (action : Agent → β × Agent) :
    Option (β × Ensemble) :=
  match e.residents[place]? with
  | none => none
  | some r =>
    let (result, agent) := action r.agent
    some (result, { e with
      residents := e.residents.set place { r with agent }
      population := e.population.map fun p => p.publish r.source agent.snapshot })

/-- Does something to the first agent with a name. -/
def act {β : Type} (e : Ensemble) (id : AgentId) (action : Agent → β × Agent) :
    Option (β × Ensemble) :=
  match e.place? id with
  | none => none
  | some place => e.actAt place action

/-- The first resident with a name leaves, and with it the member of that name. If the agent listens
to the population, it hears that it has no standing there any more. -/
def dismiss (e : Ensemble) (id : AgentId) : Option (Agent × Ensemble) :=
  match e.place? id with
  | none => none
  | some place =>
    match e.residents[place]? with
    | none => none
    | some r =>
      let e := ({ e with residents := e.residents.eraseIdx place }.revise fun p => p.remove id).2
      some (e.population.elim r.agent fun p => inform e.generation p r.agent, e)

/-- The standing of an agent; no answer without a population. -/
def standing? (e : Ensemble) (id : AgentId) :
    Option (Except ConsistencyError (Standing Float)) :=
  e.population.map fun p => p.standing id

end Ensemble
end Deliberation
