import Deliberation.Agent.Execution

/-!
The reasoning cycle.

A tick does one of two things: it handles the oldest pending trigger, by choosing a plan and
starting an intention, or else it runs one instruction of the oldest intention that can go on. A
frame that has no instruction left ends in the same tick, and its result goes to the frame that
waits for it.
-/

namespace Deliberation

inductive TickOutcome where
  /-- There was nothing to do, or the agent sleeps. -/
  | idle
  | progressed
  | terminated
  deriving DecidableEq, Repr, Inhabited

def TickOutcome.name : TickOutcome → String
  | .idle => "idle"
  | .progressed => "progressed"
  | .terminated => "agent_terminated"

/-- A waiting frame after the plan for its sub-goal ended with a degree, maybe with a failure. The
literal that a successful plan was started for, under its last bindings, is unified with the
sub-goal; that this fails is a failure too. -/
def Frame.resume (f : Frame) (degree : Float) (failure : Option InstructionError)
    (resolved : Option Literal) : Frame × Option InstructionError :=
  let back := { f with
    state := .running
    awaiting := none
    degrees := f.degrees ++ [degree] }
  match resolved, f.awaiting with
  | some l, some goal =>
    match unifyLiterals goal l f.bindings with
    | .ok bindings => ({ back with bindings }, failure)
    | .error _ => (back, some (.unificationFailed (goal.render ++ " with " ++ l.render)))
  | _, _ => (back, failure)

/-- What a frame that ended hands to the one that waits for it, and the number of names made up
until then: after a success the literal that it was started for, under its last bindings and with
its variables renamed, since they must not meet those of the waiting frame. -/
def Frame.answer (f : Frame) (failure : Option InstructionError) (fresh : Nat) :
    Option Literal × Nat :=
  match failure with
  | some _ => (none, fresh)
  | none =>
    let (l, fresh) := f.instantiated.freshen fresh
    (some l, fresh)

/-- How far a step of an intention got. -/
inductive Progress where
  /-- The step is over. -/
  | done (a : Agent)
  /-- The frame on top of the stack ends, with a failure or in success. -/
  | ends (a : Agent) (failure : Option InstructionError)

namespace Agent

/-- The intention at a place with another stack. -/
def setStack (a : Agent) (place : Nat) (stack : List FrameId) : Agent :=
  { a with intentions := a.intentions.modify place fun i => { i with stack } }

def dropIntention (a : Agent) (place : Nat) : Agent :=
  { a with intentions := a.intentions.eraseIdx place }

/-- The agent with another frame under a name. -/
def storeFrame (a : Agent) (id : FrameId) (f : Frame) : Agent :=
  { a with frames := a.frames.modify id fun _ => f }

/-- Counts the end of a plan. -/
def recordEnd (a : Agent) (plan : PlanId) (success : Bool) : Agent :=
  { a with statistics := a.statistics.modify plan.index (·.record success) }

/-- Whether a plan goes on after a failure, and how many instructions it has. -/
def bodyOf (a : Agent) (plan : PlanId) : Bool × Nat :=
  match a.library.find? plan with
  | some p => (p.atomic, p.body.length)
  | none => (false, 0)

/-- Counts and reports the end of a frame that was taken off its stack. -/
def closeFrame (a : Agent) (i : Intention) (f : Frame) (depth : Nat)
    (failure : Option InstructionError) : Agent :=
  (a.recordEnd f.plan failure.isNone).addReport
    { intention := i.id
      plan := some f.plan
      trigger := f.trigger
      state := if failure.isNone then .succeeded else .failed
      degree := a.config.aggregation.aggregate f.degrees
      error := failure
      depth
      cycle := a.cycle }

/-- Removes an intention whose last frame ended. If it failed and was started for a new goal, this
raises the trigger that the goal was given up. -/
def endIntention (a : Agent) (place : Nat) (i : Intention) (failure : Option InstructionError) :
    Agent :=
  let a := a.dropIntention place
  if failure.isSome && i.root.kind = .addGoal then a.enqueue ⟨.removeGoal, i.root.literal⟩ else a

/-- Stores the frame on top of a stack after an instruction or a sub-goal of it came to an end. A
failure ends it too, unless its plan goes on after failures: then the first one is noted. Without
another instruction it ends with what was noted. -/
def settle (a : Agent) (place : Nat) (stack : List FrameId) (id : FrameId) (f : Frame)
    (failure : Option InstructionError) : Progress :=
  let (atomic, length) := a.bodyOf f.plan
  match failure, atomic with
  | some e, false => .ends (a.storeFrame id f) (some e)
  | _, _ =>
    let f := { f with failure := f.failure.or failure }
    if f.pc < length then .done ((a.storeFrame id f).setStack place stack)
    else .ends (a.storeFrame id f) f.failure

/-- Hands the end of a frame that was taken off its stack to the frame that waits for it. -/
def deliver (a : Agent) (place : Nat) (i : Intention) (rest : List FrameId) (f : Frame)
    (failure : Option InstructionError) : Progress :=
  match f.parent with
  | none => .done (a.endIntention place i failure)
  | some parentId =>
    let (resolved, fresh) := f.answer failure a.fresh
    let a := { a with fresh }
    match a.frames.find? parentId with
    | none => .done (a.dropIntention place)
    | some parent =>
      let (parent, failure) :=
        parent.resume (a.config.aggregation.aggregate f.degrees) failure resolved
      a.settle place rest parentId parent failure

/-- Ends the frames at the top of a stack: the first one with the given failure or success, and then
each waiting frame that has no instruction left or fails with it. -/
def unwind (place : Nat) (i : Intention) : List FrameId → Agent → Option InstructionError → Agent
  | [], a, _ => a.dropIntention place
  | id :: rest, a, failure =>
    match a.frames.remove? id with
    | none => unwind place i rest a failure
    | some (f, frames) =>
      let closed := { a with frames }.closeFrame i f rest.length failure
      match closed.deliver place i rest f failure with
      | .done a => a
      | .ends a failure => unwind place i rest a failure

/-- Ends the top frame of the intention at a place. -/
def finish (a : Agent) (place : Nat) (failure : Option InstructionError) : Agent :=
  match a.intentions[place]? with
  | none => a
  | some i => unwind place i i.stack a failure

/-- Starts a plan for the sub-goal that a frame waits for. -/
def pushSubgoal (a : Agent) (place : Nat) (stack : List FrameId) (parent : FrameId) (t : Trigger)
    (selection : Selection Float) : Agent :=
  let (child, frames) :=
    a.frames.insert (.start selection.plan t selection.bindings (some parent))
  { a with frames }.setStack place (child :: stack)

/-- Runs an instruction of the frame on top of a stack. -/
def runInstruction (a : Agent) (place : Nat) (stack : List FrameId) (id : FrameId) (f : Frame)
    (instruction : Instruction) : Progress :=
  let result := a.execute f.bindings instruction
  let a := result.agent
  let f := { f with pc := f.pc + 1, bindings := result.bindings }
  match result.outcome with
  | .ok (.proceed degree) =>
    a.settle place stack id { f with degrees := f.degrees ++ [degree] } none
  | .ok (.suspend goal t selection) =>
    let f := { f with awaiting := some goal, state := .suspended }
    .done ((a.storeFrame id f).pushSubgoal place stack id t selection)
  | .error e =>
    a.settle place stack id { f with degrees := f.degrees ++ [e.truth] } (some e)

/-- The turn of the intention at a place: the next instruction of its top frame, or the end of a
frame whose plan has none. -/
def turn (a : Agent) (place : Nat) : Progress :=
  match a.intentions[place]? with
  | none => .done a
  | some i =>
    match i.stack with
    | [] => .done a
    | id :: _ =>
      match a.frames.find? id with
      | none => .done (a.dropIntention place)
      | some f =>
        let f := { f with state := .running }
        let a := a.storeFrame id f
        match a.library.find? f.plan with
        | none => .ends a (some (.unificationFailed "unknown plan"))
        | some p =>
          match p.body[f.pc]? with
          | none => .ends a f.failure
          | some instruction => a.runInstruction place i.stack id f instruction

/-- One step of the intention at a place: its turn, and the end of all frames that end with it. -/
def step (a : Agent) (place : Nat) : Agent :=
  match a.turn place with
  | .done a => a
  | .ends a failure => a.finish place failure

/-- The plan for a trigger and the trigger that it is for. An update of beliefs that no plan handles
is taken as an addition. -/
def choose (a : Agent) (t : Trigger) : Option (Trigger × Selection Float) :=
  match a.select? t with
  | some selection => some (t, selection)
  | none =>
    if t.kind = .updateBelief then
      let added : Trigger := ⟨.addBelief, t.literal⟩
      (a.select? added).map (added, ·)
    else none

/-- Starts an intention for a trigger. A goal without a plan is reported as failed, and a change of
beliefs without a plan is passed over. -/
def handle (a : Agent) (t : Trigger) : Agent :=
  let chosen := a.choose t
  let id : IntentionId := ⟨a.nextIntention⟩
  let a := { a with nextIntention := a.nextIntention + 1 }
  match chosen with
  | some (t, selection) =>
    let (frame, frames) := a.frames.insert (.start selection.plan t selection.bindings none)
    { a with frames, intentions := a.intentions ++ [⟨id, t, [frame]⟩] }
  | none =>
    if t.kind.isGoal then
      a.addReport
        { intention := id
          plan := none
          trigger := t
          state := .failed
          degree := 0
          error := some (.noApplicablePlan t.render)
          depth := 0
          cycle := a.cycle }
    else a

/-- The place of the first intention whose top frame can go on. -/
def runnable? (a : Agent) : Option Nat :=
  a.intentions.findIdx? fun i =>
    match i.stack with
    | [] => false
    | id :: _ =>
      match a.frames.find? id with
      | some f => f.isReady
      | none => false

/-- Whether the agent sleeps through a tick. A sleep that is over ends. -/
def sleepThrough (a : Agent) : Bool × Agent :=
  match a.sleep with
  | none => (false, a)
  | some sleep =>
    match sleep.remaining with
    | none => (true, a)
    | some 0 => (false, (a.wakeUp []).2)
    | some (n + 1) => (true, { a with sleep := some { sleep with remaining := some n } })

/-- The work of a tick. -/
def work (a : Agent) : TickOutcome × Agent :=
  let (asleep, a) := a.sleepThrough
  if asleep then (.idle, a)
  else
    match a.pending with
    | t :: rest => (.progressed, { a with pending := rest }.handle t)
    | [] =>
      match a.runnable? with
      | some place => (.progressed, a.step place)
      | none => (.idle, a)

/-- One round of reasoning. -/
def tick (a : Agent) : TickOutcome × Agent :=
  if a.terminated then (.terminated, a)
  else
    let (outcome, a) := ({ a with cycle := a.cycle + 1 }.collectBeliefEvents).work
    (outcome, a.collectBeliefEvents.publish)

/-- The agent after a number of ticks. -/
def tickTimes : (times : Nat) → Agent → Agent
  | 0, a => a
  | times + 1, a => tickTimes times a.tick.2

/-- Ticks until the agent does not get on, but not more often than a given number. The answer has
the number of ticks and how the last one went. -/
def runUntilIdle : (limit : Nat) → Agent → (Nat × Option TickOutcome) × Agent
  | 0, a => ((0, none), a)
  | limit + 1, a =>
    let (outcome, a) := a.tick
    if outcome = .progressed then
      let ((ticks, last), a) := runUntilIdle limit a
      ((ticks + 1, last.or (some outcome)), a)
    else ((1, some outcome), a)

end Agent
end Deliberation
