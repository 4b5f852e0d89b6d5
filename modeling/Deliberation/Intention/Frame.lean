import Deliberation.Plan.Basic

/-!
Frames: running plans, and the place where they are stored.

A frame is named by the slot that it stands in and the generation of that slot. Removing a frame
starts a new generation, so an old name does not lead to what stands in the slot later. Generations
are taken as unbounded: none comes twice.
-/

namespace Deliberation

inductive FrameState where
  /-- No instruction was run yet. -/
  | waiting
  | running
  /-- A sub-goal has to be done first. -/
  | suspended
  | succeeded
  | failed
  deriving DecidableEq, Repr, Inhabited

def FrameState.name : FrameState → String
  | .waiting => "waiting"
  | .running => "running"
  | .suspended => "suspended"
  | .succeeded => "succeeded"
  | .failed => "failed"

structure FrameId where
  slot : Nat
  generation : Nat
  deriving DecidableEq, Repr, Inhabited

/-- A running plan. -/
structure Frame where
  plan : PlanId
  /-- What the plan was chosen for. -/
  trigger : Trigger
  bindings : Substitution
  /-- The number of the next instruction. -/
  pc : Nat
  state : FrameState
  /-- The frame that waits for this one. -/
  parent : Option FrameId
  /-- The sub-goal that this frame waits for, in its own variables. -/
  awaiting : Option Literal
  /-- The degrees of the instructions that were run. -/
  degrees : List Float
  /-- The first failure of a plan that goes on after failures. -/
  failure : Option InstructionError
  deriving Inhabited

namespace Frame

def start (plan : PlanId) (trigger : Trigger) (bindings : Substitution)
    (parent : Option FrameId) : Frame :=
  { plan, trigger, bindings, parent
    pc := 0
    state := .waiting
    awaiting := none
    degrees := []
    failure := none }

/-- The literal of the trigger under the bindings so far. -/
def instantiated (f : Frame) : Literal :=
  f.bindings.applyLiteral f.trigger.literal

/-- Whether the next instruction can be run. -/
def isReady (f : Frame) : Bool :=
  f.state = .waiting || f.state = .running

end Frame

/-- A place for a frame. -/
structure FrameSlot where
  generation : Nat
  frame : Option Frame

structure FrameArena where
  slots : List FrameSlot
  /-- The slots without a frame; the last one that was left comes first. -/
  free : List Nat

namespace FrameArena

def empty : FrameArena := ⟨[], []⟩

instance : Inhabited FrameArena := ⟨empty⟩

/-- Stores a frame in a new slot. -/
def append (a : FrameArena) (f : Frame) : FrameId × FrameArena :=
  (⟨a.slots.length, 0⟩, { a with slots := a.slots ++ [⟨0, some f⟩] })

/-- Stores a frame, in a free slot if there is one. -/
def insert (a : FrameArena) (f : Frame) : FrameId × FrameArena :=
  match a.free with
  | [] => a.append f
  | slot :: free =>
    match a.slots[slot]? with
    | none => a.append f
    | some s => (⟨slot, s.generation⟩, ⟨a.slots.set slot { s with frame := some f }, free⟩)

/-- The frame with a name, unless it was removed. -/
def find? (a : FrameArena) (id : FrameId) : Option Frame :=
  match a.slots[id.slot]? with
  | some s => if s.generation = id.generation then s.frame else none
  | none => none

/-- Changes the frame with a name. -/
def modify (a : FrameArena) (id : FrameId) (change : Frame → Frame) : FrameArena :=
  { a with
    slots := a.slots.modify id.slot fun s =>
      if s.generation = id.generation then { s with frame := s.frame.map change } else s }

/-- Takes the frame with a name out and ends the generation of its slot. -/
def remove? (a : FrameArena) (id : FrameId) : Option (Frame × FrameArena) :=
  match a.find? id with
  | none => none
  | some f => some (f, ⟨a.slots.set id.slot ⟨id.generation + 1, none⟩, id.slot :: a.free⟩)

/-- The number of frames. -/
def size (a : FrameArena) : Nat :=
  a.slots.length - a.free.length

end FrameArena

/-- The number of an intention; they are counted from zero on. -/
structure IntentionId where
  number : Nat
  deriving DecidableEq, Repr, Inhabited

/-- What an agent does about one trigger: a plan, and the plans for the sub-goals that it waits
for. -/
structure Intention where
  id : IntentionId
  root : Trigger
  /-- The frames, the one that runs first. -/
  stack : List FrameId
  deriving Inhabited

/-- How a frame ended, or that there was no plan for a goal. -/
structure Report where
  intention : IntentionId
  plan : Option PlanId
  trigger : Trigger
  state : FrameState
  /-- The aggregated degree of the instructions that were run. -/
  degree : Float
  error : Option InstructionError
  /-- How many frames were left below. -/
  depth : Nat
  cycle : Nat

def Report.succeeded (r : Report) : Bool :=
  r.state = .succeeded

end Deliberation
