import Deliberation.Belief.Outbox
import Deliberation.Logic.Unification

/-!
The belief base: a set of ground literals, kept by functor.

Beliefs with one functor stand in the order in which they came, and functors in their own order, so
every answer is determined. Each change appends to the log: one event for a belief that came or
went, and a single one for a belief that replaced another with the same functor.
-/

namespace Deliberation

structure BeliefBase where
  /-- The beliefs with each functor; there is no empty list among them. -/
  buckets : SortedMap Path (List Literal)
  /-- The number of beliefs. -/
  size : Nat
  /-- The events that were not taken yet, oldest first. -/
  events : List BeliefEvent
  /-- The number of the last event. It is taken as unbounded, so no two events share a number. -/
  sequence : Nat
  outbox : Outbox

namespace BeliefBase

def empty : BeliefBase := ⟨.empty, 0, [], 0, .empty⟩

instance : Inhabited BeliefBase := ⟨empty⟩

def isEmpty (b : BeliefBase) : Bool :=
  b.size == 0

/-- The beliefs with a functor, in the order in which they came. -/
def bucket (b : BeliefBase) (functor : Path) : List Literal :=
  (b.buckets.find? functor).getD []

/-- All beliefs, in the order of their functors. -/
def toList (b : BeliefBase) : List Literal :=
  b.buckets.entries.flatMap (·.2)

/-- Whether an identical belief is held. -/
def contains (b : BeliefBase) (l : Literal) : Bool :=
  (b.bucket l.functor).any (·.identical l)

/-- What can be a belief: a ground literal with a functor. -/
def validate (l : Literal) : Except ValidationError Unit :=
  if l.functor.isEmpty then .error .emptyFunctor
  else if l.isGround then .ok ()
  else .error (.nonGroundLiteral l.render)

/-- The base with a belief more, if no identical one is held. -/
def insert? (b : BeliefBase) (l : Literal) : Option BeliefBase :=
  if b.contains l then none
  else some
    { b with
      buckets := b.buckets.insert l.functor (b.bucket l.functor ++ [l])
      size := b.size + 1 }

/-- Where in a bucket the belief stands that a literal speaks of: the first identical one, or, for a
literal without annotations, else the first equal one. -/
def position? (bucket : List Literal) (l : Literal) : Option Nat :=
  match bucket.findIdx? (·.identical l) with
  | some i => some i
  | none => if l.annotations.isEmpty then bucket.findIdx? (· == l) else none

/-- The belief that a literal speaks of, and the base without it. -/
def take? (b : BeliefBase) (l : Literal) : Option (Literal × BeliefBase) :=
  let bucket := b.bucket l.functor
  match position? bucket l with
  | none => none
  | some i =>
    match bucket[i]? with
    | none => none
    | some found =>
      let rest := bucket.eraseIdx i
      let buckets :=
        if rest.isEmpty then b.buckets.erase l.functor else b.buckets.insert l.functor rest
      some (found, { b with buckets, size := b.size - 1 })

/-- Writes an event to the log and offers it to the observers. -/
def emit (b : BeliefBase) (change : BeliefChange) (l : Literal) (previous : Option Literal) :
    BeliefBase :=
  let e : BeliefEvent := ⟨change, l, previous, b.sequence + 1⟩
  { b with
    events := b.events ++ [e]
    sequence := b.sequence + 1
    outbox := b.outbox.publish e }

/-- Adds a belief. The answer tells whether it was new. -/
def add (b : BeliefBase) (l : Literal) : Except ValidationError (Bool × BeliefBase) := do
  validate l
  match b.insert? l with
  | none => return (false, b)
  | some b' => return (true, b'.emit .add l none)

/-- Removes the belief that a literal speaks of. The answer tells whether there was one. -/
def remove (b : BeliefBase) (l : Literal) : Bool × BeliefBase :=
  match b.take? l with
  | none => (false, b)
  | some (found, b') => (true, b'.emit .remove found none)

/-- Replaces one belief by another. If the first was held, the second is new and both have one
functor, this is a single event; else what went and what came are events of their own. The answer
tells whether anything changed. -/
def update (b : BeliefBase) (old new : Literal) :
    Except ValidationError (Bool × BeliefBase) := do
  validate new
  match b.take? old with
  | some (previous, b₁) =>
    match b₁.insert? new with
    | some b₂ =>
      if previous.functor = new.functor then
        return (true, b₂.emit .update new (some previous))
      else
        return (true, (b₂.emit .remove previous none).emit .add new none)
    | none => return (true, b₁.emit .remove previous none)
  | none =>
    match b.insert? new with
    | some b₁ => return (true, b₁.emit .add new none)
    | none => return (false, b)

/-- The beliefs whose functor starts with a path. The functors that do stand together, from the path
itself on. -/
def query (b : BeliefBase) (start : Path) : List Literal :=
  ((b.buckets.entries.dropWhile fun e => e.1 < start).takeWhile fun e =>
    e.1.startsWith start).flatMap (·.2)

/-- Each belief that a pattern unifies with, and the bindings that it takes. -/
def unifyQuery (b : BeliefBase) (pattern : Literal) (s : Substitution) :
    List (Literal × Substitution) :=
  (b.bucket pattern.functor).filterMap fun l =>
    (unifyLiterals pattern l s).toOption.map (l, ·)

/-- Takes the events out of the log. -/
def drainEvents (b : BeliefBase) : List BeliefEvent × BeliefBase :=
  (b.events, { b with events := [] })

/-- Subscribes an observer to the events to come. -/
def subscribe (b : BeliefBase) (capacity : Nat) : Nat × BeliefBase :=
  let (probe, outbox) := b.outbox.subscribe capacity
  (probe, { b with outbox })

end BeliefBase
end Deliberation
