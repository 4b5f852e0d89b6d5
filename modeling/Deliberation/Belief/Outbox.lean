import Deliberation.Belief.Event
import Deliberation.Error

/-!
Delivery of belief events to observers.

Each observer has a mailbox of bounded capacity. Publishing never waits: an event that finds a
mailbox full is lost to that observer, and the loss is counted. Receiving takes the oldest event.
-/

namespace Deliberation

/-- The events that wait for one observer. -/
structure Mailbox where
  capacity : Nat
  waiting : List BeliefEvent
  /-- Whether the observer still holds it. -/
  held : Bool

namespace Mailbox

/-- Room for at least one event. -/
def ofCapacity (capacity : Nat) : Mailbox :=
  ⟨max capacity 1, [], true⟩

def isFull (m : Mailbox) : Bool :=
  m.capacity ≤ m.waiting.length

/-- Whether an event published now is lost to the observer. -/
def loses (m : Mailbox) : Bool :=
  m.held && m.isFull

/-- The mailbox after an event was published. -/
def deliver (m : Mailbox) (e : BeliefEvent) : Mailbox :=
  if m.held && !m.isFull then { m with waiting := m.waiting ++ [e] } else m

end Mailbox

/-- The mailboxes of a belief base, in the order of subscription. -/
structure Outbox where
  mailboxes : List Mailbox
  /-- How many events were lost, over all observers. The count is taken as unbounded. -/
  lost : Nat
  /-- Whether further events can come. -/
  isOpen : Bool
  deriving Inhabited

/-- What an observer gets. -/
inductive Receipt where
  | event (e : BeliefEvent)
  /-- Nothing yet, but something may come. -/
  | waiting
  /-- Nothing, and nothing will come. -/
  | disconnected

namespace Outbox

def empty : Outbox := ⟨[], 0, true⟩

/-- Adds a mailbox; the result is its number. -/
def subscribe (o : Outbox) (capacity : Nat) : Nat × Outbox :=
  (o.mailboxes.length, { o with mailboxes := o.mailboxes ++ [Mailbox.ofCapacity capacity] })

/-- Offers an event to every observer. -/
def publish (o : Outbox) (e : BeliefEvent) : Outbox :=
  { o with
    mailboxes := o.mailboxes.map (·.deliver e)
    lost := o.lost + o.mailboxes.countP Mailbox.loses }

/-- Ends the stream of events; what waits can still be received. -/
def close (o : Outbox) : Outbox :=
  { o with isOpen := false }

def isHeld (o : Outbox) (probe : Nat) : Bool :=
  (o.mailboxes[probe]?.map Mailbox.held).getD false

/-- Gives a mailbox up. -/
def release (o : Outbox) (probe : Nat) : Outbox :=
  { o with mailboxes := o.mailboxes.modify probe fun m => { m with waiting := [], held := false } }

def waitingFor (o : Outbox) (probe : Nat) : List BeliefEvent :=
  (o.mailboxes[probe]?.map Mailbox.waiting).getD []

/-- Takes the oldest event out of a mailbox. -/
def receive (o : Outbox) (probe : Nat) : Receipt × Outbox :=
  match o.waitingFor probe with
  | e :: rest =>
    (.event e, { o with mailboxes := o.mailboxes.modify probe fun m => { m with waiting := rest } })
  | [] => (if o.isOpen then .waiting else .disconnected, o)

/-- Takes everything out of a mailbox. -/
def drain (o : Outbox) (probe : Nat) : List BeliefEvent × Outbox :=
  (o.waitingFor probe,
    { o with mailboxes := o.mailboxes.modify probe fun m => { m with waiting := [] } })

end Outbox

/-- The name of the mailboxes in messages. -/
def Receipt.poolName : String := "belief_probe"

/-- What an observer gets that waits for a limited time. -/
def Receipt.within (milliseconds : Nat) : Receipt → Except EngineError BeliefEvent
  | .event e => .ok e
  | .waiting => .error (.queue (.timeout milliseconds))
  | .disconnected => .error (.queue (.disconnected Receipt.poolName))

end Deliberation
