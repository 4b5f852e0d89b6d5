import Mathlib.Algebra.BigOperators.Group.List.Basic
import Mathlib.Algebra.GroupWithZero.Nat
import Deliberation.Proofs.Belief.Log

/-!
Delivery of events to observers.

An event is written to the log and then offered to one observer after another, while observers
receive what waits for them or give their mailboxes up. `Broadcast` has the base in the midst of all
this, and beside it a record of each subscription: what was offered, how much was waiting at that
moment, and what was received. Whatever the order of the steps, an observer gets every event that
was offered to it but those that found its mailbox full, in their order; these are counted; and the
log is the one that is written when nobody observes.
-/

namespace Deliberation

/-! ### One observer at a time -/

namespace Outbox

variable {o : Outbox} {e : BeliefEvent}

/-- Offers an event to one observer. -/
def offer (o : Outbox) (probe : Nat) (e : BeliefEvent) : Outbox :=
  { o with
    mailboxes := o.mailboxes.modify probe (·.deliver e)
    lost := o.lost + if o.mailboxes[probe]?.any Mailbox.loses then 1 else 0 }

/-- Offers events to observers, in the order given. -/
def offerAll (o : Outbox) (posts : List (Nat × BeliefEvent)) : Outbox :=
  posts.foldl (fun o post => o.offer post.1 post.2) o

/-- The offers that make events known to a number of observers. -/
def postsOf (observers : Nat) (events : List BeliefEvent) : List (Nat × BeliefEvent) :=
  events.flatMap fun e => (List.range observers).map (·, e)

theorem offerAll_append (posts later : List (Nat × BeliefEvent)) :
    o.offerAll (posts ++ later) = (o.offerAll posts).offerAll later :=
  List.foldl_append

theorem offer_of_split {before after : List Mailbox} {m : Mailbox}
    (h : o.mailboxes = before ++ m :: after) :
    o.offer before.length e =
      { o with
        mailboxes := before ++ m.deliver e :: after
        lost := o.lost + if m.loses then 1 else 0 } := by
  have hmodify : (before ++ m :: after).modify before.length (·.deliver e) =
      before ++ m.deliver e :: after := by
    rw [List.modify_eq_take_cons_drop (by simp)]
    simp
  rw [offer, h, hmodify]
  simp

/-- Offers to the last observers reach all of them. -/
theorem offerAll_of_split (e : BeliefEvent) {before after : List Mailbox}
    (h : o.mailboxes = before ++ after) :
    o.offerAll ((List.range' before.length after.length).map (·, e)) =
      { o with
        mailboxes := before ++ after.map (·.deliver e)
        lost := o.lost + after.countP Mailbox.loses } := by
  induction after generalizing o before with
  | nil => simp [offerAll, ← h]
  | cons m rest ih =>
      have hnext := @ih (o.offer before.length e) (before ++ [m.deliver e])
        (by simp [offer_of_split h])
      rw [List.length_append, List.length_singleton, offer_of_split h] at hnext
      rw [List.length_cons, List.range'_succ, List.map_cons, ← List.singleton_append,
        offerAll_append]
      refine Eq.trans ?_ (hnext.trans ?_)
      · simp [offerAll, offer_of_split h]
      · simp [List.countP_cons, Nat.add_comm, Nat.add_left_comm]

/-- To publish an event is to offer it to all observers, one after another. -/
theorem publish_eq_offerAll (o : Outbox) (e : BeliefEvent) :
    o.publish e = o.offerAll ((List.range o.mailboxes.length).map (·, e)) := by
  have h := offerAll_of_split e (o.mailboxes.nil_append).symm
  rw [List.length_nil, ← List.range_eq_range'] at h
  rw [h]
  rfl

theorem foldl_publish_eq_offerAll (o : Outbox) (events : List BeliefEvent) :
    events.foldl publish o = o.offerAll (postsOf o.mailboxes.length events) := by
  induction events generalizing o with
  | nil => rfl
  | cons e rest ih =>
      have hlength : (o.publish e).mailboxes.length = o.mailboxes.length := by simp [publish]
      rw [List.foldl_cons, ih, hlength, publish_eq_offerAll, ← offerAll_append]
      rfl

end Outbox

/-! ### Calls and their observers -/

namespace BeliefBase

variable {b b' : BeliefBase} {c : BeliefCall} {l : Literal}

/-- The base with other observers. -/
def observedBy (b : BeliefBase) (outbox : Outbox) : BeliefBase :=
  { b with outbox }

/-- The events that a call writes to the log. -/
def written (b : BeliefBase) (c : BeliefCall) : List BeliefEvent :=
  (b.call c).2.events.drop b.events.length

theorem insert?_observedBy (b : BeliefBase) (outbox : Outbox) (l : Literal) :
    (b.observedBy outbox).insert? l = (b.insert? l).map (·.observedBy outbox) := by
  by_cases hheld : b.contains l = true
  · have hheld' : (b.observedBy outbox).contains l = true := hheld
    simp [insert?, hheld, hheld']
  · have hheld' : ¬ (b.observedBy outbox).contains l = true := hheld
    simp only [insert?, hheld, hheld']
    rfl

theorem take?_observedBy (b : BeliefBase) (outbox : Outbox) (l : Literal) :
    (b.observedBy outbox).take? l =
      (b.take? l).map fun taken => (taken.1, taken.2.observedBy outbox) := by
  simp only [take?]
  have hbucket : (b.observedBy outbox).bucket l.functor = b.bucket l.functor := rfl
  rw [hbucket]
  cases position? (b.bucket l.functor) l with
  | none => rfl
  | some i =>
      cases hi : (b.bucket l.functor)[i]? with
      | none => simp [hi]
      | some found => simp [hi, observedBy]

/-- What a call answers, what it does to the beliefs and what it writes is the same whoever
observes. -/
theorem call_observedBy (b : BeliefBase) (outbox : Outbox) (c : BeliefCall) :
    ∃ outbox', (b.observedBy outbox).call c = ((b.call c).1, (b.call c).2.observedBy outbox') := by
  cases c with
  | add l =>
      simp only [call, add, insert?_observedBy]
      cases validate l with
      | error e => exact ⟨outbox, rfl⟩
      | ok u =>
          cases b.insert? l with
          | none => exact ⟨outbox, rfl⟩
          | some b₁ => exact ⟨_, rfl⟩
  | remove l =>
      simp only [call, remove, take?_observedBy]
      cases b.take? l with
      | none => exact ⟨outbox, rfl⟩
      | some taken => exact ⟨_, rfl⟩
  | update old new =>
      simp only [call, update, take?_observedBy, insert?_observedBy]
      cases validate new with
      | error e => exact ⟨outbox, rfl⟩
      | ok u =>
          cases b.take? old with
          | none =>
              cases b.insert? new with
              | none => exact ⟨outbox, rfl⟩
              | some b₁ => exact ⟨_, rfl⟩
          | some taken =>
              obtain ⟨previous, b₁⟩ := taken
              simp only [bind, Except.bind, Option.map_some, insert?_observedBy]
              cases b₁.insert? new with
              | none => exact ⟨_, rfl⟩
              | some b₂ =>
                  by_cases hfunctor : previous.functor = new.functor
                  · simp only [Option.map_some, hfunctor, ↓reduceIte]
                    exact ⟨_, rfl⟩
                  · simp only [Option.map_some, hfunctor, ↓reduceIte]
                    exact ⟨_, rfl⟩

theorem outbox_of_insert? (h : b.insert? l = some b') : b'.outbox = b.outbox := by
  obtain ⟨_, rfl⟩ := insert?_eq_some_iff.1 h
  rfl

theorem outbox_of_take? {found : Literal} (h : b.take? l = some (found, b')) :
    b'.outbox = b.outbox := by
  obtain ⟨_, _, _, rfl⟩ := take?_eq_some h
  rfl

/-- From one state of a base to another, all that was written to the log was published. -/
def Published (b b' : BeliefBase) : Prop :=
  ∃ emitted, b'.events = b.events ++ emitted ∧ b'.outbox = emitted.foldl Outbox.publish b.outbox

theorem Published.of_eq (hevents : b'.events = b.events) (houtbox : b'.outbox = b.outbox) :
    Published b b' :=
  ⟨[], by simpa using hevents, houtbox⟩

theorem Published.emit (h : Published b b') (change : BeliefChange) (l : Literal)
    (previous : Option Literal) : Published b (b'.emit change l previous) := by
  obtain ⟨emitted, hevents, houtbox⟩ := h
  refine ⟨emitted ++ [⟨change, l, previous, b'.sequence + 1⟩], ?_, ?_⟩
  · rw [BeliefBase.emit, hevents, List.append_assoc]
  · rw [List.foldl_append, ← houtbox]
    rfl

theorem Outcome.published {answer : Except ValidationError Bool} (h : Outcome b c answer b') :
    Published b b' := by
  cases h with
  | nothing _ => exact .of_eq rfl rfl
  | stored _ _ hinsert =>
      exact (Published.of_eq (frame_of_insert? hinsert).1 (outbox_of_insert? hinsert)).emit ..
  | taken htake =>
      exact (Published.of_eq (frame_of_take? htake).1 (outbox_of_take? htake)).emit ..
  | replaced _ _ htake hinsert _ =>
      exact (Published.of_eq ((frame_of_insert? hinsert).1.trans (frame_of_take? htake).1)
        ((outbox_of_insert? hinsert).trans (outbox_of_take? htake))).emit ..
  | moved _ _ htake hinsert _ =>
      exact ((Published.of_eq ((frame_of_insert? hinsert).1.trans (frame_of_take? htake).1)
        ((outbox_of_insert? hinsert).trans (outbox_of_take? htake))).emit ..).emit ..

theorem events_call (b : BeliefBase) (c : BeliefCall) :
    (b.call c).2.events = b.events ++ b.written c := by
  obtain ⟨emitted, hevents, _⟩ := (b.call_outcome c).published
  rw [written, hevents, List.drop_left]

theorem outbox_call (b : BeliefBase) (c : BeliefCall) :
    (b.call c).2.outbox = (b.written c).foldl Outbox.publish b.outbox := by
  obtain ⟨emitted, hevents, houtbox⟩ := (b.call_outcome c).published
  rw [written, hevents, List.drop_left, houtbox]

end BeliefBase

/-! ### Steps of a broadcast -/

/-- An event that was offered to an observer that held its mailbox. -/
structure Offer where
  event : BeliefEvent
  /-- How many events waited in the mailbox at that moment. -/
  waiting : Nat

/-- The record of a subscription. -/
structure Subscription where
  /-- The capacity that was asked for. -/
  capacity : Nat
  /-- How many events there had been before. -/
  since : Nat
  /-- What was offered, oldest first. -/
  offers : List Offer
  /-- What the observer has received, oldest first. -/
  received : List BeliefEvent
  /-- What was waiting when the observer gave its mailbox up. -/
  unread : List BeliefEvent

namespace Subscription

/-- The number of events that the mailbox has room for. -/
def room (s : Subscription) : Nat :=
  max s.capacity 1

/-- The events that found room in the mailbox. -/
def accepted (s : Subscription) : List BeliefEvent :=
  (s.offers.filter fun o => o.waiting ≠ s.room).map Offer.event

/-- How many events found the mailbox full. -/
def misses (s : Subscription) : Nat :=
  s.offers.countP fun o => o.waiting = s.room

/-- The record with one more offer. -/
def note (s : Subscription) (o : Offer) : Subscription :=
  { s with offers := s.offers ++ [o] }

theorem accepted_note (s : Subscription) (o : Offer) :
    (s.note o).accepted = s.accepted ++ if o.waiting = s.room then [] else [o.event] := by
  have hroom : (s.note o).room = s.room := rfl
  rw [accepted, hroom, note, List.filter_append, List.map_append]
  by_cases hfull : o.waiting = s.room
  · simp [accepted, hfull]
  · simp [accepted, hfull]

theorem misses_note (s : Subscription) (o : Offer) :
    (s.note o).misses = s.misses + if o.waiting = s.room then 1 else 0 := by
  have hroom : (s.note o).room = s.room := rfl
  rw [misses, hroom, note, List.countP_append, List.countP_singleton]
  simp [misses]

end Subscription

/-- The events that were received. -/
def Receipt.events : Receipt → List BeliefEvent
  | .event e => [e]
  | .waiting | .disconnected => []

/-- A step of the owner of a base or of one of its observers. -/
inductive BroadcastStep where
  /-- The owner changes beliefs; what is written has to be offered. -/
  | call (c : BeliefCall)
  /-- The owner takes the events out of the log. -/
  | drainEvents
  | subscribe (capacity : Nat)
  /-- The next offer is made. -/
  | offer
  | receive (probe : Nat)
  | drain (probe : Nat)
  | release (probe : Nat)

/-- The operation that is left of a step when nobody observes. -/
def BroadcastStep.unobserved? : BroadcastStep → Option BeliefOperation
  | .call c => some (.call c)
  | .drainEvents => some .drainEvents
  | .subscribe _ | .offer | .receive _ | .drain _ | .release _ => none

/-- A base with its log, the offers that are still to be made, and the records of subscriptions. -/
structure Broadcast where
  history : BeliefHistory
  unsent : List (Nat × BeliefEvent)
  subscriptions : List Subscription

namespace Broadcast

def base (t : Broadcast) : BeliefBase :=
  t.history.base

def outbox (t : Broadcast) : Outbox :=
  t.base.outbox

/-- The events that are still to be offered to an observer. -/
def unsentTo (t : Broadcast) (probe : Nat) : List BeliefEvent :=
  (t.unsent.filter fun post => post.1 = probe).map (·.2)

/-- What an observer does to the outbox and to its record. -/
def observe (t : Broadcast) (probe : Nat) (outbox : Outbox) (record : Subscription → Subscription) :
    Broadcast :=
  { t with
    history := { t.history with base := t.base.observedBy outbox }
    subscriptions := t.subscriptions.modify probe record }

/-- The record of an observer that is offered an event, if it still holds its mailbox. -/
def noteOffer (t : Broadcast) (probe : Nat) (e : BeliefEvent) (s : Subscription) : Subscription :=
  if t.outbox.isHeld probe then s.note ⟨e, (t.outbox.waitingFor probe).length⟩ else s

def perform (t : Broadcast) : BroadcastStep → Broadcast
  | .call c =>
    { t with
      history := { t.history with base := (t.base.call c).2.observedBy t.outbox }
      unsent := t.unsent ++ Outbox.postsOf t.outbox.mailboxes.length (t.base.written c) }
  | .drainEvents => { t with history := t.history.perform .drainEvents }
  | .subscribe capacity =>
    { t with
      history := t.history.perform (.subscribe capacity)
      subscriptions := t.subscriptions ++ [⟨capacity, t.history.log.length, [], [], []⟩] }
  | .offer =>
    match t.unsent with
    | [] => t
    | (probe, e) :: rest =>
      { t with unsent := rest }.observe probe (t.outbox.offer probe e) (t.noteOffer probe e)
  | .receive probe =>
    let (receipt, outbox) := t.outbox.receive probe
    t.observe probe outbox fun s => { s with received := s.received ++ receipt.events }
  | .drain probe =>
    let (events, outbox) := t.outbox.drain probe
    t.observe probe outbox fun s => { s with received := s.received ++ events }
  | .release probe =>
    t.observe probe (t.outbox.release probe) fun s =>
      { s with unread := s.unread ++ t.outbox.waitingFor probe }

/-- A base that was empty at first, after some steps. -/
def after (steps : List BroadcastStep) : Broadcast :=
  steps.foldl perform ⟨⟨.empty, []⟩, [], []⟩

/-- All offers that are still to be made are made in a row. -/
def flush (t : Broadcast) : Broadcast :=
  (List.replicate t.unsent.length BroadcastStep.offer).foldl perform t

/-! ### What a step keeps -/

theorem mem_posts_iff {observers : Nat} {events : List BeliefEvent} {post : Nat × BeliefEvent} :
    post ∈ Outbox.postsOf observers events ↔ post.1 < observers ∧ post.2 ∈ events := by
  obtain ⟨probe, e⟩ := post
  simp [Outbox.postsOf, and_comm]

/-- Every observer is to be offered all events. -/
theorem posts_to {observers probe : Nat} (h : probe < observers) (events : List BeliefEvent) :
    ((Outbox.postsOf observers events).filter fun post => post.1 = probe).map (·.2) = events := by
  have hone : (List.range observers).filter (· = probe) = [probe] := by
    have hcount : (List.range observers).count probe = 1 :=
      List.count_eq_one_of_mem List.nodup_range (List.mem_range.2 h)
    have hfilter := List.filter_beq (l := List.range observers) probe
    rw [hcount] at hfilter
    exact hfilter
  induction events with
  | nil => rfl
  | cons e rest ih =>
      rw [Outbox.postsOf, List.flatMap_cons, List.filter_append, List.map_append, List.filter_map]
      simp only [Function.comp_def, hone, List.map_cons, List.map_nil, List.singleton_append]
      exact congrArg (e :: ·) ih

end Broadcast

namespace Subscription

variable {log unsent : List BeliefEvent} {s : Subscription} {m : Mailbox} {e : BeliefEvent}

/-- The record of a subscription and its mailbox account for all that was offered. -/
structure Kept (log unsent : List BeliefEvent) (s : Subscription) (m : Mailbox) : Prop where
  room : m.capacity = s.room
  fits : m.waiting.length ≤ s.room
  account : s.received ++ (m.waiting ++ s.unread) = s.accepted
  joined : s.since ≤ log.length
  held : m.held = true → s.unread = [] ∧ s.offers.map Offer.event ++ unsent = log.drop s.since
  released : m.held = false → m.waiting = [] ∧ s.offers.map Offer.event <+: log.drop s.since

namespace Kept

/-- More events are written, and have to be offered. -/
theorem grow (h : s.Kept log unsent m) (events : List BeliefEvent) :
    s.Kept (log ++ events) (unsent ++ events) m where
  room := h.room
  fits := h.fits
  account := h.account
  joined := h.joined.trans (by simp)
  held hm := by
    refine ⟨(h.held hm).1, ?_⟩
    rw [List.drop_append_of_le_length h.joined, ← (h.held hm).2, List.append_assoc]
  released hm := by
    refine ⟨(h.released hm).1, ?_⟩
    rw [List.drop_append_of_le_length h.joined]
    exact (h.released hm).2.trans (List.prefix_append ..)

theorem subscribe (log : List BeliefEvent) (capacity : Nat) :
    Kept log [] ⟨capacity, log.length, [], [], []⟩ (.ofCapacity capacity) where
  room := rfl
  fits := by simp [Mailbox.ofCapacity]
  account := rfl
  joined := le_rfl
  held _ := by simp
  released hm := by simp [Mailbox.ofCapacity] at hm

/-- Some of what waits is received. -/
theorem receive (h : s.Kept log unsent m) {events rest : List BeliefEvent}
    (hwaiting : m.waiting = events ++ rest) :
    Kept log unsent { s with received := s.received ++ events } { m with waiting := rest } where
  room := h.room
  fits := by
    have hfits := h.fits
    rw [hwaiting, List.length_append] at hfits
    exact (Nat.le_add_left ..).trans hfits
  account := by
    have haccount := h.account
    rw [hwaiting, List.append_assoc] at haccount
    rw [List.append_assoc]
    exact haccount
  joined := h.joined
  held := h.held
  released hm := by
    have hnothing := (h.released hm).1
    rw [hwaiting, List.append_eq_nil_iff] at hnothing
    exact ⟨hnothing.2, (h.released hm).2⟩

/-- The mailbox is given up. -/
theorem release (h : s.Kept log unsent m) :
    Kept log unsent { s with unread := s.unread ++ m.waiting }
      { m with waiting := [], held := false } where
  room := h.room
  fits := Nat.zero_le _
  account := by
    -- Either there was nothing unread before, or there was nothing waiting any more.
    have haccount := h.account
    cases hm : m.held with
    | true =>
        rw [(h.held hm).1, List.append_nil] at haccount
        rw [(h.held hm).1]
        exact haccount
    | false =>
        rw [(h.released hm).1] at haccount
        rw [(h.released hm).1, List.append_nil]
        exact haccount
  joined := h.joined
  held hm := by simp at hm
  released _ := by
    refine ⟨rfl, ?_⟩
    cases hm : m.held with
    | true => exact ⟨unsent, (h.held hm).2⟩
    | false => exact (h.released hm).2

/-- An event is offered, and is lost if there is no room. -/
theorem offer (h : s.Kept log (e :: unsent) m) (hm : m.held = true) :
    (s.note ⟨e, m.waiting.length⟩).Kept log unsent (m.deliver e) := by
  obtain ⟨hunread, hoffers⟩ := h.held hm
  have haccount := h.account
  rw [hunread, List.append_nil] at haccount
  have hoffered : (s.note ⟨e, m.waiting.length⟩).offers.map Offer.event ++ unsent =
      log.drop s.since := by
    rw [← hoffers]
    simp [note]
  by_cases hfull : m.waiting.length = s.room
  · have hdeliver : m.deliver e = m := by simp [Mailbox.deliver, Mailbox.isFull, h.room, hfull]
    rw [hdeliver]
    refine ⟨h.room, h.fits, ?_, h.joined, fun _ => ⟨hunread, hoffered⟩, by simp [hm]⟩
    rw [accepted_note, if_pos hfull, List.append_nil, ← haccount]
    simp [note, hunread]
  · have hlt : m.waiting.length < s.room := lt_of_le_of_ne h.fits hfull
    have hdeliver : m.deliver e = { m with waiting := m.waiting ++ [e] } := by
      simp [Mailbox.deliver, Mailbox.isFull, hm, h.room, hlt]
    rw [hdeliver]
    refine ⟨h.room, ?_, ?_, h.joined, fun _ => ⟨hunread, hoffered⟩, by simp [hm]⟩
    · rw [List.length_append]
      exact hlt
    · rw [accepted_note, if_neg hfull, ← haccount]
      simp [note, hunread]

/-- What is lost is what is counted as missed. -/
theorem misses_offer (h : s.Kept log unsent m) (hm : m.held = true) :
    (s.note ⟨e, m.waiting.length⟩).misses = s.misses + if m.loses then 1 else 0 := by
  have hfull : m.loses = true ↔ m.waiting.length = s.room := by
    have hfits := h.fits
    simp only [Mailbox.loses, Mailbox.isFull, hm, h.room, Bool.true_and, decide_eq_true_eq]
    omega
  rw [misses_note]
  simp only [hfull]

/-- An observer that gave its mailbox up is offered nothing. -/
theorem pass (h : s.Kept log (e :: unsent) m) (hm : m.held = false) :
    s.Kept log unsent (m.deliver e) := by
  have hdeliver : m.deliver e = m := by simp [Mailbox.deliver, hm]
  rw [hdeliver]
  exact ⟨h.room, h.fits, h.account, h.joined, by simp [hm], h.released⟩

end Kept
end Subscription

namespace Broadcast

variable {t : Broadcast} {probe : Nat}

/-- Every subscription is accounted for, and what observers missed is counted. -/
structure Conserved (t : Broadcast) : Prop where
  paired : t.subscriptions.length = t.outbox.mailboxes.length
  addressed : ∀ post ∈ t.unsent, post.1 < t.outbox.mailboxes.length
  kept : ∀ (probe : Nat) (s : Subscription) (m : Mailbox), t.subscriptions[probe]? = some s →
    t.outbox.mailboxes[probe]? = some m → s.Kept t.history.log (t.unsentTo probe) m
  lost : t.outbox.lost = (t.subscriptions.map Subscription.misses).sum

theorem sum_misses_modify {subscriptions : List Subscription} {s : Subscription}
    {record : Subscription → Subscription} (missed : Nat) (hs : subscriptions[probe]? = some s)
    (hmissed : (record s).misses = s.misses + missed) :
    ((subscriptions.modify probe record).map Subscription.misses).sum =
      (subscriptions.map Subscription.misses).sum + missed := by
  obtain ⟨hlt, rfl⟩ := List.getElem?_eq_some_iff.1 hs
  have hsplit : subscriptions = subscriptions.take probe ++
      subscriptions[probe] :: subscriptions.drop (probe + 1) := by simp
  rw [List.modify_eq_take_cons_drop hlt]
  nth_rewrite 4 [hsplit]
  simp only [List.map_append, List.map_cons, List.sum_append, List.sum_cons, hmissed]
  omega

namespace Conserved

theorem mailbox_of_subscription (h : t.Conserved) {s : Subscription}
    (hs : t.subscriptions[probe]? = some s) : ∃ m, t.outbox.mailboxes[probe]? = some m := by
  have hlt : probe < t.outbox.mailboxes.length := by
    rw [← h.paired]
    exact (List.getElem?_eq_some_iff.1 hs).1
  exact ⟨_, List.getElem?_eq_getElem hlt⟩

/-- An observer does something to its own mailbox; what is left to be offered to the others
stays. -/
theorem observe (h : t.Conserved) (unsent : List (Nat × BeliefEvent)) {outbox : Outbox}
    {change : Mailbox → Mailbox} {record : Subscription → Subscription}
    (hunsent : ∀ post ∈ unsent, post ∈ t.unsent)
    (hothers : ∀ other, other ≠ probe →
      ({ t with unsent } : Broadcast).unsentTo other = t.unsentTo other)
    (hmailboxes : outbox.mailboxes = t.outbox.mailboxes.modify probe change)
    (hkept : ∀ s m, t.subscriptions[probe]? = some s → t.outbox.mailboxes[probe]? = some m →
      s.Kept t.history.log (t.unsentTo probe) m →
        (record s).Kept t.history.log (({ t with unsent } : Broadcast).unsentTo probe) (change m))
    (hlost : outbox.lost = ((t.subscriptions.modify probe record).map Subscription.misses).sum) :
    (({ t with unsent } : Broadcast).observe probe outbox record).Conserved where
  paired := by
    have hlength : (t.subscriptions.modify probe record).length = outbox.mailboxes.length := by
      rw [hmailboxes, List.length_modify, List.length_modify]
      exact h.paired
    exact hlength
  addressed post hpost := by
    have hlt : post.1 < outbox.mailboxes.length := by
      rw [hmailboxes, List.length_modify]
      exact h.addressed post (hunsent post hpost)
    exact hlt
  kept other s m hs hm := by
    replace hs : (t.subscriptions.modify probe record)[other]? = some s := hs
    replace hm : outbox.mailboxes[other]? = some m := hm
    rw [List.getElem?_modify, Option.map_eq_map, Option.map_eq_some_iff] at hs
    rw [hmailboxes, List.getElem?_modify, Option.map_eq_map, Option.map_eq_some_iff] at hm
    obtain ⟨s₀, hs, rfl⟩ := hs
    obtain ⟨m₀, hm, rfl⟩ := hm
    by_cases hother : probe = other
    · subst hother
      simp only [↓reduceIte]
      exact hkept s₀ m₀ hs hm (h.kept probe s₀ m₀ hs hm)
    · simp only [hother, ↓reduceIte]
      have hunsentTo := hothers other (Ne.symm hother)
      have hkept₀ := h.kept other s₀ m₀ hs hm
      rw [← hunsentTo] at hkept₀
      exact hkept₀
  lost := hlost

/-- An observer takes something out of its mailbox. -/
theorem collect (h : t.Conserved) {outbox : Outbox} {change : Mailbox → Mailbox}
    {record : Subscription → Subscription} (hmisses : ∀ s, (record s).misses = s.misses)
    (hmailboxes : outbox.mailboxes = t.outbox.mailboxes.modify probe change)
    (hlost : outbox.lost = t.outbox.lost)
    (hkept : ∀ s m, t.outbox.mailboxes[probe]? = some m →
      s.Kept t.history.log (t.unsentTo probe) m →
        (record s).Kept t.history.log (t.unsentTo probe) (change m)) :
    (t.observe probe outbox record).Conserved := by
  refine h.observe t.unsent (fun _ hpost => hpost) (fun _ _ => rfl) hmailboxes
    (fun s m _ hm hs => hkept s m hm hs) ?_
  rw [hlost, h.lost]
  cases hs : t.subscriptions[probe]? with
  | none => rw [List.modify_eq_self (List.getElem?_eq_none_iff.1 hs)]
  | some s => rw [sum_misses_modify 0 hs (hmisses s), Nat.add_zero]

theorem call (h : t.Conserved) (c : BeliefCall) : (t.perform (.call c)).Conserved where
  paired := h.paired
  addressed post hpost := by
    rcases List.mem_append.1 hpost with hpost | hpost
    · exact h.addressed post hpost
    · exact (mem_posts_iff.1 hpost).1
  kept probe s m hs hm := by
    have hlog : (t.perform (.call c)).history.log = t.history.log ++ t.base.written c := by
      rw [BeliefHistory.log, BeliefHistory.log, List.append_assoc]
      exact congrArg (t.history.taken ++ ·) (t.base.events_call c)
    have hunsent : (t.perform (.call c)).unsentTo probe =
        t.unsentTo probe ++ t.base.written c := by
      have hlt : probe < t.outbox.mailboxes.length := (List.getElem?_eq_some_iff.1 hm).1
      rw [unsentTo, unsentTo, ← posts_to hlt (t.base.written c), ← List.map_append,
        ← List.filter_append]
      rfl
    rw [hlog, hunsent]
    exact (h.kept probe s m hs hm).grow _
  lost := h.lost

theorem drainEvents (h : t.Conserved) : (t.perform .drainEvents).Conserved where
  paired := h.paired
  addressed := h.addressed
  kept probe s m hs hm := by
    have hlog : (t.perform .drainEvents).history.log = t.history.log := by
      simp [BeliefHistory.log, perform, BeliefHistory.perform, BeliefBase.drainEvents]
    rw [hlog]
    exact h.kept probe s m hs hm
  lost := h.lost

/-- Nothing is to be offered yet to a new observer. -/
theorem unsentTo_length (h : t.Conserved) : t.unsentTo t.outbox.mailboxes.length = [] := by
  rw [unsentTo, List.map_eq_nil_iff, List.filter_eq_nil_iff]
  intro post hpost
  have hlt := h.addressed post hpost
  simp only [decide_eq_true_eq]
  omega

theorem subscribe (h : t.Conserved) (capacity : Nat) :
    (t.perform (.subscribe capacity)).Conserved := by
  have hmailboxes : (t.perform (.subscribe capacity)).outbox.mailboxes =
      t.outbox.mailboxes ++ [.ofCapacity capacity] := rfl
  have hsubscriptions : (t.perform (.subscribe capacity)).subscriptions =
      t.subscriptions ++ [⟨capacity, t.history.log.length, [], [], []⟩] := rfl
  refine ⟨?_, fun post hpost => ?_, fun probe s m hs hm => ?_, ?_⟩
  · simp [hmailboxes, hsubscriptions, h.paired]
  · have hlt := h.addressed post hpost
    rw [hmailboxes, List.length_append]
    omega
  · rw [hsubscriptions] at hs
    rw [hmailboxes] at hm
    rcases Nat.lt_or_ge probe t.outbox.mailboxes.length with hold | hnew
    · rw [List.getElem?_append_left (by rwa [h.paired])] at hs
      rw [List.getElem?_append_left hold] at hm
      exact h.kept probe s m hs hm
    · rw [List.getElem?_append_right (by rwa [h.paired]), List.getElem?_singleton] at hs
      rw [List.getElem?_append_right hnew, List.getElem?_singleton] at hm
      have hprobe : probe = t.outbox.mailboxes.length := by
        by_contra hne
        simp [Nat.sub_ne_zero_of_lt (lt_of_le_of_ne hnew (Ne.symm hne))] at hm
      subst hprobe
      rw [h.paired] at hs
      simp only [Nat.sub_self, ↓reduceIte, Option.some.injEq] at hs hm
      subst hs hm
      have hunsent : (t.perform (.subscribe capacity)).unsentTo t.outbox.mailboxes.length = [] :=
        h.unsentTo_length
      rw [hunsent]
      exact .subscribe t.history.log capacity
  · rw [hsubscriptions, List.map_append, List.sum_append, ← h.lost]
    rfl

theorem offer (h : t.Conserved) : (t.perform .offer).Conserved := by
  cases hunsent : t.unsent with
  | nil => simpa only [perform, hunsent] using h
  | cons post rest =>
      obtain ⟨probe, e⟩ := post
      have hlt : probe < t.outbox.mailboxes.length := h.addressed (probe, e) (by simp [hunsent])
      obtain ⟨m, hm⟩ : ∃ m, t.outbox.mailboxes[probe]? = some m :=
        ⟨_, List.getElem?_eq_getElem hlt⟩
      obtain ⟨s, hs⟩ : ∃ s, t.subscriptions[probe]? = some s :=
        ⟨_, List.getElem?_eq_getElem (h.paired ▸ hlt)⟩
      have hnext : t.unsentTo probe =
          e :: ({ t with unsent := rest } : Broadcast).unsentTo probe := by
        simp [unsentTo, hunsent]
      have hothers (other : Nat) (hother : other ≠ probe) :
          ({ t with unsent := rest } : Broadcast).unsentTo other = t.unsentTo other := by
        simp [unsentTo, hunsent, hother.symm]
      have hheld : t.outbox.isHeld probe = m.held := by simp [Outbox.isHeld, hm]
      have hwaiting : t.outbox.waitingFor probe = m.waiting := by simp [Outbox.waitingFor, hm]
      have hkept := h.kept probe s m hs hm
      simp only [perform, hunsent]
      refine h.observe rest (fun post hpost => ?_) hothers rfl (fun s' m' hs' hm' _ => ?_) ?_
      · rw [hunsent]
        exact List.mem_cons_of_mem _ hpost
      · obtain rfl := Option.some.inj (hs.symm.trans hs')
        obtain rfl := Option.some.inj (hm.symm.trans hm')
        rw [hnext] at hkept
        cases hm : m.held with
        | true =>
            simp only [noteOffer, hheld, hm, ↓reduceIte, hwaiting]
            exact hkept.offer hm
        | false =>
            simp only [noteOffer, hheld, hm]
            exact hkept.pass hm
      · have hlost : (t.outbox.offer probe e).lost = t.outbox.lost + if m.loses then 1 else 0 := by
          simp [Outbox.offer, hm]
        rw [hlost, h.lost]
        refine (sum_misses_modify _ hs ?_).symm
        cases hm : m.held with
        | true =>
            simp only [noteOffer, hheld, hm, ↓reduceIte, hwaiting]
            exact hkept.misses_offer hm
        | false => simp [noteOffer, hheld, hm, Mailbox.loses]

theorem receive (h : t.Conserved) (probe : Nat) : (t.perform (.receive probe)).Conserved := by
  cases hwaiting : t.outbox.waitingFor probe with
  | nil =>
      have hnothing : (if t.outbox.isOpen then Receipt.waiting else .disconnected).events = [] := by
        split <;> rfl
      simp only [perform, Outbox.receive, hwaiting, hnothing]
      refine h.collect (fun _ => rfl) (List.modify_id ..).symm rfl fun s m _ hkept => ?_
      exact hkept.receive (List.nil_append _).symm
  | cons e rest =>
      simp only [perform, Outbox.receive, hwaiting]
      refine h.collect (fun _ => rfl) rfl rfl fun s m hm hkept => hkept.receive ?_
      have hm : t.outbox.waitingFor probe = m.waiting := by simp [Outbox.waitingFor, hm]
      rw [← hm, hwaiting]
      rfl

theorem drain (h : t.Conserved) (probe : Nat) : (t.perform (.drain probe)).Conserved := by
  refine h.collect (fun _ => rfl) rfl rfl fun s m hm hkept => ?_
  have hwaiting : t.outbox.waitingFor probe = m.waiting := by simp [Outbox.waitingFor, hm]
  simp only [hwaiting]
  exact hkept.receive (List.append_nil _).symm

theorem release (h : t.Conserved) (probe : Nat) : (t.perform (.release probe)).Conserved := by
  refine h.collect (fun _ => rfl) rfl rfl fun s m hm hkept => ?_
  have hwaiting : t.outbox.waitingFor probe = m.waiting := by simp [Outbox.waitingFor, hm]
  rw [hwaiting]
  exact hkept.release

theorem perform (h : t.Conserved) (step : BroadcastStep) : (t.perform step).Conserved := by
  cases step with
  | call c => exact h.call c
  | drainEvents => exact h.drainEvents
  | subscribe capacity => exact h.subscribe capacity
  | offer => exact h.offer
  | receive probe => exact h.receive probe
  | drain probe => exact h.drain probe
  | release probe => exact h.release probe

end Conserved

theorem conserved_after (steps : List BroadcastStep) : (after steps).Conserved := by
  refine steps.foldlRecOn perform ?_ fun t ht step _ => ht.perform step
  exact ⟨rfl, by simp, by simp, rfl⟩

/-! ### The log of an unobserved base -/

/-- Two histories differ in their observers only. -/
def SameLog (h q : BeliefHistory) : Prop :=
  ∃ outbox, h = ⟨q.base.observedBy outbox, q.taken⟩

theorem SameLog.perform {q : BeliefHistory} (h : SameLog t.history q) (step : BroadcastStep) :
    SameLog (t.perform step).history (step.unobserved?.elim q q.perform) := by
  obtain ⟨outbox, hq⟩ := h
  have hbase : t.base = q.base.observedBy outbox := congrArg BeliefHistory.base hq
  have htaken : t.history.taken = q.taken := by rw [hq]
  -- What observers do changes the outbox only.
  have hobserved (unsent : List (Nat × BeliefEvent)) (probe : Nat) (outbox' : Outbox)
      (record : Subscription → Subscription) :
      SameLog (({ t with unsent } : Broadcast).observe probe outbox' record).history q := by
    refine ⟨outbox', ?_⟩
    simp only [observe, base, hq]
    rfl
  cases step with
  | call c =>
      obtain ⟨outbox', hcall⟩ := q.base.call_observedBy outbox c
      refine ⟨t.outbox, ?_⟩
      simp only [Broadcast.perform, hbase, hcall, htaken]
      rfl
  | drainEvents =>
      refine ⟨outbox, ?_⟩
      simp only [Broadcast.perform, hq]
      rfl
  | subscribe capacity =>
      refine ⟨(outbox.subscribe capacity).2, ?_⟩
      simp only [Broadcast.perform, hq]
      rfl
  | offer =>
      cases hunsent : t.unsent with
      | nil => simpa only [Broadcast.perform, hunsent] using ⟨outbox, hq⟩
      | cons post rest =>
          simp only [Broadcast.perform, hunsent]
          exact hobserved ..
  | receive probe => exact hobserved t.unsent ..
  | drain probe => exact hobserved t.unsent ..
  | release probe => exact hobserved t.unsent ..

/-- The history that is left of some steps when nobody observes. -/
def unobserved (steps : List BroadcastStep) : BeliefHistory :=
  .after (steps.filterMap BroadcastStep.unobserved?)

theorem sameLog_foldl {q : BeliefHistory} (h : SameLog t.history q) (steps : List BroadcastStep) :
    SameLog (steps.foldl perform t).history
      ((steps.filterMap BroadcastStep.unobserved?).foldl BeliefHistory.perform q) := by
  induction steps generalizing t q with
  | nil => exact h
  | cons step rest ih =>
      have hstep := h.perform step
      cases hop : step.unobserved? with
      | none =>
          rw [hop] at hstep
          rw [List.filterMap_cons_none hop]
          exact ih hstep
      | some o =>
          rw [hop] at hstep
          rw [List.filterMap_cons_some hop]
          exact ih hstep

theorem sameLog_after (steps : List BroadcastStep) :
    SameLog (after steps).history (unobserved steps) :=
  sameLog_foldl ⟨.empty, rfl⟩ steps

/-- No event is written twice. -/
theorem nodup_log_after (steps : List BroadcastStep) : (after steps).history.log.Nodup := by
  obtain ⟨outbox, hhistory⟩ := sameLog_after steps
  have hlog : (after steps).history.log = (unobserved steps).log := by rw [hhistory]; rfl
  have hnumbered := (BeliefHistory.accounted_after
    (steps.filterMap BroadcastStep.unobserved?)).numbered
  rw [hlog]
  refine List.Nodup.of_map (·.sequence) ?_
  rw [unobserved, hnumbered]
  exact List.nodup_range'

/-! ### Calls that nobody interrupts -/

theorem flush_eq (t : Broadcast) :
    t.flush.unsent = [] ∧
      t.flush.history = ⟨t.base.observedBy (t.outbox.offerAll t.unsent), t.history.taken⟩ := by
  rw [flush]
  generalize hunsent : t.unsent = unsent
  induction unsent generalizing t with
  | nil => exact ⟨hunsent, rfl⟩
  | cons post rest ih =>
      have hnext := ih (t.perform .offer) (by simp [perform, hunsent, observe])
      rw [List.length_cons, List.replicate_succ, List.foldl_cons]
      refine ⟨hnext.1, hnext.2.trans ?_⟩
      simp only [perform, hunsent]
      rfl

/-- A call whose offers are made in a row is a call. -/
theorem flush_call (t : Broadcast) (c : BeliefCall) (hunsent : t.unsent = []) :
    (t.perform (.call c)).flush.history = t.history.perform (.call c) := by
  have houtbox := t.base.outbox_call c
  rw [Outbox.foldl_publish_eq_offerAll] at houtbox
  have hposts : (t.perform (.call c)).unsent =
      Outbox.postsOf t.base.outbox.mailboxes.length (t.base.written c) := by
    rw [perform, hunsent]
    rfl
  have hbase : ((t.base.call c).2.observedBy t.outbox).observedBy
      (t.base.outbox.offerAll (t.perform (.call c)).unsent) = (t.base.call c).2 := by
    rw [hposts, ← houtbox]
    rfl
  exact (flush_eq _).2.trans (congrArg (BeliefHistory.mk · t.history.taken) hbase)

/-! ### Conservation -/

/-- How an observer is served. -/
structure Serves (t : Broadcast) (probe : Nat) (s : Subscription) : Prop where
  /-- What it received and what waits for it are events since it subscribed, in their order. -/
  inOrder : (s.received ++ t.outbox.waitingFor probe).Sublist (t.history.log.drop s.since)
  unrepeated : (s.received ++ t.outbox.waitingFor probe).Nodup
  /-- As long as it holds its mailbox, every event since then is offered to it, and nothing goes but
  what it receives. -/
  held : t.outbox.isHeld probe = true →
    s.unread = [] ∧ s.offers.map Offer.event ++ t.unsentTo probe = t.history.log.drop s.since
  /-- After that, nothing is offered. -/
  released : t.outbox.isHeld probe = false →
    t.outbox.waitingFor probe = [] ∧ s.offers.map Offer.event <+: t.history.log.drop s.since
  /-- An event that was offered is missing exactly if the mailbox was full at that moment. -/
  missing : ∀ o ∈ s.offers,
    o.event ∉ s.received ++ t.outbox.waitingFor probe ++ s.unread ↔ o.waiting = max s.capacity 1

theorem Conserved.serves (h : t.Conserved) (hlog : t.history.log.Nodup) {s : Subscription}
    (hs : t.subscriptions[probe]? = some s) : t.Serves probe s := by
  obtain ⟨m, hm⟩ := h.mailbox_of_subscription hs
  have hkept := h.kept probe s m hs hm
  have hheld : t.outbox.isHeld probe = m.held := by simp [Outbox.isHeld, hm]
  have hwaiting : t.outbox.waitingFor probe = m.waiting := by simp [Outbox.waitingFor, hm]
  have hoffers : (s.offers.map Offer.event).Sublist (t.history.log.drop s.since) := by
    cases hm : m.held with
    | true =>
        rw [← (hkept.held hm).2]
        exact List.sublist_append_left ..
    | false => exact (hkept.released hm).2.sublist
  have hdistinct : (s.offers.map Offer.event).Nodup :=
    (hlog.sublist (List.drop_sublist ..)).sublist hoffers
  have haccepted : s.accepted.Sublist (s.offers.map Offer.event) := List.filter_sublist.map _
  have hpart : (s.received ++ m.waiting).Sublist s.accepted := by
    rw [← hkept.account, ← List.append_assoc]
    exact List.sublist_append_left ..
  constructor
  · rw [hwaiting]
    exact hpart.trans (haccepted.trans hoffers)
  · rw [hwaiting]
    exact hdistinct.sublist (hpart.trans haccepted)
  · rw [hheld]
    exact hkept.held
  · rw [hheld, hwaiting]
    exact hkept.released
  · intro o ho
    rw [hwaiting, List.append_assoc, hkept.account]
    constructor
    · intro hmissing
      by_contra hroom
      exact hmissing (List.mem_map.2 ⟨o, List.mem_filter.2 ⟨ho, decide_eq_true hroom⟩, rfl⟩)
    · intro hfull haccepted
      -- No other offer was of the same event.
      obtain ⟨o', ho', hevent⟩ := List.mem_map.1 haccepted
      obtain ⟨ho', hroom⟩ := List.mem_filter.1 ho'
      obtain rfl := List.inj_on_of_nodup_map hdistinct ho' ho hevent
      simp [Subscription.room, hfull] at hroom

/-- Whatever the steps of the owner of a base and of its observers, and in whatever order: every
observer is served; what was lost is what all of them missed; the log, the events that were taken
out of it and the beliefs are those of a base that nobody observes; and a call whose offers are made
in a row is a call. -/
theorem after_conserves (steps : List BroadcastStep) :
    let t := after steps
    t.subscriptions.length = t.outbox.mailboxes.length ∧
      (∀ probe s, t.subscriptions[probe]? = some s → t.Serves probe s) ∧
      t.outbox.lost = (t.subscriptions.map Subscription.misses).sum ∧
      (∃ outbox,
        t.history = ⟨(unobserved steps).base.observedBy outbox, (unobserved steps).taken⟩) ∧
      ∀ c, t.unsent = [] → (t.perform (.call c)).flush.history = t.history.perform (.call c) := by
  intro t
  have h := conserved_after steps
  exact ⟨h.paired, fun probe s hs => h.serves (nodup_log_after steps) hs, h.lost,
    sameLog_after steps, fun c hunsent => t.flush_call c hunsent⟩

/-- Of two events, an observer that reads late gets the first and one that reads in between gets
both; the mailbox of each has room for one. -/
example :
    let steps : List BroadcastStep :=
      [.subscribe 0, .subscribe 1, .call (.add ⟨⟨["door"]⟩, false, [], []⟩), .offer, .offer,
        .receive 1, .call (.add ⟨⟨["lamp"]⟩, false, [], []⟩), .offer, .offer, .drain 0, .drain 1]
    (after steps).subscriptions.map (fun s => (s.received.map (·.sequence), s.misses)) =
        [([1], 1), ([1, 2], 0)] ∧
      (after steps).outbox.lost = 1 := by
  decide

end Broadcast
end Deliberation
