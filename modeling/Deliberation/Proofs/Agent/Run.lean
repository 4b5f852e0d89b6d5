import Deliberation.Agent.Setup
import Deliberation.Proofs.Logic.Unification

/-!
Runs of an agent.

A run is a list of operations that are done to a built agent from outside. What holds after building
and is kept by every operation holds in every run; a tick is taken apart into the few things that it
can do. The rounds of a step are the calls of `Agent.unwind` that it makes, one for each frame that
ends.
-/

namespace Deliberation

/-- What can be done to an agent from outside. -/
inductive Operation where
  | tick
  | trigger (t : Trigger)
  | achieve (goal : Literal)
  /-- The beliefs are changed between ticks. -/
  | perceive (change : BeliefBase → BeliefBase)
  /-- A score for the agent is published. -/
  | hear (hearing : Option Hearing)
  | fallAsleep (cycles : Option Nat) (terms : List Term)
  | wakeUp (terms : List Term)
  | terminate
  | drainReports

namespace Agent

/-- The agent after an operation; one that is refused changes nothing. -/
def perform (a : Agent) : Operation → Agent
  | .tick => a.tick.2
  | .trigger t =>
    match a.trigger t with
    | .ok b => b
    | .error _ => a
  | .achieve goal =>
    match a.achieve goal with
    | .ok b => b
    | .error _ => a
  | .perceive change => { a with beliefs := change a.beliefs }
  | .hear hearing => { a with hearing }
  | .fallAsleep cycles terms => a.fallAsleep cycles terms
  | .wakeUp terms => (a.wakeUp terms).2
  | .terminate => a.terminate
  | .drainReports => a.drainReports.2

/-- The agent after a run. -/
def performAll (a : Agent) (operations : List Operation) : Agent :=
  operations.foldl perform a

/-- Every operation of a run is allowed in the state in which it is done. -/
def Admits (allowed : Agent → Operation → Prop) : Agent → List Operation → Prop
  | _, [] => True
  | a, op :: rest => allowed a op ∧ Admits allowed (a.perform op) rest

/-- What every allowed operation keeps is kept by a run of them. -/
theorem performAll_induction {P : Agent → Prop} {allowed : Agent → Operation → Prop}
    (hstep : ∀ a op, P a → allowed a op → P (a.perform op)) {a : Agent} (ha : P a)
    {operations : List Operation} (hrun : a.Admits allowed operations) :
    P (a.performAll operations) := by
  induction operations generalizing a with
  | nil => exact ha
  | cons op rest ih => exact ih (hstep a op ha hrun.1) hrun.2

theorem admits_true (a : Agent) (operations : List Operation) :
    a.Admits (fun _ _ => True) operations := by
  induction operations generalizing a with
  | nil => trivial
  | cons op rest ih => exact ⟨trivial, ih _⟩

/-- A built agent calls only actions that it has, and stems from its first beliefs and goals. -/
theorem build_eq_ok {spec : AgentSpec} {a : Agent} (h : spec.build = .ok a) :
    spec.undefinedAction? = none ∧ ∃ beliefs,
      spec.beliefs.foldlM
        (fun (b : BeliefBase) l => ((b.add l).map (·.2)).mapError EngineError.validation)
        BeliefBase.empty = .ok beliefs ∧
      spec.goals.foldlM
        (fun (a : Agent) goal => (a.achieve goal).mapError EngineError.validation)
        (spec.blank beliefs) = .ok a := by
  unfold AgentSpec.build at h
  cases hconfig : spec.config.validate.mapError EngineError.validation with
  | error e => simp [hconfig, bind, Except.bind] at h
  | ok u =>
      simp only [hconfig, bind, Except.bind] at h
      cases hundefined : spec.undefinedAction? with
      | some found => simp [hundefined, throw, throwThe, MonadExceptOf.throw] at h
      | none =>
          simp only [hundefined] at h
          split at h
          · simp at h
          · rename_i beliefs hbeliefs
            exact ⟨rfl, beliefs, hbeliefs, h⟩

/-- A trigger that is accepted is about a goal or ground. It goes to the end of the queue, with its
variables renamed. -/
theorem trigger_eq_ok {a b : Agent} {t : Trigger} (h : a.trigger t = .ok b) :
    (t.kind.isGoal = false → t.literal.isGround = true) ∧
      b = { a with fresh := (t.literal.freshen a.fresh).2 }.enqueue
        ⟨t.kind, (t.literal.freshen a.fresh).1⟩ := by
  unfold Agent.trigger at h
  split at h
  · simp at h
  · rename_i hchecked
    exact ⟨fun hkind => by simpa [hkind] using hchecked, (Except.ok.inj h).symm⟩

/-! ### What a tick does -/

/-- The agent as it goes to work in a tick: the tick is counted, the changes of beliefs are
collected, and a sleep has ended or got shorter. -/
def awake (a : Agent) : Agent :=
  ({ a with cycle := a.cycle + 1 }.collectBeliefEvents).sleepThrough.2

/-- The end of a tick. -/
def conclude (a : Agent) : Agent :=
  a.collectBeliefEvents.publish

/-- A tick does nothing, handles the oldest trigger or runs a step. -/
theorem tick_cases (a : Agent) :
    (a.terminated = true ∧ a.tick.2 = a) ∨ a.tick.2 = a.awake.conclude ∨
      (∃ t rest, a.awake.pending = t :: rest ∧
        a.tick.2 = ({ a.awake with pending := rest }.handle t).conclude) ∨
      ∃ place, a.awake.pending = [] ∧ a.awake.runnable? = some place ∧
        a.tick.2 = (a.awake.step place).conclude := by
  by_cases hterm : a.terminated = true
  · exact Or.inl ⟨hterm, by simp [tick, hterm]⟩
  · refine Or.inr ?_
    have htick : a.tick.2 =
        (({ a with cycle := a.cycle + 1 }.collectBeliefEvents).work).2.conclude := by
      simp [tick, hterm, conclude]
    rw [htick]
    simp only [work]
    split
    · exact Or.inl rfl
    · split
      · rename_i t rest hpending
        exact Or.inr (Or.inl ⟨t, rest, hpending, rfl⟩)
      · rename_i hpending
        split
        · rename_i place hplace
          exact Or.inr (Or.inr ⟨place, hpending, hplace, rfl⟩)
        · exact Or.inl rfl

/-- Waking changes only the sleep and the queue. -/
theorem sleepThrough_eq (a : Agent) :
    ∃ sleep pending, a.sleepThrough.2 = { a with sleep, pending } := by
  unfold sleepThrough
  split
  · exact ⟨a.sleep, a.pending, rfl⟩
  · rename_i sleep hsleep
    split
    · exact ⟨a.sleep, a.pending, rfl⟩
    · exact ⟨none, a.pending ++ wakeupTriggers (sleep.terms ++ []), by simp [wakeUp, hsleep]⟩
    · exact ⟨_, a.pending, rfl⟩

theorem awake_eq (a : Agent) :
    ∃ beliefs pending cycle sleep, a.awake = { a with beliefs, pending, cycle, sleep } := by
  obtain ⟨sleep, pending, heq⟩ :=
    sleepThrough_eq { a with cycle := a.cycle + 1 }.collectBeliefEvents
  exact ⟨a.beliefs.drainEvents.2, pending, a.cycle + 1, sleep, heq⟩

/-- Handling a trigger changes the intentions, their frames and the reports at most. -/
theorem handle_eq (a : Agent) (t : Trigger) :
    ∃ frames intentions reports, a.handle t =
      { a with nextIntention := a.nextIntention + 1, frames, intentions, reports } := by
  unfold handle
  simp only
  split
  · exact ⟨_, _, a.reports, rfl⟩
  · split
    · exact ⟨a.frames, a.intentions, _, rfl⟩
    · exact ⟨a.frames, a.intentions, a.reports, rfl⟩

/-- An instruction changes the beliefs, the queue and the number of names at most. -/
theorem execute_agent (a : Agent) (s : Substitution) (instruction : Instruction) :
    ∃ beliefs pending fresh,
      (a.execute s instruction).agent = { a with beliefs, pending, fresh } := by
  cases instruction with
  | addBelief pattern =>
      simp only [execute, executeAdd, fails, succeeds]
      split
      · exact ⟨_, _, _, rfl⟩
      · split <;> exact ⟨_, _, _, rfl⟩
  | removeBelief pattern =>
      simp only [execute, executeRemove, succeeds]
      split <;> exact ⟨_, _, _, rfl⟩
  | updateBelief old new =>
      simp only [execute, executeUpdate, executeAdd, fails, succeeds]
      repeat' split
      all_goals exact ⟨_, _, _, rfl⟩
  | achieve goal =>
      simp only [execute, executeAchieve, fails]
      split <;> exact ⟨_, _, _, rfl⟩
  | post posted =>
      simp only [execute, executePost, fails, succeeds]
      split <;> exact ⟨_, _, _, rfl⟩
  | testGoal pattern =>
      simp only [execute, executeTestGoal, fails, succeeds]
      split
      · exact ⟨_, _, _, rfl⟩
      · split <;> exact ⟨_, _, _, rfl⟩
  | assign name e =>
      simp only [execute, executeAssign, fails, succeeds]
      split <;> exact ⟨_, _, _, rfl⟩
  | unary name op =>
      simp only [execute, executeUnary, fails, succeeds]
      split <;> exact ⟨_, _, _, rfl⟩
  | test e =>
      simp only [execute, executeTest, fails]
      split
      · exact ⟨_, _, _, rfl⟩
      · split <;> exact ⟨_, _, _, rfl⟩
  | action call =>
      simp only [execute, executeAction, fails]
      repeat' split
      all_goals exact ⟨_, _, _, rfl⟩

/-! ### The rounds of a step -/

/-- A round of a step of the intention `i` at a place: the frame on top of `stack` ends with
`failure`, when the agent has become `b`. -/
inductive Round (a : Agent) (place : Nat) (i : Intention) :
    (stack : List FrameId) → (b : Agent) → (failure : Option InstructionError) → Prop
  | first {b : Agent} {failure : Option InstructionError} :
      a.turn place = .ends b failure → b.intentions[place]? = some i →
      Round a place i i.stack b failure
  | next {id : FrameId} {rest : List FrameId} {b c : Agent}
      {failure failure' : Option InstructionError} {f : Frame} {frames : FrameArena} :
      Round a place i (id :: rest) b failure → b.frames.remove? id = some (f, frames) →
      ({ b with frames }.closeFrame i f rest.length failure).deliver place i rest f failure =
        .ends c failure' →
      Round a place i rest c failure'

/-- Each round is a call of `unwind` on the way to the result of the step. -/
theorem Round.unwind_eq {a b : Agent} {place : Nat} {i : Intention} {stack : List FrameId}
    {failure : Option InstructionError} (h : Round a place i stack b failure) :
    unwind place i stack b failure = a.step place := by
  induction h with
  | first hturn hi => simp [step, hturn, finish, hi]
  | next _ hremove hdeliver ih =>
      rw [← ih]
      simp [unwind, hremove, hdeliver]

end Agent
end Deliberation
