import Deliberation.Proofs.Agent.Scheduling

/-!
Sleeping agents.

An agent that is put to sleep for a number of ticks sleeps through as many of them, whatever is done
to it meanwhile, short of waking it, stopping it or putting it to sleep again. In these ticks it
does nothing but to queue what happened to its beliefs. In the tick after them it wakes up: the
goals that remind it of why it slept are put behind all that waits, and it handles what waited
longest. An agent that is put to sleep without a number sleeps until someone wakes it.
-/

namespace Deliberation

/-- Whether an operation leaves a sleep alone. -/
def Operation.isQuiet : Operation → Bool
  | .fallAsleep .. | .wakeUp _ | .terminate => false
  | .tick | .trigger _ | .achieve _ | .perceive _ | .hear _ | .drainReports => true

def Operation.isTick : Operation → Bool
  | .tick => true
  | _ => false

/-- A sleep after some of its ticks. -/
def Sleep.after (z : Sleep) (ticks : Nat) : Sleep :=
  { z with remaining := z.remaining.map (· - ticks) }

theorem Sleep.after_zero (z : Sleep) : z.after 0 = z := by
  obtain ⟨remaining, terms⟩ := z
  cases remaining <;> rfl

theorem Sleep.after_after (z : Sleep) (m n : Nat) : (z.after m).after n = z.after (m + n) := by
  obtain ⟨remaining, terms⟩ := z
  cases remaining with
  | none => rfl
  | some k => simp [Sleep.after, Nat.sub_sub]

namespace Agent

variable {a b : Agent} {z : Sleep} {terms : List Term}

/-- The number of ticks in a run. -/
def ticksIn (operations : List Operation) : Nat :=
  operations.countP Operation.isTick

/-- The goals that remind an agent of some terms: `+!wakeup(T)` for each of them, in their order, or
`+!wakeup` if there are none. -/
def reminders (terms : List Term) : List Trigger :=
  (if terms.isEmpty then [[]] else terms.map fun t => [t]).map fun arguments =>
    ⟨.addGoal, ⟨⟨["wakeup"]⟩, false, arguments, []⟩⟩

theorem reminders_eq (terms : List Term) : reminders terms = wakeupTriggers terms := by
  cases terms with
  | nil => rfl
  | cons t terms =>
      rw [reminders, wakeupTriggers, List.isEmpty_cons, if_neg Bool.false_ne_true, List.map_map]
      rfl

/-! ### Ticks -/

/-- The agent `b` is `a` after a tick in which it did nothing: what happened to the beliefs waits at
the end of the queue, and intentions, frames, counts, reports and beliefs are as they were. -/
structure Rests (a b : Agent) : Prop where
  intentions : b.intentions = a.intentions
  frames : b.frames = a.frames
  statistics : b.statistics = a.statistics
  reports : b.reports = a.reports
  beliefs : b.beliefs = { a.beliefs with events := [] }
  pending : b.pending = a.pending ++ a.beliefs.events.map Trigger.ofEvent

/-- In its next tick the agent wakes up: `goals` come behind all that waits, and the trigger at the
front is handled. -/
structure Rises (a : Agent) (goals : List Trigger) (t : Trigger) (rest : List Trigger) : Prop where
  queue : a.pending ++ a.beliefs.events.map Trigger.ofEvent ++ goals = t :: rest
  outcome : a.tick.1 = .progressed
  awake : a.tick.2.sleep = none
  handled : a.tickEntries.filterMap Entry.handled? = [t]
  result : a.tick.2 =
    ({ a with
      cycle := a.cycle + 1
      beliefs := { a.beliefs with events := [] }
      sleep := none
      pending := rest }.handle t).conclude
  left : a.tick.2.pending = rest

theorem asleep_of_sleep (hsleep : a.sleep = some z) (hlasts : z.remaining ≠ some 0) :
    a.asleep = true := by
  simp [asleep, hsleep, hlasts]

theorem awake_of_sleep (hsleep : a.sleep = some z) (hlasts : z.remaining ≠ some 0) :
    a.awake = { a with
      cycle := a.cycle + 1
      beliefs := { a.beliefs with events := [] }
      sleep := some (z.after 1)
      pending := a.pending ++ a.beliefs.events.map Trigger.ofEvent } := by
  obtain ⟨remaining, terms⟩ := z
  simp only [awake, collectBeliefEvents, BeliefBase.drainEvents, sleepThrough, hsleep]
  cases remaining with
  | none => rfl
  | some n =>
      cases n with
      | zero => exact absurd rfl hlasts
      | succ n => rfl

/-- A tick that the agent sleeps through is idle and leaves it as it is. -/
theorem tick_of_sleep (hlive : a.terminated = false) (hsleep : a.sleep = some z)
    (hlasts : z.remaining ≠ some 0) :
    a.tick.1 = .idle ∧ a.Rests a.tick.2 ∧ a.tick.2.sleep = some (z.after 1) ∧
      a.tick.2.terminated = false := by
  have htick := a.tick_eq hlive
  rw [asleep_of_sleep hsleep hlasts, if_pos rfl, awake_of_sleep hsleep hlasts] at htick
  rw [htick]
  exact ⟨rfl, ⟨rfl, rfl, rfl, rfl, rfl, List.append_nil _⟩, rfl, hlive⟩

theorem awake_of_due (hsleep : a.sleep = some ⟨some 0, terms⟩) :
    a.awake = { a with
      cycle := a.cycle + 1
      beliefs := { a.beliefs with events := [] }
      sleep := none
      pending := a.pending ++ a.beliefs.events.map Trigger.ofEvent ++ reminders terms } := by
  simp only [awake, collectBeliefEvents, BeliefBase.drainEvents, sleepThrough, hsleep, wakeUp,
    List.append_nil, reminders_eq]

theorem reminders_ne_nil (terms : List Term) : reminders terms ≠ [] := by
  cases terms <;> simp [reminders]

/-- A tick in which no sleep is left wakes the agent up. -/
theorem rises_of_due (hlive : a.terminated = false) (hsleep : a.sleep = some ⟨some 0, terms⟩) :
    ∃ t rest, a.Rises (reminders terms) t rest := by
  have hawake := awake_of_due hsleep
  obtain ⟨t, rest, hqueue⟩ := List.exists_cons_of_ne_nil (l := a.pending ++
    a.beliefs.events.map Trigger.ofEvent ++ reminders terms) (by simp [reminders_ne_nil])
  have hpending : a.awake.pending = t :: rest := by rw [hawake, ← hqueue]
  have hasleep : a.asleep = false := by simp [asleep, hsleep]
  have htick := a.tick_eq hlive
  simp only [hasleep, Bool.false_eq_true, if_false, hpending] at htick
  rw [hawake] at htick
  obtain ⟨frames, intentions, reports, hhandle⟩ := handle_eq
    { a with
      cycle := a.cycle + 1
      beliefs := { a.beliefs with events := [] }
      sleep := none
      pending := rest } t
  refine ⟨t, rest, hqueue, by rw [htick], ?_, ?_, by rw [htick], ?_⟩
  · rw [htick, hhandle]
    rfl
  · have hdormant : a.dormant = false := by simp [dormant, hlive, hsleep]
    rw [handled_tickEntries, hdormant, hpending]
    rfl
  · rw [htick, hhandle]
    exact List.append_nil _

/-! ### Runs -/

/-- The agent `b` is `a` with the sleep `z`, of which it has not woken up since then. -/
structure Dozes (a : Agent) (z : Sleep) (b : Agent) : Prop where
  sleep : b.sleep = some z
  live : b.terminated = false
  intentions : b.intentions = a.intentions
  frames : b.frames = a.frames
  statistics : b.statistics = a.statistics
  /-- The agent does not report, but its reports can be taken. -/
  reports : b.reports = a.reports ∨ b.reports = []
  /-- The queue only grows at its end. -/
  pending : a.pending <+: b.pending

theorem Dozes.fallAsleep (hlive : a.terminated = false) (cycles : Option Nat) (terms : List Term) :
    a.Dozes ⟨cycles, terms⟩ (a.fallAsleep cycles terms) :=
  ⟨rfl, hlive, rfl, rfl, rfl, Or.inl rfl, List.prefix_rfl⟩

theorem Dozes.tick (h : a.Dozes z b) (hlasts : z.remaining ≠ some 0) :
    a.Dozes (z.after 1) b.tick.2 := by
  obtain ⟨_, hrests, hsleep, hlive⟩ := tick_of_sleep h.live h.sleep hlasts
  refine ⟨hsleep, hlive, hrests.intentions.trans h.intentions, hrests.frames.trans h.frames,
    hrests.statistics.trans h.statistics, ?_, ?_⟩
  · rw [hrests.reports]
    exact h.reports
  · rw [hrests.pending]
    exact h.pending.trans (List.prefix_append _ _)

theorem Dozes.trigger (h : a.Dozes z b) (t : Trigger) : a.Dozes z (b.perform (.trigger t)) := by
  simp only [perform]
  split
  · rename_i c hc
    obtain ⟨_, rfl⟩ := trigger_eq_ok hc
    exact ⟨h.sleep, h.live, h.intentions, h.frames, h.statistics, h.reports,
      h.pending.trans (List.prefix_append _ _)⟩
  · exact h

/-- What is done to a sleeping agent between ticks does not wake it. -/
theorem Dozes.perform (h : a.Dozes z b) {op : Operation} (hquiet : op.isQuiet = true)
    (htick : op.isTick = false) : a.Dozes z (b.perform op) := by
  cases op with
  | tick => simp [Operation.isTick] at htick
  | fallAsleep | wakeUp | terminate => simp [Operation.isQuiet] at hquiet
  | trigger t => exact h.trigger t
  | achieve goal => exact h.trigger ⟨.addGoal, goal⟩
  | perceive | hear =>
      exact ⟨h.sleep, h.live, h.intentions, h.frames, h.statistics, h.reports, h.pending⟩
  | drainReports =>
      exact ⟨h.sleep, h.live, h.intentions, h.frames, h.statistics, Or.inr rfl, h.pending⟩

/-- A sleep lasts as long as it has ticks left. -/
theorem Dozes.performAll (h : a.Dozes z b) {operations : List Operation}
    (hquiet : ∀ op ∈ operations, op.isQuiet = true)
    (hlasts : ∀ n, z.remaining = some n → ticksIn operations ≤ n) :
    a.Dozes (z.after (ticksIn operations)) (b.performAll operations) := by
  induction operations generalizing b z with
  | nil =>
      rw [show ticksIn [] = 0 from rfl, z.after_zero]
      exact h
  | cons op rest ih =>
      rw [List.forall_mem_cons] at hquiet
      cases htick : op.isTick with
      | false =>
          have hticks : ticksIn (op :: rest) = ticksIn rest :=
            List.countP_cons_of_neg (by simp [htick])
          rw [hticks] at hlasts ⊢
          exact ih (h.perform hquiet.1 htick) hquiet.2 hlasts
      | true =>
          obtain rfl : op = .tick := by cases op <;> simp_all [Operation.isTick]
          have hticks : ticksIn (.tick :: rest) = ticksIn rest + 1 := List.countP_cons_of_pos htick
          rw [hticks] at hlasts ⊢
          have hnext : z.remaining ≠ some 0 := fun hzero => absurd (hlasts 0 hzero) (by omega)
          -- this tick is one of those that are left, and the others come after it
          rw [Nat.add_comm, ← Sleep.after_after]
          refine ih (h.tick hnext) hquiet.2 fun n hn => ?_
          obtain ⟨k, hk, rfl⟩ := Option.map_eq_some_iff.1 hn
          have hle := hlasts k hk
          omega

/-- An agent that is put to sleep for `n` ticks is idle in the next `n` of them, whatever is done to
it in between that neither wakes nor stops it nor puts it to sleep again: each of these ticks leaves
it as it is, and only the end of its queue grows. In the tick after them it is awake, is reminded of
the terms behind all that waits, and handles the trigger at the front. Without a number every tick
is idle until the agent is woken, and then it is reminded of the terms of the sleep and of those
that it is woken with. -/
theorem sleeps_until_due (hlive : a.terminated = false) (terms : List Term)
    (operations : List Operation) (hquiet : ∀ op ∈ operations, op.isQuiet = true) :
    (∀ n, ticksIn operations ≤ n →
      let b := (a.fallAsleep (some n) terms).performAll operations
      a.Dozes ⟨some (n - ticksIn operations), terms⟩ b ∧
        (ticksIn operations < n → b.tick.1 = .idle ∧ b.Rests b.tick.2) ∧
        (ticksIn operations = n → ∃ t rest, b.Rises (reminders terms) t rest)) ∧
    let b := (a.fallAsleep none terms).performAll operations
    a.Dozes ⟨none, terms⟩ b ∧ (b.tick.1 = .idle ∧ b.Rests b.tick.2) ∧
      ∀ more, b.wakeUp more = (true,
        { b with sleep := none, pending := b.pending ++ reminders (terms ++ more) }) := by
  constructor
  · intro n hn b
    have hdozes : a.Dozes ⟨some (n - ticksIn operations), terms⟩ b :=
      (Dozes.fallAsleep hlive (some n) terms).performAll hquiet
        fun m hm => by simpa [← Option.some.inj hm] using hn
    refine ⟨hdozes, fun hlt => ?_, fun heq => ?_⟩
    · have hlasts : some (n - ticksIn operations) ≠ some 0 := by
        rw [ne_eq, Option.some.injEq]
        omega
      obtain ⟨hidle, hrests, _⟩ := tick_of_sleep hdozes.live hdozes.sleep hlasts
      exact ⟨hidle, hrests⟩
    · rw [heq, Nat.sub_self] at hdozes
      exact rises_of_due hdozes.live hdozes.sleep
  · intro b
    have hdozes : a.Dozes ⟨none, terms⟩ b :=
      (Dozes.fallAsleep hlive none terms).performAll hquiet fun n hn => by simp at hn
    obtain ⟨hidle, hrests, _⟩ := tick_of_sleep hdozes.live hdozes.sleep (by simp)
    refine ⟨hdozes, ⟨hidle, hrests⟩, fun more => ?_⟩
    rw [wakeUp, hdozes.sleep, reminders_eq]

/-- A sleep of two ticks. The goal that waited before, the one that came in between and the news of
the rain stand in front of the reminder when the agent wakes up. -/
theorem sleeps_until_due_nestedGoals :
    let operations := [.tick, .achieve (.atom "inner"), wetReport, .tick]
    ∃ a, nestedGoals.build = .ok a ∧ a.terminated = false ∧
      (∀ op ∈ operations, op.isQuiet = true) ∧ ticksIn operations = 2 ∧
      let b := (a.fallAsleep (some 2) [.atom "alarm"]).performAll operations
      b.pending.map Trigger.kind = [.addGoal, .addGoal, .addBelief] ∧
        (∃ t rest, b.Rises (reminders [.atom "alarm"]) t rest) ∧
        b.tick.2.pending.map Trigger.kind = [.addGoal, .addBelief, .addGoal] ∧
        ((a.fallAsleep none []).performAll operations).tick.1 = .idle := by
  intro operations
  have hbuild : nestedGoals.build = .ok _ := rfl
  have hquiet : ∀ op ∈ operations, op.isQuiet = true := by
    simp [operations, wetReport, Operation.isQuiet]
  refine ⟨_, hbuild, rfl, hquiet, rfl, by decide +kernel, ?_, by decide +kernel, ?_⟩
  · exact ((sleeps_until_due rfl [.atom "alarm"] operations hquiet).1 2 (Nat.le_refl 2)).2.2 rfl
  · exact (sleeps_until_due rfl [] operations hquiet).2.2.1.1

end Agent
end Deliberation
