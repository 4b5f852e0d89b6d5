import Deliberation.Proofs.Agent.Chronicle

/-!
The queue of triggers.

Every trigger that is raised is put at the end of the queue, and ticks take triggers from its front,
one at a time. So what was handled and what still waits is together what was raised, in that order.
If beliefs are only changed by calls, the triggers that were raised for events and the events that
still wait are all events that the belief base wrote, in the order of their numbers.
-/

namespace Deliberation
namespace Agent

variable {a b start : Agent} {lawful : Prop} {j : Journal} {due : Option Due}

/-! ### What one operation takes from the queue -/

/-- Whether a tick does nothing. -/
def dormant (a : Agent) : Bool :=
  a.terminated || a.sleep.any (·.remaining ≠ some 0)

theorem handled_map_raised (origin : Origin) (ts : List Trigger) :
    (ts.map (Entry.raised origin)).filterMap Entry.handled? = [] := by
  simp [List.filterMap_map, Function.comp_def]

theorem raised_collectionEntries (a : Agent) :
    a.collectionEntries.filterMap Entry.raised? = a.beliefs.events.map Trigger.ofEvent := by
  simp [collectionEntries, List.filterMap_map, Function.comp_def]

theorem handled_runEntries (a : Agent) (i : IntentionId) (id : FrameId) (f : Frame)
    (instruction : Instruction) :
    (a.runEntries i id f instruction).filterMap Entry.handled? = [] := by
  simp only [runEntries, List.filterMap_cons, Entry.handled?, List.filterMap_append,
    handled_map_raised, List.nil_append]
  unfold subgoalEntries
  split <;> rfl

theorem handled_turnEntries (a : Agent) (place : Nat) :
    (a.turnEntries place).filterMap Entry.handled? = [] := by
  unfold turnEntries
  split
  · rfl
  split
  · rfl
  split
  · rfl
  simp only
  split
  · rfl
  rename_i f _ _ p _
  cases p.body[f.pc]? with
  | none => rfl
  | some instruction => exact handled_runEntries _ _ _ _ instruction

theorem handled_stepEntries (a : Agent) (place : Nat) :
    (a.stepEntries place).filterMap Entry.handled? = [] := by
  simp only [stepEntries, List.filterMap_append, handled_turnEntries, List.nil_append]
  split
  · rfl
  · rename_i b failure _
    cases b.intentions[place]? with
    | none => rfl
    | some i =>
        exact filterMap_unwindEntries (fun _ _ => rfl) (fun _ _ _ => rfl) (fun _ _ => rfl) place i
          i.stack b failure

theorem handled_wakingEntries (a : Agent) : a.wakingEntries.filterMap Entry.handled? = [] := by
  unfold wakingEntries
  split
  · exact handled_map_raised _ _
  · rfl

theorem handled_handlingEntries (a : Agent) (t : Trigger) :
    (a.handlingEntries t).filterMap Entry.handled? = [t] := by
  simp only [handlingEntries, List.filterMap_cons, Entry.handled?]
  split
  · rfl
  · split <;> rfl

theorem sleepThrough_fst (a : Agent) :
    a.sleepThrough.1 = a.sleep.any (·.remaining ≠ some 0) := by
  unfold sleepThrough
  match a.sleep with
  | none | some ⟨none, _⟩ | some ⟨some 0, _⟩ | some ⟨some (_ + 1), _⟩ => simp

theorem handled_workEntries (a : Agent) :
    a.workEntries.filterMap Entry.handled? =
      if a.sleepThrough.1 then [] else a.sleepThrough.2.pending.take 1 := by
  simp only [workEntries, List.filterMap_append, handled_wakingEntries, List.nil_append]
  split
  · rfl
  · cases a.sleepThrough.2.pending with
    | cons t rest => exact handled_handlingEntries _ t
    | nil =>
        cases a.sleepThrough.2.runnable? with
        | none => rfl
        | some place => exact handled_stepEntries _ place

/-- A tick takes the first trigger of the queue, unless the agent is dormant. -/
theorem handled_tickEntries (a : Agent) :
    a.tickEntries.filterMap Entry.handled? = if a.dormant then [] else a.awake.pending.take 1 := by
  unfold tickEntries
  split
  · rename_i hterminated
    simp [dormant, hterminated]
  · rename_i hterminated
    have hasleep : { a with cycle := a.cycle + 1 }.collectBeliefEvents.sleepThrough.1 =
        a.sleep.any (·.remaining ≠ some 0) := sleepThrough_fst _
    have hdormant : a.dormant = a.sleep.any (·.remaining ≠ some 0) := by simp [dormant, hterminated]
    rw [List.filterMap_append, List.filterMap_append, filterMap_collectionEntries fun _ _ => rfl,
      filterMap_collectionEntries fun _ _ => rfl, handled_workEntries, hasleep, hdormant,
      List.nil_append, List.append_nil, awake]

/-- Only ticks take triggers from the queue. -/
theorem handled_entries (a : Agent) {op : Operation} (hop : op ≠ .tick) :
    (a.entries op).filterMap Entry.handled? = [] := by
  have htrigger (t : Trigger) : (a.triggerEntries t).filterMap Entry.handled? = [] := by
    unfold triggerEntries
    split <;> rfl
  cases op with
  | tick => exact absurd rfl hop
  | trigger t => exact htrigger t
  | achieve goal => exact htrigger ⟨.addGoal, goal⟩
  | wakeUp terms =>
      simp only [entries]
      cases a.sleep with
      | none => rfl
      | some sleep => exact handled_map_raised .waking _
  | drainReports | perceive | hear | fallAsleep | terminate => rfl

/-! ### What waits in the queue -/

namespace Chronicle

theorem queue (h : Chronicle lawful start j due a) (hstart : start.pending = []) :
    j.filterMap Entry.handled? ++ a.pending = j.filterMap Entry.raised? := by
  induction h with
  | start => simpa using hstart
  | quiet _ _ _ _ _ _ _ ih | believe _ _ ih => exact ih
  | collect _ ih =>
      rw [List.filterMap_append, List.filterMap_append, filterMap_collectionEntries fun _ _ => rfl,
        raised_collectionEntries, List.append_nil, ← ih, List.append_assoc]
      rfl
  | raise t _ _ ih => simp [enqueue, List.filterMap_cons, ← ih]
  | pass _ hpending _ ih | unmet _ hpending _ ih | begin _ hpending _ _ ih =>
      simp [List.filterMap_cons, ← ih, hpending, addReport]
  | exhaust _ _ _ _ _ ih => exact ih
  | run _ _ _ _ _ _ _ ih | suspend _ _ _ _ _ _ _ _ _ ih | endRoot _ _ _ _ ih
  | endChild _ _ _ _ _ _ _ _ _ _ ih | drain _ ih =>
      simp only [List.filterMap_append, List.filterMap_cons, List.filterMap_nil, Entry.handled?,
        Entry.raised?, List.append_nil]
      exact ih

/-- The triggers that are raised for events are those of the events. -/
theorem believed (h : Chronicle lawful start j due a) :
    j.filterMap Entry.believed? = (j.filterMap Entry.collected?).map Trigger.ofEvent := by
  induction h with
  | start => rfl
  | quiet _ _ _ _ _ _ _ ih | believe _ _ ih | exhaust _ _ _ _ _ ih => exact ih
  | collect _ ih =>
      rw [List.filterMap_append, List.filterMap_append, List.map_append, ih]
      simp [collectionEntries, List.filterMap_map, Function.comp_def]
  | @raise _ _ _ origin t _ horigin ih =>
      cases origin with
      | belief e => exact absurd rfl (horigin e)
      | outside | waking | instruction | repair => simpa [List.filterMap_cons] using ih
  | pass _ _ _ ih | unmet _ _ _ ih | begin _ _ _ _ ih | run _ _ _ _ _ _ _ ih
  | suspend _ _ _ _ _ _ _ _ _ ih | endRoot _ _ _ _ ih | endChild _ _ _ _ _ _ _ _ _ _ ih
  | drain _ ih => simpa [List.filterMap_cons] using ih

/-- The events that became triggers and those that did not yet are the log of the belief base. -/
theorem events (h : Chronicle lawful start j due a) (hl : lawful)
    (hstart : start.beliefs.WellFormed) (hlog : (BeliefHistory.mk start.beliefs []).Accounted) :
    a.beliefs.WellFormed ∧
      (BeliefHistory.mk a.beliefs (j.filterMap Entry.collected?)).Accounted := by
  induction h with
  | start => exact ⟨hstart, hlog⟩
  | quiet _ _ _ _ _ _ _ ih | exhaust _ _ _ _ _ ih => exact ih
  | believe _ hcalls ih =>
      obtain ⟨hwell, emitted, hlogged⟩ := (hcalls hl).logged ih.1
      refine ⟨hwell, ih.2.logged hlogged ?_⟩
      simp [BeliefHistory.log, hlogged.events]
  | collect _ ih =>
      refine ⟨ih.1.congr rfl rfl, ih.2.congr ?_ rfl rfl⟩
      simp [BeliefHistory.log, collectionEntries, collectBeliefEvents, BeliefBase.drainEvents,
        List.filterMap_map, Function.comp_def]
  | @raise _ _ _ origin t _ horigin ih =>
      cases origin with
      | belief e => exact absurd rfl (horigin e)
      | outside | waking | instruction | repair =>
          simp only [List.filterMap_append, List.filterMap_cons, List.filterMap_nil,
            Entry.collected?, List.append_nil]
          exact ih
  | pass _ _ _ ih | unmet _ _ _ ih | begin _ _ _ _ ih | run _ _ _ _ _ _ _ ih
  | suspend _ _ _ _ _ _ _ _ _ ih | endRoot _ _ _ _ ih | endChild _ _ _ _ _ _ _ _ _ _ ih
  | drain _ ih =>
      simp only [List.filterMap_append, List.filterMap_cons, List.filterMap_nil, Entry.collected?,
        List.append_nil]
      exact ih

end Chronicle

/-! ### Runs -/

/-- The triggers that an operation takes from the queue: a tick takes the first one, unless the
agent is dormant, and nothing else takes any. -/
def takes (a : Agent) : Operation → List Trigger
  | .tick => if a.dormant then [] else a.awake.pending.take 1
  | _ => []

theorem handled_entries_eq_takes (a : Agent) (op : Operation) :
    (a.entries op).filterMap Entry.handled? = a.takes op := by
  cases op with
  | tick => exact handled_tickEntries a
  | trigger | achieve | perceive | hear | fallAsleep | wakeUp | terminate | drainReports =>
      exact handled_entries a (by simp)

/-- The events that the first beliefs wrote are the log of the base that they were added to. -/
theorem accounted_first {beliefs : BeliefBase} (h : BeliefBase.empty.Changes beliefs) :
    beliefs.WellFormed ∧ (BeliefHistory.mk beliefs []).Accounted := by
  obtain ⟨hwell, emitted, hlogged⟩ := h.logged .empty
  have hempty : (BeliefHistory.mk .empty []).Accounted := BeliefHistory.accounted_after []
  refine ⟨hwell, hempty.logged hlogged ?_⟩
  simp [BeliefHistory.log, hlogged.events]

/-- In every run the triggers that were handled, followed by those that wait, are those that were
raised. Each tick handles the trigger at the front, unless the agent is dormant. If beliefs are only
changed by calls, then the triggers that were raised for events, followed by those of the events
that still wait in the base, are those of all events that it wrote: these are numbered from one on
and account for what it holds. -/
theorem performAll_triggers_in_order {spec : AgentSpec} (h : spec.build = .ok a)
    (operations : List Operation) :
    (spec.journal operations).filterMap Entry.handled? ++ (a.performAll operations).pending =
        (spec.journal operations).filterMap Entry.raised? ∧
      (∀ op, (spec.journal (operations ++ [op])).filterMap Entry.handled? =
        (spec.journal operations).filterMap Entry.handled? ++ (a.performAll operations).takes op) ∧
      (spec.actions.KeepsLog → (∀ op ∈ operations, op.KeepsLog) →
        ∃ history : BeliefHistory, history.Accounted ∧
          history.base = (a.performAll operations).beliefs ∧
          history.taken = (spec.journal operations).filterMap Entry.collected? ∧
          (spec.journal operations).filterMap Entry.believed? ++
              (a.performAll operations).beliefs.events.map Trigger.ofEvent =
            history.log.map Trigger.ofEvent) := by
  refine ⟨?_, ?_, ?_⟩
  · obtain ⟨beliefs, _, hrun⟩ := chronicle_performAll False h operations False.elim
    exact hrun.queue rfl
  · intro op
    rw [journal_concat h, List.filterMap_append, handled_entries_eq_takes]
  · intro hactions hoperations
    obtain ⟨beliefs, hfirst, hrun⟩ :=
      chronicle_performAll True h operations fun _ => ⟨hactions, hoperations⟩
    obtain ⟨hwell, hlog⟩ := accounted_first hfirst
    refine ⟨_, (hrun.events trivial hwell hlog).2, rfl, rfl, ?_⟩
    rw [hrun.believed, BeliefHistory.log, List.map_append]

/-- Someone tells the agent that it is wet. -/
def wetReport : Operation :=
  .perceive fun b => (b.call (.add (.atom "wet"))).2

theorem performAll_triggers_in_order_nestedGoals :
    ∃ a, nestedGoals.build = .ok a ∧ nestedGoals.actions.KeepsLog ∧
      (∀ op ∈ [wetReport, .tick], op.KeepsLog) ∧
      ((nestedGoals.journal [wetReport, .tick]).filterMap Entry.handled?).map Trigger.kind =
        [.addGoal] ∧
      (a.performAll [wetReport, .tick]).pending.map Trigger.kind = [.addBelief] ∧
      (nestedGoals.journal [wetReport, .tick]).filterMap Entry.handled? ++
          (a.performAll [wetReport, .tick]).pending =
        (nestedGoals.journal [wetReport, .tick]).filterMap Entry.raised? ∧
      ∃ history : BeliefHistory, history.Accounted ∧
        history.taken = (nestedGoals.journal [wetReport, .tick]).filterMap Entry.collected? := by
  have hbuild : nestedGoals.build = .ok _ := rfl
  have hactions : nestedGoals.actions.KeepsLog := by
    intro name action hfind
    simp [nestedGoals, ActionRegistry.find?, ActionRegistry.empty] at hfind
  have hoperations : ∀ op ∈ [wetReport, .tick], op.KeepsLog := by
    simp [wetReport, Operation.KeepsLog, BeliefBase.Changes.call _ .refl]
  obtain ⟨hqueue, _, hevents⟩ := performAll_triggers_in_order hbuild [wetReport, .tick]
  obtain ⟨history, haccounted, _, htaken, _⟩ := hevents hactions hoperations
  refine ⟨_, hbuild, hactions, hoperations, ?_, ?_, hqueue, history, haccounted, htaken⟩
  · decide +kernel
  · decide +kernel

end Agent
end Deliberation
