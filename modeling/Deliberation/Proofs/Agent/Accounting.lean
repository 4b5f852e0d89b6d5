import Deliberation.Proofs.Agent.Sequence

/-!
The books of an agent.

How often a plan ended in success and in failure, which frames there are, which intentions were
started and what was reported: all this adds up with what the journal tells.
-/

namespace Deliberation

namespace Entry

/-- Whether a frame of a plan ended in a state. -/
@[simp] def ends (plan : PlanId) (state : FrameState) : Entry → Bool
  | .closed _ _ r => r.plan = some plan && r.state = state
  | _ => false

/-- The number that was used for an intention, or for a goal without a plan in its place. -/
@[simp] def started? : Entry → Option IntentionId
  | .opened n _ f => if f.parent = none then some n else none
  | .unmet r => some r.intention
  | _ => none

/-- A goal for which no plan was found. -/
@[simp] def unchosen? : Entry → Option Trigger
  | .handled t none => if t.kind.isGoal then some t else none
  | _ => none

/-- The report on a goal without a plan. -/
@[simp] def unmet? : Entry → Option Report
  | .unmet r => some r
  | _ => none

end Entry

/-- How often frames of a plan ended in success and in failure. -/
def Journal.tally (j : Journal) (plan : PlanId) : PlanStatistic :=
  ⟨j.countP (Entry.ends plan .succeeded), j.countP (Entry.ends plan .failed)⟩

theorem Journal.tally_append {j k : Journal} {plan : PlanId}
    (hk : ∀ e ∈ k, ∀ state, e.ends plan state = false) : (j ++ k).tally plan = j.tally plan := by
  have hnone (state : FrameState) : k.countP (Entry.ends plan state) = 0 :=
    List.countP_eq_zero.2 fun e he hends => Bool.false_ne_true ((hk e he state).symm.trans hends)
  simp only [tally, List.countP_append, hnone, Nat.add_zero]

theorem PlanId.eq_of_index {p q : PlanId} (h : p.index = q.index) : p = q := by
  cases p
  cases q
  exact congrArg PlanId.mk h

namespace Agent

variable {a start : Agent} {lawful : Prop} {j : Journal} {due : Option Due}

/-! ### Statistics -/

theorem statistics_closeFrame {plan : PlanId} {n : IntentionId} {id : FrameId} {i : Intention}
    {f : Frame} {depth : Nat} {failure : Option InstructionError}
    (h : a.statistics[plan.index]? = some (j.tally plan)) :
    (a.closeFrame i f depth failure).statistics[plan.index]? =
      some (Journal.tally (j ++ [.closed n id (a.endReport i f depth failure)]) plan) := by
  have hstatistics : (a.closeFrame i f depth failure).statistics =
      a.statistics.modify f.plan.index (·.record failure.isNone) := rfl
  rw [hstatistics, List.getElem?_modify, h]
  by_cases hp : f.plan = plan
  · subst hp
    cases failure <;>
      simp [endReport, PlanStatistic.record, Journal.tally, List.countP_append]
  · have hindex : f.plan.index ≠ plan.index := fun heq => hp (PlanId.eq_of_index heq)
    simp [hindex, endReport, hp, Journal.tally, List.countP_append]

namespace Chronicle

/-- The statistics count the frames that ended. -/
theorem counted (h : Chronicle lawful start j due a) (hstart : start.Blank) {plan : PlanId}
    (hplan : plan.index < start.library.size) :
    a.statistics[plan.index]? = some (j.tally plan) := by
  induction h with
  | start => simp [hstart.statistics, hplan, PlanStatistic.zero, Journal.tally]
  | quiet _ _ _ _ _ _ _ ih | believe _ _ ih | exhaust _ _ _ _ _ ih => exact ih
  | collect _ ih =>
      rw [Journal.tally_append (by simp [collectionEntries])]
      exact ih
  | raise _ _ _ ih | pass _ _ _ ih | unmet _ _ _ ih | begin _ _ _ _ ih | run _ _ _ _ _ _ _ ih
  | suspend _ _ _ _ _ _ _ _ _ ih | drain _ ih =>
      rw [Journal.tally_append (by simp)]
      exact ih
  | endRoot _ _ _ _ ih => exact statistics_closeFrame ih
  | endChild _ _ _ _ _ _ _ _ _ _ ih =>
      rw [List.append_cons, Journal.tally_append (by simp)]
      exact statistics_closeFrame ih

/-! ### Intentions -/

/-- Each intention gets a new number, and so does each goal without a plan. -/
theorem numbered (h : Chronicle lawful start j due a) :
    IntentionId.Numbered a.nextIntention (j.filterMap Entry.started?) := by
  induction h with
  | start => exact ⟨.nil, by simp⟩
  | quiet _ _ _ _ _ _ _ ih | believe _ _ ih | exhaust _ _ _ _ _ ih => exact ih
  | collect _ ih =>
      rw [List.filterMap_append, filterMap_collectionEntries (fun _ _ => rfl), List.append_nil]
      exact ih
  | raise _ _ _ ih | run _ _ _ _ _ _ _ ih | endRoot _ _ _ _ ih
  | endChild _ _ _ _ _ _ _ _ _ _ ih | drain _ ih =>
      simp only [List.filterMap_append, List.filterMap_cons, List.filterMap_nil, Entry.started?,
        List.append_nil]
      exact ih
  | pass _ _ _ ih =>
      simp only [List.filterMap_append, List.filterMap_cons, List.filterMap_nil, Entry.started?,
        List.append_nil]
      exact ih.skip
  | unmet _ _ _ ih =>
      simp only [List.filterMap_append, List.filterMap_cons, List.filterMap_nil, Entry.started?]
      exact ih.add
  | begin _ _ hf _ ih =>
      simp only [List.filterMap_append, List.filterMap_cons, List.filterMap_nil, Entry.started?, hf,
        Frame.start, if_true]
      exact ih.add
  | suspend _ _ _ _ _ _ _ _ hchild ih =>
      simp only [List.filterMap_append, List.filterMap_cons, List.filterMap_nil, Entry.started?,
        hchild, Frame.start, reduceCtorEq, if_false, List.append_nil]
      exact ih

/-- The goals for which no plan was found are those of which it was reported. -/
theorem unmet_reported (h : Chronicle lawful start j due a) :
    (j.filterMap Entry.unmet?).map Report.trigger = j.filterMap Entry.unchosen? := by
  induction h with
  | start => rfl
  | quiet _ _ _ _ _ _ _ ih | believe _ _ ih | exhaust _ _ _ _ _ ih => exact ih
  | collect _ ih =>
      rw [List.filterMap_append, filterMap_collectionEntries (fun _ _ => rfl), List.append_nil,
        List.filterMap_append, filterMap_collectionEntries (fun _ _ => rfl), List.append_nil, ih]
  | unmet _ _ hgoal ih => simp [List.filterMap_cons, hgoal, ih, unmetReport]
  | pass _ _ hgoal ih => simp [List.filterMap_cons, hgoal, ih]
  | raise _ _ _ ih | begin _ _ _ _ ih | run _ _ _ _ _ _ _ ih | suspend _ _ _ _ _ _ _ _ _ ih
  | endRoot _ _ _ _ ih | endChild _ _ _ _ _ _ _ _ _ _ ih | drain _ ih =>
      simp [List.filterMap_cons, ih]

/-- The live intentions are some of those that were started. -/
theorem live_started (h : Chronicle lawful start j due a) (hstart : start.Blank) :
    (a.intentions.map Intention.id).Sublist (j.filterMap Entry.started?) := by
  have hmore {ns : List IntentionId} {j : Journal} (ih : ns.Sublist (j.filterMap Entry.started?))
      (k : Journal) : ns.Sublist ((j ++ k).filterMap Entry.started?) := by
    rw [List.filterMap_append]
    exact ih.trans (List.sublist_append_left _ _)
  induction h with
  | start =>
      rw [hstart.intentions]
      exact List.nil_sublist _
  | quiet _ _ _ _ _ _ _ ih | believe _ _ ih | exhaust _ _ _ _ _ ih => exact ih
  | collect _ ih | raise _ _ _ ih | pass _ _ _ ih | unmet _ _ _ ih | run _ _ _ _ _ _ _ ih
  | drain _ ih => exact hmore ih _
  | begin _ _ hf _ ih =>
      simp only [List.filterMap_append, List.filterMap_cons, List.filterMap_nil, Entry.started?, hf,
        Frame.start, if_true, List.map_append]
      exact ih.append (List.Sublist.refl _)
  | suspend _ _ _ _ _ _ _ _ hchild ih =>
      rw [intentions_pushSubgoal hchild, map_id_setStack]
      exact hmore ih _
  | endRoot _ _ _ _ ih => exact ((List.eraseIdx_sublist _ _).map _).trans (hmore ih _)
  | endChild _ _ _ _ _ _ _ _ _ _ ih =>
      rw [map_id_setStack]
      exact hmore ih _

end Chronicle

end Agent

/-! ### Reports -/

/-- A report is as it should be after what happened before it: on a frame when it ends, with the
number of its intention and of the frames below it, and on a goal right after no plan was found for
it, with a number that no intention has. -/
def Journal.Reported (before : Journal) : Entry → Prop
  | .closed n id r =>
    ∃ f below, Entry.opened n id f ∈ before ∧ id ∉ before.filterMap Entry.closed? ∧
      before.stackOf n = id :: below ∧ r.intention = n ∧ r.plan = some f.plan ∧
      r.trigger = f.trigger ∧ r.depth = below.length ∧
      (r.state = .succeeded ∨ r.state = .failed)
  | .unmet r =>
    before.getLast? = some (.handled r.trigger none) ∧ r.trigger.kind.isGoal = true ∧
      r.plan = none ∧ r.state = .failed ∧ r.intention ∉ before.filterMap Entry.started?
  | _ => True

namespace Agent

variable {a start : Agent} {lawful : Prop} {j : Journal} {due : Option Due}

/-- A frame on a stack was not closed before. -/
theorem Chronicle.top_notMem_closed {place : Nat} {i : Intention} {id : FrameId}
    {below : List FrameId} {f : Frame} (h : Chronicle lawful start j due a) (hstart : start.Blank)
    (htop : a.TopFrame place i id below f) : id ∉ j.filterMap Entry.closed? := by
  have hnodup := h.opened_nodup hstart
  rw [(h.shares hstart).nodup_iff, List.nodup_append] at hnodup
  have hlive : id ∈ a.intentions.flatMap Intention.stack :=
    htop.flatMap_stack.mem_iff.2 List.mem_cons_self
  exact fun hclosed => hnodup.2.2 id hclosed id hlive rfl

theorem Chronicle.closed_reported {place : Nat} {i : Intention} {id : FrameId}
    {below : List FrameId} {f : Frame} (h : Chronicle lawful start j due a) (hstart : start.Blank)
    (htop : a.TopFrame place i id below f) (failure : Option InstructionError) :
    Journal.Reported j (.closed i.id id (a.endReport i f below.length failure)) := by
  obtain ⟨f₀, hf₀, hplan, htrigger, _⟩ := h.opened_top hstart htop
  refine ⟨f₀, below, hf₀, h.top_notMem_closed hstart htop, h.stackOf_top hstart htop, rfl,
    congrArg some hplan.symm, htrigger.symm, rfl, ?_⟩
  cases failure with
  | none => exact Or.inl rfl
  | some e => exact Or.inr rfl

theorem Chronicle.every_reported (h : Chronicle lawful start j due a) (hstart : start.Blank) :
    j.Every Journal.Reported := by
  induction h with
  | start => exact Journal.every_nil
  | quiet _ _ _ _ _ _ _ ih | believe _ _ ih | exhaust _ _ _ _ _ ih => exact ih
  | collect _ ih =>
      refine ih.append fun e he before => ?_
      obtain ⟨_, _, rfl⟩ := List.mem_map.1 he
      trivial
  | raise _ _ _ ih | pass _ _ _ ih | drain _ ih | run _ _ _ _ _ _ _ ih =>
      exact Journal.every_concat_iff.2 ⟨ih, trivial⟩
  | begin _ _ _ _ ih | suspend _ _ _ _ _ _ _ _ _ ih =>
      exact Journal.every_pair_iff.2 ⟨ih, trivial, trivial⟩
  | unmet h _ hgoal ih =>
      refine Journal.every_pair_iff.2 ⟨ih, trivial, by simp [unmetReport], hgoal, rfl, rfl, ?_⟩
      simpa [List.filterMap_cons, unmetReport] using h.numbered.notMem_next
  | endRoot h htop _ _ ih =>
      exact Journal.every_concat_iff.2 ⟨ih, h.closed_reported hstart htop _⟩
  | endChild h htop _ _ _ _ _ _ _ _ ih =>
      exact Journal.every_pair_iff.2 ⟨ih, h.closed_reported hstart htop _, trivial⟩

/-! ### Runs -/

/-- An agent and its journal add up. -/
structure Balanced (spec : AgentSpec) (j : Journal) (b : Agent) : Prop where
  /-- The statistics of each plan count its frames that succeeded and those that failed. -/
  statistics : ∀ plan : PlanId, plan.index < spec.library.size → b.statistic plan = j.tally plan
  /-- The frames that were opened, each under a new name, were closed or stand on the stacks. -/
  frames : (j.filterMap Entry.opened?).Perm
    (j.filterMap Entry.closed? ++ b.intentions.flatMap Intention.stack)
  names : (j.filterMap Entry.opened?).Nodup
  stored : (j.filterMap Entry.opened?).length = (j.filterMap Entry.closed?).length + b.frames.size
  reported : j.Every Journal.Reported
  unmet : (j.filterMap Entry.unmet?).map Report.trigger = j.filterMap Entry.unchosen?
  /-- No number of an intention is used twice. -/
  numbers : (j.filterMap Entry.started?).Pairwise (·.number < ·.number)
  live : (b.intentions.map Intention.id).Sublist (j.filterMap Entry.started?)
  ordered : (b.intentions.map Intention.id).Pairwise (·.number < ·.number)
  /-- The last reports that were not taken wait, in order, as far as there is room. -/
  waiting : b.reports = j.undrained.rtake spec.config.reportCapacity
  room : b.reports.length ≤ spec.config.reportCapacity

/-- After every run the agent and its journal add up. -/
theorem performAll_balanced {spec : AgentSpec} (h : spec.build = .ok a)
    (operations : List Operation) :
    Balanced spec (spec.journal operations) (a.performAll operations) := by
  obtain ⟨beliefs, _, hrun⟩ := chronicle_performAll False h operations False.elim
  have hstart := blank_blank spec beliefs
  have hshares := hrun.shares hstart
  have hwaiting : (a.performAll operations).reports =
      (spec.journal operations).undrained.rtake spec.config.reportCapacity :=
    hrun.reported hstart (reportCapacity_pos h)
  refine
    { statistics := fun plan hplan => ?_
      frames := hshares
      names := hrun.opened_nodup hstart
      stored := ?_
      reported := hrun.every_reported hstart
      unmet := hrun.unmet_reported
      numbers := hrun.numbered.increasing
      live := hrun.live_started hstart
      ordered := (hrun.ordered hstart).increasing
      waiting := hwaiting
      room := ?_ }
  · rw [statistic, hrun.counted hstart hplan]
    rfl
  · rw [hshares.length_eq, List.length_append, (sound_performAll h operations).wellFormed.size]
  · rw [hwaiting, List.rtake, List.length_drop]
    omega

/-- Two frames fail one after the other, and there is no plan for giving up. -/
theorem performAll_balanced_nestedGoals :
    ∃ a, nestedGoals.build = .ok a ∧
      (a.performAll [.tick, .tick, .tick, .tick]).statistic ⟨0⟩ = ⟨0, 1⟩ ∧
      (a.performAll [.tick, .tick, .tick, .tick]).reports.map Report.depth = [1, 0, 0] ∧
      Balanced nestedGoals (nestedGoals.journal [.tick, .tick, .tick, .tick])
        (a.performAll [.tick, .tick, .tick, .tick]) := by
  have hbuild : nestedGoals.build = .ok _ := rfl
  refine ⟨_, hbuild, ?_, ?_, performAll_balanced hbuild _⟩
  · decide +kernel
  · decide +kernel

end Agent
end Deliberation
