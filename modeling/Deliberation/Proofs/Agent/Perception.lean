import Deliberation.Proofs.Agent.Chronicle
import Deliberation.Proofs.Agent.Scope

/-!
What an agent perceives is ground, and matching it is safe.

A trigger about beliefs tells of a change of beliefs, or it was handed in or posted and found to be
ground. The goals are the only triggers in the queue of an agent that may have variables. So the
patterns of questions and the heads of plans for beliefs are matched against ground literals, and no
circle of bindings comes from that.
-/

namespace Deliberation

/-! ### Belief bases -/

namespace BeliefBase

variable {b b' : BeliefBase}

theorem Reached.changes (h : b.Reached) (hchanges : b.Changes b') : b'.Reached := by
  induction hchanges with
  | refl => exact h
  | call c _ ih => exact ih.call c
  | observed outbox _ ih => exact ih.observed outbox

end BeliefBase

theorem Literal.freshen_of_isGround {l : Literal} (h : l.isGround = true) (n : Nat) :
    (l.freshen n).1 = l := by
  refine Literal.freshen_of_names_eq_nil (List.eq_nil_iff_forall_not_mem.2 fun x hx => ?_)
  have hall := l.names_subset (Literal.mem_freeNames.1 hx)
  simp [allNames_of_isGround.2 l h] at hall

/-! ### Runs -/

/-- An action that is given beliefs that the operations on beliefs lead to leaves such beliefs. -/
def ActionRegistry.KeepsReached (r : ActionRegistry) : Prop :=
  ∀ name action, r.find? name = some action → ∀ (tick : Nat) (context : ActionContext),
    context.beliefs.Reached → (action.run tick context).beliefs.Reached

/-- So does whoever changes the beliefs from outside. -/
def Operation.KeepsReached : Operation → Prop
  | .perceive change => ∀ b, BeliefBase.Reached b → (change b).Reached
  | _ => True

namespace Agent

variable {a b : Agent} {place : Nat} {i : Intention} {t : Trigger} {stack : List FrameId}
  {j : Journal}

theorem Alters.reached {beliefs : BeliefBase} (h : a.Alters beliefs) (hb : a.beliefs.Reached)
    (hactions : a.actions.KeepsReached) : beliefs.Reached := by
  obtain hchanges | ⟨name, action, context, hfind, hbeliefs, rfl⟩ := h
  · exact hb.changes hchanges
  · exact hactions name action hfind a.cycle context (hbeliefs ▸ hb)

/-- The beliefs stem from operations on beliefs, and the triggers about beliefs in the queue are
ground. -/
structure Informed (a : Agent) : Prop where
  actions : a.actions.KeepsReached
  beliefs : a.beliefs.Reached
  pending : ∀ t ∈ a.pending, t.kind.isGoal = false → t.literal.isGround = true

namespace Informed

theorem congr (h : a.Informed) (hactions : b.actions = a.actions) (hbeliefs : b.beliefs = a.beliefs)
    (hpending : b.pending = a.pending) : b.Informed where
  actions := hactions ▸ h.actions
  beliefs := hbeliefs ▸ h.beliefs
  pending := hpending ▸ h.pending

theorem raise (h : a.Informed) {ts : List Trigger}
    (hts : ∀ t ∈ ts, t.kind.isGoal = false → t.literal.isGround = true) :
    { a with pending := a.pending ++ ts }.Informed :=
  ⟨h.actions, h.beliefs, List.forall_mem_append.2 ⟨h.pending, hts⟩⟩

theorem enqueue (h : a.Informed) (ht : t.kind.isGoal = false → t.literal.isGround = true) :
    (a.enqueue t).Informed :=
  h.raise (List.forall_mem_singleton.2 ht)

/-! ### Steps -/

/-- What an instruction posts about beliefs is ground. -/
theorem execute (h : a.Informed) (s : Substitution) (instruction : Instruction) :
    (a.execute s instruction).agent.Informed := by
  obtain ⟨beliefs, fresh, hagent, halters⟩ := a.execute_affects s instruction
  have hbelieves : { a with beliefs, fresh }.Informed :=
    ⟨h.actions, halters.reached h.beliefs h.actions, h.pending⟩
  rw [hagent]
  refine hbelieves.raise fun t ht hkind => ?_
  cases instruction with
  | post source =>
      simp only [posted] at ht
      split at ht
      · rename_i hposted
        obtain rfl := List.mem_singleton.1 ht
        have hground : (s.applyLiteral source.literal).isGround = true := by
          simpa [show source.kind.isGoal = false from hkind] using hposted
        rwa [Literal.freshen_of_isGround hground]
      · simp at ht
  | _ => simp [posted] at ht

theorem executed (h : a.Informed) (id : FrameId) (f : Frame) (instruction : Instruction) :
    (a.executed id f instruction).agent.Informed := by
  have hstarted : (a.started id f).Informed := h.congr rfl rfl rfl
  exact hstarted.execute f.bindings instruction

/-- A goal that is given up may have variables. -/
theorem endIntention (h : a.Informed) (place : Nat) (i : Intention)
    (failure : Option InstructionError) : (a.endIntention place i failure).Informed := by
  have hdropped : (a.dropIntention place).Informed := h.congr rfl rfl rfl
  unfold Agent.endIntention
  split
  · exact hdropped.enqueue (by simp [TriggerKind.isGoal])
  · exact hdropped

theorem closes (h : a.Informed) {id : FrameId} {depth : Nat} {failure : Option InstructionError}
    {f : Frame} {c : Agent} (hcloses : a.Closes i id depth failure f c) : c.Informed := by
  obtain ⟨_, _, rfl⟩ := hcloses
  exact h.congr rfl rfl rfl

theorem course (h : a.Informed) {progress : Progress}
    (hcourse : Course a place i j stack progress) : progress.agent.Informed := by
  induction hcourse with
  | lost | exhaust => exact h.congr rfl rfl rfl
  | @run id _ f _ _ instruction =>
      have hran := h.executed id f instruction
      refine Progress.agent_of (P := Informed) ?_ ?_ _ <;> exact hran.congr rfl rfl rfl
  | @suspend id _ f _ _ instruction => exact (h.executed id f instruction).congr rfl rfl rfl
  | skip _ _ ih => exact ih
  | bare _ ih => exact ih.congr rfl rfl rfl
  | endRoot _ hcloses _ ih => exact (ih.closes hcloses).endIntention place i _
  | orphan _ hcloses _ _ ih => exact (ih.closes hcloses).congr rfl rfl rfl
  | endChild _ hcloses _ _ _ _ _ _ ih =>
      have hclosed := ih.closes hcloses
      refine Progress.agent_of (P := Informed) ?_ ?_ _ <;> exact hclosed.congr rfl rfl rfl

theorem step (h : a.Informed) (place : Nat) : (a.step place).Informed := by
  obtain ⟨hstep, _⟩ | ⟨i, rest, hcourse⟩ := a.step_cases place
  · rw [hstep]
    exact h
  · exact h.course hcourse

/-! ### Ticks and operations -/

theorem handle (h : a.Informed) (t : Trigger) : (a.handle t).Informed := by
  obtain ⟨frames, intentions, reports, heq⟩ := a.handle_eq t
  rw [heq]
  exact h.congr rfl rfl rfl

theorem collectBeliefEvents (h : a.Informed) : a.collectBeliefEvents.Informed := by
  have hdrained : { a with beliefs := a.beliefs.drainEvents.2 }.Informed :=
    ⟨h.actions, h.beliefs.drainEvents, h.pending⟩
  refine hdrained.raise fun t ht _ => ?_
  obtain ⟨e, he, rfl⟩ := List.mem_map.1 ht
  exact h.beliefs.allGround.events e he

theorem wakeUp (h : a.Informed) (terms : List Term) : (a.wakeUp terms).2.Informed := by
  unfold Agent.wakeUp
  split
  · exact h
  · rename_i sleep _
    have hgoals : ∀ t ∈ wakeupTriggers (sleep.terms ++ terms), t.kind.isGoal = true := by
      intro t ht
      unfold wakeupTriggers at ht
      split at ht
      · rw [List.mem_singleton.1 ht]
        rfl
      · obtain ⟨u, _, rfl⟩ := List.mem_map.1 ht
        rfl
    exact (h.raise fun t ht hkind => absurd (hgoals t ht) (by simp [hkind])).congr rfl rfl rfl

theorem sleepThrough (h : a.Informed) : a.sleepThrough.2.Informed := by
  unfold Agent.sleepThrough
  split
  · exact h
  · split
    · exact h
    · exact h.wakeUp []
    · exact h.congr rfl rfl rfl

theorem awake (h : a.Informed) : a.awake.Informed := by
  have hcounted : { a with cycle := a.cycle + 1 }.Informed := h.congr rfl rfl rfl
  exact hcounted.collectBeliefEvents.sleepThrough

theorem conclude (h : a.Informed) : a.conclude.Informed :=
  h.collectBeliefEvents.congr rfl rfl rfl

theorem tick (h : a.Informed) : a.tick.2.Informed := by
  have hawake := h.awake
  obtain ⟨_, heq⟩ | heq | ⟨t, rest, hpending, heq⟩ | ⟨place, _, _, heq⟩ := a.tick_cases
  · rwa [heq]
  · rw [heq]
    exact hawake.conclude
  · rw [heq]
    have hrest : { a.awake with pending := rest }.Informed :=
      ⟨hawake.actions, hawake.beliefs, (List.forall_mem_cons.1 (hpending ▸ hawake.pending)).2⟩
    exact (hrest.handle t).conclude
  · rw [heq]
    exact (hawake.step place).conclude

/-- A trigger about beliefs that is handed in has to be ground. -/
theorem trigger (h : a.Informed) (hb : a.trigger t = .ok b) : b.Informed := by
  obtain ⟨hchecked, rfl⟩ := trigger_eq_ok hb
  have hfresh : { a with fresh := (t.literal.freshen a.fresh).2 }.Informed := h.congr rfl rfl rfl
  have hground : t.kind.isGoal = false → (t.literal.freshen a.fresh).1.isGround = true := by
    intro hkind
    have hliteral := hchecked hkind
    rwa [Literal.freshen_of_isGround hliteral]
  exact hfresh.enqueue hground

theorem perform (h : a.Informed) {op : Operation} (hop : op.KeepsReached) :
    (a.perform op).Informed := by
  cases op with
  | tick => exact h.tick
  | trigger t =>
      simp only [Agent.perform]
      split
      · rename_i hb
        exact h.trigger hb
      · exact h
  | achieve goal =>
      simp only [Agent.perform, achieve]
      split
      · rename_i hb
        exact h.trigger hb
      · exact h
  | perceive change => exact ⟨h.actions, hop a.beliefs h.beliefs, h.pending⟩
  | wakeUp terms => exact h.wakeUp terms
  | fallAsleep | hear | terminate | drainReports => exact h.congr rfl rfl rfl

theorem performAll (h : a.Informed) {operations : List Operation}
    (hoperations : ∀ op ∈ operations, op.KeepsReached) : (a.performAll operations).Informed := by
  induction operations generalizing a with
  | nil => exact h
  | cons op rest ih =>
      rw [List.forall_mem_cons] at hoperations
      exact ih (h.perform hoperations.1) hoperations.2

end Informed

theorem informed_build {spec : AgentSpec} (hactions : spec.actions.KeepsReached)
    (h : spec.build = .ok a) : a.Informed := by
  obtain ⟨_, beliefs, hbeliefs, hgoals⟩ := build_eq_ok h
  have hblank : (spec.blank beliefs).Informed :=
    ⟨hactions, reached_build hbeliefs, by simp [AgentSpec.blank]⟩
  refine List.foldlM_induction ?_ hblank hgoals
  intro b goal _ c hb hc
  exact hb.trigger (Except.mapError_eq_ok_iff.1 hc)

end Agent

/-! ### Matching -/

theorem Substitution.acyclic_empty : Substitution.empty.Acyclic :=
  acyclic_of_rank (fun _ => 0) (by simp [toList, empty, SortedMap.empty])

/-- The head of a plan is matched safely against a ground trigger. -/
theorem PlanLibrary.acyclic_of_mem_candidates {lib : PlanLibrary} {t : Trigger} {c : Candidate}
    (ht : t.literal.isGround = true) (hc : c ∈ lib.candidates t) : c.bindings.Acyclic := by
  obtain ⟨p, _, hunify⟩ := mem_candidates hc
  have hground := Unification.unifyLiterals_groundExtends ht hunify
  exact hground.acyclic Substitution.acyclic_empty

/-- Matching against what is ground needs no check for circles. A comparison with a ground term
ends, keeps acyclic bindings acyclic and adds ground values for free variables only. So the
questions to a belief base end with acyclic answers, and so does the search for plans for each
trigger about beliefs that an agent gets to. -/
theorem matching_ground_safe :
    (∀ (p g : Term) (s : Substitution), g.isGround = true → s.Acyclic →
      unify p g s ≠ .error .endless ∧
      (∀ depth ≥ Unification.depthBound (p.size + g.size) s,
        Unification.within depth p g s = unify p g s) ∧
      ∀ s', unify p g s = .ok s' →
        s'.Acyclic ∧ s'.Extends s ∧
        ∀ x v, s'.find? x = some v → s.find? x = some v ∨ s.find? x = none ∧ v.isGround = true) ∧
    (∀ (b : BeliefBase) (pattern : Literal) (s : Substitution), b.Reached → s.Acyclic →
      (∀ l ∈ b.bucket pattern.functor, unifyLiterals pattern l s ≠ .error .endless) ∧
      ∀ answer ∈ b.unifyQuery pattern s, answer.2.Acyclic) ∧
    ∀ (spec : AgentSpec) (a : Agent) (operations : List Operation), spec.actions.KeepsReached →
      spec.build = .ok a → (∀ op ∈ operations, op.KeepsReached) →
      (a.performAll operations).awake.beliefs.Reached ∧
      ∀ t ∈ (a.performAll operations).awake.pending, t.kind.isGoal = false →
        t.literal.isGround = true ∧
        (∀ p : Plan, unifyLiterals p.trigger.literal t.literal .empty ≠ .error .endless) ∧
        ∀ kind, ∀ c ∈ (a.performAll operations).awake.library.candidates ⟨kind, t.literal⟩,
          c.bindings.Acyclic := by
  refine ⟨fun p g s hg hs => ?_, fun b pattern s hb hs => ?_, ?_⟩
  · have hends := Unification.unify_ne_endless (a := p) (Unification.straight_of_acyclic hs) hg
    refine ⟨hends, fun depth hdepth => Unification.within_of_le hends hdepth, fun s' h => ?_⟩
    have hground : s'.GroundExtends s :=
      (Unification.unify_solves h).groundExtends (by simpa using hg)
    refine ⟨hground.acyclic hs, hground.extend, fun x v hv => ?_⟩
    cases hx : s.find? x with
    | none => exact Or.inr ⟨rfl, hground.ground x v hx hv⟩
    | some u => exact Or.inl ((hground.extend x u hx).symm.trans hv)
  · refine ⟨fun l hl => ?_, fun answer hanswer => ?_⟩
    · have hstraight := Unification.straight_of_acyclic hs
      exact Unification.unifyLiterals_ne_endless hstraight (hb.allGround.beliefs _ l hl)
    · exact (BeliefBase.groundExtends_of_mem_unifyQuery hb.allGround hanswer).acyclic hs
  · intro spec a operations hactions hbuild hoperations
    have hinformed := ((Agent.informed_build hactions hbuild).performAll hoperations).awake
    refine ⟨hinformed.beliefs, fun t ht hkind => ?_⟩
    have hground := hinformed.pending t ht hkind
    refine ⟨hground, fun p => ?_, fun kind c hc => ?_⟩
    · have hstraight := Unification.straight_of_acyclic Substitution.acyclic_empty
      exact Unification.unifyLiterals_ne_endless hstraight hground
    · exact PlanLibrary.acyclic_of_mem_candidates (t := ⟨kind, t.literal⟩) hground hc

/-- An agent that knows a road, with a plan for roads that stop where they begin. -/
def roadWatch : AgentSpec where
  id := ⟨1⟩
  config := .default
  library := .ofPlans
    [⟨⟨.addBelief, .of "road" [.variable "X", .sequence [.variable "X", .variable "Y"],
      .variable "_"]⟩, none, [], false⟩]
  actions := .empty
  scorer := weightScorer
  hearing := none
  beliefs := [.of "road"
    [.atom "home", .sequence [.atom "home", .literal (.of "stop" [.atom "mill"])], .atom "narrow"]]
  goals := []

/-- The road is matched by a pattern with bound variables, one of them carrying its value, as a
question and as the trigger of the plan. -/
theorem matching_ground_safe_roadWatch :
    let s := Substitution.ofList [("X", .variable "V")]
    let stop := Term.literal (.of "stop" [.atom "mill"])
    let p := Term.sequence [.variable "X", .bound "W" (.variable "Y"), .variable "_"]
    let g := Term.sequence [.atom "home", stop, .atom "narrow"]
    let question := Literal.of "road" [.variable "X", .variable "Y", .variable "_"]
    s.Acyclic ∧ g.isGround = true ∧
    (∃ s', unify p g s = .ok s' ∧ s'.Acyclic ∧ s'.Extends s ∧
      s'.find? "V" = some (.atom "home") ∧ s'.find? "Y" = some stop) ∧
    ∃ a, roadWatch.build = .ok a ∧
      (a.performAll []).awake.beliefs.Reached ∧
      ((a.performAll []).awake.beliefs.unifyQuery question s).length = 1 ∧
      (∀ answer ∈ (a.performAll []).awake.beliefs.unifyQuery question s, answer.2.Acyclic) ∧
      ∃ t ∈ (a.performAll []).awake.pending, t.kind = .addBelief ∧ t.literal.isGround = true ∧
        ((a.performAll []).awake.library.candidates t).length = 1 ∧
        ∀ c ∈ (a.performAll []).awake.library.candidates t, c.bindings.Acyclic := by
  intro s stop p g question
  have hs : s.Acyclic :=
    Substitution.acyclic_of_rank (fun x => if x = "X" then 1 else 0) (by decide +kernel)
  have hunify : unify p g s = .ok _ := rfl
  have hbuild : roadWatch.build = .ok _ := rfl
  have hactions : roadWatch.actions.KeepsReached := by
    intro name action hfind
    simp [roadWatch, ActionRegistry.find?, ActionRegistry.empty] at hfind
  obtain ⟨hmatch, hquestions, hagents⟩ := matching_ground_safe
  obtain ⟨_, _, hbindings⟩ := hmatch p g s (by decide +kernel) hs
  obtain ⟨hacyclic, hextends, _⟩ := hbindings _ hunify
  obtain ⟨hbeliefs, hpending⟩ := hagents roadWatch _ [] hactions hbuild (by simp)
  refine ⟨hs, by decide +kernel, ⟨_, hunify, hacyclic, hextends, rfl, rfl⟩, _, hbuild, hbeliefs,
    by decide +kernel, (hquestions _ question s hbeliefs hs).2, ?_⟩
  obtain ⟨hground, _, hcandidates⟩ := hpending _ (List.mem_of_getElem? (i := 0) rfl) rfl
  exact ⟨_, List.mem_of_getElem? (i := 0) rfl, rfl, hground, by decide +kernel,
    hcandidates .addBelief⟩

end Deliberation
