import Deliberation.Proofs.Agent.Chronicle
import Deliberation.Proofs.Agent.Fresh
import Deliberation.Proofs.Plan.Stability

/-!
What a failed instruction leaves behind.

Instructions do some of their work before they find out that they fail: they ask the beliefs, look
for a belief to replace, rename a sub-goal. None of this shows in the agent afterwards, but for the
number of names that were made up. Only an expression leaves bindings, those that its questions
found before the failure. A plan that goes on after failures goes on from there.
-/

namespace Deliberation

variable {s s' s₁ : Substitution} {b : BeliefBase} {asked others : List Literal}

/-! ### What questions bind -/

namespace BeliefBase

/-- Some questions were asked one after the other. Each took its first answer with what that binds,
or took none. -/
inductive Answered (b : BeliefBase) : List Literal → Substitution → Substitution → Prop
  | none {s : Substitution} : Answered b [] s s
  | passed {question : Literal} {questions : List Literal} {s s' : Substitution} :
      Answered b questions s s' → Answered b (question :: questions) s s'
  | answered {question found : Literal} {questions : List Literal} {s s₁ s' : Substitution}
      {rest : List (Literal × Substitution)} :
      b.unifyQuery question s = (found, s₁) :: rest → Answered b questions s₁ s' →
      Answered b (question :: questions) s s'

namespace Answered

theorem refl (b : BeliefBase) (asked : List Literal) (s : Substitution) : b.Answered asked s s := by
  induction asked with
  | nil => exact .none
  | cons question asked ih => exact .passed ih

theorem append (h : b.Answered asked s s₁) (h' : b.Answered others s₁ s') :
    b.Answered (asked ++ others) s s' := by
  induction h with
  | none => exact h'
  | passed _ ih => exact .passed (ih h')
  | answered hquery _ ih => exact .answered hquery (ih h')

/-- Answers keep what was bound before. -/
theorem «extends» (h : b.Answered asked s s') : s'.Extends s := by
  induction h with
  | none => exact .refl _
  | passed _ ih => exact ih
  | answered hquery _ ih =>
      obtain ⟨_, hunify⟩ := unifies_of_mem_unifyQuery (hquery ▸ List.mem_cons_self)
      exact ih.trans (Unification.unifyLiterals_solves hunify).2.extends

theorem eq_of_nil (h : b.Answered [] s s') : s' = s := by
  cases h
  rfl

end Answered
end BeliefBase

/-- The questions to the beliefs in an expression, from left to right. -/
def Expression.questions : Expression → List Literal
  | .term _ => []
  | .unary _ operand => operand.questions
  | .binary _ left right => left.questions ++ right.questions
  | .belief pattern => [pattern]

/-- Evaluating an expression binds what its questions find, also where it ends in an error. -/
theorem Expression.answered_evaluate (b : BeliefBase) (e : Expression) (s : Substitution) :
    b.Answered e.questions s (e.evaluate b s).2 := by
  induction e generalizing s with
  | term t =>
      unfold evaluate
      split <;> exact .none
  | unary op operand ih =>
      have hoperand := ih s
      unfold evaluate
      split <;> simp_all [questions]
  | binary op left right ihleft ihright =>
      have hleft := ihleft s
      unfold evaluate questions
      split
      · rename_i hevaluate
        rw [hevaluate] at hleft
        exact hleft.append (.refl b _ _)
      · rename_i l s₁ hevaluate
        rw [hevaluate] at hleft
        have hright := hleft.append (ihright s₁)
        split
        · exact hleft.append (.refl b _ _)
        · exact hleft.append (.refl b _ _)
        · split <;> simp_all
  | belief pattern =>
      unfold evaluate
      split
      · exact .refl b _ s
      · rename_i hquery
        exact .answered hquery .none

/-- The questions in the expression of an instruction. -/
def Instruction.questions : Instruction → List Literal
  | .assign _ e | .test e => e.questions
  | _ => []

/-! ### Instructions -/

/-- The frame of a plan that goes on after an instruction failed, under the bindings that this
left. -/
def Frame.passOver (f : Frame) (e : InstructionError) (s : Substitution) : Frame :=
  { f with
    state := .running
    pc := f.pc + 1
    bindings := s
    degrees := f.degrees ++ [e.truth]
    failure := f.failure.or (some e) }

namespace Agent

variable {a : Agent} {fresh : Nat} {e : InstructionError} {i : Instruction} {r : Executed}

/-- If the result of an instruction is a failure, the agent has made up names at most, and the
bindings only have what the questions found. -/
def FailsClean (a : Agent) (s : Substitution) (asked : List Literal) (r : Executed) : Prop :=
  ∀ e, r.outcome = .error e →
    ∃ fresh s', a.fresh ≤ fresh ∧ r = { a with fresh }.fails s' e ∧ a.beliefs.Answered asked s s'

theorem failsClean_fails (hfresh : a.fresh ≤ fresh) (h : a.beliefs.Answered asked s s')
    (e : InstructionError) : a.FailsClean s asked ({ a with fresh }.fails s' e) := by
  intro e' he'
  obtain rfl : e = e' := by simpa [fails] using he'
  exact ⟨fresh, s', hfresh, rfl, h⟩

theorem failsClean_self (a : Agent) (s : Substitution) (asked : List Literal)
    (e : InstructionError) :
    a.FailsClean s asked (a.fails s e) :=
  failsClean_fails (Nat.le_refl a.fresh) (.refl a.beliefs asked s) e

theorem failsClean_of_ok {step : Step} (h : r.outcome = .ok step) : a.FailsClean s asked r := by
  intro e he
  simp [h] at he

theorem failsClean_executeAdd (a : Agent) (s : Substitution) (pattern : Literal) :
    a.FailsClean s asked (a.executeAdd s pattern) := by
  unfold executeAdd
  split
  · exact failsClean_self a s _ _
  · split
    · exact failsClean_self a s _ _
    · exact failsClean_of_ok rfl

theorem failsClean_execute (a : Agent) (s : Substitution) (hi : i.actionName? = none) :
    a.FailsClean s i.questions (a.execute s i) := by
  cases i with
  | addBelief pattern => exact failsClean_executeAdd a s pattern
  | removeBelief pattern =>
      simp only [execute, executeRemove]
      split <;> exact failsClean_of_ok rfl
  | updateBelief old new =>
      simp only [execute, executeUpdate]
      split
      · exact failsClean_executeAdd a s new
      · split
        · exact failsClean_self a s _ _
        · split
          · exact failsClean_self a s _ _
          · exact failsClean_of_ok rfl
  | achieve goal =>
      simp only [execute, executeAchieve]
      split
      · exact failsClean_fails (Literal.le_freshen _ _) .none _
      · exact failsClean_of_ok rfl
  | post posted =>
      simp only [execute, executePost]
      split
      · exact failsClean_self a s _ _
      · exact failsClean_of_ok rfl
  | testGoal pattern =>
      simp only [execute, executeTestGoal]
      split
      · exact failsClean_of_ok rfl
      · split
        · exact failsClean_of_ok rfl
        · exact failsClean_fails (Literal.le_freshen _ _) .none _
  | assign name e =>
      have hanswered := e.answered_evaluate a.beliefs s
      simp only [execute, executeAssign]
      split
      · rename_i hevaluate
        rw [hevaluate] at hanswered
        exact failsClean_fails (Nat.le_refl a.fresh) hanswered _
      · exact failsClean_of_ok rfl
  | unary name op =>
      simp only [execute, executeUnary]
      split
      · exact failsClean_self a s _ _
      · exact failsClean_of_ok rfl
  | test e =>
      have hanswered := e.answered_evaluate a.beliefs s
      rw [← e.snd_truth] at hanswered
      simp only [execute, executeTest]
      split
      · rename_i htruth
        rw [htruth] at hanswered
        exact failsClean_fails (Nat.le_refl a.fresh) hanswered _
      · rename_i htruth
        rw [htruth] at hanswered
        split
        · exact failsClean_fails (Nat.le_refl a.fresh) hanswered _
        · exact failsClean_of_ok rfl
  | action call => simp [Instruction.actionName?] at hi

/-- Instructions do not look at frames. -/
theorem execute_storeFrame (a : Agent) (id : FrameId) (f : Frame) (s : Substitution)
    (hi : i.actionName? = none) :
    (a.storeFrame id f).execute s i =
      { a.execute s i with agent := (a.execute s i).agent.storeFrame id f } := by
  cases i with
  | test e =>
      rcases htruth : e.truth a.beliefs s with ⟨err | degree, s'⟩
      · simp only [execute, executeTest, fails, storeFrame, htruth]
      · by_cases hdegree : degree < a.config.successThreshold <;>
          simp only [execute, executeTest, fails, storeFrame, htruth, hdegree, ↓reduceIte]
  | action call => simp [Instruction.actionName?] at hi
  | _ =>
      simp only [execute, executeAdd, executeRemove, executeUpdate, executeAchieve, executePost,
        executeTestGoal, executeAssign, executeUnary, fails, succeeds, select?, effectiveScorer,
        storeFrame]
      repeat' split
      all_goals rfl

/-! ### Plans that go on -/

variable {place : Nat} {intention : Intention} {id : FrameId} {below : List FrameId} {f : Frame}
  {p : Plan}

/-- A plan that goes on after failures goes on after this one if there is an instruction left. -/
theorem settle_of_atomic (hplace : a.intentions[place]? = some intention)
    (hplan : a.library.find? f.plan = some p) (hatomic : p.atomic = true) :
    a.settle place intention.stack id f (some e) =
      if f.pc < p.body.length then
        .done (a.storeFrame id { f with failure := f.failure.or (some e) })
      else
        .ends (a.storeFrame id { f with failure := f.failure.or (some e) })
          (f.failure.or (some e)) := by
  simp only [settle, bodyOf_eq hplan, hatomic]
  rw [setStack_self (a := a.storeFrame id _) hplace]

/-- A plan that goes on after failures changes nothing but its own frame when an instruction fails,
and ends if this was its last one. -/
theorem step_of_fails (htop : a.TopFrame place intention id below f)
    (hplan : a.library.find? f.plan = some p) (hbody : p.body[f.pc]? = some i)
    (hatomic : p.atomic = true) (hi : i.actionName? = none)
    (hfails : a.execute f.bindings i = { a with fresh }.fails s' e) :
    let b := { a with fresh }.storeFrame id (f.passOver e s')
    a.step place =
      if f.pc + 1 < p.body.length then b else b.finish place (f.failure.or (some e)) := by
  intro b
  let g := { f with state := .running }
  let h := { g with pc := f.pc + 1, bindings := s', degrees := f.degrees ++ [e.truth] }
  have hexecute : (a.storeFrame id g).execute f.bindings i =
      ({ a with fresh }.storeFrame id g).fails s' e := by
    rw [execute_storeFrame a id g f.bindings hi, hfails]
    rfl
  have hstore : ({ a with fresh }.storeFrame id g).storeFrame id (f.passOver e s') = b := by
    simp only [b, storeFrame, FrameArena.modify_modify]
  have hturn : a.turn place =
      if f.pc + 1 < p.body.length then .done b else .ends b (f.failure.or (some e)) := by
    calc a.turn place
      _ = (a.storeFrame id g).runInstruction place intention.stack id g i := by
          have hlibrary : (a.storeFrame id g).library.find? f.plan = some p := hplan
          simp only [turn, htop.intention, htop.stack, htop.frame, hbody, hlibrary, g]
      _ = ({ a with fresh }.storeFrame id g).settle place intention.stack id h (some e) := by
          simp only [runInstruction, g, hexecute, fails, h]
      _ = _ := by
          rw [← hstore]
          exact settle_of_atomic (a := { a with fresh }.storeFrame id g) (f := h) htop.intention
            hplan hatomic
  rw [step, hturn]
  by_cases hmore : f.pc + 1 < p.body.length <;> simp [hmore]

/-- An instruction other than an action that fails changes nothing of the agent but the number of
names that were made up. All that was bound before stays bound, and only the questions of an
expression bind more. In a plan that goes on after failures, the frame goes on with these
bindings. -/
theorem failures_spare_agent (hi : i.actionName? = none) (he : (a.execute s i).outcome = .error e) :
    ∃ fresh s', a.fresh ≤ fresh ∧ a.execute s i = { a with fresh }.fails s' e ∧ s'.Extends s ∧
      a.beliefs.Answered i.questions s s' ∧ (i.questions = [] → s' = s) ∧
      ∀ place intention id below f p, a.TopFrame place intention id below f → f.bindings = s →
        a.library.find? f.plan = some p → p.body[f.pc]? = some i → p.atomic = true →
        let b := { a with fresh }.storeFrame id (f.passOver e s')
        a.step place =
          if f.pc + 1 < p.body.length then b else b.finish place (f.failure.or (some e)) := by
  obtain ⟨fresh, s', hfresh, hfails, hanswered⟩ := failsClean_execute a s hi e he
  refine ⟨fresh, s', hfresh, hfails, hanswered.extends, hanswered, fun hnone => ?_, ?_⟩
  · rw [hnone] at hanswered
    exact hanswered.eq_of_nil
  · intro place intention id below f p htop hs hplan hbody hatomic
    exact step_of_fails htop hplan hbody hatomic hi (hs ▸ hfails)

/-- An agent that leaves the place where it is, although it is not rested. -/
def tiredWalker : AgentSpec where
  id := ⟨1⟩
  config := .default
  library := .ofPlans
    [⟨⟨.addGoal, .atom "leave"⟩, none,
      [.test (.binary .and (.belief (.of "at" [.variable "P"])) (.belief (.atom "rested"))),
        .addBelief (.of "left" [.variable "P"])], true⟩]
  actions := .empty
  scorer := weightScorer
  hearing := none
  beliefs := [.of "at" [.atom "home"]]
  goals := [.atom "leave"]

/-- The test finds out where the agent is before it fails. The plan goes on and knows that place. -/
theorem failures_spare_agent_tiredWalker :
    ∃ a b, tiredWalker.build = .ok a ∧ b = a.performAll [.tick, .tick] ∧
      ∃ intention id below f p i e fresh s', b.TopFrame 0 intention id below f ∧
        b.library.find? f.plan = some p ∧ p.body[f.pc]? = some i ∧ p.atomic = true ∧
        i.actionName? = none ∧ i.render = "(at(P) && rested)" ∧
        (b.execute f.bindings i).outcome = .error e ∧
        b.execute f.bindings i = { b with fresh }.fails s' e ∧ s'.Extends f.bindings ∧
        s'.toList.map (fun entry => (entry.1, entry.2.render)) = [("P", "home")] ∧
        b.step 0 = { b with fresh }.storeFrame id (f.passOver e s') := by
  obtain ⟨a, hbuild, hview⟩ : ∃ a, tiredWalker.build = .ok a ∧
      ((a.performAll [.tick, .tick]).intentions[0]?.bind fun intention =>
        intention.stack.head?.bind fun id =>
        ((a.performAll [.tick, .tick]).frames.find? id).bind fun f =>
        ((a.performAll [.tick, .tick]).library.find? f.plan).bind fun p =>
        p.body[f.pc]?.map fun i =>
          let result := (a.performAll [.tick, .tick]).execute f.bindings i
          (p.atomic && decide (f.pc + 1 < p.body.length) && i.actionName?.isNone &&
              !result.outcome.toBool,
            i.render, result.bindings.toList.map fun entry => (entry.1, entry.2.render))) =
        some (true, "(at(P) && rested)", [("P", "home")]) :=
    ⟨_, rfl, by decide +kernel⟩
  simp only [Option.bind_eq_some_iff, Option.map_eq_some_iff, Prod.mk.injEq, Bool.and_eq_true,
    decide_eq_true_eq, Option.isNone_iff_eq_none, Bool.not_eq_true'] at hview
  obtain ⟨intention, hplace, id, hhead, f, hframe, p, hplan, i, hbody,
    ⟨⟨⟨hatomic, hmore⟩, hi⟩, hfailed⟩, hrender, hbindings⟩ := hview
  obtain ⟨below, hstack⟩ := List.head?_eq_some_iff.1 hhead
  cases he : ((a.performAll [.tick, .tick]).execute f.bindings i).outcome with
  | ok step => simp [he, Except.toBool] at hfailed
  | error e =>
      obtain ⟨fresh, s', _, hfails, hextends, _, _, hstep⟩ := failures_spare_agent hi he
      have htop : (a.performAll [.tick, .tick]).TopFrame 0 intention id below f :=
        ⟨hplace, hstack, hframe⟩
      have hgoesOn := hstep 0 intention id below f p htop rfl hplan hbody hatomic
      rw [hfails] at hbindings
      exact ⟨a, _, hbuild, rfl, intention, id, below, f, p, i, e, fresh, s', htop, hplan,
        hbody, hatomic, hi, hrender, he, hfails, hextends, hbindings, hgoesOn.trans (if_pos hmore)⟩

end Agent
end Deliberation
