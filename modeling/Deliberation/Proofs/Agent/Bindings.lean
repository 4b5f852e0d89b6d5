import Deliberation.Proofs.Agent.Perception
import Deliberation.Proofs.Logic.Circles
import Deliberation.Proofs.Plan.Stability

/-!
Which instructions keep the bindings of a frame free of circles.

Beliefs are ground, so whatever they answer closes no circle. That leaves assignments: a value is
resolved before it is bound, but it is not looked through for the variable that gets it. An
assignment such as `X = [X]` closes a circle if `X` has no value, and no other instruction does.
-/

namespace Deliberation

open Relation

variable {s s' : Substitution} {beliefs : BeliefBase} {v : Value} {y : String}

/-! ### Variables in the value of an expression -/

theorem Value.allNames_of_isScalar (h : v.isScalar = true) : v.toTerm.allNames = [] := by
  cases v with
  | number x => rfl
  | boolean b => cases b <;> rfl
  | term t => simp [isScalar] at h

theorem Value.mem_allNames_ofTerm {t : Term} (h : y ∈ (Value.ofTerm t).toTerm.allNames) :
    y ∈ t.allNames := by
  unfold ofTerm at h
  split at h
  · exact h
  · split at h
    · simp [allNames_of_isScalar (v := .boolean _) rfl] at h
    · exact h

/-- A value is resolved: its variables have no values. -/
theorem Expression.find?_of_mem_value {e : Expression} (hs : s.Acyclic)
    (h : e.evaluate beliefs s = (.ok v, s')) (hy : y ∈ v.toTerm.allNames) : s'.find? y = none := by
  have hscalar : v.isScalar = true → s'.find? y = none := by
    intro hv
    simp [Value.allNames_of_isScalar hv] at hy
  cases e with
  | term t =>
      unfold evaluate at h
      split at h
      · simp at h
      · obtain ⟨hv, rfl⟩ := Prod.mk.injEq .. ▸ h
        obtain rfl := Except.ok.inj hv
        exact Substitution.find?_of_mem_allNames_apply (fun x _ => hs.settles x)
          (Value.mem_allNames_ofTerm hy)
  | unary op operand =>
      obtain ⟨w, _, hop⟩ := evaluate_unary_eq_ok_iff.1 h
      exact hscalar (UnaryOperator.isScalar_apply hop)
  | binary op left right =>
      obtain ⟨l, s₁, _, ⟨hdecided, _⟩ | ⟨_, r, _, hop⟩⟩ := evaluate_binary_eq_ok_iff.1 h
      · exact hscalar (BinaryOperator.isScalar_decidedBy hdecided)
      · exact hscalar (BinaryOperator.isScalar_apply hop)
  | belief pattern =>
      unfold evaluate at h
      split at h <;> simp only [Prod.mk.injEq, Except.ok.injEq] at h
      all_goals exact hscalar (by simp [← h.1, Value.isScalar])

/-! ### Instructions -/

/-- The variable that an instruction gives a value. -/
def Instruction.assigned? : Instruction → Option String
  | .assign name _ | .unary name _ => some name
  | _ => none

/-- An instruction assigns a value to a variable that stands for one in the value. -/
def Instruction.ClosesCircle (beliefs : BeliefBase) (s : Substitution) : Instruction → Prop
  | .assign name e => ∃ v s', e.evaluate beliefs s = (.ok v, s') ∧
      ∃ y ∈ v.toTerm.allNames, ReflTransGen s'.StandsFor name y
  | _ => False

theorem Instruction.not_closesCircle {i : Instruction} (h : i.assigned? = none) :
    ¬ i.ClosesCircle beliefs s := by
  cases i <;> simp_all [assigned?, ClosesCircle]

namespace Agent

variable {a : Agent} {i : Instruction}

theorem bindings_executeAdd (a : Agent) (s : Substitution) (pattern : Literal) :
    (a.executeAdd s pattern).bindings = s := by
  unfold executeAdd
  split
  · rfl
  · split <;> rfl

/-- An instruction without an assignment only binds what the beliefs answer. -/
theorem groundExtends_execute (hb : a.beliefs.AllGround) (s : Substitution)
    (haction : i.actionName? = none) (hassigned : i.assigned? = none) :
    (a.execute s i).bindings.GroundExtends s := by
  have hanswer {question found : Literal} {s' : Substitution} {rest : List (Literal × Substitution)}
      (h : a.beliefs.unifyQuery question s = (found, s') :: rest) : s'.GroundExtends s :=
    BeliefBase.groundExtends_of_mem_unifyQuery hb (h ▸ List.mem_cons_self)
  cases i with
  | addBelief pattern =>
      simp only [execute, bindings_executeAdd]
      exact .refl s
  | removeBelief pattern =>
      simp only [execute, executeRemove]
      split
      · exact .refl s
      · rename_i hquery
        exact hanswer hquery
  | updateBelief old new =>
      simp only [execute, executeUpdate]
      split
      · rw [bindings_executeAdd]
        exact .refl s
      · rename_i hquery
        split
        · exact .refl s
        · split
          · exact .refl s
          · exact hanswer hquery
  | achieve goal =>
      simp only [execute, executeAchieve]
      split <;> exact .refl s
  | post posted =>
      simp only [execute, executePost]
      split <;> exact .refl s
  | testGoal pattern =>
      simp only [execute, executeTestGoal]
      split
      · rename_i hquery
        exact hanswer hquery
      · split <;> exact .refl s
  | test e =>
      have htruth : (e.truth a.beliefs s).2.GroundExtends s := by
        rw [Expression.snd_truth]
        exact Expression.groundExtends_evaluate hb e s
      simp only [execute, executeTest]
      split
      · simp_all [fails]
      · split <;> simp_all [fails]
  | assign name e | unary name op => simp [Instruction.assigned?] at hassigned
  | action call => simp [Instruction.actionName?] at haction

theorem acyclic_executeAssign_iff (hb : a.beliefs.AllGround) (hs : s.Acyclic) (name : String)
    (e : Expression) : (a.executeAssign s name e).bindings.Acyclic ↔
      ¬ (Instruction.assign name e).ClosesCircle a.beliefs s := by
  have hextends := Expression.groundExtends_evaluate hb e s
  unfold executeAssign
  split
  · rename_i err s' heval
    rw [heval] at hextends
    exact iff_of_true (hextends.acyclic hs) (by simp [Instruction.ClosesCircle, heval])
  · rename_i v s' heval
    rw [heval] at hextends
    have hassign := (hextends.acyclic hs).assign_iff (x := name) fun y =>
      Expression.find?_of_mem_value hs heval
    have hcloses : (Instruction.assign name e).ClosesCircle a.beliefs s ↔
        ∃ y ∈ v.toTerm.allNames, ReflTransGen s'.StandsFor name y := by
      simp [Instruction.ClosesCircle, heval]
    rw [hcloses]
    exact hassign

theorem acyclic_executeUnary (hs : s.Acyclic) (name : String) (op : Increment) :
    (a.executeUnary s name op).bindings.Acyclic := by
  unfold executeUnary
  split
  · exact hs
  · exact (hs.assign_iff (by simp [Term.allNames])).2 (by simp [Term.allNames])

/-- After an instruction other than an action, the bindings are acyclic again, and resolving ends
from every term, unless it assigned a value to a variable that stands for one in the value. -/
theorem acyclic_unless_closesCircle (hb : a.beliefs.Reached) (hs : s.Acyclic)
    (hi : i.actionName? = none) :
    ((a.execute s i).bindings.Acyclic ↔ ¬ i.ClosesCircle a.beliefs s) ∧
      ((∀ t, (a.execute s i).bindings.Ends t) ↔ ¬ i.ClosesCircle a.beliefs s) ∧
      (¬ i.ClosesCircle a.beliefs s → ∀ t u, (a.execute s i).bindings.follow? t = some u →
        (a.execute s i).bindings.apply t = (a.execute s i).bindings.apply u) := by
  have hiff : (a.execute s i).bindings.Acyclic ↔ ¬ i.ClosesCircle a.beliefs s := by
    cases hassigned : i.assigned? with
    | none =>
        refine iff_of_true ?_ (Instruction.not_closesCircle hassigned)
        exact (groundExtends_execute hb.allGround s hi hassigned).acyclic hs
    | some name =>
        cases i with
        | assign name e => exact acyclic_executeAssign_iff hb.allGround hs name e
        | unary name op =>
            exact iff_of_true (acyclic_executeUnary hs name op) (by simp [Instruction.ClosesCircle])
        | _ => simp [Instruction.assigned?] at hassigned
  refine ⟨hiff, Substitution.acyclic_iff_ends.symm.trans hiff, fun hopen t u hu => ?_⟩
  exact Substitution.apply_follow? (hiff.2 hopen) (.refl _) hu

/-- An agent without plans and beliefs. -/
def novice : AgentSpec where
  id := ⟨1⟩
  config := .default
  library := .ofPlans []
  actions := .empty
  scorer := weightScorer
  hearing := none
  beliefs := []
  goals := []

/-- `X` stands for `Y`. Then `X = [Y]` closes a circle, and `X = [Z]` does not. -/
theorem acyclic_unless_closesCircle_alias :
    let s := Substitution.ofList [("X", .variable "Y")]
    let wrap (name : String) := Instruction.assign "X" (.term (.sequence [.variable name]))
    ∃ a, novice.build = .ok a ∧ a.beliefs.Reached ∧ s.Acyclic ∧
      (wrap "Y").ClosesCircle a.beliefs s ∧ ¬ (a.execute s (wrap "Y")).bindings.Acyclic ∧
      ¬ (wrap "Z").ClosesCircle a.beliefs s ∧ (a.execute s (wrap "Z")).bindings.Acyclic ∧
      (∀ t, (a.execute s (wrap "Z")).bindings.Ends t) ∧
      (a.execute s (wrap "Z")).bindings.apply (.variable "X") =
        (a.execute s (wrap "Z")).bindings.apply (.variable "Y") := by
  intro s wrap
  obtain ⟨a, hbuild⟩ : ∃ a, novice.build = .ok a := ⟨_, rfl⟩
  have hb := reached_of_build hbuild
  have hs : s.Acyclic :=
    Substitution.acyclic_of_rank (fun x => if x = "X" then 1 else 0) (by decide)
  have hevaluate (name : String) (hname : s.apply (.variable name) = .variable name) :
      (Expression.term (.sequence [.variable name])).evaluate a.beliefs s =
        (.ok (.term (.sequence [.variable name])), s) := by
    simp [Expression.evaluate, hname, Value.ofTerm, Term.boolean?]
  have hcloses : (wrap "Y").ClosesCircle a.beliefs s :=
    ⟨_, s, hevaluate "Y" rfl, "Y", by decide, .single ⟨rfl, by decide⟩⟩
  have hopen : ¬ (wrap "Z").ClosesCircle a.beliefs s := by
    rintro ⟨v, s', hv, y, hy, hchain⟩
    obtain ⟨rfl, rfl⟩ : v = .term (.sequence [.variable "Z"]) ∧ s' = s := by
      simpa [hevaluate "Z" rfl, eq_comm] using hv
    have hnames : (Value.term (.sequence [.variable "Z"])).toTerm.allNames = ["Z"] := by decide
    obtain rfl : y = "Z" := by simpa [hnames] using hy
    have hend := hs.aliasEnd_eq hchain rfl (s.card_metFrom_le "X")
    exact absurd hend (by decide +kernel)
  have hbindings : (a.execute s (wrap "Z")).bindings = s.bind "Y" (.sequence [.variable "Z"]) := by
    have hend : s.aliasEnd (s.size + 1) "X" = "Y" := by decide +kernel
    simp only [wrap, execute, executeAssign, hevaluate "Z" rfl, succeeds, Substitution.assign, hend]
    rfl
  have hfollow : (a.execute s (wrap "Z")).bindings.follow? (.variable "X") =
      some (.variable "Y") := by
    rw [hbindings, Substitution.follow?, if_neg (by decide), Substitution.find?_bind,
      if_neg (by decide)]
    rfl
  obtain ⟨hclosed, _, _⟩ := acyclic_unless_closesCircle hb hs (i := wrap "Y") rfl
  obtain ⟨hacyclic, hends, hfollows⟩ := acyclic_unless_closesCircle hb hs (i := wrap "Z") rfl
  exact ⟨a, hbuild, hb, hs, hcloses, fun h => hclosed.1 h hcloses, hopen, hacyclic.2 hopen,
    hends.2 hopen, hfollows hopen _ _ hfollow⟩

/-- `X = [X]` binds a variable without a value to a list of itself, and resolving it does not
end. -/
theorem self_assignment_closes_circle :
    let wrapped := Instruction.assign "X" (.term (.sequence [.variable "X"]))
    ∃ a, novice.build = .ok a ∧ a.beliefs.Reached ∧ Substitution.empty.Acyclic ∧
      (a.execute .empty wrapped).bindings.find? "X" = some (.sequence [.variable "X"]) ∧
      ¬ (a.execute .empty wrapped).bindings.Acyclic ∧
      ¬ (a.execute .empty wrapped).bindings.Ends (.variable "X") := by
  intro wrapped
  obtain ⟨a, hbuild, hbound⟩ : ∃ a, novice.build = .ok a ∧
      (a.execute .empty wrapped).bindings.find? "X" = some (.sequence [.variable "X"]) :=
    ⟨_, rfl, rfl⟩
  have hcycle : TransGen (a.execute .empty wrapped).bindings.DependsOn "X" "X" :=
    .single ⟨_, hbound, by decide⟩
  have hb := reached_of_build hbuild
  refine ⟨a, hbuild, hb, Substitution.acyclic_empty, hbound, fun h => h "X" hcycle, fun h => ?_⟩
  exact h.not_transGen_self (Substitution.visits_of_transGen (by decide) hcycle)

end Agent
end Deliberation
