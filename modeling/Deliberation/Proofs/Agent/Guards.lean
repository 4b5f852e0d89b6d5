import Deliberation.Proofs.Agent.Perception
import Deliberation.Proofs.Plan.Stability

/-!
Guards still hold when the plan starts.

The choice of a plan takes the first answer to each question of a guard and keeps what it binds. The
frame of the plan starts with these bindings, and under them the guard holds to the same degree, as
long as the beliefs are the same.
-/

namespace Deliberation

open Unification (Straight straight_of_acyclic)

theorem Value.isScalar_of_truth {v : Value} {degree : Float} (h : v.truth = .ok degree) :
    v.isScalar = true := by
  cases v <;> simp_all [Value.truth, Value.isScalar]

/-- A guard that holds to some degree holds to the same degree under the bindings that it left. -/
theorem Expression.truth_again {beliefs : BeliefBase} {e : Expression} {s s' : Substitution}
    {degree : Float} (hb : beliefs.AllGround) (he : e.hasNoEquality = true) (hs : Straight s)
    (h : e.truth beliefs s = (.ok degree, s')) : e.truth beliefs s' = (.ok degree, s') := by
  unfold truth at h ⊢
  split at h
  · simp at h
  · rename_i v s₁ hevaluate
    obtain ⟨hdegree, rfl⟩ := Prod.mk.injEq .. ▸ h
    rw [evaluate_again hb he hs (Value.isScalar_of_truth hdegree) hevaluate (.refl _)]
    simp only [hdegree]

/-- The head of a plan may unify with a goal in bindings that run in a circle, but no step of
resolving leads back. -/
theorem PlanLibrary.straight_of_mem_candidates {lib : PlanLibrary} {t : Trigger} {c : Candidate}
    (hc : c ∈ lib.candidates t) : Straight c.bindings := by
  obtain ⟨p, _, hunify⟩ := mem_candidates hc
  exact (straight_of_acyclic Substitution.acyclic_empty).unifyLiterals hunify

namespace Agent

/-- What an expression without equality yields, if it is a number or a truth value, it yields again
under the bindings that it leaves, which add ground values only. So every plan that is selected
starts with bindings under which its guard still holds. -/
theorem guards_hold_again {b : BeliefBase} (hb : b.Reached) :
    (∀ (e : Expression) (s s' : Substitution) (v : Value), e.hasNoEquality = true → s.Acyclic →
      v.isScalar = true → e.evaluate b s = (.ok v, s') →
      s'.Extends s ∧ (∀ x u, s.find? x = none → s'.find? x = some u → u.isGround = true) ∧
      s'.Acyclic ∧ e.evaluate b s' = (.ok v, s')) ∧
    ∀ (a : Agent) (t : Trigger) (selection : Selection Float), a.beliefs = b →
      a.select? t = some selection →
      ∃ p, a.library.find? selection.plan = some p ∧
        ∀ guard, p.guard = some guard → guard.hasNoEquality = true → ∀ parent,
          let f := Frame.start selection.plan t selection.bindings parent
          ∃ degree, guard.truth b f.bindings = (.ok degree, f.bindings) ∧
            a.config.successThreshold ≤ degree := by
  refine ⟨fun e s s' v he hs hv h => ?_, ?_⟩
  · have hground : s'.GroundExtends s := by
      have hevaluate := Expression.groundExtends_evaluate hb.allGround e s
      rwa [h] at hevaluate
    refine ⟨hground.extend, hground.ground, hground.acyclic hs, ?_⟩
    exact Expression.evaluate_again hb.allGround he (straight_of_acyclic hs) hv h (.refl s')
  · rintro a t selection rfl hselect
    obtain ⟨c, hc, p, hp, hplan, hpassed⟩ := PlanLibrary.select_eq_some hselect
    refine ⟨p, hplan ▸ hp, fun guard hguard he parent => ?_⟩
    rcases PlanLibrary.guarded?_eq_some_iff.1 hpassed with
      ⟨hnone, _⟩ | ⟨guard', degree, hguard', htruth, hdegree⟩
    · simp [hguard] at hnone
    · obtain rfl := Option.some.inj (hguard.symm.trans hguard')
      have hstraight := PlanLibrary.straight_of_mem_candidates hc
      exact ⟨degree, Expression.truth_again hb.allGround he hstraight htruth, hdegree⟩

/-- An agent that can go where it knows a road, with a guard whose first part fails after it has
bound a variable. -/
def roadTaker : AgentSpec where
  id := ⟨1⟩
  config := .default
  library := .ofPlans
    [⟨⟨.addGoal, .of "go" [.variable "X", .sequence [.variable "X"]]⟩,
      some (.binary .or
        (.binary .and (.belief (.of "closed" [.variable "Z"])) (.belief (.of "at" [.variable "Z"])))
        (.binary .and (.belief (.of "at" [.variable "P"]))
          (.binary .and (.belief (.of "road" [.variable "P", .variable "Q"]))
            (.unary .not (.belief (.of "closed" [.variable "Q"])))))),
      [], false⟩]
  actions := .empty
  scorer := weightScorer
  hearing := none
  beliefs := [.of "at" [.atom "home"], .of "closed" [.atom "forest"],
    .of "road" [.atom "home", .atom "market"]]
  goals := []

/-- The head of the plan unifies with the goal `go(Y, Y)` in bindings that run in a circle. The
guard holds all the same, with what its failed part bound, and holds again when the plan starts. A
question from it holds again under the bindings that it leaves. -/
theorem guards_hold_again_roadTaker :
    let t : Trigger := ⟨.addGoal, .of "go" [.variable "Y", .variable "Y"]⟩
    let question := Expression.belief (.of "road" [.variable "P", .variable "Q"])
    ∃ a, roadTaker.build = .ok a ∧ a.beliefs.Reached ∧
      (∃ s', question.evaluate a.beliefs .empty = (.ok (.boolean true), s') ∧
        s'.toList.map (fun b => (b.1, b.2.render)) = [("P", "home"), ("Q", "market")] ∧
        s'.Acyclic ∧ question.evaluate a.beliefs s' = (.ok (.boolean true), s')) ∧
      ∃ selection, a.select? t = some selection ∧
        selection.bindings.toList.map (fun b => (b.1, b.2.render)) =
          [("P", "home"), ("Q", "market"), ("X", "Y"), ("Y", "[X]"), ("Z", "forest")] ∧
        ∃ p guard degree, a.library.find? selection.plan = some p ∧ p.guard = some guard ∧
          guard.truth a.beliefs selection.bindings = (.ok degree, selection.bindings) ∧
          a.config.successThreshold ≤ degree := by
  intro t question
  obtain ⟨a, hbuild, s', hquestion, hanswer, hselected, hguards⟩ :
      ∃ a, roadTaker.build = .ok a ∧
        ∃ s', question.evaluate a.beliefs .empty = (.ok (.boolean true), s') ∧
        s'.toList.map (fun b => (b.1, b.2.render)) = [("P", "home"), ("Q", "market")] ∧
        (a.select? t).map (fun s => s.bindings.toList.map fun b => (b.1, b.2.render)) =
          some [("P", "home"), ("Q", "market"), ("X", "Y"), ("Y", "[X]"), ("Z", "forest")] ∧
        a.library.plans.all (fun p => p.guard.any Expression.hasNoEquality) = true :=
    ⟨_, rfl, _, rfl, by decide +kernel, by decide +kernel, by decide +kernel⟩
  have hbeliefs := reached_of_build hbuild
  obtain ⟨hagain, hstarts⟩ := guards_hold_again hbeliefs
  obtain ⟨_, _, hacyclic, hsame⟩ := hagain question .empty s' (.boolean true) rfl
    Substitution.acyclic_empty rfl hquestion
  obtain ⟨selection, hselect, hbindings⟩ := Option.map_eq_some_iff.1 hselected
  obtain ⟨p, hp, hstart⟩ := hstarts a t selection rfl hselect
  obtain ⟨guard, hguard, hequal⟩ :=
    (Option.any_eq_true _ _).1 (List.all_eq_true.1 hguards p (List.mem_of_getElem? hp))
  obtain ⟨degree, htruth, hdegree⟩ := hstart guard hguard hequal none
  exact ⟨a, hbuild, hbeliefs, ⟨s', hquestion, hanswer, hacyclic, hsame⟩, selection,
    hselect, hbindings, p, guard, degree, hp, hguard, htruth, hdegree⟩

end Agent
end Deliberation
