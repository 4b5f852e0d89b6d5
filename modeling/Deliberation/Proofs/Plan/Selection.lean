import Deliberation.Plan.Library

/-!
The choice of a plan.

The plan that is selected for a trigger is one of the candidates: the library has it, its head
unifies with the trigger, and its guard held.
-/

namespace Deliberation

/-- A plan can be chosen under some bindings: it has no guard, or a guard that can be evaluated and
holds to the degree of a threshold, which leaves other bindings. -/
def Plan.Passes (p : Plan) (beliefs : BeliefBase) (threshold : Float) (s s' : Substitution) :
    Prop :=
  (p.guard = none ∧ s' = s) ∨
    ∃ guard degree, p.guard = some guard ∧ guard.truth beliefs s = (.ok degree, s') ∧
      threshold ≤ degree

namespace PlanLibrary

theorem plans_foldl (plans : List Plan) (lib : PlanLibrary) :
    (plans.foldl (fun lib p => (lib.add p).2) lib).plans = lib.plans ++ plans := by
  induction plans generalizing lib with
  | nil => simp
  | cons p rest ih =>
      rw [List.foldl_cons, ih]
      simp [add]

theorem plans_ofPlans (plans : List Plan) : (ofPlans plans).plans = plans :=
  plans_foldl plans empty

theorem guarded?_eq_some_iff {beliefs : BeliefBase} {threshold : Float} {p : Plan}
    {s s' : Substitution} :
    guarded? beliefs threshold p s = some s' ↔ p.Passes beliefs threshold s s' := by
  unfold guarded? Plan.Passes
  cases p.guard with
  | none => simp [eq_comm]
  | some guard =>
      rcases htruth : guard.truth beliefs s with ⟨e | degree, s₁⟩
      · simp [htruth]
      · constructor
        · intro h
          obtain ⟨hdegree, rfl⟩ : threshold ≤ degree ∧ s₁ = s' := by simpa [htruth] using h
          exact Or.inr ⟨guard, degree, rfl, htruth, hdegree⟩
        · rintro (⟨hnone, _⟩ | ⟨guard', degree', hguard, htruth', hdegree⟩)
          · simp at hnone
          · obtain rfl := Option.some.inj hguard
            obtain ⟨rfl, rfl⟩ : degree = degree' ∧ s₁ = s' := by simpa [htruth] using htruth'
            simp [htruth, hdegree]

variable {σ : Type} [Scalar σ]

theorem better_mem {best : Option (Selection σ)} {next s : Selection σ}
    (h : better best next = some s) : s = next ∨ best = some s := by
  cases best with
  | none => exact Or.inl (Option.some.inj h).symm
  | some b =>
      simp only [better] at h
      split at h
      · exact Or.inl (Option.some.inj h).symm
      · exact Or.inr h

theorem mem_of_foldl_better {selections : List (Selection σ)} {best : Option (Selection σ)}
    {s : Selection σ} (h : selections.foldl better best = some s) :
    s ∈ selections ∨ best = some s := by
  induction selections generalizing best with
  | nil => exact Or.inr h
  | cons head rest ih =>
      rcases ih h with hmem | hbest
      · exact Or.inl (List.mem_cons_of_mem _ hmem)
      · rcases better_mem hbest with rfl | hbest
        · exact Or.inl List.mem_cons_self
        · exact Or.inr hbest

/-- What is selected stems from a candidate whose plan the library has and whose guard held. -/
theorem select_eq_some {lib : PlanLibrary} {candidates : List Candidate} {scorer : Scorer σ}
    {context : SelectionContext} {s : Selection σ}
    (h : lib.select candidates scorer context = some s) :
    ∃ c ∈ candidates, ∃ p, lib.find? c.plan = some p ∧ s.plan = c.plan ∧
      guarded? context.beliefs context.threshold p c.bindings = some s.bindings := by
  rcases mem_of_foldl_better h with hmem | hnone
  · obtain ⟨c, hc, hassess⟩ := List.mem_filterMap.1 hmem
    simp only [assess, Option.bind_eq_bind, Option.bind_eq_some_iff, pure] at hassess
    obtain ⟨p, hp, bindings, hguard, hs⟩ := hassess
    have hs := Option.some.inj hs
    subst hs
    exact ⟨c, hc, p, hp, rfl, hguard⟩
  · simp at hnone

/-- The head of a candidate unifies with the trigger. -/
theorem mem_candidates {lib : PlanLibrary} {t : Trigger} {c : Candidate}
    (h : c ∈ lib.candidates t) :
    ∃ p, lib.find? c.plan = some p ∧
      unifyLiterals p.trigger.literal t.literal .empty = .ok c.bindings := by
  obtain ⟨id, _, hc⟩ := List.mem_filterMap.1 h
  simp only [Option.bind_eq_bind, Option.bind_eq_some_iff, pure] at hc
  obtain ⟨p, hp, bindings, hbindings, hc⟩ := hc
  obtain rfl := Option.some.inj hc
  refine ⟨p, hp, ?_⟩
  cases hunify : unifyLiterals p.trigger.literal t.literal .empty with
  | error e => simp [hunify, Except.toOption] at hbindings
  | ok s =>
      simp only [hunify, Except.toOption, Option.some.injEq] at hbindings
      rw [hbindings]

end PlanLibrary
end Deliberation
