import Deliberation.Proofs.Logic.Refinement

/-!
Circles of bindings.

Resolving goes from a bound variable to its value and from a term to its parts, and nothing on the
way counts the steps. It comes to an end from every term exactly if the bindings are acyclic. A
value whose variables are not bound closes a circle only if it has the variable that it is bound to.
An assignment binds the variable at the end of a chain, so it is this variable that must not be in
the value.
-/

namespace Deliberation
namespace Substitution

open Relation

variable {s : Substitution} {x y : String} {t u : Term}

/-! ### How resolving goes through a term -/

/-- The terms that resolving a term goes on with. -/
def visited (s : Substitution) : Term → List Term
  | .sequence xs => xs
  | .literal l => l.arguments ++ l.annotations.map .literal
  | .variable x => (s.follow? (.variable x)).toList
  | .bound _ v => [v]
  | .atom _ | .number _ | .text _ => []

/-- Resolving goes from one term to another. -/
def Visits (s : Substitution) (t u : Term) : Prop :=
  u ∈ s.visited t

/-- Resolving a term comes to an end. -/
def Ends (s : Substitution) (t : Term) : Prop :=
  Acc (fun u t => s.Visits t u) t

theorem ends_of_visited (h : ∀ u ∈ s.visited t, s.Ends u) : s.Ends t :=
  Acc.intro t h

theorem visits_variable_iff (hx : x ≠ anonymousName) :
    s.Visits (.variable x) u ↔ s.find? x = some u := by
  simp [Visits, visited, follow?, hx]

/-- Resolving ends if it does from each variable. -/
theorem ends_of_names :
    (∀ t : Term, (∀ x ∈ t.allNames, s.Ends (.variable x)) → s.Ends t) ∧
      ∀ l : Literal, (∀ x ∈ l.allNames, s.Ends (.variable x)) → s.Ends (.literal l) := by
  apply Term.induction
  case sequence =>
    intro xs ih h
    refine ends_of_visited fun u hu => ih u hu fun x hx => h x ?_
    simp only [Term.allNames, Term.allNamesAll_eq, List.mem_flatMap]
    exact ⟨u, hu, hx⟩
  case mk =>
    intro f n xs notes ihargs ihnotes h
    simp only [Literal.allNames, Term.allNamesAll_eq, Literal.allNamesAll_eq, List.mem_append,
      List.mem_flatMap] at h
    refine ends_of_visited fun u hu => ?_
    rcases List.mem_append.1 hu with hu | hu
    · exact ihargs u hu fun x hx => h x (Or.inl ⟨u, hu, hx⟩)
    · obtain ⟨l, hl, rfl⟩ := List.mem_map.1 hu
      exact ihnotes l hl fun x hx => h x (Or.inr ⟨l, hl, hx⟩)
  case literal =>
    intro l ih h
    exact ih h
  case var =>
    intro x h
    by_cases hx : x = anonymousName
    · exact ends_of_visited (by simp [visited, follow?, hx])
    · exact h x (Term.mem_allNames_variable.2 ⟨hx, rfl⟩)
  case bound =>
    intro x v ih h
    refine ends_of_visited fun u hu => ?_
    obtain rfl := List.mem_singleton.1 hu
    exact ih h
  all_goals
    intro c _
    exact ends_of_visited (by simp [visited])

theorem Acyclic.ends_variable (hs : s.Acyclic) (x : String) : s.Ends (.variable x) := by
  induction x using hs.induction with
  | step x ih =>
      by_cases hx : x = anonymousName
      · exact ends_of_visited (by simp [visited, follow?, hx])
      · refine ends_of_visited fun u hu => ends_of_names.1 u fun y hy => ?_
        exact ih y ⟨u, (visits_variable_iff hx).1 hu, hy⟩

/-- Resolving comes to each name in a term. -/
theorem visits_of_mem_allNames :
    (∀ t : Term, x ∈ t.allNames → ReflTransGen s.Visits t (.variable x)) ∧
      ∀ l : Literal, x ∈ l.allNames → ReflTransGen s.Visits (.literal l) (.variable x) := by
  apply Term.induction
  case sequence =>
    intro xs ih hx
    simp only [Term.allNames, Term.allNamesAll_eq, List.mem_flatMap] at hx
    obtain ⟨u, hu, hx⟩ := hx
    exact .head hu (ih u hu hx)
  case mk =>
    intro f n xs notes ihargs ihnotes hx
    simp only [Literal.allNames, Term.allNamesAll_eq, Literal.allNamesAll_eq, List.mem_append,
      List.mem_flatMap] at hx
    rcases hx with ⟨u, hu, hx⟩ | ⟨l, hl, hx⟩
    · exact .head (List.mem_append_left _ hu) (ihargs u hu hx)
    · exact .head (List.mem_append_right _ (List.mem_map_of_mem hl)) (ihnotes l hl hx)
  case literal =>
    intro l ih hx
    exact ih hx
  case var =>
    intro y hx
    obtain ⟨_, rfl⟩ := Term.mem_allNames_variable.1 hx
    exact .refl
  case bound =>
    intro y v ih hx
    exact .head List.mem_cons_self (ih hx)
  all_goals
    intro c hx
    simp [Term.allNames] at hx

theorem visits_of_transGen (hx : x ≠ anonymousName) (h : TransGen s.DependsOn x y) :
    TransGen s.Visits (.variable x) (.variable y) := by
  induction h using TransGen.head_induction_on with
  | single hxy =>
      obtain ⟨t, ht, hy⟩ := hxy
      exact .head' ((visits_variable_iff hx).2 ht) (visits_of_mem_allNames.1 t hy)
  | head hxz _ ih =>
      obtain ⟨t, ht, hz⟩ := hxz
      have hstep := TransGen.head' ((visits_variable_iff hx).2 ht) (visits_of_mem_allNames.1 t hz)
      exact hstep.trans (ih (ne_anonymous_of_mem_allNames.1 t hz))

theorem Ends.not_transGen_self (h : s.Ends t) : ¬ TransGen s.Visits t t := by
  have hacc : Acc (TransGen fun u t => s.Visits t u) t := acc_transGen_iff.2 h
  clear h
  intro hcycle
  rw [← transGen_swap] at hcycle
  induction hacc with
  | intro t _ ih => exact ih t hcycle hcycle

/-- Resolving ends from every term if and only if no name depends on itself. -/
theorem acyclic_iff_ends : s.Acyclic ↔ ∀ t, s.Ends t := by
  constructor
  · intro hs t
    exact ends_of_names.1 t fun x _ => hs.ends_variable x
  · intro h x hcycle
    have hx : x ≠ anonymousName := by
      obtain ⟨y, _, t, _, hx⟩ := TransGen.tail'_iff.1 hcycle
      exact ne_anonymous_of_mem_allNames.1 t hx
    exact (h (.variable x)).not_transGen_self (visits_of_transGen hx hcycle)

/-! ### Assignments -/

/-- One variable stands for another. -/
def StandsFor (s : Substitution) (x y : String) : Prop :=
  s.find? x = some (.variable y) ∧ y ≠ anonymousName

theorem StandsFor.dependsOn (h : s.StandsFor x y) : s.DependsOn x y :=
  ⟨_, h.1, Term.mem_allNames_variable.2 ⟨h.2, rfl⟩⟩

theorem reflTransGen_aliasEnd (s : Substitution) (steps : Nat) (x : String) :
    ReflTransGen s.StandsFor x (s.aliasEnd steps x) := by
  induction steps generalizing x with
  | zero => exact .refl
  | succ steps ih =>
      unfold aliasEnd
      split
      · rename_i next hnext
        split
        · rename_i hother
          exact .head ⟨hnext, hother.1⟩ (ih next)
        · exact .refl
      · exact .refl

/-- The last name on the chain of variables that starts at `x`. -/
structure IsAliasEnd (s : Substitution) (x e : String) : Prop where
  chain : ReflTransGen s.StandsFor x e
  last : ∀ y, ¬ s.StandsFor e y

theorem aliasEnd_eq_self (h : ∀ y, ¬ s.StandsFor x y) (steps : Nat) : s.aliasEnd steps x = x := by
  cases steps with
  | zero => rfl
  | succ steps =>
      unfold aliasEnd
      split
      · rename_i next hnext
        have hnext : ¬ (next ≠ anonymousName ∧ next ≠ x) := fun hother => h next ⟨hnext, hother.1⟩
        rw [if_neg hnext]
      · rfl

/-- A chain is followed to its end in as many steps as there are bound names on the way. -/
theorem Acyclic.aliasEnd_eq_of_isAliasEnd (hs : s.Acyclic) (h : s.IsAliasEnd x y) {steps : Nat}
    (hsteps : (s.metFrom x).card ≤ steps) : s.aliasEnd steps x = y := by
  obtain ⟨hchain, hlast⟩ := h
  induction hchain using ReflTransGen.head_induction_on generalizing steps with
  | refl => exact aliasEnd_eq_self hlast steps
  | @head x z hxz _ ih =>
      have hlt := card_metFrom_lt (hs.settles x) hxz.dependsOn
      obtain ⟨steps, rfl⟩ : ∃ n, steps = n + 1 := ⟨steps - 1, by omega⟩
      have hne : z ≠ x := by
        rintro rfl
        exact hs z (.single hxz.dependsOn)
      simp only [aliasEnd, hxz.1, ne_eq, hxz.2, hne, not_false_eq_true, and_self, if_true]
      exact ih (by omega)

/-- A chain that ends in a variable without a value is followed to its end. -/
theorem Acyclic.aliasEnd_eq (hs : s.Acyclic) (h : ReflTransGen s.StandsFor x y)
    (hy : s.find? y = none) {steps : Nat} (hsteps : (s.metFrom x).card ≤ steps) :
    s.aliasEnd steps x = y := by
  refine hs.aliasEnd_eq_of_isAliasEnd ⟨h, fun z hz => ?_⟩ hsteps
  simp [StandsFor, hy] at hz

/-- No way leads on from a name without a value. -/
theorem eq_of_reflTransGen (hy : s.find? y = none) (h : ReflTransGen s.DependsOn y x) : y = x := by
  rcases ReflTransGen.cases_head h with rfl | ⟨z, ⟨t, ht, _⟩, _⟩
  · rfl
  · simp [hy] at ht

/-- If the variables of a value are not bound, the value must not have the variable that it is bound
to. -/
theorem Acyclic.bind_iff (hs : s.Acyclic) (ht : ∀ y ∈ t.allNames, s.find? y = none) :
    (s.bind x t).Acyclic ↔ x ∉ t.allNames := by
  constructor
  · intro hbind hx
    exact hbind x (.single ⟨t, by simp, hx⟩)
  · intro hx
    refine hs.bind fun y hy hyx => ?_
    obtain rfl := eq_of_reflTransGen (ht y hy) hyx
    exact hx hy

/-- An assignment keeps bindings acyclic unless the variable stands for one in the value. -/
theorem Acyclic.assign_iff (hs : s.Acyclic) (ht : ∀ y ∈ t.allNames, s.find? y = none) :
    (s.assign x t).Acyclic ↔ ¬ ∃ y ∈ t.allNames, ReflTransGen s.StandsFor x y := by
  rw [assign, hs.bind_iff ht, not_iff_not]
  constructor
  · intro hend
    exact ⟨_, hend, s.reflTransGen_aliasEnd _ x⟩
  · rintro ⟨y, hy, hxy⟩
    have hsteps := (s.card_metFrom_le x).trans (Nat.le_succ _)
    rwa [hs.aliasEnd_eq hxy (ht y hy) hsteps]

end Substitution
end Deliberation
