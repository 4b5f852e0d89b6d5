import Mathlib.Data.Finset.Card
import Mathlib.Logic.Relation
import Deliberation.Proofs.Logic.Names
import Deliberation.Proofs.SortedMap

/-!
Resolving variables through bindings.

A name depends on the names in its value. Bindings are acyclic if no name depends on itself, through
however many others; a name settles if no circle is met from it. Each bound name is met at most once
on the way from a name that settles, so `Substitution.apply` resolves it through and through: the
value of a variable is the applied value of what it is bound to, and no bound variable is left.
-/

namespace Deliberation
namespace Substitution

open Relation

variable {s s' : Substitution} {x y z : String} {t : Term}

/-- The names in the value of a name. -/
def DependsOn (s : Substitution) (x y : String) : Prop :=
  ∃ t, s.find? x = some t ∧ y ∈ t.allNames

/-- No name depends on itself. -/
def Acyclic (s : Substitution) : Prop :=
  ∀ x, ¬ TransGen s.DependsOn x x

/-- No name that depends on itself is met from `x`. -/
def Settles (s : Substitution) (x : String) : Prop :=
  ∀ y, ReflTransGen s.DependsOn x y → ¬ TransGen s.DependsOn y y

theorem find?_eq_some_iff : s.find? x = some t ↔ (x, t) ∈ s.toList :=
  SortedMap.find?_eq_some_iff

/-- Bindings whose values only have names of lower rank are acyclic. -/
theorem acyclic_of_rank (rank : String → Nat)
    (h : ∀ b ∈ s.toList, ∀ y ∈ b.2.allNames, rank y < rank b.1) : s.Acyclic := by
  have hstep (x y : String) (hxy : s.DependsOn x y) : rank y < rank x := by
    obtain ⟨t, ht, hy⟩ := hxy
    exact h (x, t) (find?_eq_some_iff.1 ht) y hy
  intro x hcycle
  have hlt (y : String) (hy : TransGen s.DependsOn x y) : rank y < rank x := by
    induction hy with
    | single hxy => exact hstep _ _ hxy
    | tail _ hyz ih => exact (hstep _ _ hyz).trans ih
  exact (hlt x hcycle).false

theorem Acyclic.settles (h : s.Acyclic) (x : String) : s.Settles x :=
  fun y _ => h y

theorem Settles.dependsOn (h : s.Settles x) (hxy : s.DependsOn x y) : s.Settles y :=
  fun z hz => h z (ReflTransGen.head hxy hz)

/-- A name whose value has no bound names settles. -/
theorem settles_of_dead_end (h : ∀ y, s.DependsOn x y → s.find? y = none) : s.Settles x := by
  have hnone (y : String) (hxy : TransGen s.DependsOn x y) : s.find? y = none := by
    induction hxy with
    | single hxz => exact h _ hxz
    | tail _ hyz ih =>
        obtain ⟨t, ht, _⟩ := hyz
        simp [ih] at ht
  intro y hy hcycle
  have hbound : s.find? y ≠ none := by
    obtain ⟨z, ⟨t, ht, _⟩, _⟩ := TransGen.head'_iff.1 hcycle
    simp [ht]
  rcases Relation.reflTransGen_iff_eq_or_transGen.1 hy with rfl | hxy
  · exact hbound (hnone _ hcycle)
  · exact hbound (hnone _ hxy)

/-! ### The names that are met from a name -/

open Classical in
/-- The bound names that are met from a name, itself included. -/
noncomputable def metFrom (s : Substitution) (x : String) : Finset String :=
  {y ∈ (s.toList.map Prod.fst).toFinset | ReflTransGen s.DependsOn x y}

theorem mem_metFrom :
    y ∈ s.metFrom x ↔ (∃ t, s.find? y = some t) ∧ ReflTransGen s.DependsOn x y := by
  simp only [metFrom, Finset.mem_filter, List.mem_toFinset]
  exact and_congr_left fun _ => SortedMap.mem_keys_iff

theorem card_metFrom_le (s : Substitution) (x : String) : (s.metFrom x).card ≤ s.size := by
  classical
  refine (Finset.card_filter_le _ _).trans ?_
  refine (List.toFinset_card_le _).trans ?_
  rw [List.length_map]
  exact Nat.le_refl _

theorem card_metFrom_pos (h : s.find? x = some t) : 0 < (s.metFrom x).card :=
  Finset.card_pos.2 ⟨x, mem_metFrom.2 ⟨⟨t, h⟩, ReflTransGen.refl⟩⟩

theorem card_metFrom_lt (h : s.Settles x) (hxy : s.DependsOn x y) :
    (s.metFrom y).card < (s.metFrom x).card := by
  have hsub : s.metFrom y ⊆ s.metFrom x := by
    intro z hz
    rw [mem_metFrom] at hz ⊢
    exact ⟨hz.1, ReflTransGen.head hxy hz.2⟩
  refine Finset.card_lt_card ((Finset.ssubset_iff_of_subset hsub).2 ⟨x, ?_, ?_⟩)
  · obtain ⟨t, ht, _⟩ := hxy
    exact mem_metFrom.2 ⟨⟨t, ht⟩, ReflTransGen.refl⟩
  · -- a way back from `y` to `x` would close a circle
    intro hx
    exact h x ReflTransGen.refl (TransGen.head' hxy (mem_metFrom.1 hx).2)

/-- What follows for a name from the names in its value holds of every name that settles: on the way
from one to the other there are fewer and fewer bound names to meet. -/
theorem Settles.induction {P : String → Prop} (h : s.Settles x)
    (step : ∀ x, s.Settles x → (∀ y, s.DependsOn x y → P y) → P x) : P x := by
  induction hd : (s.metFrom x).card using Nat.strong_induction_on generalizing x with
  | h d ih =>
      refine step x h fun y hxy => ?_
      exact ih _ (hd ▸ card_metFrom_lt h hxy) (h.dependsOn hxy) rfl

theorem Acyclic.induction {P : String → Prop} (hs : s.Acyclic)
    (step : ∀ x, (∀ y, s.DependsOn x y → P y) → P x) (x : String) : P x :=
  (hs.settles x).induction fun x _ => step x

/-! ### Application -/

theorem resolve?_of_find?_eq_none (h : s.find? x = none) (depth : Nat) :
    s.resolve? depth x = none := by
  cases depth with
  | zero => rfl
  | succ depth => simp [resolve?, h]

/-- As many look-ups as there are bound names on the way resolve a name for good. -/
theorem resolve?_eq (h : s.Settles x) {d e : Nat} (hd : (s.metFrom x).card ≤ d)
    (he : (s.metFrom x).card ≤ e) : s.resolve? d x = s.resolve? e x := by
  induction d generalizing x e with
  | zero =>
      cases ht : s.find? x with
      | none => rw [resolve?_of_find?_eq_none ht, resolve?_of_find?_eq_none ht]
      | some t => exact absurd (card_metFrom_pos ht) (Nat.not_lt.2 hd)
  | succ d ih =>
      cases ht : s.find? x with
      | none => rw [resolve?_of_find?_eq_none ht, resolve?_of_find?_eq_none ht]
      | some t =>
          have hpos := card_metFrom_pos ht
          obtain ⟨e, rfl⟩ : ∃ e', e = e' + 1 := ⟨e - 1, by omega⟩
          simp only [resolve?, ht, Option.map_some, Option.some.injEq]
          refine replace_congr.1 t fun y hy => ?_
          have hxy : s.DependsOn x y := ⟨t, ht, hy⟩
          have hlt := card_metFrom_lt h hxy
          have heq : s.resolve? d y = s.resolve? e y :=
            ih (h.dependsOn hxy) (by omega) (by omega)
          rw [imageOf, imageOf, heq]

theorem resolve?_size (h : s.Settles x) : s.resolve? s.size x = (s.find? x).map s.apply := by
  have hle := s.card_metFrom_le x
  rw [resolve?_eq h hle (hle.trans (Nat.le_succ _))]
  rfl

/-- No carried value is left where a name was resolved, however far. -/
theorem isBare_resolve? (s : Substitution) (depth : Nat) (x : String) :
    (imageOf (s.resolve? depth) x).isBare = true := by
  induction depth generalizing x with
  | zero => rfl
  | succ depth ih =>
      cases ht : s.find? x with
      | none =>
          rw [imageOf, resolve?_of_find?_eq_none ht]
          rfl
      | some t =>
          simp only [imageOf, resolve?, ht, Option.map_some, Option.getD_some]
          exact isBare_replace.1 t fun y _ => ih y

theorem isBare_apply (s : Substitution) (t : Term) : (s.apply t).isBare = true :=
  isBare_replace.1 t fun x _ => s.isBare_resolve? _ x

theorem isBare_applyLiteral (s : Substitution) (l : Literal) : (s.applyLiteral l).isBare = true :=
  isBare_replace.2 l fun x _ => s.isBare_resolve? _ x

/-- A bound variable stands for what it is bound to. -/
theorem apply_variable (h : s.Settles x) (hx : x ≠ anonymousName) (ht : s.find? x = some t) :
    s.apply (.variable x) = s.apply t := by
  rw [apply, Term.replace_variable _ hx, imageOf, resolve?_size h, ht]
  rfl

theorem apply_variable_of_find?_eq_none (ht : s.find? x = none) :
    s.apply (.variable x) = .variable x := by
  by_cases hx : x = anonymousName
  · simp [apply, Term.replace, hx]
  · rw [apply, Term.replace_variable _ hx, imageOf, resolve?_of_find?_eq_none ht]
    rfl

@[simp] theorem apply_bound (s : Substitution) (x : String) (v : Term) :
    s.apply (.bound x v) = s.apply v := rfl

@[simp] theorem apply_sequence (s : Substitution) (xs : List Term) :
    s.apply (.sequence xs) = .sequence (xs.map s.apply) := by
  simp only [apply, Term.replace, Term.replaceAll_eq]
  rfl

@[simp] theorem apply_literal (s : Substitution) (l : Literal) :
    s.apply (.literal l) = .literal (s.applyLiteral l) := rfl

@[simp] theorem arguments_applyLiteral (s : Substitution) (l : Literal) :
    (s.applyLiteral l).arguments = l.arguments.map s.apply := by
  cases l
  simp only [applyLiteral, Literal.replace, Term.replaceAll_eq]
  rfl

@[simp] theorem functor_applyLiteral (s : Substitution) (l : Literal) :
    (s.applyLiteral l).functor = l.functor := by
  cases l
  rfl

@[simp] theorem negated_applyLiteral (s : Substitution) (l : Literal) :
    (s.applyLiteral l).negated = l.negated := by
  cases l
  rfl

/-- What is left of a name after resolving it is not bound, and was met from it. -/
theorem mem_allNames_resolve (h : s.Settles x) (hx : x ≠ anonymousName)
    (hy : y ∈ (s.apply (.variable x)).allNames) :
    s.find? y = none ∧ ReflTransGen s.DependsOn x y := by
  revert hx hy
  apply h.induction
  intro x h ih hx hy
  cases ht : s.find? x with
  | none =>
      rw [apply_variable_of_find?_eq_none ht, Term.mem_allNames_variable] at hy
      obtain ⟨_, rfl⟩ := hy
      exact ⟨ht, ReflTransGen.refl⟩
  | some t =>
      rw [apply_variable h hx ht, apply, (mem_allNames_replace _ y).1 t] at hy
      obtain ⟨z, hz, hy⟩ := hy
      have hxz : s.DependsOn x z := ⟨t, ht, hz⟩
      have hz' : z ≠ anonymousName := ne_anonymous_of_mem_allNames.1 t hz
      have hstep := ih z hxz hz' (by rw [apply, Term.replace_variable _ hz']; exact hy)
      exact ⟨hstep.1, ReflTransGen.head hxz hstep.2⟩

/-- The names after an application are not bound, and each was met from a name of the term. -/
theorem mem_allNames_apply (h : ∀ x ∈ t.allNames, s.Settles x) (hy : y ∈ (s.apply t).allNames) :
    s.find? y = none ∧ ∃ x ∈ t.allNames, ReflTransGen s.DependsOn x y := by
  rw [apply, (mem_allNames_replace _ y).1 t] at hy
  obtain ⟨x, hx, hy⟩ := hy
  have hne := ne_anonymous_of_mem_allNames.1 t hx
  rw [← Term.replace_variable _ hne] at hy
  obtain ⟨hfree, hmet⟩ := mem_allNames_resolve (h x hx) hne hy
  exact ⟨hfree, x, hx, hmet⟩

/-- After an application no bound variable is left. -/
theorem find?_of_mem_allNames_apply (h : ∀ x ∈ t.allNames, s.Settles x)
    (hy : y ∈ (s.apply t).allNames) : s.find? y = none :=
  (mem_allNames_apply h hy).1

end Substitution
end Deliberation
