import Deliberation.Proofs.Logic.Equality
import Deliberation.Proofs.Logic.Instance

/-!
Bindings that refine others.

Bindings `t` refine bindings `s` if resolving by `t` makes every name that `s` binds equal to its
value. Then it makes no difference to `t` whether a term was resolved by `s` before, and on the way
from a name to the names in its value the terms that `t` puts in do not grow. The second fact is
what keeps circles out: a name cannot stand inside a term that has to become equal to it.
-/

namespace Deliberation

/-! ### Sizes after a replacement -/

/-- What is put in the place of a name is not larger than the whole. -/
theorem size_imageOf_le (σ : String → Option Term) (x : String) :
    (∀ t : Term, x ∈ t.names → (imageOf σ x).size ≤ (t.replace σ).size) ∧
      ∀ l : Literal, x ∈ l.names → (imageOf σ x).size ≤ (l.replace σ).size := by
  have hall (xs : List Term) (ih : ∀ t ∈ xs, x ∈ t.names → (imageOf σ x).size ≤ (t.replace σ).size)
      (hx : ∃ t ∈ xs, x ∈ t.names) :
      (imageOf σ x).size ≤ Term.sizeAll (xs.map (Term.replace σ)) := by
    obtain ⟨t, ht, hx⟩ := hx
    exact (ih t ht hx).trans (Term.size_le_sizeAll (List.mem_map_of_mem ht))
  apply Term.induction
  case sequence =>
    intro xs ih hx
    simp only [Term.names, Term.namesAll_eq, List.mem_flatMap] at hx
    simp only [Term.replace, Term.replaceAll_eq, Term.size]
    exact (hall xs ih hx).trans (Nat.le_succ _)
  case literal =>
    intro l ih hx
    simp only [Term.replace, Term.size]
    exact (ih hx).trans (Nat.le_succ _)
  case var =>
    intro y hx
    by_cases hy : y = anonymousName
    · simp [Term.names, hy] at hx
    · obtain rfl : x = y := by simpa [Term.names, hy] using hx
      rw [Term.replace_variable σ hy]
  case bound =>
    intro _ v ih hx
    exact ih hx
  case mk =>
    intro f n xs notes ih _ hx
    simp only [Literal.names, Term.namesAll_eq, List.mem_flatMap] at hx
    simp only [Literal.replace, Term.replaceAll_eq, Literal.size]
    exact hall xs ih hx
  all_goals simp [Term.names]

namespace Substitution

open Relation

variable {s t : Substitution} {a b u v : Term} {x y : String}

/-- Resolving by `t` makes every name that `s` binds equal to its value. -/
def Refines (t s : Substitution) : Prop :=
  ∀ x v, s.find? x = some v → (t.apply (.variable x) == t.apply v) = true

/-- No value has a variable in an annotation. -/
def Noteless (s : Substitution) : Prop :=
  ∀ x v, s.find? x = some v → v.noteNames = []

theorem Refines.bind (h : t.Refines s) (hx : (t.apply (.variable x) == t.apply v) = true) :
    t.Refines (s.bind x v) := by
  intro y u hy
  rw [find?_bind] at hy
  split at hy
  · rename_i heq
    obtain rfl := Option.some.inj hy
    rw [heq]
    exact hx
  · exact h y u hy

/-- A step of resolving leads to a term that becomes equal. -/
theorem Refines.follow? (h : t.Refines s) (ha : s.follow? a = some v) :
    (t.apply a == t.apply v) = true := by
  cases a with
  | bound x w =>
      obtain rfl : w = v := by simpa [Substitution.follow?] using ha
      exact BEq.rfl
  | «variable» x =>
      simp only [Substitution.follow?] at ha
      split at ha
      · simp at ha
      · exact h x v ha
  | _ => simp [Substitution.follow?] at ha

/-! ### Resolving twice -/

theorem imageOf_resolve?_size (s : Substitution) (hx : x ≠ anonymousName) :
    imageOf (s.resolve? s.size) x = s.apply (.variable x) :=
  (Term.replace_variable _ hx).symm

/-- It is enough to look at the names of a term. -/
theorem beq_apply_apply
    (h : ∀ x ∈ u.names, (t.apply (s.apply (.variable x)) == t.apply (.variable x)) = true) :
    (t.apply (s.apply u) == t.apply u) = true := by
  rw [apply, apply, (replace_replace _ _).1 u]
  refine beq_replace.1 u fun x hx => ?_
  have hne := ne_anonymous_of_mem_allNames.1 u (u.names_subset hx)
  rw [imageOf_resolve?_size t hne]
  simp only [imageOf, Option.getD_some]
  rw [← imageOf, imageOf_resolve?_size s hne]
  exact h x hx

/-- Bindings that refine others absorb them. -/
theorem Refines.apply_apply (h : t.Refines s) (hs : s.Acyclic) (u : Term) :
    (t.apply (s.apply u) == t.apply u) = true := by
  -- a name stands for what its value does
  have hvar (x : String) (hx : x ≠ anonymousName) :
      (t.apply (s.apply (.variable x)) == t.apply (.variable x)) = true := by
    induction x using hs.induction with
    | step x ih =>
        cases hv : s.find? x with
        | none =>
            rw [apply_variable_of_find?_eq_none hv]
            exact BEq.rfl
        | some v =>
            rw [apply_variable (hs.settles x) hx hv]
            refine BEq.trans (beq_apply_apply fun y hy => ?_) (BEq.symm (h x v hv))
            have hy := v.names_subset hy
            exact ih y ⟨v, hv, hy⟩ (ne_anonymous_of_mem_allNames.1 v hy)
  exact beq_apply_apply fun x hx => hvar x (ne_anonymous_of_mem_allNames.1 u (u.names_subset hx))

/-! ### Circles -/

/-- From a name to one in its value, what is put in does not grow. -/
theorem Refines.size_le (h : t.Refines s) (hnotes : s.Noteless)
    (hxy : ReflTransGen s.DependsOn x y) :
    (t.apply (.variable y)).size ≤ (t.apply (.variable x)).size := by
  induction hxy with
  | refl => exact Nat.le_refl _
  | @tail y z _ hyz ih =>
      obtain ⟨v, hv, hz⟩ := hyz
      have hname : z ∈ v.names := by
        rcases (mem_allNames_iff.1 v z).1 hz with hz | hz
        · exact hz
        · simp [hnotes y v hv] at hz
      have hle := (size_imageOf_le (t.resolve? t.size) z).1 v hname
      rw [imageOf_resolve?_size t (ne_anonymous_of_mem_allNames.1 v hz)] at hle
      calc (t.apply (.variable z)).size
        _ ≤ (t.apply v).size := hle
        _ = (t.apply (.variable y)).size := (size_eq_of_beq.1 _ _ (h y v hv)).symm
        _ ≤ (t.apply (.variable x)).size := ih

theorem dependsOn_bind_of_ne (hy : y ≠ x) {z : String} :
    (s.bind x v).DependsOn y z ↔ s.DependsOn y z := by
  simp [DependsOn, find?_bind, hy]

/-- A way through the bindings with one more meets the new name, or was there before. -/
theorem transGen_of_bind {w : String} (h : TransGen (s.bind x v).DependsOn y w) :
    TransGen s.DependsOn y w ∨
      ReflTransGen s.DependsOn y x ∧ TransGen (s.bind x v).DependsOn x w := by
  induction h using TransGen.head_induction_on with
  | @single y hyw =>
      by_cases hy : y = x
      · subst hy
        exact Or.inr ⟨.refl, .single hyw⟩
      · exact Or.inl (.single ((dependsOn_bind_of_ne hy).1 hyw))
  | @head y z hyz hzw ih =>
      by_cases hy : y = x
      · subst hy
        exact Or.inr ⟨.refl, .head hyz hzw⟩
      · have hyz := (dependsOn_bind_of_ne hy).1 hyz
        rcases ih with hold | ⟨hzx, hxw⟩
        · exact Or.inl (.head hyz hold)
        · exact Or.inr ⟨.head hyz hzx, hxw⟩

/-- A new binding closes no circle if its value does not lead to the name. -/
theorem Acyclic.bind (hs : s.Acyclic) (hv : ∀ y ∈ v.allNames, ¬ ReflTransGen s.DependsOn y x) :
    (s.bind x v).Acyclic := by
  -- from `x` on, the first step is the new one, and from there no way leads back
  have hback (w : String) (hxw : TransGen (s.bind x v).DependsOn x w) :
      ¬ ReflTransGen s.DependsOn w x := by
    intro hwx
    obtain ⟨z, ⟨u, hu, hz⟩, hzw⟩ := TransGen.head'_iff.1 hxw
    obtain rfl : v = u := by simpa using hu
    rcases reflTransGen_iff_eq_or_transGen.1 hzw with rfl | hzw
    · exact hv _ hz hwx
    · rcases transGen_of_bind hzw with hold | ⟨hzx, _⟩
      · exact hv z hz (hold.to_reflTransGen.trans hwx)
      · exact hv z hz hzx
  intro y hcycle
  rcases transGen_of_bind hcycle with hold | ⟨hyx, hxy⟩
  · exact hs y hold
  · exact hback y hxy hyx

end Substitution
end Deliberation
