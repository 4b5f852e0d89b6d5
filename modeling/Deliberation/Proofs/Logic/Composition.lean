import Mathlib.Logic.Function.Iterate
import Deliberation.Proofs.Logic.Idempotence

/-!
Two substitutions as one.

Composing puts the bindings of two substitutions together, the first one's where both bind a name,
and resolves every value. If they are acyclic together, the composition does to every term what both
together do, in one look-up. Where no name is bound twice, this is also what resolving by the one
and then by the other comes to, round after round. A round may bring back names that the first
substitution binds, but each name that stays bound leads to fewer bound names than the one that it
came from, so the rounds come to an end.
-/

namespace Deliberation
namespace Substitution

open Relation

variable {s f g : Substitution} {t u : Term} {x y : String}

/-! ### Bindings put together -/

/-- The bindings of both; where both bind a name, the first one's value stays. -/
def union (f g : Substitution) : Substitution :=
  ⟨f.bindings.union g.bindings⟩

theorem find?_union (f g : Substitution) (x : String) :
    (f.union g).find? x = (f.find? x).or (g.find? x) :=
  SortedMap.find?_union f.bindings g.bindings x

theorem find?_union_eq_none_iff :
    (f.union g).find? x = none ↔ f.find? x = none ∧ g.find? x = none := by
  rw [find?_union, Option.or_eq_none_iff]

/-- The composition has the same names, with their values resolved. -/
theorem find?_compose (f g : Substitution) (x : String) :
    (f.compose g).find? x = (f.union g).value? x :=
  SortedMap.find?_mapValues _ (f.union g).bindings x

theorem find?_compose_eq_none_iff : (f.compose g).find? x = none ↔ (f.union g).find? x = none := by
  rw [find?_compose, value?, Option.map_eq_none_iff]

theorem size_compose (f g : Substitution) : (f.compose g).size = (f.union g).size :=
  List.length_map _

theorem Extends.dependsOn (h : s.Extends f) (hxy : f.DependsOn x y) : s.DependsOn x y := by
  obtain ⟨t, ht, hy⟩ := hxy
  exact ⟨t, h x t ht, hy⟩

theorem Extends.acyclic (h : s.Extends f) (hs : s.Acyclic) : f.Acyclic :=
  fun x hcycle => hs x (TransGen.mono (fun _ _ => h.dependsOn) x x hcycle)

/-! ### Composition -/

/-- A value in the composition has nothing left to resolve. -/
theorem resolved_of_find?_compose (h : (f.union g).Acyclic) (ht : (f.compose g).find? x = some t) :
    (f.union g).Resolved t := by
  rw [find?_compose, value?, Option.map_eq_some_iff] at ht
  obtain ⟨v, _, rfl⟩ := ht
  exact h.resolved_apply v

theorem apply_compose (h : (f.union g).Acyclic) (t : Term) :
    (f.compose g).apply t = (f.union g).apply t := by
  refine apply_congr fun x hx => ?_
  have hne := ne_anonymous_of_mem_allNames.1 t hx
  cases hv : (f.union g).find? x with
  | none =>
      rw [apply_variable_of_find?_eq_none hv,
        apply_variable_of_find?_eq_none (find?_compose_eq_none_iff.2 hv)]
  | some v =>
      have hcompose : (f.compose g).find? x = some ((f.union g).apply v) := by
        rw [find?_compose, value?, hv]
        rfl
      have hunion := resolved_of_find?_compose h hcompose
      have hresolved : (f.compose g).Resolved ((f.union g).apply v) :=
        ⟨hunion.bare, fun y hy => find?_compose_eq_none_iff.2 (hunion.free y hy)⟩
      rw [hresolved.apply_variable hne hcompose, apply_variable (h.settles x) hne hv]

/-! ### Resolving in turn -/

/-- The bindings of `s` are those of `f` and those of `g`. -/
structure Joins (s f g : Substitution) : Prop where
  left : s.Extends f
  right : s.Extends g
  only : ∀ x, f.find? x = none → g.find? x = none → s.find? x = none

theorem union_joins (h : ∀ x, f.find? x = none ∨ g.find? x = none) : (f.union g).Joins f g where
  left x t ht := by
    rw [find?_union, ht, Option.some_or]
  right x t ht := by
    have hf : f.find? x = none := (h x).resolve_right (by simp [ht])
    rw [find?_union, hf, ht, Option.none_or]
  only _ hf hg := find?_union_eq_none_iff.2 ⟨hf, hg⟩

/-- One round of resolving: by the first substitution, then by the second. -/
def alternate (f g : Substitution) (t : Term) : Term :=
  g.apply (f.apply t)

/-- What a term comes to is the same to bindings that extend those it was resolved by. -/
theorem Resolves.apply_eq (h : f.Resolves t u) (hext : s.Extends f) (hs : s.Acyclic) :
    s.apply u = s.apply t := by
  induction h with
  | atom | number | text | free => rfl
  | sequence k _ ih =>
      rw [apply_sequence, apply_sequence, List.map_map]
      exact congrArg _ (List.map_congr_left ih)
  | @literal l k m _ _ ihargs ihnotes =>
      have hargs : l.arguments.map (s.apply ∘ k) = l.arguments.map s.apply :=
        List.map_congr_left ihargs
      have hnotes : l.annotations.map (s.applyLiteral ∘ m) = l.annotations.map s.applyLiteral :=
        List.map_congr_left fun a ha => Term.literal.inj (ihnotes a ha)
      simp only [apply_literal, s.applyLiteral_eq l, applyLiteral_eq, List.map_map, hargs, hnotes]
  | step hfollow _ ih => exact ih.trans (apply_follow? hs hext hfollow).symm

theorem Extends.apply_apply (h : s.Extends f) (hs : s.Acyclic) (t : Term) :
    s.apply (f.apply t) = s.apply t :=
  ((h.acyclic hs).resolves_apply t).apply_eq h hs

theorem Joins.apply_iterate (h : s.Joins f g) (hs : s.Acyclic) (n : Nat) (t : Term) :
    s.apply ((f.alternate g)^[n] t) = s.apply t := by
  induction n with
  | zero => rfl
  | succ n ih =>
      rw [Function.iterate_succ_apply', alternate, h.right.apply_apply hs,
        h.left.apply_apply hs, ih]

/-- A name that is still bound after a round came in through a binding. -/
theorem Joins.exists_of_mem_alternate (h : s.Joins f g) (hs : s.Acyclic)
    (hy : y ∈ (f.alternate g t).allNames) :
    s.find? y = none ∨ ∃ x ∈ t.allNames, TransGen s.DependsOn x y := by
  have hf := h.left.acyclic hs
  have hg := h.right.acyclic hs
  obtain ⟨hgy, z, hz, hzy⟩ := mem_allNames_apply (fun x _ => hg.settles x) hy
  obtain ⟨hfz, x, hx, hxz⟩ := mem_allNames_apply (fun x _ => hf.settles x) hz
  have hzy := ReflTransGen.mono (fun _ _ => h.right.dependsOn) z y hzy
  have hxz := ReflTransGen.mono (fun _ _ => h.left.dependsOn) x z hxz
  -- only a name that neither of the two binds comes through a round without a step
  rcases reflTransGen_iff_eq_or_transGen.1 hxz with rfl | hxz
  · rcases reflTransGen_iff_eq_or_transGen.1 hzy with rfl | hzy
    · exact Or.inl (h.only y hfz hgy)
    · exact Or.inr ⟨z, hx, hzy⟩
  · exact Or.inr ⟨x, hx, hxz.trans_left hzy⟩

theorem card_metFrom_lt_of_transGen (hs : s.Acyclic) (h : TransGen s.DependsOn x y) :
    (s.metFrom y).card < (s.metFrom x).card := by
  induction h with
  | single hxy => exact card_metFrom_lt (hs.settles x) hxy
  | tail _ hyz ih => exact (card_metFrom_lt (hs.settles _) hyz).trans ih

/-- Each round lowers the number of bound names that a name leads to, as long as it is bound. -/
theorem Joins.card_metFrom_iterate (h : s.Joins f g) (hs : s.Acyclic) {n : Nat}
    (hy : y ∈ ((f.alternate g)^[n] t).allNames) :
    s.find? y = none ∨ (s.metFrom y).card + n ≤ s.size := by
  induction n generalizing y with
  | zero => exact Or.inr (s.card_metFrom_le y)
  | succ n ih =>
      rw [Function.iterate_succ_apply'] at hy
      rcases h.exists_of_mem_alternate hs hy with hfree | ⟨x, hx, hxy⟩
      · exact Or.inl hfree
      · have hlt := card_metFrom_lt_of_transGen hs hxy
        rcases ih hx with hfree | hle
        · obtain ⟨_, ⟨v, hv, _⟩, _⟩ := TransGen.head'_iff.1 hxy
          simp [hfree] at hv
        · exact Or.inr (by omega)

/-- More rounds than there are bindings leave nothing to resolve. -/
theorem Joins.iterate_eq (h : s.Joins f g) (hs : s.Acyclic) {n : Nat} (hn : s.size < n) (t : Term) :
    (f.alternate g)^[n] t = s.apply t := by
  have hresolved : s.Resolved ((f.alternate g)^[n] t) := by
    refine ⟨?_, fun y hy => ?_⟩
    · obtain ⟨m, rfl⟩ : ∃ m, n = m + 1 := ⟨n - 1, by omega⟩
      rw [Function.iterate_succ_apply']
      exact g.isBare_apply _
    · rcases h.card_metFrom_iterate hs hy with hfree | hle
      · exact hfree
      · omega
  rw [← hresolved.apply_eq, h.apply_iterate hs]

/-- Rounds that no longer change a term have resolved it. -/
theorem Joins.eq_apply_of_stop (h : s.Joins f g) (hs : s.Acyclic) {n : Nat}
    (hstop : f.alternate g ((f.alternate g)^[n] t) = (f.alternate g)^[n] t) :
    (f.alternate g)^[n] t = s.apply t := by
  have hfixed := Function.iterate_fixed hstop (s.size + 1)
  rw [h.iterate_eq hs (Nat.lt_succ_self _), h.apply_iterate hs] at hfixed
  exact hfixed.symm

/-- If two substitutions are acyclic together, no value in their composition has anything left that
either of them would resolve, and the composition resolves every term as both together do. If no
name is bound by both, that is where rounds of the first and the second come to a stop, and they do
come to a stop. -/
theorem compose_agrees (h : (f.union g).Acyclic) :
    (∀ x t, (f.compose g).find? x = some t → f.Resolved t ∧ g.Resolved t) ∧
    (∀ t, (f.compose g).apply t = (f.union g).apply t) ∧
    ((∀ x, f.find? x = none ∨ g.find? x = none) → ∀ t,
      (∃ n ≤ (f.compose g).size + 1,
        f.alternate g ((f.alternate g)^[n] t) = (f.alternate g)^[n] t) ∧
      ∀ n, f.alternate g ((f.alternate g)^[n] t) = (f.alternate g)^[n] t →
        (f.alternate g)^[n] t = (f.compose g).apply t) := by
  refine ⟨fun x t ht => ?_, apply_compose h, fun hapart t => ⟨?_, fun n hstop => ?_⟩⟩
  · obtain ⟨hbare, hfree⟩ := resolved_of_find?_compose h ht
    exact ⟨⟨hbare, fun y hy => (find?_union_eq_none_iff.1 (hfree y hy)).1⟩,
      ⟨hbare, fun y hy => (find?_union_eq_none_iff.1 (hfree y hy)).2⟩⟩
  · have hrounds {n : Nat} := (union_joins hapart).iterate_eq h (n := n)
    refine ⟨(f.compose g).size + 1, Nat.le_refl _, ?_⟩
    rw [← Function.iterate_succ_apply' (f.alternate g), size_compose, hrounds (by omega),
      hrounds (by omega)]
  · rw [apply_compose h]
    exact (union_joins hapart).eq_apply_of_stop h hstop

/-- `X` is bound to `[Y, Z]` and `W` to `one` by the first, `Y` to `p(W)` and `Z` to `W` by the
second. After one round the names that came in are bound by the first again. -/
theorem compose_agrees_two_rounds :
    let p (t : Term) := Term.literal (Literal.of "p" [t])
    let f := ofList [("X", .sequence [.variable "Y", .variable "Z"]), ("W", .atom "one")]
    let g := ofList [("Y", p (.variable "W")), ("Z", .variable "W")]
    f.alternate g (.variable "X") = .sequence [p (.variable "W"), .variable "W"] ∧
      (f.alternate g)^[2] (.variable "X") = (f.compose g).apply (.variable "X") ∧
      (f.compose g).find? "X" = some (.sequence [p (.atom "one"), .atom "one"]) ∧
      g.Resolved (.sequence [p (.atom "one"), .atom "one"]) := by
  intro p f g
  have hunion : (f.union g).Acyclic := by
    refine acyclic_of_rank (fun x => if x = "X" then 3 else if x = "Y" ∨ x = "Z" then 2 else
      if x = "W" then 1 else 0) ?_
    decide +kernel
  have hapart (x : String) : f.find? x = none ∨ g.find? x = none := by
    have hall : ∀ b ∈ f.toList, (g.find? b.1).isNone = true := by decide +kernel
    cases hx : f.find? x with
    | none => exact Or.inl rfl
    | some t => exact Or.inr (Option.isNone_iff_eq_none.1 (hall (x, t) (find?_eq_some_iff.1 hx)))
  have hX : (f.compose g).find? "X" = some (.sequence [p (.atom "one"), .atom "one"]) := by
    simp only [f, g, p]
    rfl
  have hround : f.alternate g (.variable "X") = .sequence [p (.variable "W"), .variable "W"] := by
    simp only [f, g, p]
    rfl
  have hstop : f.alternate g ((f.alternate g)^[2] (.variable "X")) =
      (f.alternate g)^[2] (.variable "X") := by
    simp only [f, g, p]
    rfl
  obtain ⟨hvalues, _, hrounds⟩ := compose_agrees hunion
  exact ⟨hround, (hrounds hapart _).2 2 hstop, hX, (hvalues "X" _ hX).2⟩

end Substitution
end Deliberation
