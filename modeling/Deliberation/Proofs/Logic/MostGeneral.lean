import Mathlib.Algebra.BigOperators.Group.List.Basic
import Mathlib.Tactic.GCongr
import Mathlib.Tactic.Ring
import Deliberation.Proofs.Logic.Refinement

/-!
Unification finds a most general unifier.

If some acyclic bindings refine the ones that are there and make two terms equal, then unification
comes to an end with bindings through which all of them factor. There is no check for circles, and
none is needed: what a name is bound to has to become equal to it, so it cannot lead back to the
name.

All terms that are met are parts of the two terms and of the values at the start. A step of
resolving stays among the parts that become equal, and on a chain of such steps no part comes twice;
a step into the arguments leads to parts that become smaller. So no comparison is nested deeper than
`Unification.depthBound` allows.
-/

namespace Deliberation

/-! ### Parts of terms -/

/-- The terms that a term is made of, annotations apart. -/
def Term.children : Term → List Term
  | .sequence xs => xs
  | .literal l => l.arguments
  | .bound _ v => [v]
  | .atom _ | .number _ | .text _ | .variable _ => []

mutual

/-- A term, what it is made of, and so on; annotations do not count. -/
def Term.parts : Term → List Term
  | .sequence xs => .sequence xs :: Term.partsAll xs
  | .literal l => .literal l :: Literal.parts l
  | .bound x v => .bound x v :: Term.parts v
  | .atom name => [.atom name]
  | .number x => [.number x]
  | .text content => [.text content]
  | .variable x => [.variable x]

def Term.partsAll : List Term → List Term
  | [] => []
  | x :: xs => Term.parts x ++ Term.partsAll xs

/-- The parts of a literal's arguments. -/
def Literal.parts : Literal → List Term
  | ⟨_, _, xs, _⟩ => Term.partsAll xs

end

theorem Term.partsAll_eq (xs : List Term) : Term.partsAll xs = xs.flatMap Term.parts := by
  induction xs with
  | nil => rfl
  | cons x xs ih => simp [Term.partsAll, ih]

theorem Literal.parts_eq (l : Literal) : l.parts = l.arguments.flatMap Term.parts := by
  cases l
  exact Term.partsAll_eq _

theorem Literal.size_eq (l : Literal) : l.size = Term.sizeAll l.arguments := by
  cases l
  rfl

theorem Term.sizeAll_eq (xs : List Term) : Term.sizeAll xs = (xs.map Term.size).sum := by
  induction xs with
  | nil => rfl
  | cons x xs ih => simp [Term.sizeAll, ih]

theorem Term.parts_eq (t : Term) : t.parts = t :: t.children.flatMap Term.parts := by
  cases t <;> simp [Term.parts, Term.children, Term.partsAll_eq, Literal.parts_eq]

theorem Term.size_eq (t : Term) : t.size = (t.children.map Term.size).sum + 1 := by
  cases t <;> simp [Term.size, Term.children, Term.sizeAll_eq, Literal.size_eq]

/-- What holds of a term if it holds of its children holds of every term. -/
theorem Term.children_induction {P : Term → Prop}
    (h : ∀ t, (∀ u ∈ t.children, P u) → P t) (t : Term) : P t := by
  suffices hboth : (∀ t, P t) ∧ ∀ l : Literal, ∀ u ∈ l.arguments, P u from hboth.1 t
  apply Term.induction
  case sequence =>
    intro xs ih
    exact h _ ih
  case literal =>
    intro l ih
    exact h _ ih
  case bound =>
    intro x v ih
    exact h _ (by simpa [Term.children] using ih)
  case mk =>
    intro f n xs notes ih _
    exact ih
  all_goals
    intro content
    exact h _ (by simp [Term.children])

theorem Term.length_parts (t : Term) : t.parts.length = t.size := by
  induction t using Term.children_induction with
  | h t ih =>
      rw [Term.parts_eq, Term.size_eq, List.length_cons, List.length_flatMap,
        List.map_congr_left ih]

theorem Term.self_mem_parts (t : Term) : t ∈ t.parts := by
  rw [Term.parts_eq]
  exact List.mem_cons_self

/-- What the children of a term inherit holds of all its parts. -/
theorem Term.forall_mem_parts {P : Term → Prop} (hP : ∀ t, P t → ∀ u ∈ t.children, P u) {t : Term}
    (ht : P t) : ∀ u ∈ t.parts, P u := by
  induction t using Term.children_induction with
  | h t ih =>
      rw [Term.parts_eq, List.forall_mem_cons]
      refine ⟨ht, fun u hu => ?_⟩
      obtain ⟨c, hc, hu⟩ := List.mem_flatMap.1 hu
      exact ih c hc (hP t ht c hc) u hu

theorem Term.children_mem_parts {t u : Term} (hu : u ∈ t.parts) :
    ∀ c ∈ u.children, c ∈ t.parts := by
  induction t using Term.children_induction with
  | h t ih =>
      intro c hc
      rw [Term.parts_eq, List.mem_cons, List.mem_flatMap] at hu ⊢
      rcases hu with rfl | ⟨d, hd, hu⟩
      · exact Or.inr ⟨c, hc, c.self_mem_parts⟩
      · exact Or.inr ⟨d, hd, ih d hd hu c hc⟩

theorem Term.isNamed_children {t : Term} (ht : t.isNamed = true) :
    ∀ u ∈ t.children, u.isNamed = true := by
  cases t <;> simp_all [Term.isNamed, Term.children]

theorem Term.noteNames_children {t : Term} (ht : t.noteNames = []) :
    ∀ u ∈ t.children, u.noteNames = [] := by
  cases t with
  | literal l =>
      obtain ⟨f, n, xs, notes⟩ := l
      simp only [Term.noteNames, Literal.noteNames, Term.noteNamesAll_eq, List.append_eq_nil_iff,
        List.flatMap_eq_nil_iff] at ht
      exact ht.1
  | _ => simp_all [Term.noteNames, Term.children]

/-- A name stands in a child, unless the term is the variable. -/
theorem Term.mem_names_children {t : Term} {x : String} (ht : t ≠ .variable x)
    (hx : x ∈ t.names) : ∃ u ∈ t.children, x ∈ u.names := by
  cases t with
  | literal l =>
      obtain ⟨f, n, xs, notes⟩ := l
      simpa [Term.names, Literal.names, Term.children] using hx
  | «variable» y =>
      by_cases hy : y = anonymousName
      · simp [Term.names, hy] at hx
      · simp only [Term.names, hy, ↓reduceIte, List.mem_singleton] at hx
        exact absurd (congrArg Term.variable hx.symm) ht
  | sequence xs => simpa [Term.names, Term.children] using hx
  | bound y v => simpa [Term.names, Term.children] using hx
  | _ => simp [Term.names] at hx

namespace Unification

open Relation

variable {s s' t : Substitution} {a b c v w : Term} {x : String} {depth : Nat}

/-! ### Chains of steps -/

/-- A step of resolving. -/
def Follows (s : Substitution) (a v : Term) : Prop :=
  s.follow? a = some v

/-- Steps of resolving only take carried values off, or they lead from one name to others. -/
theorem names_of_follows (h : TransGen (Follows s) a v) :
    (v.allNames = a.allNames ∧ v.size < a.size) ∨
      ∃ x, a.allNames = [x] ∧ ∀ y ∈ v.allNames, TransGen s.DependsOn x y := by
  have hstep {a v : Term} (h : Follows s a v) :
      (v.allNames = a.allNames ∧ v.size < a.size) ∨
        ∃ x, a.allNames = [x] ∧ ∀ y ∈ v.allNames, s.DependsOn x y := by
    cases a with
    | bound x w =>
        obtain rfl : w = v := by simpa [Follows, Substitution.follow?] using h
        exact Or.inl ⟨rfl, by simp [Term.size]⟩
    | «variable» x =>
        simp only [Follows, Substitution.follow?] at h
        split at h
        · simp at h
        · rename_i hx
          exact Or.inr ⟨x, by simp [Term.allNames, hx], fun y hy => ⟨v, h, hy⟩⟩
    | _ => simp [Follows, Substitution.follow?] at h
  induction h with
  | single hav =>
      rcases hstep hav with hcarried | ⟨x, hx, hv⟩
      · exact Or.inl hcarried
      · exact Or.inr ⟨x, hx, fun y hy => .single (hv y hy)⟩
  | tail _ hvw ih =>
      rcases ih with ⟨hnames, hsize⟩ | ⟨x, hx, hv⟩
      · rcases hstep hvw with ⟨hnames', hsize'⟩ | ⟨z, hz, hw⟩
        · exact Or.inl ⟨hnames'.trans hnames, hsize'.trans hsize⟩
        · exact Or.inr ⟨z, hnames.symm.trans hz, fun y hy => .single (hw y hy)⟩
      · refine Or.inr ⟨x, hx, fun y hy => ?_⟩
        rcases hstep hvw with ⟨hnames', _⟩ | ⟨z, hz, hw⟩
        · exact hv y (hnames' ▸ hy)
        · exact .tail (hv z (by simp [hz])) (hw y hy)

/-- No term comes twice on a chain of steps of resolving. -/
def Straight (s : Substitution) : Prop :=
  ∀ a, ¬ TransGen (Follows s) a a

theorem straight_of_acyclic (hs : s.Acyclic) : Straight s := by
  intro a h
  rcases names_of_follows h with ⟨_, hsize⟩ | ⟨x, hx, hall⟩
  · exact hsize.false
  · exact hs x (hall x (by simp [hx]))

/-! ### How deep comparisons are nested -/

section Depth

variable (t : Substitution) (parts : Finset Term)

/-- How many of the parts become smaller than a term. -/
def level (a : Term) : Nat :=
  {u ∈ parts | (t.apply u).size < (t.apply a).size}.card

open Classical in
/-- How many of the parts are met by steps of resolving from a term. -/
noncomputable def chain (s : Substitution) (a : Term) : Nat :=
  {u ∈ parts | TransGen (Follows s) a u}.card

/-- A depth at which the comparison of two terms can be nested. -/
noncomputable def need (s : Substitution) (a b : Term) : Nat :=
  level t parts a * (2 * parts.card + 1) + chain parts s a + chain parts s b + 1

theorem level_le (a : Term) : level t parts a ≤ parts.card :=
  Finset.card_filter_le _ _

theorem chain_le (s : Substitution) (a : Term) : chain parts s a ≤ parts.card := by
  classical
  exact Finset.card_filter_le _ _

variable {t parts}

theorem level_eq (h : (t.apply a == t.apply b) = true) : level t parts a = level t parts b := by
  rw [level, level, size_eq_of_beq.1 _ _ h]

theorem level_lt (ha : a ∈ parts) (hab : (t.apply a).size < (t.apply b).size) :
    level t parts a < level t parts b := by
  apply Finset.card_lt_card
  rw [Finset.ssubset_iff_of_subset]
  · exact ⟨a, by simp [ha, hab], by simp⟩
  · intro u hu
    rw [Finset.mem_filter] at hu ⊢
    exact ⟨hu.1, hu.2.trans hab⟩

theorem chain_lt (hs : Straight s) (hv : v ∈ parts) (hav : s.follow? a = some v) :
    chain parts s v < chain parts s a := by
  classical
  apply Finset.card_lt_card
  rw [Finset.ssubset_iff_of_subset]
  · refine ⟨v, ?_, ?_⟩
    · exact Finset.mem_filter.2 ⟨hv, .single hav⟩
    · intro hmem
      exact hs v (Finset.mem_filter.1 hmem).2
  · intro u hu
    rw [Finset.mem_filter] at hu ⊢
    exact ⟨hu.1, .head hav hu.2⟩

/-- The arguments need less depth than the terms that they stand in. -/
theorem need_children_le (ha : c ∈ parts) (hlt : (t.apply c).size < (t.apply a).size)
    (hdepth : need t parts s a b ≤ depth + 1) (s' : Substitution) (d : Term) :
    need t parts s' c d ≤ depth := by
  have hlevel := level_lt ha hlt
  have hc := chain_le parts s' c
  have hd := chain_le parts s' d
  have hmul : (level t parts c + 1) * (2 * parts.card + 1) ≤
      level t parts a * (2 * parts.card + 1) := Nat.mul_le_mul_right _ hlevel
  rw [Nat.add_mul] at hmul
  rw [need] at hdepth ⊢
  omega

end Depth

/-! ### Comparisons that have a solution -/

/-- With each of the terms there are its children. -/
def Closed (parts : Finset Term) : Prop :=
  ∀ a ∈ parts, ∀ u ∈ a.children, u ∈ parts

/-- Terms among which unification stays: with each of them there are its children, and there is
neither an anonymous variable nor a variable in an annotation. -/
structure Basis (parts : Finset Term) : Prop where
  closed : Closed parts
  named : ∀ a ∈ parts, a.isNamed = true
  notes : ∀ a ∈ parts, a.noteNames = []

/-- Acyclic bindings that `t` refines, with values among some parts. -/
structure Solvable (t : Substitution) (parts : Finset Term) (s : Substitution) : Prop where
  acyclic : s.Acyclic
  refines : t.Refines s
  values : ∀ x v, s.find? x = some v → v ∈ parts

variable {parts : Finset Term}

/-- A step of resolving stays among the parts. -/
theorem Closed.follow? (hparts : Closed parts) (hvalues : ∀ x v, s.find? x = some v → v ∈ parts)
    (ha : a ∈ parts) (hv : s.follow? a = some v) : v ∈ parts := by
  cases a with
  | bound x w =>
      obtain rfl : w = v := by simpa [Substitution.follow?] using hv
      exact hparts _ ha w (by simp [Term.children])
  | «variable» x =>
      simp only [Substitution.follow?] at hv
      split at hv
      · simp at hv
      · exact hvalues x v hv
  | _ => simp [Substitution.follow?] at hv

/-- The children of a term that is not resolved further become smaller than it. -/
theorem size_children_lt (t : Substitution) (ha : s.follow? a = none) (hc : c ∈ a.children) :
    (t.apply c).size < (t.apply a).size := by
  cases a with
  | sequence xs =>
      rw [Term.children] at hc
      have hle := Term.size_le_sizeAll (List.mem_map_of_mem (f := t.apply) hc)
      rw [Substitution.apply_sequence, Term.size]
      omega
  | literal l =>
      rw [Term.children] at hc
      have hle := Term.size_le_sizeAll (List.mem_map_of_mem (f := t.apply) hc)
      rw [Substitution.apply_literal, Term.size, Literal.size_eq,
        Substitution.arguments_applyLiteral]
      omega
  | bound x v => simp [Substitution.follow?] at ha
  | _ => simp [Term.children] at hc

/-- A free name can be bound to a term that has to become equal to it. -/
theorem Solvable.bind (h : Solvable t parts s) (hparts : Basis parts) (hfree : s.find? x = none)
    (hb : b ∈ parts) (hfollow : s.follow? b = none) (hne : b ≠ .variable x)
    (heq : (t.apply (.variable x) == t.apply b) = true) : Solvable t parts (s.bind x b) where
  acyclic := by
    refine h.acyclic.bind fun y hy hyx => ?_
    have hname : y ∈ b.names := by
      rcases (mem_allNames_iff.1 b y).1 hy with hy | hy
      · exact hy
      · simp [hparts.notes b hb] at hy
    by_cases hvar : b = .variable y
    · -- a free name leads nowhere
      subst hvar
      have hy := ne_anonymous_of_mem_allNames.1 _ hy
      rcases hyx.cases_head with rfl | ⟨z, ⟨u, hu, _⟩, _⟩
      · exact hne rfl
      · simp [Substitution.follow?, hy, hu] at hfollow
    · -- `y` becomes smaller than `b`, which becomes equal to `x`
      obtain ⟨c, hc, hyc⟩ := Term.mem_names_children hvar hname
      have hchild := size_children_lt t hfollow hc
      have hle := (size_imageOf_le (t.resolve? t.size) y).1 c hyc
      rw [Substitution.imageOf_resolve?_size t (ne_anonymous_of_mem_allNames.1 b hy)] at hle
      have hnotes : s.Noteless := fun z u hu => hparts.notes u (h.values z u hu)
      have hback := h.refines.size_le hnotes hyx
      have hsize := size_eq_of_beq.1 _ _ heq
      rw [← Substitution.apply] at hle
      omega
  refines := h.refines.bind heq
  values y u hy := by
    rw [Substitution.find?_bind] at hy
    split at hy
    · obtain rfl := Option.some.inj hy
      exact hb
    · exact h.values y u hy

theorem foldlM_total {P : Substitution → Prop} {pairs : List (Term × Term)}
    {go : Term → Term → Substitution → Except UnifyError Substitution}
    (hgo : ∀ p ∈ pairs, ∀ s, P s → ∃ s', go p.1 p.2 s = .ok s' ∧ P s') (hs : P s) :
    ∃ s', pairs.foldlM (fun s p => go p.1 p.2 s) s = .ok s' ∧ P s' := by
  induction pairs generalizing s with
  | nil => exact ⟨s, rfl, hs⟩
  | cons p pairs ih =>
      rw [List.forall_mem_cons] at hgo
      obtain ⟨s₁, hs₁, hP⟩ := hgo.1 s hs
      obtain ⟨s₂, hs₂, hP⟩ := ih hgo.2 hP
      refine ⟨s₂, ?_, hP⟩
      rw [List.foldlM_cons, hs₁]
      exact hs₂

theorem within_left (ha : a.isAnonymous = false) (hb : b.isAnonymous = false)
    (hv : s.follow? a = some v) : within (depth + 1) a b s = within depth v b s := by
  simp [within, ha, hb, hv]

theorem within_right (ha : a.isAnonymous = false) (hb : b.isAnonymous = false)
    (hleft : s.follow? a = none) (hw : s.follow? b = some w) :
    within (depth + 1) a b s = within depth a w s := by
  simp [within, ha, hb, hleft, hw]

/-- Arguments that have to become equal are compared one after the other. -/
theorem Solvable.within_arguments {xs ys : List Term} (h : Solvable t parts s)
    (hstep : ∀ u ∈ xs, ∀ w ∈ ys, ∀ s, Solvable t parts s → (t.apply u == t.apply w) = true →
      ∃ s', within depth u w s = .ok s' ∧ Solvable t parts s')
    (heq : Term.beqAll (xs.map t.apply) (ys.map t.apply) = true) :
    ∃ s', (xs.zip ys).foldlM (fun s p => within depth p.1 p.2 s) s = .ok s' ∧
      Solvable t parts s' := by
  refine foldlM_total (fun p hp s hs => ?_) h
  have ⟨hu, hw⟩ := List.of_mem_zip hp
  refine hstep p.1 hu p.2 hw s hs (((Term.beqAll_iff _ _).1 heq).2 (t.apply p.1, t.apply p.2) ?_)
  rw [List.zip_map]
  exact List.mem_map.2 ⟨p, hp, rfl⟩

/-- Two terms that are no variables and have to become equal are of one kind. -/
theorem Solvable.within_kinds (h : Solvable t parts s) (ha : ∀ x, a ≠ .variable x)
    (hb : ∀ y, b ≠ .variable y) (hleft : s.follow? a = none) (hright : s.follow? b = none)
    (heq : (t.apply a == t.apply b) = true)
    (hstep : ∀ u ∈ a.children, ∀ w ∈ b.children, ∀ s, Solvable t parts s →
      (t.apply u == t.apply w) = true →
      ∃ s', within depth u w s = .ok s' ∧ Solvable t parts s') :
    ∃ s', within (depth + 1) a b s = .ok s' ∧ Solvable t parts s' := by
  cases a with
  | «variable» x => exact absurd rfl (ha x)
  | bound x v => simp [Substitution.follow?] at hleft
  | atom name =>
      have happly := Term.atom_beq_iff.1 heq
      cases b with
      | atom other =>
          obtain rfl : other = name := by simpa [Substitution.apply, Term.replace] using happly
          exact ⟨s, by simp [within, Term.isAnonymous, Substitution.follow?], h⟩
      | «variable» y => exact absurd rfl (hb y)
      | bound y w => simp [Substitution.follow?] at hright
      | _ => simp [Substitution.apply, Term.replace] at happly
  | number x =>
      obtain ⟨y, happly, hkey⟩ := Term.number_beq_iff.1 heq
      cases b with
      | number z =>
          obtain rfl : z = y := by simpa [Substitution.apply, Term.replace] using happly
          exact ⟨s, by simp [within, Term.isAnonymous, Substitution.follow?, hkey], h⟩
      | «variable» y => exact absurd rfl (hb y)
      | bound y w => simp [Substitution.follow?] at hright
      | _ => simp [Substitution.apply, Term.replace] at happly
  | text content =>
      have happly := Term.text_beq_iff.1 heq
      cases b with
      | text other =>
          obtain rfl : other = content := by simpa [Substitution.apply, Term.replace] using happly
          exact ⟨s, by simp [within, Term.isAnonymous, Substitution.follow?], h⟩
      | «variable» y => exact absurd rfl (hb y)
      | bound y w => simp [Substitution.follow?] at hright
      | _ => simp [Substitution.apply, Term.replace] at happly
  | sequence xs =>
      rw [Substitution.apply_sequence] at heq
      obtain ⟨zs, happly, hall⟩ := Term.sequence_beq_iff.1 heq
      cases b with
      | sequence ys =>
          obtain rfl : ys.map t.apply = zs := by simpa using happly
          obtain ⟨s', hs', hsolvable⟩ := h.within_arguments hstep hall
          have hlength : xs.length = ys.length := by simpa using ((Term.beqAll_iff _ _).1 hall).1
          refine ⟨s', ?_, hsolvable⟩
          simpa [within, Term.isAnonymous, Substitution.follow?, Term.children, hlength] using hs'
      | «variable» y => exact absurd rfl (hb y)
      | bound y w => simp [Substitution.follow?] at hright
      | _ => simp [Substitution.apply, Term.replace] at happly
  | literal l =>
      rw [Substitution.apply_literal] at heq
      obtain ⟨k, happly, hk⟩ := Term.literal_beq_iff.1 heq
      cases b with
      | literal m =>
          obtain rfl : t.applyLiteral m = k := by simpa using happly
          obtain ⟨hfunctor, hnegated, hall⟩ := (Literal.beq_iff _ _).1 hk
          simp only [Substitution.functor_applyLiteral] at hfunctor
          simp only [Substitution.negated_applyLiteral] at hnegated
          simp only [Substitution.arguments_applyLiteral] at hall
          obtain ⟨s', hs', hsolvable⟩ := h.within_arguments hstep hall
          have hlength : l.arguments.length = m.arguments.length := by
            simpa using ((Term.beqAll_iff _ _).1 hall).1
          have hsignature := (Literal.sameSignature_iff l m).2 ⟨hfunctor, hnegated, hlength⟩
          refine ⟨s', ?_, hsolvable⟩
          simpa [within, Term.isAnonymous, Substitution.follow?, Term.children,
            hsignature] using hs'
      | «variable» y => exact absurd rfl (hb y)
      | bound y w => simp [Substitution.follow?] at hright
      | _ => simp [Substitution.apply, Term.replace] at happly

/-- Of two terms that are not resolved further and have to become equal, one is a free name, or both
are of one kind. -/
theorem Solvable.within_heads (h : Solvable t parts s) (hparts : Basis parts) (ha : a ∈ parts)
    (hb : b ∈ parts) (hleft : s.follow? a = none) (hright : s.follow? b = none)
    (heq : (t.apply a == t.apply b) = true)
    (hstep : ∀ u ∈ a.children, ∀ w ∈ b.children, ∀ s, Solvable t parts s →
      (t.apply u == t.apply w) = true →
      ∃ s', within depth u w s = .ok s' ∧ Solvable t parts s') :
    ∃ s', within (depth + 1) a b s = .ok s' ∧ Solvable t parts s' := by
  have hna := Term.isAnonymous_of_isNamed (hparts.named a ha)
  have hnb := Term.isAnonymous_of_isNamed (hparts.named b hb)
  by_cases hx : ∃ x, a = .variable x
  · obtain ⟨x, rfl⟩ := hx
    have hfree := (find?_of_follow? hna hleft).2
    by_cases hbx : b = .variable x
    · subst hbx
      exact ⟨s, within_variable_self hfree, h⟩
    · refine ⟨s.bind x b, ?_, h.bind hparts hfree hb hright hbx heq⟩
      cases b with
      | «variable» y =>
          have hxy : x ≠ y := fun hxy => hbx (congrArg Term.variable hxy.symm)
          simp [within, hna, hnb, hleft, hright, hxy]
      | _ => simp [within, hna, hnb, hleft, hright]
  · by_cases hy : ∃ y, b = .variable y
    · obtain ⟨y, rfl⟩ := hy
      have hfree := (find?_of_follow? hnb hright).2
      have hay : a ≠ .variable y := fun hay => hx ⟨y, hay⟩
      refine ⟨s.bind y a, ?_, h.bind hparts hfree ha hleft hay (BEq.symm heq)⟩
      cases a with
      | «variable» x => exact absurd ⟨x, rfl⟩ hx
      | _ => simp [within, hna, hnb, hleft, hright]
    · exact h.within_kinds (not_exists.1 hx) (not_exists.1 hy) hleft hright heq hstep

/-- A comparison that has a solution comes to an end, and the solution refines what was bound. -/
theorem Solvable.within (h : Solvable t parts s) (hparts : Basis parts) (ha : a ∈ parts)
    (hb : b ∈ parts) (heq : (t.apply a == t.apply b) = true)
    (hdepth : need t parts s a b ≤ depth) :
    ∃ s', within depth a b s = .ok s' ∧ Solvable t parts s' := by
  induction depth generalizing a b s with
  | zero => simp [need] at hdepth
  | succ depth ih =>
      have hna := Term.isAnonymous_of_isNamed (hparts.named a ha)
      have hnb := Term.isAnonymous_of_isNamed (hparts.named b hb)
      cases hleft : s.follow? a with
      | some v =>
          have hv := Closed.follow? hparts.closed h.values ha hleft
          have hav := h.refines.follow? hleft
          have hchain := chain_lt (straight_of_acyclic h.acyclic) hv hleft
          rw [within_left hna hnb hleft]
          refine ih h hv hb (BEq.trans (BEq.symm hav) heq) ?_
          rw [need, level_eq hav] at hdepth
          rw [need]
          omega
      | none =>
          cases hright : s.follow? b with
          | some w =>
              have hw := Closed.follow? hparts.closed h.values hb hright
              have hchain := chain_lt (straight_of_acyclic h.acyclic) hw hright
              rw [within_right hna hnb hleft hright]
              refine ih h ha hw (BEq.trans heq (h.refines.follow? hright)) ?_
              rw [need] at hdepth ⊢
              omega
          | none =>
              refine h.within_heads hparts ha hb hleft hright heq fun u hu w hw s' hs' huw => ?_
              have hu' := hparts.closed a ha u hu
              have hw' := hparts.closed b hb w hw
              exact ih hs' hu' hw' huw
                (need_children_le hu' (size_children_lt t hleft hu) hdepth s' w)

/-! ### The parts at the start -/

open Classical in
/-- The parts of two terms and of the values of some bindings. -/
noncomputable def partsOf (a b : Term) (s : Substitution) : Finset Term :=
  (a.parts ++ b.parts ++ s.toList.flatMap fun e => e.2.parts).toFinset

theorem mem_partsOf {u : Term} :
    u ∈ partsOf a b s ↔
      u ∈ a.parts ∨ u ∈ b.parts ∨ ∃ x v, s.find? x = some v ∧ u ∈ v.parts := by
  simp [partsOf, Substitution.find?_eq_some_iff]

theorem card_partsOf_le (a b : Term) (s : Substitution) :
    (partsOf a b s).card ≤ a.size + b.size + weight s := by
  have hvalues (entries : List (String × Term)) :
      (entries.flatMap fun e => e.2.parts).length ≤
        entries.foldr (fun e total => e.2.size + 1 + total) 0 := by
    induction entries with
    | nil => simp
    | cons e entries ih =>
        simp only [List.flatMap_cons, List.length_append, List.foldr_cons, Term.length_parts]
        omega
  have hle := hvalues s.toList
  classical
  refine (List.toFinset_card_le _).trans ?_
  simp only [List.length_append, Term.length_parts, weight]
  omega

theorem closed_partsOf (a b : Term) (s : Substitution) : Closed (partsOf a b s) := by
  intro u hu c hc
  rw [mem_partsOf] at hu ⊢
  rcases hu with hu | hu | ⟨x, v, hv, hu⟩
  · exact Or.inl (Term.children_mem_parts hu c hc)
  · exact Or.inr (Or.inl (Term.children_mem_parts hu c hc))
  · exact Or.inr (Or.inr ⟨x, v, hv, Term.children_mem_parts hu c hc⟩)

theorem basis_partsOf (hs : s.Named) (hnotes : s.Noteless) (ha : a.isNamed = true)
    (hb : b.isNamed = true) (hna : a.noteNames = []) (hnb : b.noteNames = []) :
    Basis (partsOf a b s) where
  closed := closed_partsOf a b s
  named u hu := by
    rcases mem_partsOf.1 hu with hu | hu | ⟨x, v, hv, hu⟩
    · exact Term.forall_mem_parts (fun _ => Term.isNamed_children) ha u hu
    · exact Term.forall_mem_parts (fun _ => Term.isNamed_children) hb u hu
    · exact Term.forall_mem_parts (fun _ => Term.isNamed_children) (hs x v hv) u hu
  notes u hu := by
    rcases mem_partsOf.1 hu with hu | hu | ⟨x, v, hv, hu⟩
    · exact Term.forall_mem_parts (fun _ => Term.noteNames_children) hna u hu
    · exact Term.forall_mem_parts (fun _ => Term.noteNames_children) hnb u hu
    · exact Term.forall_mem_parts (fun _ => Term.noteNames_children) (hnotes x v hv) u hu

theorem need_le_depthBound (t : Substitution) (a b : Term) (s : Substitution) :
    need t (partsOf a b s) s a b ≤ depthBound (a.size + b.size) s := by
  let n := a.size + b.size + weight s
  have hcard : (partsOf a b s).card ≤ n := card_partsOf_le a b s
  have hlevel := (level_le t (partsOf a b s) a).trans hcard
  have hleft := (chain_le (partsOf a b s) s a).trans hcard
  have hright := (chain_le (partsOf a b s) s b).trans hcard
  have hcube : (n + 2) ^ 3 = n * (2 * n + 1) + n + n + 1 + (n ^ 3 + 4 * n ^ 2 + 9 * n + 7) := by
    ring
  calc need t (partsOf a b s) s a b
    _ ≤ n * (2 * n + 1) + n + n + 1 := by
        rw [need]
        gcongr
    _ ≤ (n + 2) ^ 3 := by
        rw [hcube]
        exact Nat.le_add_right _ _

end Unification

/-- Acyclic bindings that refine `s` and make two terms equal. -/
structure Substitution.Unifies (t s : Substitution) (a b : Term) : Prop where
  acyclic : t.Acyclic
  refines : t.Refines s
  equates : (t.apply a == t.apply b) = true

namespace Unification

variable {s : Substitution} {a b : Term}

/-- If there is a unifier, unification succeeds with bindings that are absorbed by it. -/
theorem unify_of_unifies {t : Substitution} (hs : s.Acyclic)
    (hbasis : Basis (partsOf a b s)) (ht : t.Unifies s a b) :
    ∃ s', unify a b s = .ok s' ∧ s'.Acyclic ∧ t.Refines s' := by
  have hsolvable : Solvable t (partsOf a b s) s :=
    ⟨hs, ht.refines, fun x v hv => mem_partsOf.2 (Or.inr (Or.inr ⟨x, v, hv, v.self_mem_parts⟩))⟩
  obtain ⟨s', hs', hend⟩ := hsolvable.within hbasis (mem_partsOf.2 (Or.inl a.self_mem_parts))
    (mem_partsOf.2 (Or.inr (Or.inl b.self_mem_parts))) ht.equates (need_le_depthBound t a b s)
  exact ⟨s', hs', hend.acyclic, hend.refines⟩

end Unification

/-- Unification is complete: if any acyclic bindings refine `s` and make `a` and `b` equal, it
succeeds. What it returns extends `s`, is acyclic, makes `a` and `b` equal, and is most general: all
such bindings factor through it. So if it fails, there are none. -/
theorem unify_complete_and_most_general {s : Substitution} {a b : Term} (hs : s.Acyclic)
    (hnamed : s.Named) (hnotes : s.Noteless) (ha : a.isNamed = true ∧ a.noteNames = [])
    (hb : b.isNamed = true ∧ b.noteNames = []) :
    ((∃ t : Substitution, t.Unifies s a b) →
      ∃ s', unify a b s = .ok s' ∧ s'.Extends s ∧ s'.Acyclic ∧
        (s'.apply a == s'.apply b) = true ∧
        ∀ t : Substitution, t.Unifies s a b →
          ∀ u : Term, (t.apply (s'.apply u) == t.apply u) = true) ∧
    ∀ e, unify a b s = .error e → ¬ ∃ t : Substitution, t.Unifies s a b := by
  have hbasis := Unification.basis_partsOf hnamed hnotes ha.1 hb.1 ha.2 hb.2
  have hsuccess (t : Substitution) (ht : t.Unifies s a b) :=
    Unification.unify_of_unifies hs hbasis ht
  constructor
  · rintro ⟨t, ht⟩
    obtain ⟨s', hs', hacyclic, _⟩ := hsuccess t ht
    have hsolves := Unification.unify_solves hs'
    refine ⟨s', hs', hsolves.extends, hacyclic, ?_, fun t' ht' u => ?_⟩
    · exact hsolves.sound hacyclic hnamed (by simp [Unification.AllPairs, ha.1, hb.1]) (a, b)
        (by simp)
    · obtain ⟨s₁, hs₁, _, hrefines⟩ := hsuccess t' ht'
      obtain rfl : s' = s₁ := Except.ok.inj (hs'.symm.trans hs₁)
      exact hrefines.apply_apply hacyclic u
  · rintro e he ⟨t, ht⟩
    obtain ⟨s', hs', _⟩ := hsuccess t ht
    simp [hs'] at he

/-- `[X, Z, W]` and `[f(Z), W, V]`, where `X` is bound to `Y` and `V` carries `one`: the bindings
that put `one` everywhere factor through the ones that were found, where `Z` is still an alias of
`W`. -/
theorem unify_complete_and_most_general_aliases :
    let s := Substitution.ofList [("X", .variable "Y")]
    let a := Term.sequence [.variable "X", .variable "Z", .variable "W"]
    let b := Term.sequence
      [.literal (.of "f" [.variable "Z"]), .variable "W", .bound "V" (.atom "one")]
    let one := Term.literal (.of "f" [.atom "one"])
    let t := Substitution.ofList
      [("W", .atom "one"), ("X", one), ("Y", one), ("Z", .atom "one")]
    t.Unifies s a b ∧ ∃ s', unify a b s = .ok s' ∧ s'.find? "Z" = some (.variable "W") ∧
      s'.Acyclic ∧ ∀ u : Term, (t.apply (s'.apply u) == t.apply u) = true := by
  intro s a b one t
  have hacyclic : s.Acyclic :=
    Substitution.acyclic_of_rank (fun x => if x = "X" then 1 else 0) (by decide +kernel)
  have hnamed : s.Named := by
    have hall : ∀ e ∈ s.toList, e.2.isNamed = true := by decide +kernel
    exact fun x v hv => hall (x, v) (Substitution.find?_eq_some_iff.1 hv)
  have hnotes : s.Noteless := by
    have hall : ∀ e ∈ s.toList, e.2.noteNames = [] := by decide +kernel
    exact fun x v hv => hall (x, v) (Substitution.find?_eq_some_iff.1 hv)
  have ht : t.Unifies s a b := by
    refine ⟨Substitution.acyclic_of_rank (fun _ => 0) (by decide +kernel), ?_, by decide +kernel⟩
    have hall : ∀ e ∈ s.toList, (t.apply (.variable e.1) == t.apply e.2) = true := by
      decide +kernel
    exact fun x v hv => hall (x, v) (Substitution.find?_eq_some_iff.1 hv)
  obtain ⟨s', hs', _, hs'acyclic, _, hgeneral⟩ :=
    (unify_complete_and_most_general hacyclic hnamed hnotes (by decide +kernel)
      (by decide +kernel)).1 ⟨t, ht⟩
  refine ⟨ht, s', hs', ?_, hs'acyclic, hgeneral t ht⟩
  have hunify : unify a b s = .ok _ := rfl
  rw [← Except.ok.inj (hunify.symm.trans hs')]
  rfl

end Deliberation
