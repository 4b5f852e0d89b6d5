import Deliberation.Proofs.Logic.Circles

/-!
Resolving a term once and for all.

`Substitution.Resolves` is resolving as a relation: a variable with a value comes to what its value
comes to, and nothing counts the look-ups. Where bindings are acyclic, every term comes to exactly
one term, the one that `Substitution.apply` gives. In it no variable carries a value and none is
bound, not in an annotation either, so resolving it again changes nothing.
-/

namespace Deliberation
namespace Substitution

variable {s s' : Substitution} {t u v : Term} {x : String}

/-! ### Resolving as a relation -/

/-- What resolving a term comes to, by as many look-ups as it takes. -/
inductive Resolves (s : Substitution) : Term → Term → Prop
  | atom (name : String) : Resolves s (.atom name) (.atom name)
  | number (value : Float) : Resolves s (.number value) (.number value)
  | text (content : String) : Resolves s (.text content) (.text content)
  | sequence {xs : List Term} (f : Term → Term) :
      (∀ t ∈ xs, Resolves s t (f t)) → Resolves s (.sequence xs) (.sequence (xs.map f))
  | literal {l : Literal} (f : Term → Term) (g : Literal → Literal) :
      (∀ t ∈ l.arguments, Resolves s t (f t)) →
      (∀ a ∈ l.annotations, Resolves s (.literal a) (.literal (g a))) →
      Resolves s (.literal l) (.literal
        { l with arguments := l.arguments.map f, annotations := l.annotations.map g })
  | free {x : String} : s.follow? (.variable x) = none → Resolves s (.variable x) (.variable x)
  | step {t v u : Term} : s.follow? t = some v → Resolves s v u → Resolves s t u

theorem applyLiteral_eq (s : Substitution) (l : Literal) :
    s.applyLiteral l =
      { l with
        arguments := l.arguments.map s.apply
        annotations := l.annotations.map s.applyLiteral } := by
  cases l
  simp only [applyLiteral, Literal.replace, Term.replaceAll_eq, Literal.replaceAll_eq]
  rfl

theorem apply_variable_of_follow?_eq_none (h : s.follow? (.variable x) = none) :
    s.apply (.variable x) = .variable x := by
  by_cases hx : x = anonymousName
  · simp [apply, Term.replace, hx]
  · exact apply_variable_of_find?_eq_none (by simpa [follow?, hx] using h)

/-- Applying bindings to a term depends on what they make of its names. -/
theorem apply_congr (h : ∀ x ∈ t.allNames, s.apply (.variable x) = s'.apply (.variable x)) :
    s.apply t = s'.apply t := by
  refine replace_congr.1 t fun x hx => ?_
  have hne := ne_anonymous_of_mem_allNames.1 t hx
  rw [imageOf_resolve?_size s hne, imageOf_resolve?_size s' hne]
  exact h x hx

/-- A term comes to nothing but what applying the bindings gives. -/
theorem Resolves.eq_apply (h : s.Resolves t u) (hs : s.Acyclic) : u = s.apply t := by
  induction h with
  | atom | number | text => rfl
  | sequence f _ ih => rw [apply_sequence, List.map_congr_left ih]
  | @literal l f g _ _ ihargs ihnotes =>
      have hnotes (a : Literal) (ha : a ∈ l.annotations) : g a = s.applyLiteral a :=
        Term.literal.inj (ihnotes a ha)
      rw [apply_literal, applyLiteral_eq, List.map_congr_left ihargs, List.map_congr_left hnotes]
  | free hfree => exact (apply_variable_of_follow?_eq_none hfree).symm
  | step hfollow _ ih => exact ih.trans (apply_follow? hs (.refl s) hfollow).symm

/-- A term comes to what applying the bindings gives. The induction is over the terms that resolving
goes on with, since a value is not a part of the variable that is bound to it. -/
theorem Acyclic.resolves_apply (hs : s.Acyclic) (t : Term) : s.Resolves t (s.apply t) := by
  induction acyclic_iff_ends.1 hs t with
  | intro t _ ih =>
      cases t with
      | atom name => exact .atom name
      | number value => exact .number value
      | text content => exact .text content
      | sequence xs =>
          rw [apply_sequence]
          exact .sequence s.apply ih
      | literal l =>
          rw [apply_literal, applyLiteral_eq]
          refine .literal s.apply s.applyLiteral (fun t ht => ?_) fun a ha => ?_
          · exact ih t (List.mem_append_left _ ht)
          · exact ih (.literal a) (List.mem_append_right _ (List.mem_map_of_mem ha))
      | «variable» x =>
          cases hfollow : s.follow? (.variable x) with
          | none =>
              rw [apply_variable_of_follow?_eq_none hfollow]
              exact .free hfollow
          | some v =>
              rw [apply_follow? hs (.refl s) hfollow]
              exact .step hfollow (ih v (by simp [Visits, visited, hfollow]))
      | bound x v => exact .step rfl (ih v List.mem_cons_self)

theorem Acyclic.resolves_iff (hs : s.Acyclic) : s.Resolves t u ↔ u = s.apply t := by
  constructor
  · intro h
    exact h.eq_apply hs
  · rintro rfl
    exact hs.resolves_apply t

/-! ### Terms with nothing left to resolve -/

/-- No variable carries a value and none is bound, annotations included. -/
structure Resolved (s : Substitution) (t : Term) : Prop where
  bare : t.isBare = true
  free : ∀ x ∈ t.allNames, s.find? x = none

theorem Acyclic.resolved_apply (hs : s.Acyclic) (t : Term) : s.Resolved (s.apply t) where
  bare := s.isBare_apply t
  free _ := find?_of_mem_allNames_apply fun x _ => hs.settles x

theorem Resolved.apply_eq (h : s.Resolved t) : s.apply t = t := by
  refine replace_eq_self.1 t h.bare fun x hx => ?_
  rw [imageOf, resolve?_of_find?_eq_none (h.free x hx)]
  rfl

/-- A variable whose value has nothing left to resolve stands for that value. -/
theorem Resolved.apply_variable (h : s.Resolved v) (hx : x ≠ anonymousName)
    (hv : s.find? x = some v) : s.apply (.variable x) = v := by
  have hsettles : s.Settles x := by
    refine settles_of_dead_end fun y hxy => ?_
    obtain ⟨w, hw, hy⟩ := hxy
    obtain rfl := Option.some.inj (hv.symm.trans hw)
    exact h.free y hy
  rw [Substitution.apply_variable hsettles hx hv, h.apply_eq]

theorem value?_eq_apply_variable (hs : s.Acyclic) (hx : x ≠ anonymousName)
    (hv : s.find? x = some v) : s.value? x = some (s.apply (.variable x)) := by
  rw [value?, hv, apply_variable (hs.settles x) hx hv]
  rfl

/-- Resolving a term by acyclic bindings ends, in the applied term and no other. Nothing is left to
resolve there, so applying the bindings twice is applying them once; and the value of a name is its
variable, resolved. -/
theorem apply_resolves_fully (hs : s.Acyclic) :
    (∀ t, s.Ends t ∧ (∀ u, s.Resolves t u ↔ u = s.apply t) ∧ s.Resolved (s.apply t) ∧
      s.apply (s.apply t) = s.apply t) ∧
    ∀ x v, x ≠ anonymousName → s.find? x = some v →
      s.value? x = some (s.apply (.variable x)) := by
  constructor
  · intro t
    have hresolved := hs.resolved_apply t
    exact ⟨acyclic_iff_ends.1 hs t, fun u => hs.resolves_iff, hresolved, hresolved.apply_eq⟩
  · intro x v hx hv
    exact value?_eq_apply_variable hs hx hv

/-- A chain that unification makes. The resolved term has what `X` and `Z` lead to in an annotation
and in the place of a value that a variable carried. -/
theorem apply_resolves_fully_chain :
    let q (t : Term) := (Literal.of "q" [t]).annotate (Literal.of "source" [t])
    let a := Term.literal (Literal.of "p"
      [.variable "X", .sequence [.variable "Y", .variable "Z"], .variable "W"])
    let b := Term.literal (Literal.of "p"
      [.variable "Y", .sequence [.literal (q (.variable "W")), .variable "W"], .atom "one"])
    let s := ofList [("X", .variable "Y"), ("Y", .literal (q (.variable "W"))),
      ("Z", .variable "W"), ("W", .atom "one")]
    let t := Term.literal ((Literal.of "goal" [.bound "V" (.variable "Z"), .variable "U"]).annotate
      (Literal.of "note" [.variable "X"]))
    let resolved := Term.literal ((Literal.of "goal" [.atom "one", .variable "U"]).annotate
      (Literal.of "note" [.literal (q (.atom "one"))]))
    unify a b ∅ = .ok s ∧ s.Acyclic ∧ (∀ u, s.Resolves t u ↔ u = resolved) ∧
      s.apply resolved = resolved ∧ s.value? "X" = some (s.apply (.variable "X")) := by
  intro q a b s t resolved
  have hs : s.Acyclic := by
    refine acyclic_of_rank
      (fun x => if x = "X" then 3 else if x = "Y" ∨ x = "Z" then 2 else if x = "W" then 1 else 0) ?_
    decide +kernel
  have hX : s.find? "X" = some (.variable "Y") := by
    simp only [s, q]
    rfl
  have happly : s.apply t = resolved := by
    simp only [s, t, resolved, q]
    rfl
  obtain ⟨hterms, hnames⟩ := apply_resolves_fully hs
  obtain ⟨_, hresolves, _, hagain⟩ := hterms t
  rw [happly] at hresolves hagain
  exact ⟨rfl, hs, hresolves, hagain, hnames "X" _ (by decide) hX⟩

end Substitution
end Deliberation
