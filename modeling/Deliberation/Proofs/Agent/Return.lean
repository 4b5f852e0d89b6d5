import Deliberation.Agent.Cycle
import Deliberation.Proofs.Agent.Fresh

/-!
The return from a sub-goal.

The frame for a sub-goal was started for the sub-goal with its variables renamed. When it ends in
success, the literal that it hands back is an instance of the sub-goal, whatever it bound meanwhile,
and the free names of the instance were made up just before. So the waiting frame can bind every
variable of the sub-goal to what the instance has in its place.
-/

namespace Deliberation

variable {notes : Prop} {n : Nat} {f g : Frame} {goal : Literal} {x y : String}

/-- All names of a frame are known at a number. -/
structure Frame.Fits (notes : Prop) (n : Nat) (f : Frame) : Prop where
  bindings : f.bindings.Fits (Known n) notes
  trigger : f.trigger.literal.Fits (Known n) notes

theorem Frame.Fits.mono {m : Nat} (h : f.Fits notes n) (hnm : n ≤ m) : f.Fits notes m where
  bindings := h.bindings.mono fun _ hx => hx.mono hnm
  trigger := h.trigger.mono fun _ hx => hx.mono hnm

theorem Frame.Fits.instantiated (h : f.Fits notes n) : f.instantiated.Fits (Known n) notes :=
  h.bindings.applyLiteral h.trigger

/-- `f` was started for the sub-goal that `g` waits for, under the bindings that `g` still has. -/
structure Frame.Serves (notes : Prop) (n : Nat) (f g : Frame) (goal : Literal) : Prop where
  awaiting : g.awaiting = some goal
  applied : ∃ pattern, goal = g.bindings.applyLiteral pattern
  trigger : ∃ k, k ≤ n ∧ goal.Fits (Known k) notes ∧ f.trigger.literal = (goal.freshen k).1

theorem Frame.Serves.mono {m : Nat} (h : f.Serves notes n g goal) (hnm : n ≤ m) :
    f.Serves notes m g goal := by
  obtain ⟨k, hk, hfits, htrigger⟩ := h.trigger
  exact ⟨h.awaiting, h.applied, k, hk.trans hnm, hfits, htrigger⟩

theorem Frame.Serves.isBare (h : f.Serves notes n g goal) : goal.isBare = true := by
  obtain ⟨pattern, rfl⟩ := h.applied
  exact Substitution.isBare_applyLiteral _ _

theorem Frame.Serves.known (h : f.Serves notes n g goal) (hx : x ∈ goal.allNames) : Known n x := by
  obtain ⟨k, hk, hfits, _⟩ := h.trigger
  exact (hfits.names x hx).mono hk

/-- Acyclic bindings leave none of the names of a sub-goal bound. -/
theorem Frame.Serves.find?_eq_none (h : f.Serves notes n g goal) (hg : g.bindings.Acyclic)
    (hx : x ∈ goal.names) : g.bindings.find? x = none := by
  obtain ⟨pattern, rfl⟩ := h.applied
  have hmem : x ∈ (g.bindings.apply (.literal pattern)).allNames :=
    Literal.names_subset _ hx
  exact Substitution.find?_of_mem_allNames_apply (fun y _ => hg.settles y) hmem

/-! ### What is handed back -/

/-- What a variable of a sub-goal stands for when its plan has ended: a part of the literal that the
plan was started for, before it is renamed. -/
structure Frame.Part (f : Frame) (u : Term) : Prop where
  proper : u.isProper = true
  names : u.names ⊆ f.instantiated.names
  allNames : u.allNames ⊆ f.instantiated.allNames

/-- What is handed back is an instance of the sub-goal, made of renamed parts of the literal that
the plan was started for. -/
theorem Frame.Serves.instance (h : f.Serves notes n g goal) (hf : f.Fits notes n) :
    ∃ τ : String → Option Term, (f.instantiated.freshen n).1 = goal.replace τ ∧
      ∀ x ∈ goal.names, ∃ u, f.Part u ∧
        imageOf τ x = u.replace (f.instantiated.newNames n).find? := by
  obtain ⟨k, hk, hgoal, htrigger⟩ := h.trigger
  let θ := f.bindings.resolve? f.bindings.size
  let first := (goal.newNames k).find?
  let last := (f.instantiated.newNames n).find?
  have hrenamed : f.trigger.literal = goal.replace first := by
    rw [htrigger, Literal.freshen_eq h.isBare hgoal.names]
  have hinstantiated : f.instantiated = (goal.replace first).replace θ := by
    rw [Frame.instantiated, hrenamed]
    rfl
  have hbare : f.instantiated.isBare = true := Substitution.isBare_applyLiteral _ _
  refine ⟨fun x => some (((imageOf first x).replace θ).replace last), ?_, ?_⟩
  · calc
      (f.instantiated.freshen n).1 = f.instantiated.replace last :=
        Literal.freshen_eq hbare hf.instantiated.names
      _ = ((goal.replace first).replace θ).replace last :=
        congrArg (Literal.replace last) hinstantiated
      _ = (goal.replace fun x => some ((imageOf first x).replace θ)).replace last := by
        rw [(replace_replace first θ).2]
      _ = goal.replace fun x => some (((imageOf first x).replace θ).replace last) :=
        (replace_replace _ last).2 goal
  · intro x hx
    obtain ⟨x', hx', himage⟩ := Literal.imageOf_newNames_of_mem k hx
    have hne := Literal.ne_anonymous_of_mem_generated hx'
    have hnames : x' ∈ (goal.replace first).names :=
      ((mem_names_replace first x').2 goal).2 ⟨x, hx, by simp [first, himage, Term.names, hne]⟩
    refine ⟨imageOf θ x', ⟨?_, fun y hy => ?_, fun y hy => ?_⟩, ?_⟩
    · exact hf.bindings.isProper_resolve? hne
    · rw [hinstantiated]
      exact ((mem_names_replace θ y).2 _).2 ⟨x', hnames, hy⟩
    · rw [hinstantiated]
      exact ((mem_allNames_replace θ y).2 _).2 ⟨x', Literal.names_subset _ hnames, hy⟩
    · have hvalue : (Term.variable x').replace θ = imageOf θ x' := Term.replace_variable θ hne
      change ((imageOf first x).replace θ).replace last = _
      rw [himage, hvalue]

namespace Frame.Part

variable {u : Term}

/-- A name in a renamed part was made up, or stands in annotations only and is left as it was. -/
theorem mem_allNames (h : f.Part u)
    (hy : y ∈ (u.replace (f.instantiated.newNames n).find?).allNames) :
    y ∈ f.instantiated.generated n ∨ y ∈ f.instantiated.strayNames := by
  obtain ⟨x, hx, hy⟩ := ((mem_allNames_replace _ y).1 u).1 hy
  by_cases hnames : x ∈ f.instantiated.names
  · obtain ⟨z, hz, himage⟩ := Literal.imageOf_newNames_of_mem n hnames
    rw [himage, Term.mem_allNames_variable] at hy
    exact Or.inl (hy.2 ▸ hz)
  · rw [Literal.imageOf_newNames_of_notMem n hnames, Term.mem_allNames_variable] at hy
    obtain ⟨_, rfl⟩ := hy
    have hmem := (mem_allNames_iff.2 _ y).1 (h.allNames hx)
    exact Or.inr (Literal.mem_strayNames.2 ⟨hmem.resolve_left hnames, hnames⟩)

/-- Outside of annotations all names of a renamed part were made up. -/
theorem mem_names (h : f.Part u) (hy : y ∈ (u.replace (f.instantiated.newNames n).find?).names) :
    y ∈ f.instantiated.generated n := by
  obtain ⟨x, hx, hy⟩ := ((mem_names_replace _ y).1 u).1 hy
  obtain ⟨z, hz, himage⟩ := Literal.imageOf_newNames_of_mem n (h.names hx)
  have hne := Literal.ne_anonymous_of_mem_generated hz
  simp only [himage, Term.names, hne, ↓reduceIte, List.mem_singleton] at hy
  exact hy ▸ hz

theorem isProper_replace (h : f.Part u) :
    (u.replace (f.instantiated.newNames n).find?).isProper = true := by
  have hproper := h.proper
  cases u with
  | «variable» x =>
      have hx : x ≠ anonymousName := by simpa [Term.isProper] using hproper
      have hmem : x ∈ (Term.variable x).names := by simp [Term.names, hx]
      obtain ⟨z, hz, himage⟩ := Literal.imageOf_newNames_of_mem n (h.names hmem)
      rw [Term.replace_variable _ hx, himage]
      simp [Term.isProper, Literal.ne_anonymous_of_mem_generated hz]
  | bound x v => simp [Term.isProper] at hproper
  | _ => rfl

end Frame.Part

/-! ### The waiting frame -/

/-- The names of a sub-goal are open for what is handed back, unless they are bound. -/
theorem Frame.Serves.open {τ : String → Option Term} (h : f.Serves notes n g goal)
    (hg : g.bindings.Fits (Known n) notes) (hfree : ∀ x ∈ goal.names, g.bindings.find? x = none)
    (hτ : ∀ x ∈ goal.names, ∃ u, f.Part u ∧
      imageOf τ x = u.replace (f.instantiated.newNames n).find?) :
    Unification.Open τ goal.names g.bindings where
  free x hx := Or.inl (hfree x hx)
  proper x hx := by
    obtain ⟨u, hu, himage⟩ := hτ x hx
    rw [himage]
    exact hu.isProper_replace
  bare x hx := by
    obtain ⟨u, _, himage⟩ := hτ x hx
    rw [himage]
    exact isBare_replace.1 u fun y _ => Literal.isBare_newNames _ n y
  apart x hx y hy := by
    obtain ⟨u, hu, himage⟩ := hτ x hx
    rw [himage] at hy
    have hnew := Literal.not_known_of_mem_generated (hu.mem_names hy)
    refine ⟨fun hmem => hnew (h.known (goal.names_subset hmem)), ?_⟩
    cases ht : g.bindings.find? y with
    | none => rfl
    | some t => exact absurd (hg y t ht).1 hnew

/-- The return from the sub-goal of `g` that `f` was started for: `s` are the bindings of `g` with
the names of the sub-goal bound to what `τ` puts in their place. -/
structure Frame.Return (n : Nat) (f g : Frame) (goal : Literal) (τ : String → Option Term)
    (s : Substitution) : Prop where
  instance_eq : (f.instantiated.freshen n).1 = goal.replace τ
  part : ∀ x ∈ goal.names, ∃ u, f.Part u ∧
    imageOf τ x = u.replace (f.instantiated.newNames n).find?
  unified : unifyLiterals goal (f.instantiated.freshen n).1 g.bindings = .ok s
  binds : Unification.Binds τ goal.names g.bindings s
  free : ∀ x ∈ goal.names, g.bindings.find? x = none
  unbound : ∀ y ∈ f.instantiated.generated n, s.find? y = none

/-- The return from a sub-goal is always possible. -/
theorem Frame.Serves.return (h : f.Serves notes n g goal) (hf : f.Fits notes n)
    (hg : g.bindings.Fits (Known n) notes) (hfree : ∀ x ∈ goal.names, g.bindings.find? x = none) :
    ∃ τ s, f.Return n g goal τ s := by
  obtain ⟨τ, hinstance, hpart⟩ := h.instance hf
  obtain ⟨s, hs, hbinds⟩ := Unification.unifyLiterals_instance h.isBare (h.open hg hfree hpart)
  refine ⟨τ, s, hinstance, hpart, hinstance ▸ hs, hbinds, hfree, fun y hy => ?_⟩
  have hnew := Literal.not_known_of_mem_generated hy
  have hgoal : y ∉ goal.names := fun hmem => hnew (h.known (goal.names_subset hmem))
  rw [hbinds y]
  simp only [hgoal, ↓reduceIte]
  cases ht : g.bindings.find? y with
  | none => rfl
  | some t => exact absurd (hg y t ht).1 hnew

namespace Frame.Return

variable {τ : String → Option Term} {s : Substitution} {t : Term}

theorem bindings_extends (h : f.Return n g goal τ s) : s.Extends g.bindings :=
  h.binds.extends h.free

theorem binds_iff (h : f.Return n g goal τ s) (x : String) :
    (g.bindings.find? x = none ∧ s.find? x ≠ none) ↔ x ∈ goal.names :=
  h.binds.find?_ne_none_iff h.free x

/-- The waiting frame goes on with the new bindings and without a failure. -/
theorem resume_eq (h : f.Return n g goal τ s) (hgoal : g.awaiting = some goal) (degree : Float) :
    g.resume degree none (f.answer none n).1 =
      ({ g with
        state := .running
        awaiting := none
        degrees := g.degrees ++ [degree]
        bindings := s }, none) := by
  simp [Frame.resume, Frame.answer, hgoal, h.unified]

theorem new_eq (h : f.Return n g goal τ s) (hx : g.bindings.find? x = none)
    (ht : s.find? x = some t) : x ∈ goal.names ∧ t = imageOf τ x := by
  have hmem : x ∈ goal.names := (h.binds_iff x).1 ⟨hx, by simp [ht]⟩
  rw [h.binds x] at ht
  simp only [hmem, ↓reduceIte, Option.some.injEq] at ht
  exact ⟨hmem, ht.symm⟩

/-- A name in a new value was made up for the return, or is a name of the literal handed back that
stands in annotations only. -/
theorem mem_allNames (h : f.Return n g goal τ s) (hx : g.bindings.find? x = none)
    (ht : s.find? x = some t) (hy : y ∈ t.allNames) :
    y ∈ f.instantiated.generated n ∨ y ∈ f.instantiated.strayNames := by
  obtain ⟨hmem, rfl⟩ := h.new_eq hx ht
  obtain ⟨u, hu, himage⟩ := h.part x hmem
  rw [himage] at hy
  exact hu.mem_allNames hy

/-- All names in new values were made up for the return. -/
def Clean (f g : Frame) (n : Nat) (s : Substitution) : Prop :=
  ∀ x t, g.bindings.find? x = none → s.find? x = some t →
    ∀ y ∈ t.allNames, y ∈ f.instantiated.generated n

theorem Clean.find?_eq_none (hclean : Clean f g n s) (h : f.Return n g goal τ s)
    (hx : x ∈ goal.names) (hy : y ∈ (imageOf τ x).allNames) : s.find? y = none := by
  have ht : s.find? x = some (imageOf τ x) := by
    rw [h.binds x]
    simp [hx]
  exact h.unbound y (hclean x _ (h.free x hx) ht y hy)

theorem Clean.acyclic (hclean : Clean f g n s) (h : f.Return n g goal τ s)
    (hg : g.bindings.Acyclic) : s.Acyclic :=
  h.binds.acyclic hg fun _ hx _ hy => hclean.find?_eq_none h hx hy

/-- The sub-goal under the new bindings is what was handed back. -/
theorem Clean.applyLiteral_eq (hclean : Clean f g n s) (h : f.Return n g goal τ s)
    (hnotes : goal.noteNames = []) :
    s.applyLiteral goal = (f.instantiated.freshen n).1 := by
  rw [h.instance_eq]
  refine replace_congr.2 goal fun x hx => ?_
  have hmem : x ∈ goal.names := by
    rcases (mem_allNames_iff.2 goal x).1 hx with hx | hx
    · exact hx
    · simp [hnotes] at hx
  obtain ⟨u, _, himage⟩ := h.part x hmem
  have hbare : (imageOf τ x).isBare = true := by
    rw [himage]
    exact isBare_replace.1 u fun y _ => Literal.isBare_newNames _ n y
  exact h.binds.imageOf_resolve? hmem hbare fun y hy => hclean.find?_eq_none h hmem hy

end Frame.Return
end Deliberation
