import Deliberation.Proofs.Logic.Scope

/-!
Unifying a term with an instance of itself.

If the free names of a term are bound to nothing, or already to what an instance has in their place,
and what is put in has only names that are bound to nothing, then the unification of the term with
the instance ends in success: it binds every name of the term to what the instance has in its place,
and nothing else. Annotations do not matter.
-/

namespace Deliberation

/-! ### Sizes -/

theorem Term.size_le_sizeAll {t : Term} {xs : List Term} (h : t ∈ xs) :
    t.size ≤ Term.sizeAll xs := by
  induction xs with
  | nil => simp at h
  | cons x xs ih =>
      simp only [Term.sizeAll]
      rcases List.mem_cons.1 h with rfl | h
      · omega
      · have hle := ih h
        omega

theorem Literal.sameSignature_replace (τ : String → Option Term) (l : Literal) :
    l.sameSignature (l.replace τ) = true := by
  cases l
  simp [Literal.sameSignature_iff, Literal.replace]

namespace Unification

variable {s s' s₁ s₂ : Substitution} {depth : Nat} {τ : String → Option Term}
  {scope : List String}

/-! ### Terms that are the same -/

theorem zip_map_self (f : Term → Term) (xs : List Term) :
    xs.zip (xs.map f) = xs.map fun t => (t, f t) := by
  have hzip : (xs.map id).zip (xs.map f) = xs.map fun t => (id t, f t) := List.zip_map'
  rwa [List.map_id] at hzip

theorem foldlM_eq_ok {go : Term → Substitution → Except UnifyError Substitution} {xs : List Term}
    (h : ∀ t ∈ xs, go t s = .ok s) : xs.foldlM (fun s t => go t s) s = .ok s := by
  induction xs with
  | nil => rfl
  | cons t xs ih =>
      rw [List.foldlM_cons, h t List.mem_cons_self]
      exact ih fun u hu => h u (List.mem_cons_of_mem _ hu)

theorem within_variable_self {x : String} (h : s.find? x = none) :
    within (depth + 1) (.variable x) (.variable x) s = .ok s := by
  by_cases hx : x = anonymousName
  · simp [within, Term.isAnonymous, hx]
  · simp [within, Term.isAnonymous, Substitution.follow?, hx, h]

/-- A term whose names are not bound unifies with itself, and nothing is bound. -/
theorem within_self :
    (∀ t : Term, ∀ depth, t.isBare = true → (∀ x ∈ t.names, s.find? x = none) → t.size ≤ depth →
        within depth t t s = .ok s) ∧
      ∀ l : Literal, ∀ depth, l.isBare = true → (∀ x ∈ l.names, s.find? x = none) →
        l.size ≤ depth →
        (l.arguments.zip l.arguments).foldlM (fun s p => within depth p.1 p.2 s) s = .ok s := by
  have hall (xs : List Term) (depth : Nat) (h : ∀ t ∈ xs, within depth t t s = .ok s) :
      (xs.zip xs).foldlM (fun s p => within depth p.1 p.2 s) s = .ok s := by
    have hzip := zip_map_self id xs
    rw [List.map_id] at hzip
    rw [hzip, List.foldlM_map]
    exact foldlM_eq_ok h
  apply Term.induction
  case sequence =>
    intro xs ih depth hbare hfree hsize
    simp only [Term.isBare, Term.allBare_eq, List.all_eq_true] at hbare
    simp only [Term.names, Term.namesAll_eq, List.mem_flatMap] at hfree
    obtain ⟨depth, rfl⟩ : ∃ d, depth = d + 1 := ⟨depth - 1, by rw [Term.size] at hsize; omega⟩
    rw [Term.size] at hsize
    have hargs := hall xs depth fun t ht => ih t ht depth (hbare t ht)
      (fun x hx => hfree x ⟨t, ht, hx⟩) ((Term.size_le_sizeAll ht).trans (by omega))
    simpa [within, Term.isAnonymous, Substitution.follow?] using hargs
  case literal =>
    intro l ih depth hbare hfree hsize
    obtain ⟨depth, rfl⟩ : ∃ d, depth = d + 1 := ⟨depth - 1, by rw [Term.size] at hsize; omega⟩
    rw [Term.size] at hsize
    have hargs := ih depth hbare hfree (by omega)
    have hsignature : l.sameSignature l = true := by simp [Literal.sameSignature_iff]
    simpa [within, Term.isAnonymous, Substitution.follow?, hsignature] using hargs
  case var =>
    intro x depth _ hfree hsize
    obtain ⟨depth, rfl⟩ : ∃ d, depth = d + 1 := ⟨depth - 1, by rw [Term.size] at hsize; omega⟩
    by_cases hx : x = anonymousName
    · simp [within, Term.isAnonymous, hx]
    · exact within_variable_self (hfree x (by simp [Term.names, hx]))
  case bound =>
    intro x v _ depth hbare
    simp [Term.isBare] at hbare
  case mk =>
    intro f n xs notes ih _ depth hbare hfree hsize
    simp only [Literal.isBare, Term.allBare_eq, Bool.and_eq_true, List.all_eq_true] at hbare
    simp only [Literal.names, Term.namesAll_eq, List.mem_flatMap] at hfree
    exact hall xs depth fun t ht => ih t ht depth (hbare.1 t ht)
      (fun x hx => hfree x ⟨t, ht, hx⟩) ((Term.size_le_sizeAll ht).trans hsize)
  all_goals
    intro content depth _ _ hsize
    obtain ⟨depth, rfl⟩ : ∃ d, depth = d + 1 := ⟨depth - 1, by rw [Term.size] at hsize; omega⟩
    simp [within, Term.isAnonymous, Substitution.follow?]

/-! ### Instances -/

/-- The names in a scope can be bound to what a replacement puts in their place: none of them is
bound to anything else, and what is put in has only free names that are not in the scope. -/
structure Open (τ : String → Option Term) (scope : List String) (s : Substitution) : Prop where
  free : ∀ x ∈ scope, s.find? x = none ∨ s.find? x = some (imageOf τ x)
  proper : ∀ x ∈ scope, (imageOf τ x).isProper = true
  bare : ∀ x ∈ scope, (imageOf τ x).isBare = true
  apart : ∀ x ∈ scope, ∀ y ∈ (imageOf τ x).names, y ∉ scope ∧ s.find? y = none

/-- `s'` is `s` with some names bound to what a replacement puts in their place. -/
def Binds (τ : String → Option Term) (names : List String) (s s' : Substitution) : Prop :=
  ∀ y, s'.find? y = if y ∈ names then some (imageOf τ y) else s.find? y

theorem binds_nil (τ : String → Option Term) (s : Substitution) : Binds τ [] s s := by
  intro y
  simp

theorem Binds.append {xs ys : List String} (h : Binds τ xs s s₁) (h' : Binds τ ys s₁ s₂) :
    Binds τ (xs ++ ys) s s₂ := by
  intro y
  rw [h' y, h y]
  by_cases hy : y ∈ ys
  · simp [hy]
  · simp [hy]

theorem Open.binds {names : List String} (h : Open τ scope s) (hnames : names ⊆ scope)
    (hs : Binds τ names s s') : Open τ scope s' where
  free x hx := by
    rw [hs x]
    split
    · exact Or.inr rfl
    · exact h.free x hx
  proper := h.proper
  bare := h.bare
  apart x hx y hy := by
    obtain ⟨hscope, hfree⟩ := h.apart x hx y hy
    have hy : y ∉ names := fun hmem => hscope (hnames hmem)
    refine ⟨hscope, ?_⟩
    rw [hs y]
    simp [hy, hfree]

/-- The first occurrence of a name binds it, and at the others its value is compared with itself. -/
theorem Open.within_variable {x : String} (h : Open τ scope s) (hx : x ≠ anonymousName)
    (hscope : x ∈ scope) (hdepth : (imageOf τ x).size + 1 ≤ depth) :
    ∃ s', within depth (.variable x) (imageOf τ x) s = .ok s' ∧ Binds τ [x] s s' := by
  obtain ⟨depth, rfl⟩ : ∃ d, depth = d + 1 := ⟨depth - 1, by omega⟩
  have hproper := h.proper x hscope
  have hapart := h.apart x hscope
  have hbare := h.bare x hscope
  rcases h.free x hscope with hfree | hbound
  · refine ⟨s.bind x (imageOf τ x), ?_, fun y => ?_⟩
    · cases himage : imageOf τ x with
      | «variable» y =>
          rw [himage] at hproper hapart
          have hy : y ≠ anonymousName := by simpa [Term.isProper] using hproper
          obtain ⟨hyscope, hyfree⟩ := hapart y (by simp [Term.names, hy])
          have hxy : x ≠ y := fun heq => hyscope (heq ▸ hscope)
          simp [within, Term.isAnonymous, Substitution.follow?, hx, hy, hfree, hyfree, hxy]
      | bound y v =>
          rw [himage] at hproper
          simp [Term.isProper] at hproper
      | _ => simp [within, Term.isAnonymous, Substitution.follow?, hx, hfree]
    · rw [Substitution.find?_bind]
      by_cases hy : y = x <;> simp [hy]
  · refine ⟨s, ?_, fun y => ?_⟩
    · have hself := within_self.1 (imageOf τ x) depth hbare (fun y hy => (hapart y hy).2) (by omega)
      have hnamed := Term.isAnonymous_of_isProper hproper
      have hanonymous : (Term.variable x).isAnonymous = false := by simp [Term.isAnonymous, hx]
      have hfollow : s.follow? (.variable x) = some (imageOf τ x) := by
        simp [Substitution.follow?, hx, hbound]
      unfold within
      simp only [hanonymous, hnamed, hfollow, hself, Bool.or_false, Bool.false_eq_true, ↓reduceIte]
    · by_cases hy : y = x
      · simp [hy, hbound]
      · simp [hy]

/-- Arguments are unified with their instances one after the other. -/
theorem Open.foldlM {xs : List Term} (h : Open τ scope s)
    (hscope : ∀ t ∈ xs, t.names ⊆ scope)
    (hstep : ∀ t ∈ xs, ∀ s, Open τ scope s →
      ∃ s', within depth t (t.replace τ) s = .ok s' ∧ Binds τ t.names s s') :
    ∃ s', (xs.zip (xs.map (Term.replace τ))).foldlM (fun s p => within depth p.1 p.2 s) s = .ok s' ∧
      Binds τ (xs.flatMap Term.names) s s' := by
  rw [zip_map_self, List.foldlM_map]
  induction xs generalizing s with
  | nil => exact ⟨s, rfl, binds_nil τ s⟩
  | cons t xs ih =>
      obtain ⟨s₁, hs₁, hbinds⟩ := hstep t List.mem_cons_self s h
      have hopen := h.binds (hscope t List.mem_cons_self) hbinds
      obtain ⟨s₂, hs₂, hrest⟩ := ih hopen (fun u hu => hscope u (List.mem_cons_of_mem _ hu))
        fun u hu => hstep u (List.mem_cons_of_mem _ hu)
      refine ⟨s₂, ?_, hbinds.append hrest⟩
      rw [List.foldlM_cons, hs₁]
      exact hs₂

/-- Unifying a term with its instance binds the names of the term. -/
theorem within_instance :
    (∀ t : Term, ∀ depth s, Open τ scope s → t.isBare = true → t.names ⊆ scope →
        t.size + (t.replace τ).size ≤ depth →
        ∃ s', within depth t (t.replace τ) s = .ok s' ∧ Binds τ t.names s s') ∧
      ∀ l : Literal, ∀ depth s, Open τ scope s → l.isBare = true → l.names ⊆ scope →
        l.size + (l.replace τ).size ≤ depth →
        ∃ s', (l.arguments.zip (l.replace τ).arguments).foldlM
            (fun s p => within depth p.1 p.2 s) s = .ok s' ∧ Binds τ l.names s s' := by
  have hall (xs : List Term) (depth : Nat) (s : Substitution) (h : Open τ scope s)
      (ih : ∀ t ∈ xs, ∀ depth s, Open τ scope s → t.isBare = true → t.names ⊆ scope →
        t.size + (t.replace τ).size ≤ depth →
        ∃ s', within depth t (t.replace τ) s = .ok s' ∧ Binds τ t.names s s')
      (hbare : ∀ t ∈ xs, t.isBare = true) (hscope : xs.flatMap Term.names ⊆ scope)
      (hdepth : Term.sizeAll xs + Term.sizeAll (xs.map (Term.replace τ)) ≤ depth) :
      ∃ s', (xs.zip (xs.map (Term.replace τ))).foldlM (fun s p => within depth p.1 p.2 s) s =
          .ok s' ∧ Binds τ (xs.flatMap Term.names) s s' := by
    have hnames (t : Term) (ht : t ∈ xs) : t.names ⊆ scope :=
      fun x hx => hscope (List.mem_flatMap.2 ⟨t, ht, hx⟩)
    refine h.foldlM hnames fun t ht s hs => ih t ht depth s hs (hbare t ht) (hnames t ht) ?_
    have hleft := Term.size_le_sizeAll ht
    have hright := Term.size_le_sizeAll (List.mem_map_of_mem (f := Term.replace τ) ht)
    omega
  apply Term.induction
  case sequence =>
    intro xs ih depth s h hbare hscope hdepth
    simp only [Term.isBare, Term.allBare_eq, List.all_eq_true] at hbare
    simp only [Term.replace, Term.replaceAll_eq, Term.size] at hdepth
    simp only [Term.names, Term.namesAll_eq] at hscope
    obtain ⟨depth, rfl⟩ : ∃ d, depth = d + 1 := ⟨depth - 1, by omega⟩
    obtain ⟨s', hs', hbinds⟩ := hall xs depth s h ih hbare hscope (by omega)
    refine ⟨s', ?_, by simpa [Term.names] using hbinds⟩
    simpa [within, Term.replace, Term.isAnonymous, Substitution.follow?] using hs'
  case literal =>
    intro l ih depth s h hbare hscope hdepth
    simp only [Term.replace, Term.size] at hdepth
    obtain ⟨depth, rfl⟩ : ∃ d, depth = d + 1 := ⟨depth - 1, by omega⟩
    obtain ⟨s', hs', hbinds⟩ := ih depth s h hbare hscope (by omega)
    have hsignature := Literal.sameSignature_replace τ l
    refine ⟨s', ?_, hbinds⟩
    simpa [within, Term.replace, Term.isAnonymous, Substitution.follow?, hsignature] using hs'
  case var =>
    intro x depth s h _ hscope hdepth
    by_cases hx : x = anonymousName
    · obtain ⟨depth, rfl⟩ : ∃ d, depth = d + 1 := ⟨depth - 1, by rw [Term.size] at hdepth; omega⟩
      refine ⟨s, by simp [within, Term.isAnonymous, hx], ?_⟩
      simpa [Term.names, hx] using binds_nil τ s
    · rw [Term.replace_variable τ hx] at hdepth ⊢
      simp only [Term.names, hx, ↓reduceIte] at hscope ⊢
      rw [Term.size] at hdepth
      exact h.within_variable hx (hscope List.mem_cons_self) (by omega)
  case bound =>
    intro x v _ depth s _ hbare
    simp [Term.isBare] at hbare
  case mk =>
    intro f n xs notes ih _ depth s h hbare hscope hdepth
    simp only [Literal.isBare, Term.allBare_eq, Bool.and_eq_true, List.all_eq_true] at hbare
    simp only [Literal.replace, Term.replaceAll_eq, Literal.size] at hdepth ⊢
    simp only [Literal.names, Term.namesAll_eq] at hscope ⊢
    exact hall xs depth s h ih hbare.1 hscope hdepth
  all_goals
    intro content depth s _ _ _ hdepth
    obtain ⟨depth, rfl⟩ : ∃ d, depth = d + 1 := ⟨depth - 1, by rw [Term.size] at hdepth; omega⟩
    refine ⟨s, ?_, binds_nil τ s⟩
    simp [within, Term.replace, Term.isAnonymous, Substitution.follow?]

theorem le_depthBound (parts : Nat) (s : Substitution) : parts ≤ depthBound parts s := by
  have hle : parts ≤ parts + weight s + 2 := by omega
  exact hle.trans (Nat.le_self_pow (by decide) _)

/-- A literal unifies with its instance, and exactly its names are bound. -/
theorem unifyLiterals_instance {l : Literal} (hbare : l.isBare = true) (h : Open τ l.names s) :
    ∃ s', unifyLiterals l (l.replace τ) s = .ok s' ∧ Binds τ l.names s s' := by
  have hdepth := le_depthBound (l.size + (l.replace τ).size) s
  obtain ⟨s', hs', hbinds⟩ := within_instance.2 l _ s h hbare (List.Subset.refl _) hdepth
  refine ⟨s', ?_, hbinds⟩
  rw [unifyLiterals, Literal.sameSignature_replace]
  exact hs'

/-! ### The bindings afterwards -/

variable {names : List String}

theorem Binds.extends (h : Binds τ names s s') (hfree : ∀ x ∈ names, s.find? x = none) :
    s'.Extends s := by
  intro x t ht
  have hx : x ∉ names := by
    intro hmem
    simp [hfree x hmem] at ht
  rw [h x]
  simp [hx, ht]

theorem Binds.find?_ne_none_iff (h : Binds τ names s s') (hfree : ∀ x ∈ names, s.find? x = none)
    (x : String) : (s.find? x = none ∧ s'.find? x ≠ none) ↔ x ∈ names := by
  rw [h x]
  by_cases hx : x ∈ names
  · simp [hx, hfree x hx]
  · simp [hx]

/-- New values that lead nowhere close no circle: a name on a circle is bound, so no new value leads
to it, and the circle was there before. -/
theorem Binds.acyclic (h : Binds τ names s s') (hs : s.Acyclic)
    (hdead : ∀ x ∈ names, ∀ y ∈ (imageOf τ x).allNames, s'.find? y = none) : s'.Acyclic := by
  have hedge (x y : String) (hxy : s'.DependsOn x y) (hy : s'.find? y ≠ none) :
      s.DependsOn x y := by
    obtain ⟨t, ht, hmem⟩ := hxy
    rw [h x] at ht
    split at ht
    · rename_i hx
      obtain rfl := Option.some.inj ht
      exact absurd (hdead x hx y hmem) hy
    · exact ⟨t, ht, hmem⟩
  have hbound (x y : String) (hxy : s'.DependsOn x y) : s'.find? x ≠ none := by
    obtain ⟨t, ht, _⟩ := hxy
    simp [ht]
  have hpath (x y : String) (hxy : Relation.TransGen s'.DependsOn x y) (hy : s'.find? y ≠ none) :
      Relation.TransGen s.DependsOn x y := by
    induction hxy with
    | single hxz => exact .single (hedge _ _ hxz hy)
    | tail _ hyz ih => exact .tail (ih (hbound _ _ hyz)) (hedge _ _ hyz hy)
  intro x hcycle
  obtain ⟨z, hxz, _⟩ := Relation.TransGen.head'_iff.1 hcycle
  exact hs x (hpath x x hcycle (hbound x z hxz))

/-- Applying the bindings to the names that they were made for puts in the same as the instance
has. -/
theorem Binds.imageOf_resolve? (h : Binds τ names s s') {x : String} (hx : x ∈ names)
    (hbare : (imageOf τ x).isBare = true)
    (hdead : ∀ y ∈ (imageOf τ x).allNames, s'.find? y = none) :
    imageOf (s'.resolve? s'.size) x = imageOf τ x := by
  have hfind : s'.find? x = some (imageOf τ x) := by
    rw [h x]
    simp [hx]
  have hsettles : s'.Settles x := by
    refine Substitution.settles_of_dead_end fun y hy => ?_
    obtain ⟨t, ht, hmem⟩ := hy
    rw [hfind] at ht
    obtain rfl := Option.some.inj ht
    exact hdead y hmem
  rw [imageOf, Substitution.resolve?_size hsettles, hfind, Option.map_some, Option.getD_some]
  refine replace_eq_self.1 _ hbare fun y hy => ?_
  rw [imageOf, Substitution.resolve?_of_find?_eq_none (hdead y hy)]
  rfl

end Unification
end Deliberation
