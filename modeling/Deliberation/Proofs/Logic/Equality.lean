import Deliberation.Proofs.Logic.Unification

/-!
Equality of terms.

Equality overlooks annotations and compares numbers by their keys. It is an equivalence all the
same; equal terms have equally many parts, and a replacement that puts equal terms in the place of
the names gives equal terms.
-/

namespace Deliberation

/-! ### What equals a term of a kind -/

theorem Term.atom_beq_iff {name : String} {t : Term} :
    (Term.atom name == t) = true ↔ t = .atom name := by
  cases t <;> simp [BEq.beq, Term.beq, eq_comm]

theorem Term.number_beq_iff {x : Float} {t : Term} :
    (Term.number x == t) = true ↔ ∃ y, t = .number y ∧ numberKey x = numberKey y := by
  cases t <;> simp [BEq.beq, Term.beq]

theorem Term.text_beq_iff {content : String} {t : Term} :
    (Term.text content == t) = true ↔ t = .text content := by
  cases t <;> simp [BEq.beq, Term.beq, eq_comm]

theorem Term.sequence_beq_iff {xs : List Term} {t : Term} :
    (Term.sequence xs == t) = true ↔ ∃ ys, t = .sequence ys ∧ Term.beqAll xs ys = true := by
  cases t <;> simp [BEq.beq, Term.beq]

theorem Term.literal_beq_iff {l : Literal} {t : Term} :
    (Term.literal l == t) = true ↔ ∃ m, t = .literal m ∧ (l == m) = true := by
  cases t <;> simp [BEq.beq, Term.beq]

theorem Term.variable_beq_iff {x : String} {t : Term} :
    (Term.variable x == t) = true ↔ t = .variable x := by
  cases t <;> simp [BEq.beq, Term.beq, eq_comm]

theorem Term.bound_beq_iff {x : String} {v t : Term} :
    (Term.bound x v == t) = true ↔ ∃ w, t = .bound x w ∧ (v == w) = true := by
  cases t with
  | bound y w =>
      simp only [BEq.beq, Term.beq, Bool.and_eq_true, decide_eq_true_eq, Term.bound.injEq]
      constructor
      · rintro ⟨rfl, hw⟩
        exact ⟨w, ⟨rfl, rfl⟩, hw⟩
      · rintro ⟨_, ⟨rfl, rfl⟩, hw⟩
        exact ⟨rfl, hw⟩
  | _ => simp [BEq.beq, Term.beq]

/-! ### An equivalence -/

theorem Term.beqAll_symm {xs ys : List Term}
    (ih : ∀ t ∈ xs, ∀ u : Term, (t == u) = true → (u == t) = true)
    (h : Term.beqAll xs ys = true) : Term.beqAll ys xs = true := by
  induction xs generalizing ys with
  | nil =>
      cases ys with
      | nil => rfl
      | cons y ys => simp [Term.beqAll] at h
  | cons x xs hxs =>
      cases ys with
      | nil => simp [Term.beqAll] at h
      | cons y ys =>
          simp only [Term.beqAll, Bool.and_eq_true] at h ⊢
          rw [List.forall_mem_cons] at ih
          exact ⟨ih.1 y h.1, hxs ih.2 h.2⟩

theorem Term.beqAll_trans {xs ys zs : List Term}
    (ih : ∀ t ∈ xs, ∀ u v : Term, (t == u) = true → (u == v) = true → (t == v) = true)
    (h : Term.beqAll xs ys = true) (h' : Term.beqAll ys zs = true) :
    Term.beqAll xs zs = true := by
  induction xs generalizing ys zs with
  | nil =>
      cases ys with
      | nil => exact h'
      | cons y ys => simp [Term.beqAll] at h
  | cons x xs hxs =>
      cases ys with
      | nil => simp [Term.beqAll] at h
      | cons y ys =>
          cases zs with
          | nil => simp [Term.beqAll] at h'
          | cons z zs =>
              simp only [Term.beqAll, Bool.and_eq_true] at h h' ⊢
              rw [List.forall_mem_cons] at ih
              exact ⟨ih.1 y z h.1 h'.1, hxs ih.2 h.2 h'.2⟩

theorem beq_symm :
    (∀ t u : Term, (t == u) = true → (u == t) = true) ∧
      ∀ l m : Literal, (l == m) = true → (m == l) = true := by
  apply Term.induction
  case atom =>
    intro name u h
    obtain rfl := Term.atom_beq_iff.1 h
    exact h
  case number =>
    intro x u h
    obtain ⟨y, rfl, hkey⟩ := Term.number_beq_iff.1 h
    exact Term.number_beq_iff.2 ⟨x, rfl, hkey.symm⟩
  case text =>
    intro content u h
    obtain rfl := Term.text_beq_iff.1 h
    exact h
  case sequence =>
    intro xs ih u h
    obtain ⟨ys, rfl, hall⟩ := Term.sequence_beq_iff.1 h
    exact Term.sequence_beq_iff.2 ⟨xs, rfl, Term.beqAll_symm ih hall⟩
  case literal =>
    intro l ih u h
    obtain ⟨m, rfl, hm⟩ := Term.literal_beq_iff.1 h
    exact Term.literal_beq_iff.2 ⟨l, rfl, ih m hm⟩
  case var =>
    intro x u h
    obtain rfl := Term.variable_beq_iff.1 h
    exact h
  case bound =>
    intro x v ih u h
    obtain ⟨w, rfl, hw⟩ := Term.bound_beq_iff.1 h
    exact Term.bound_beq_iff.2 ⟨v, rfl, ih w hw⟩
  case mk =>
    intro f n xs notes ih _ m h
    rw [Literal.beq_iff] at h ⊢
    exact ⟨h.1.symm, h.2.1.symm, Term.beqAll_symm ih h.2.2⟩

theorem beq_trans :
    (∀ t u v : Term, (t == u) = true → (u == v) = true → (t == v) = true) ∧
      ∀ l m k : Literal, (l == m) = true → (m == k) = true → (l == k) = true := by
  apply Term.induction
  case atom =>
    intro name u v h h'
    obtain rfl := Term.atom_beq_iff.1 h
    exact h'
  case number =>
    intro x u v h h'
    obtain ⟨y, rfl, hy⟩ := Term.number_beq_iff.1 h
    obtain ⟨z, rfl, hz⟩ := Term.number_beq_iff.1 h'
    exact Term.number_beq_iff.2 ⟨z, rfl, hy.trans hz⟩
  case text =>
    intro content u v h h'
    obtain rfl := Term.text_beq_iff.1 h
    exact h'
  case sequence =>
    intro xs ih u v h h'
    obtain ⟨ys, rfl, hys⟩ := Term.sequence_beq_iff.1 h
    obtain ⟨zs, rfl, hzs⟩ := Term.sequence_beq_iff.1 h'
    exact Term.sequence_beq_iff.2 ⟨zs, rfl, Term.beqAll_trans ih hys hzs⟩
  case literal =>
    intro l ih u v h h'
    obtain ⟨m, rfl, hm⟩ := Term.literal_beq_iff.1 h
    obtain ⟨k, rfl, hk⟩ := Term.literal_beq_iff.1 h'
    exact Term.literal_beq_iff.2 ⟨k, rfl, ih m k hm hk⟩
  case var =>
    intro x u v h h'
    obtain rfl := Term.variable_beq_iff.1 h
    exact h'
  case bound =>
    intro x a ih u v h h'
    obtain ⟨b, rfl, hb⟩ := Term.bound_beq_iff.1 h
    obtain ⟨c, rfl, hc⟩ := Term.bound_beq_iff.1 h'
    exact Term.bound_beq_iff.2 ⟨c, rfl, ih b c hb hc⟩
  case mk =>
    intro f n xs notes ih _ m k h h'
    rw [Literal.beq_iff] at h h' ⊢
    exact ⟨h.1.trans h'.1, h.2.1.trans h'.2.1, Term.beqAll_trans ih h.2.2 h'.2.2⟩

instance : EquivBEq Term where
  symm {a b} := beq_symm.1 a b
  trans {a b c} := beq_trans.1 a b c
  rfl {a} := beq_refl.1 a

instance : EquivBEq Literal where
  symm {a b} := beq_symm.2 a b
  trans {a b c} := beq_trans.2 a b c
  rfl {a} := beq_refl.2 a

/-! ### Sizes and replacements -/

theorem Term.sizeAll_eq_of_beqAll {xs ys : List Term}
    (ih : ∀ t ∈ xs, ∀ u : Term, (t == u) = true → t.size = u.size)
    (h : Term.beqAll xs ys = true) : Term.sizeAll xs = Term.sizeAll ys := by
  induction xs generalizing ys with
  | nil =>
      cases ys with
      | nil => rfl
      | cons y ys => simp [Term.beqAll] at h
  | cons x xs hxs =>
      cases ys with
      | nil => simp [Term.beqAll] at h
      | cons y ys =>
          simp only [Term.beqAll, Bool.and_eq_true] at h
          rw [List.forall_mem_cons] at ih
          rw [Term.sizeAll, Term.sizeAll, ih.1 y h.1, hxs ih.2 h.2]

/-- Equal terms have equally many parts. -/
theorem size_eq_of_beq :
    (∀ t u : Term, (t == u) = true → t.size = u.size) ∧
      ∀ l m : Literal, (l == m) = true → l.size = m.size := by
  apply Term.induction
  case number =>
    intro x u h
    obtain ⟨y, rfl, _⟩ := Term.number_beq_iff.1 h
    rfl
  case sequence =>
    intro xs ih u h
    obtain ⟨ys, rfl, hall⟩ := Term.sequence_beq_iff.1 h
    rw [Term.size, Term.size, Term.sizeAll_eq_of_beqAll ih hall]
  case literal =>
    intro l ih u h
    obtain ⟨m, rfl, hm⟩ := Term.literal_beq_iff.1 h
    rw [Term.size, Term.size, ih m hm]
  case bound =>
    intro x v ih u h
    obtain ⟨w, rfl, hw⟩ := Term.bound_beq_iff.1 h
    rw [Term.size, Term.size, ih w hw]
  case mk =>
    intro f n xs notes ih _ m h
    obtain ⟨g, k, ys, marks⟩ := m
    exact Term.sizeAll_eq_of_beqAll ih ((Literal.beq_iff _ _).1 h).2.2
  case atom =>
    intro name u h
    rw [Term.atom_beq_iff.1 h]
  case text =>
    intro content u h
    rw [Term.text_beq_iff.1 h]
  case var =>
    intro x u h
    rw [Term.variable_beq_iff.1 h]

/-- Replacements that put equal terms in the place of the names of a term give equal terms. Names in
annotations do not matter. -/
theorem beq_replace {σ τ : String → Option Term} :
    (∀ t : Term, (∀ x ∈ t.names, (imageOf σ x == imageOf τ x) = true) →
        (t.replace σ == t.replace τ) = true) ∧
      ∀ l : Literal, (∀ x ∈ l.names, (imageOf σ x == imageOf τ x) = true) →
        (l.replace σ == l.replace τ) = true := by
  have hall (xs : List Term) (ih : ∀ t ∈ xs, (t.replace σ == t.replace τ) = true) :
      Term.beqAll (xs.map (Term.replace σ)) (xs.map (Term.replace τ)) = true := by
    refine (Term.beqAll_iff _ _).2 ⟨by simp, ?_⟩
    rw [List.zip_map', List.forall_mem_map]
    exact ih
  apply Term.induction
  case sequence =>
    intro xs ih h
    simp only [Term.names, Term.namesAll_eq, List.mem_flatMap] at h
    simp only [Term.replace, Term.replaceAll_eq]
    exact hall xs fun t ht => ih t ht fun x hx => h x ⟨t, ht, hx⟩
  case literal =>
    intro l ih h
    exact ih h
  case var =>
    intro x h
    by_cases hx : x = anonymousName
    · simp [Term.replace, hx]
    · rw [Term.replace_variable σ hx, Term.replace_variable τ hx]
      exact h x (by simp [Term.names, hx])
  case bound =>
    intro _ v ih h
    exact ih h
  case mk =>
    intro f n xs notes ih _ h
    simp only [Literal.names, Term.namesAll_eq, List.mem_flatMap] at h
    simp only [Literal.replace, Term.replaceAll_eq]
    exact (Literal.beq_iff _ _).2
      ⟨rfl, rfl, hall xs fun t ht => ih t ht fun x hx => h x ⟨t, ht, hx⟩⟩
  all_goals simp [Term.replace]

end Deliberation
