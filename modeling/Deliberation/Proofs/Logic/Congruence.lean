import Deliberation.Proofs.Logic.Equality

/-!
Equality of terms as a congruence.

Terms that are equal although they differ, in an annotation, in the sign of zero or in a non-number,
are not told apart later: a hash is computed from the same data for both, and what bindings make of
them is equal again.
-/

namespace Deliberation

/-! ### Lists of equal terms -/

/-- What is the same for equal terms is the same along lists of equal terms. -/
theorem Term.map_eq_of_beqAll {α : Type} {f : Term → α} {xs ys : List Term}
    (hf : ∀ t ∈ xs, ∀ u : Term, (t == u) = true → f t = f u) (h : Term.beqAll xs ys = true) :
    xs.map f = ys.map f := by
  induction xs generalizing ys with
  | nil =>
      cases ys with
      | nil => rfl
      | cons y ys => simp [Term.beqAll] at h
  | cons x xs ih =>
      cases ys with
      | nil => simp [Term.beqAll] at h
      | cons y ys =>
          simp only [Term.beqAll, Bool.and_eq_true] at h
          rw [List.forall_mem_cons] at hf
          rw [List.map_cons, List.map_cons, hf.1 y h.1, ih hf.2 h.2]

/-- What makes equal terms of equal terms makes lists of equal terms of such lists. -/
theorem Term.beqAll_map {f : Term → Term} {xs ys : List Term}
    (hf : ∀ t ∈ xs, ∀ u : Term, (t == u) = true → (f t == f u) = true)
    (h : Term.beqAll xs ys = true) : Term.beqAll (xs.map f) (ys.map f) = true := by
  rw [Term.beqAll_iff] at h ⊢
  refine ⟨by simpa using h.1, ?_⟩
  rw [List.zip_map, List.forall_mem_map]
  intro p hp
  exact hf p.1 (List.of_mem_zip hp).1 p.2 (h.2 p hp)

/-! ### Hashes -/

theorem Term.hashItemsAll_eq (xs : List Term) :
    Term.hashItemsAll xs = xs.flatMap Term.hashItems := by
  induction xs with
  | nil => rfl
  | cons x xs ih => rw [Term.hashItemsAll, List.flatMap_cons, ih]

theorem Term.hashItemsAll_eq_of_beqAll {xs ys : List Term}
    (ih : ∀ t ∈ xs, ∀ u : Term, (t == u) = true → t.hashItems = u.hashItems)
    (h : Term.beqAll xs ys = true) :
    xs.length = ys.length ∧ Term.hashItemsAll xs = Term.hashItemsAll ys := by
  have hmap := Term.map_eq_of_beqAll ih h
  rw [Term.hashItemsAll_eq, Term.hashItemsAll_eq, List.flatMap_def, List.flatMap_def, hmap]
  exact ⟨by simpa using congrArg List.length hmap, rfl⟩

/-- A hash of equal terms is computed from the same data. -/
theorem hashItems_eq_of_beq :
    (∀ t u : Term, (t == u) = true → t.hashItems = u.hashItems) ∧
      ∀ l m : Literal, (l == m) = true → l.hashItems = m.hashItems := by
  apply Term.induction
  case atom =>
    intro name u h
    rw [Term.atom_beq_iff.1 h]
  case number =>
    intro x u h
    obtain ⟨y, rfl, hkey⟩ := Term.number_beq_iff.1 h
    rw [Term.hashItems, Term.hashItems, hkey]
  case text =>
    intro content u h
    rw [Term.text_beq_iff.1 h]
  case sequence =>
    intro xs ih u h
    obtain ⟨ys, rfl, hall⟩ := Term.sequence_beq_iff.1 h
    obtain ⟨hlength, hitems⟩ := Term.hashItemsAll_eq_of_beqAll ih hall
    rw [Term.hashItems, Term.hashItems, hlength, hitems]
  case literal =>
    intro l ih u h
    obtain ⟨m, rfl, hm⟩ := Term.literal_beq_iff.1 h
    rw [Term.hashItems, Term.hashItems, ih m hm]
  case var =>
    intro x u h
    rw [Term.variable_beq_iff.1 h]
  case bound =>
    intro x v ih u h
    obtain ⟨w, rfl, hw⟩ := Term.bound_beq_iff.1 h
    rw [Term.hashItems, Term.hashItems, ih w hw]
  case mk =>
    intro f n xs notes ih _ m h
    obtain ⟨g, k, ys, marks⟩ := m
    obtain ⟨rfl, rfl, hall⟩ := (Literal.beq_iff _ _).1 h
    obtain ⟨hlength, hitems⟩ := Term.hashItemsAll_eq_of_beqAll ih hall
    rw [Literal.hashItems, Literal.hashItems, hlength, hitems]

instance : LawfulHashable Term where
  hash_eq a b h := congrArg (fun items : List HashItem => hash items) (hashItems_eq_of_beq.1 a b h)

instance : LawfulHashable Literal where
  hash_eq l m h := congrArg (fun items : List HashItem => hash items) (hashItems_eq_of_beq.2 l m h)

/-! ### Replacements -/

/-- A replacement makes equal terms of equal terms. A variable is only equal to itself, so the same
is put in the place of both. -/
theorem replace_beq_of_beq (σ : String → Option Term) :
    (∀ t u : Term, (t == u) = true → (t.replace σ == u.replace σ) = true) ∧
      ∀ l m : Literal, (l == m) = true → (l.replace σ == m.replace σ) = true := by
  apply Term.induction
  case atom =>
    intro name u h
    rw [Term.atom_beq_iff.1 h]
    exact BEq.rfl
  case number =>
    intro x u h
    obtain ⟨y, rfl, _⟩ := Term.number_beq_iff.1 h
    exact h
  case text =>
    intro content u h
    rw [Term.text_beq_iff.1 h]
    exact BEq.rfl
  case sequence =>
    intro xs ih u h
    obtain ⟨ys, rfl, hall⟩ := Term.sequence_beq_iff.1 h
    simp only [Term.replace, Term.replaceAll_eq]
    exact Term.sequence_beq_iff.2 ⟨_, rfl, Term.beqAll_map ih hall⟩
  case literal =>
    intro l ih u h
    obtain ⟨m, rfl, hm⟩ := Term.literal_beq_iff.1 h
    exact Term.literal_beq_iff.2 ⟨_, rfl, ih m hm⟩
  case var =>
    intro x u h
    rw [Term.variable_beq_iff.1 h]
    exact BEq.rfl
  case bound =>
    intro x v ih u h
    obtain ⟨w, rfl, hw⟩ := Term.bound_beq_iff.1 h
    exact ih w hw
  case mk =>
    intro f n xs notes ih _ m h
    obtain ⟨g, k, ys, marks⟩ := m
    obtain ⟨hfunctor, hnegated, hall⟩ := (Literal.beq_iff _ _).1 h
    simp only [Literal.replace, Term.replaceAll_eq]
    exact (Literal.beq_iff _ _).2 ⟨hfunctor, hnegated, Term.beqAll_map ih hall⟩

/-- Equality is an equivalence of terms and of literals, non-numbers included. A hash of equal ones
is computed from the same data, so it is the same hash; and bindings make equal ones of them. -/
theorem equality_is_congruence :
    Equivalence (fun a b : Term => (a == b) = true) ∧
      Equivalence (fun l m : Literal => (l == m) = true) ∧
      (∀ a b : Term, (a == b) = true → a.hashItems = b.hashItems ∧ hash a = hash b ∧
        ∀ s : Substitution, (s.apply a == s.apply b) = true) ∧
      ∀ l m : Literal, (l == m) = true → l.hashItems = m.hashItems ∧ hash l = hash m ∧
        ∀ s : Substitution, (s.applyLiteral l == s.applyLiteral m) = true := by
  refine ⟨⟨fun _ => BEq.rfl, BEq.symm, BEq.trans⟩, ⟨fun _ => BEq.rfl, BEq.symm, BEq.trans⟩,
    fun a b h => ?_, fun l m h => ?_⟩
  · exact ⟨hashItems_eq_of_beq.1 a b h, hash_eq h, fun s => (replace_beq_of_beq _).1 a b h⟩
  · exact ⟨hashItems_eq_of_beq.2 l m h, hash_eq h, fun s => (replace_beq_of_beq _).2 l m h⟩

/-- A reading that came with an annotation, a negative zero and a non-number equals one that came
without; what stands for `Y` comes into both. -/
theorem equality_is_congruence_reading :
    let a := Term.literal ((Literal.of "reading"
      [.number (-0.0), .bound "X" (.number (0 / 0)), .variable "Y"]).annotate (.atom "fresh"))
    let b := Term.literal (Literal.of "reading"
      [.number 0, .bound "X" (.number (-(0 / 0))), .variable "Y"])
    let s := Substitution.ofList [("Y", .variable "Z"), ("Z", .number (0 / 0))]
    (a == b) = true ∧ a.hashItems = b.hashItems ∧ (s.apply a == s.apply b) = true ∧
      a.render ≠ b.render := by
  intro a b s
  have heq : (a == b) = true := by decide +kernel
  obtain ⟨_, _, hterms, _⟩ := equality_is_congruence
  obtain ⟨hitems, _, happly⟩ := hterms a b heq
  exact ⟨heq, hitems, happly s, by decide +kernel⟩

end Deliberation
