import Deliberation.Proofs.Logic.Equality
import Deliberation.Proofs.Number.Arithmetic
import Deliberation.Society.Distance
import Mathlib.Algebra.Order.Ring.Rat
import Mathlib.Data.Finset.SymmDiff
import Mathlib.Data.Nat.Cast.Order.Ring

/-!
Distances between states as sets.

Equality of literals overlooks their annotations and tells no two zeros apart, and equal literals
count as one. What counts of a list is therefore the set of its kinds of literals. The numbers that
distances are made of are sizes of such sets, and their laws are laws of sets.
-/

namespace Deliberation

open scoped symmDiff

/-! ### Kinds of literals -/

/-- Equal literals are of one kind. -/
def Literal.sameKind : Setoid Literal where
  r l m := (l == m) = true
  iseqv := ⟨fun _ => BEq.rfl, BEq.symm, BEq.trans⟩

/-- A literal, but for what equality overlooks. -/
def LiteralKind : Type :=
  Quotient Literal.sameKind

namespace LiteralKind

def of (l : Literal) : LiteralKind :=
  Quotient.mk Literal.sameKind l

theorem of_eq_iff {l m : Literal} : of l = of m ↔ (l == m) = true :=
  Quotient.eq (r := Literal.sameKind)

instance : DecidableEq LiteralKind :=
  @Quotient.decidableEq Literal Literal.sameKind fun l m =>
    inferInstanceAs (Decidable ((l == m) = true))

end LiteralKind

namespace Distance

variable {left right : List Literal} {l : Literal}

/-- The kinds of the literals of a list. -/
def kinds (literals : List Literal) : Finset LiteralKind :=
  (literals.map LiteralKind.of).toFinset

theorem mem_kinds_iff {literals : List Literal} :
    LiteralKind.of l ∈ kinds literals ↔ literals.contains l = true := by
  simp [kinds, LiteralKind.of_eq_iff, List.contains_iff_exists_mem_beq, BEq.comm (a := l)]

theorem kinds_eq_empty_iff {literals : List Literal} : kinds literals = ∅ ↔ literals = [] := by
  simp [kinds]

/-! ### Sizes of sets of kinds -/

theorem map_of_distinct_cons (l : Literal) (rest : List Literal) :
    (distinct (l :: rest)).map LiteralKind.of =
      .of l :: ((distinct rest).map LiteralKind.of).filter (· ≠ .of l) := by
  rw [distinct, List.map_cons, List.filter_map]
  refine congrArg (fun others : List Literal => LiteralKind.of l :: others.map LiteralKind.of) ?_
  refine List.filter_congr fun m _ => ?_
  simp [LiteralKind.of_eq_iff, BEq.comm (a := l)]

/-- No kind stands twice among the different literals of a list. -/
theorem nodup_map_of_distinct (literals : List Literal) :
    ((distinct literals).map LiteralKind.of).Nodup := by
  induction literals with
  | nil => exact List.nodup_nil
  | cons l rest ih =>
      rw [map_of_distinct_cons, List.nodup_cons]
      exact ⟨by simp, ih.filter _⟩

theorem kinds_distinct (literals : List Literal) : kinds (distinct literals) = kinds literals := by
  induction literals with
  | nil => rfl
  | cons l rest ih =>
      rw [kinds, map_of_distinct_cons, List.toFinset_cons, List.toFinset_filter, kinds,
        List.map_cons, List.toFinset_cons]
      change insert _ (Finset.filter _ (kinds (distinct rest))) = insert _ (kinds rest)
      rw [ih]
      ext k
      by_cases hk : k = .of l <;> simp [hk]

/-- To count the different literals with some property of their kind is to count kinds. -/
theorem length_filter_distinct (literals : List Literal) (p : LiteralKind → Prop)
    [DecidablePred p] :
    ((distinct literals).filter fun l => decide (p (.of l))).length =
      ((kinds literals).filter p).card := by
  have hfilter : ((distinct literals).filter fun l => decide (p (.of l))).map LiteralKind.of =
      ((distinct literals).map LiteralKind.of).filter fun k => decide (p k) := by
    rw [List.filter_map]
    rfl
  rw [← List.length_map LiteralKind.of, hfilter,
    ← List.toFinset_card_of_nodup ((nodup_map_of_distinct literals).filter _),
    List.toFinset_filter]
  change (Finset.filter _ (kinds (distinct literals))).card = _
  rw [kinds_distinct]
  simp

theorem length_missing (left right : List Literal) :
    (missing left right).length = (kinds left \ kinds right).card := by
  rw [Finset.sdiff_eq_filter, ← length_filter_distinct]
  simp only [missing, mem_kinds_iff, decide_not, Bool.decide_eq_true]

theorem length_common (left right : List Literal) :
    (common left right).length = (kinds left ∩ kinds right).card := by
  rw [← Finset.filter_mem_eq_inter, ← length_filter_distinct]
  simp only [common, mem_kinds_iff, Bool.decide_eq_true]

theorem length_distinct (literals : List Literal) :
    (distinct literals).length = (kinds literals).card := by
  simpa using length_filter_distinct literals fun _ => True

theorem differenceCount_eq (left right : List Literal) :
    differenceCount left right = (kinds left ∆ kinds right).card := by
  rw [differenceCount, length_missing, length_missing, symmDiff, Finset.sup_eq_union,
    Finset.card_union_of_disjoint disjoint_sdiff_sdiff]

theorem unionCount_eq (left right : List Literal) :
    unionCount left right = (kinds left ∪ kinds right).card := by
  rw [unionCount, length_distinct, length_missing, Finset.union_comm, ← Finset.card_sdiff_add_card,
    Nat.add_comm]

/-! ### Lists that say the same -/

/-- Each literal of one list equals one of the other. -/
def SameLiterals (left right : List Literal) : Prop :=
  (∀ l ∈ left, ∃ m ∈ right, (l == m) = true) ∧ ∀ m ∈ right, ∃ l ∈ left, (m == l) = true

theorem kinds_subset_iff :
    kinds left ⊆ kinds right ↔ ∀ l ∈ left, ∃ m ∈ right, (l == m) = true := by
  have hmem (l : Literal) : LiteralKind.of l ∈ kinds right ↔ ∃ m ∈ right, (l == m) = true := by
    rw [mem_kinds_iff, List.contains_iff_exists_mem_beq]
  simp only [← hmem]
  simp [kinds, Finset.subset_iff]

theorem kinds_eq_iff : kinds left = kinds right ↔ SameLiterals left right := by
  rw [Finset.Subset.antisymm_iff, kinds_subset_iff, kinds_subset_iff, SameLiterals]

/-- A list that comes from another when this is permuted, when literals of it are repeated or
repeats left out, and when literals of it are replaced by equal ones. -/
inductive Restated : List Literal → List Literal → Prop where
  | permuted {left right : List Literal} : left.Perm right → Restated left right
  | repeated {literals : List Literal} {l : Literal} :
      l ∈ literals → Restated literals (l :: literals)
  | replaced {before after : List Literal} {l m : Literal} :
      (l == m) = true → Restated (before ++ l :: after) (before ++ m :: after)
  | symm {left right : List Literal} : Restated left right → Restated right left
  | trans {left middle right : List Literal} :
      Restated left middle → Restated middle right → Restated left right

theorem Restated.kinds_eq (h : Restated left right) : kinds left = kinds right := by
  induction h with
  | permuted hperm => exact List.toFinset_eq_of_perm _ _ (hperm.map LiteralKind.of)
  | repeated hl => simp [kinds, List.mem_map_of_mem hl]
  | replaced hequal => simp [kinds, LiteralKind.of_eq_iff.2 hequal]
  | symm _ ih => exact ih.symm
  | trans _ _ ih ih' => exact ih.trans ih'

/-! ### Distances in exact arithmetic -/

section Exact

variable {K : Type} [Field K] [LinearOrder K] {α : Type} [Scalar α] {number : K → α}

/-- The weighted difference of two sets. -/
def setWeight (s t : Finset LiteralKind) : K :=
  if (s ∩ t).card = 0 then (s ∆ t).card
  else 4 * (s ∪ t).card + (s ∆ t).card / (s ∩ t).card

theorem symmetric_eq (hexact : Scalar.ExactOn number) (left right : List Literal) :
    symmetric left right = number ((kinds left ∆ kinds right).card : K) := by
  rw [symmetric, differenceCount_eq, hexact.ofCount]

theorem weighted_eq [IsStrictOrderedRing K] (hexact : Scalar.ExactOn number)
    (left right : List Literal) :
    weighted left right = number (setWeight (kinds left) (kinds right)) := by
  rw [weighted, length_common, setWeight]
  split
  · rename_i hnone
    rw [if_pos hnone, differenceCount_eq, hexact.ofCount]
  · rename_i k hsome
    have hcount : ((k + 1 : Nat) : K) ≠ 0 := Nat.cast_ne_zero.2 (Nat.succ_ne_zero k)
    rw [if_neg (by omega), hsome, differenceCount_eq, unionCount_eq, hexact.ofCount, hexact.ofCount,
      hexact.ofCount, hexact.ofCount, hexact.div _ _ hcount, hexact.mulAdd]
    rfl

omit [LinearOrder K] in
theorem setWeight_comm (s t : Finset LiteralKind) : (setWeight s t : K) = setWeight t s := by
  simp only [setWeight, Finset.inter_comm s, Finset.union_comm s, symmDiff_comm s]

/-- Two sets have the weight zero only if there is nothing in them. -/
theorem setWeight_eq_zero_iff [IsStrictOrderedRing K] (s t : Finset LiteralKind) :
    (setWeight s t : K) = 0 ↔ s = ∅ ∧ t = ∅ := by
  rw [setWeight]
  split
  · rename_i hnone
    rw [Nat.cast_eq_zero, Finset.card_eq_zero, ← Finset.bot_eq_empty, symmDiff_eq_bot]
    rw [Finset.card_eq_zero] at hnone
    constructor
    · rintro rfl
      rw [Finset.inter_self] at hnone
      exact ⟨hnone, hnone⟩
    · rintro ⟨rfl, rfl⟩
      rfl
  · rename_i hsome
    have hunion : 0 < (s ∪ t).card := by
      refine lt_of_lt_of_le (Nat.pos_of_ne_zero hsome) (Finset.card_le_card ?_)
      exact Finset.inter_subset_left.trans Finset.subset_union_left
    have hpos : 0 < 4 * ((s ∪ t).card : K) + (s ∆ t).card / (s ∩ t).card :=
      add_pos_of_pos_of_nonneg (mul_pos four_pos (Nat.cast_pos.2 hunion))
        (div_nonneg (Nat.cast_nonneg _) (Nat.cast_nonneg _))
    refine iff_of_false hpos.ne' ?_
    rintro ⟨rfl, _⟩
    simp at hsome

theorem card_symmDiff_triangle (s t u : Finset LiteralKind) :
    (s ∆ u).card ≤ (s ∆ t).card + (t ∆ u).card :=
  (Finset.card_le_card (symmDiff_triangle s t u)).trans (Finset.card_union_le _ _)

/-- The symmetric difference and the weighted difference of two lists are those of the sets of their
kinds of literals. So they stay the same if a list is restated, and if the two change places. The
symmetric difference is zero exactly if both lists have the same literals, and no way around is
shorter; the weighted one is zero only of two empty lists. -/
theorem set_metrics_lawful [IsStrictOrderedRing K] (hexact : Scalar.ExactOn number) :
    let d (left right : List Literal) : K := (kinds left ∆ kinds right).card
    let w (left right : List Literal) : K := setWeight (kinds left) (kinds right)
    (∀ left right, (Metric.symmetric : Metric α).distance left right = .ok (number (d left right)) ∧
      (Metric.weighted : Metric α).distance left right = .ok (number (w left right))) ∧
    (∀ left left' right right', Restated left left' → Restated right right' →
      d left right = d left' right' ∧ w left right = w left' right') ∧
    (∀ left right, d left right = d right left ∧ w left right = w right left) ∧
    (∀ left right, d left right = 0 ↔ SameLiterals left right) ∧
    (∀ left middle right, d left right ≤ d left middle + d middle right) ∧
    ∀ left right, w left right = 0 ↔ left = [] ∧ right = [] := by
  intro d w
  refine ⟨fun left right => ?_, fun left left' right right' hleft hright => ?_,
    fun left right => ?_, fun left right => ?_, fun left middle right => ?_, fun left right => ?_⟩
  · exact ⟨congrArg Except.ok (symmetric_eq hexact left right),
      congrArg Except.ok (weighted_eq hexact left right)⟩
  · simp only [d, w, hleft.kinds_eq, hright.kinds_eq, and_self]
  · exact ⟨congrArg (fun s : Finset LiteralKind => (s.card : K)) (symmDiff_comm _ _),
      setWeight_comm _ _⟩
  · rw [← kinds_eq_iff, Nat.cast_eq_zero, Finset.card_eq_zero, ← Finset.bot_eq_empty,
      symmDiff_eq_bot]
  · simp only [d]
    exact_mod_cast card_symmDiff_triangle (kinds left) (kinds middle) (kinds right)
  · rw [setWeight_eq_zero_iff, kinds_eq_empty_iff, kinds_eq_empty_iff]

/-- What somebody told of the lamp counts as what was seen of it, and telling it twice as telling it
once. -/
theorem set_metrics_lawful_lamp :
    let on : Literal := ⟨⟨["lamp"]⟩, false, [.atom "on"], []⟩
    let told : Literal := ⟨⟨["lamp"]⟩, false, [.atom "on"], [.atom "told"]⟩
    let off : Literal := ⟨⟨["lamp"]⟩, false, [.atom "off"], []⟩
    let metric : Metric (Extended ℚ) := .weighted
    Scalar.ExactOn (Extended.number : ℚ → Extended ℚ) ∧ Restated [on, off] [off, told, off] ∧
      metric.distance [on, off] [off] = metric.distance [off, told, off] [off] ∧
      metric.distance [on, off] [off] ≠ .ok 0 := by
  intro on told off metric
  have hrestated : Restated [on, off] [off, told, off] := by
    have hequal : (on == told) = true := by decide
    refine (@Restated.replaced [] [off] on told hequal).trans ?_
    refine (Restated.repeated (l := off) (by simp)).trans ?_
    exact .permuted (.refl _)
  have hexact : Scalar.ExactOn (Extended.number : ℚ → Extended ℚ) := Extended.exactOn
  obtain ⟨hvalue, hsame, _, _, _, hzero⟩ := set_metrics_lawful hexact
  refine ⟨hexact, hrestated, ?_, ?_⟩
  · rw [(hvalue _ _).2, (hvalue _ _).2, (hsame _ _ _ _ hrestated (.permuted (.refl _))).2]
  · rw [(hvalue _ _).2]
    intro hnone
    have hempty := (hzero [on, off] [off]).1 (hexact.injective (Except.ok.inj hnone))
    simp at hempty

end Exact
end Distance
end Deliberation
