import Deliberation.Proofs.Logic.Matched
import Deliberation.Proofs.Plan.Scope

/-!
Guards hold again under the bindings that they leave.

There is no way back to a second belief: what a question binds stays, also below a negation and
where the expression as a whole fails. But beliefs are ground, so evaluating only adds ground
values. A question that no belief answered has no answer under more bindings, and one that was
answered gets the same answer and binds nothing more; a resolved number or truth value stays what it
is. Equality is left out, since it also compares terms, and in those more variables may have values
the second time.
-/

namespace Deliberation

open Unification (Straight)

variable {s s' t : Substitution} {beliefs : BeliefBase}

/-! ### Constants -/

/-- Terms without parts that stand for themselves. -/
def Term.isConstant : Term → Bool
  | .atom _ | .number _ | .text _ => true
  | _ => false

/-- A term becomes a constant if it is one, or if it leads to a name that does. -/
theorem Term.replace_eq_constant {σ τ : String → Option Term} {c u : Term}
    (hc : c.isConstant = true) (hστ : ∀ y, σ y = some c → τ y = some c) (hu : u.replace σ = c) :
    u.replace τ = c := by
  induction u using Term.children_induction with
  | h u ih =>
      cases u with
      | bound x v => exact ih v (by simp [Term.children]) hu
      | «variable» y =>
          by_cases hy : y = anonymousName
          · simp [← hu, Term.replace, hy, isConstant] at hc
          · rw [Term.replace_variable σ hy, imageOf] at hu
            rw [Term.replace_variable τ hy, imageOf]
            cases hσ : σ y with
            | none =>
                rw [hσ] at hu
                simp [← hu, isConstant] at hc
            | some v =>
                obtain rfl : v = c := by simpa [hσ] using hu
                simp [hστ y hσ]
      | sequence xs | literal l => simp [← hu, Term.replace, isConstant] at hc
      | _ => exact hu

theorem Substitution.Extends.size_le (h : t.Extends s) : s.size ≤ t.size := by
  have hkeys : s.bindings.entries.map Prod.fst ⊆ t.bindings.entries.map Prod.fst := by
    intro x hx
    obtain ⟨v, hv⟩ := SortedMap.mem_keys_iff.1 hx
    exact SortedMap.mem_keys_iff.2 ⟨v, h x v hv⟩
  have hle := (s.bindings.keys_nodup.subperm hkeys).length_le
  rwa [List.length_map, List.length_map] at hle

/-- What resolves to a constant resolves to it through more bindings, however they run on
elsewhere. -/
theorem Substitution.Extends.resolve?_eq_constant {c : Term} {x : String} {d e : Nat}
    (h : t.Extends s) (hc : c.isConstant = true) (hde : d ≤ e) (hx : s.resolve? d x = some c) :
    t.resolve? e x = some c := by
  induction d generalizing e x with
  | zero => simp [Substitution.resolve?] at hx
  | succ d ih =>
      obtain ⟨e, rfl⟩ : ∃ e', e = e' + 1 := ⟨e - 1, by omega⟩
      simp only [Substitution.resolve?, Option.map_eq_some_iff] at hx ⊢
      obtain ⟨v, hv, hconstant⟩ := hx
      exact ⟨v, h x v hv, Term.replace_eq_constant hc (fun y hy => ih (by omega) hy) hconstant⟩

theorem Substitution.Extends.apply_eq_constant {c u : Term} (h : t.Extends s)
    (hc : c.isConstant = true) (hu : s.apply u = c) : t.apply u = c :=
  Term.replace_eq_constant hc (fun _ => h.resolve?_eq_constant hc h.size_le) hu

/-! ### Questions -/

namespace BeliefBase

theorem toOption_eq_none_iff {l m : Literal} :
    (unifyLiterals l m s).toOption = none ↔ ∀ s', unifyLiterals l m s ≠ .ok s' := by
  cases unifyLiterals l m s <;> simp [Except.toOption]

/-- A question without an answer has none when more is bound. -/
theorem unifyQuery_eq_nil {pattern : Literal} (hb : beliefs.AllGround) (hs : Straight s)
    (ht : t.GroundExtends s) (h : beliefs.unifyQuery pattern s = []) :
    beliefs.unifyQuery pattern t = [] := by
  simp only [unifyQuery, List.filterMap_eq_nil_iff, Option.map_eq_none_iff,
    toOption_eq_none_iff] at h ⊢
  intro l hl t' ht'
  obtain ⟨s', hs'⟩ :=
    Unification.unifyLiterals_of_groundExtends hs (hb.beliefs _ l hl) ht ht'
  exact h l hl s' hs'

/-- A question that was answered gets the same answer when more is bound, and that binds nothing. -/
theorem unifyQuery_again {pattern found : Literal} {rest : List (Literal × Substitution)}
    (hb : beliefs.AllGround) (hs : Straight s) (ht : t.GroundExtends s')
    (h : beliefs.unifyQuery pattern s = (found, s') :: rest) :
    ∃ others, beliefs.unifyQuery pattern t = (found, t) :: others := by
  have hmem : (found, s') ∈ beliefs.unifyQuery pattern s := h ▸ List.mem_cons_self
  have hextends := ht.trans (groundExtends_of_mem_unifyQuery hb hmem)
  obtain ⟨hground, hunify⟩ := mem_unifyQuery hb hmem
  have hagain := Unification.unifyLiterals_again (hs.groundExtends hextends) hground
    hunify ht.extend
  rw [unifyQuery, List.filterMap_eq_cons_iff] at h
  obtain ⟨before, l, after, hbucket, hbefore, hl, _⟩ := h
  obtain rfl : l = found := by
    obtain ⟨_, _, heq⟩ := Option.map_eq_some_iff.1 hl
    exact congrArg Prod.fst heq
  -- what comes before the answer does not unify under more bindings either
  have hnone : ∀ m ∈ before, (unifyLiterals pattern m t).toOption.map (m, ·) = none := by
    intro m hm
    have hs' := hbefore m hm
    rw [Option.map_eq_none_iff, toOption_eq_none_iff] at hs' ⊢
    intro t' ht'
    have hmem' : m ∈ beliefs.bucket pattern.functor := by simp [hbucket, hm]
    obtain ⟨s₁, hs₁⟩ := Unification.unifyLiterals_of_groundExtends hs
      (hb.beliefs _ m hmem') hextends ht'
    exact hs' s₁ hs₁
  refine ⟨_, List.filterMap_eq_cons_iff.2 ⟨before, l, after, hbucket, hnone, ?_, rfl⟩⟩
  simp [hagain, Except.toOption]

end BeliefBase

/-! ### Operands -/

theorem UnaryOperator.isScalar_operand {op : UnaryOperator} {v w : Value} (h : op.apply v = .ok w) :
    v.isScalar = true := by
  cases op <;> cases v <;>
    simp_all [UnaryOperator.apply, Value.toBoolean, Value.toNumber, Value.isScalar, bind,
      Except.bind]

namespace BinaryOperator

variable {op : BinaryOperator} {left right w : Value}

theorem operands_onNumbers {f : Float → Float → Value} (h : onNumbers f left right = .ok w) :
    left.isScalar = true ∧ right.isScalar = true := by
  cases left <;> cases right <;>
    simp_all [onNumbers, Value.toNumber, Value.isScalar, bind, Except.bind]

theorem operands_onQuotient {f : Float → Float → Float} (h : onQuotient f left right = .ok w) :
    left.isScalar = true ∧ right.isScalar = true := by
  cases left <;> cases right <;>
    simp_all [onQuotient, Value.toNumber, Value.isScalar, bind, Except.bind]
  split at h <;> simp_all [throw, throwThe, MonadExceptOf.throw]

/-- What decides an operator, or is asked whether it does, is a truth value. -/
theorem operand_decidedBy {result : Option Value} (hop : op = .and ∨ op = .or)
    (h : op.decidedBy left = .ok result) : left.isScalar = true := by
  rcases hop with rfl | rfl <;> cases left <;>
    simp_all [decidedBy, Value.toBoolean, Value.isScalar, bind, Except.bind]

/-- All operators but equality take numbers and truth values only. -/
theorem operands_apply {result : Option Value} (hequal : op ≠ .equal ∧ op ≠ .notEqual)
    (hdecided : op.decidedBy left = .ok result) (h : op.apply left right = .ok w) :
    left.isScalar = true ∧ right.isScalar = true := by
  cases op with
  | add | subtract | multiply | power | less | lessEqual | greater | greaterEqual =>
      exact operands_onNumbers h
  | divide | modulo => exact operands_onQuotient h
  | equal => exact absurd rfl hequal.1
  | notEqual => exact absurd rfl hequal.2
  | and =>
      refine ⟨operand_decidedBy (Or.inl rfl) hdecided, ?_⟩
      cases right <;> simp_all [apply, Value.toBoolean, Value.isScalar, bind, Except.bind]
  | or =>
      refine ⟨operand_decidedBy (Or.inr rfl) hdecided, ?_⟩
      cases right <;> simp_all [apply, Value.toBoolean, Value.isScalar, bind, Except.bind]
  | xor =>
      cases left <;> cases right <;>
        simp_all [apply, Value.toBoolean, Value.isScalar, bind, Except.bind]

theorem eq_and_or_or_of_decidedBy (h : op.decidedBy left = .ok (some w)) :
    op = .and ∨ op = .or := by
  cases op <;> simp_all [decidedBy, pure, Except.pure]

end BinaryOperator

/-! ### Expressions -/

namespace Expression

variable {e operand left right : Expression} {v : Value}

theorem evaluate_unary_eq_ok_iff {op : UnaryOperator} :
    (unary op operand).evaluate beliefs s = (.ok v, s') ↔
      ∃ w, operand.evaluate beliefs s = (.ok w, s') ∧ op.apply w = .ok v := by
  rcases hresult : operand.evaluate beliefs s with ⟨result, s₁⟩
  cases result <;> simp [evaluate, hresult, and_comm]

theorem evaluate_binary_eq_ok_iff {op : BinaryOperator} :
    (binary op left right).evaluate beliefs s = (.ok v, s') ↔
      ∃ l s₁, left.evaluate beliefs s = (.ok l, s₁) ∧
        (op.decidedBy l = .ok (some v) ∧ s₁ = s' ∨
          op.decidedBy l = .ok none ∧
            ∃ r, right.evaluate beliefs s₁ = (.ok r, s') ∧ op.apply l r = .ok v) := by
  rcases hresult : left.evaluate beliefs s with ⟨result, s₁⟩
  cases result with
  | error e => simp [evaluate, hresult]
  | ok l =>
      rcases hresult' : right.evaluate beliefs s₁ with ⟨result', s₂⟩
      rcases hdecided : op.decidedBy l with e | ⟨_ | w⟩
      · simp [evaluate, hresult, hdecided]
      · cases result' <;> simp [evaluate, hresult, hdecided, hresult', and_comm]
      · simp [evaluate, hresult, hdecided]

/-- Evaluating an expression only adds ground values, also where it ends in an error. -/
theorem groundExtends_evaluate (hb : beliefs.AllGround) (e : Expression) (s : Substitution) :
    (e.evaluate beliefs s).2.GroundExtends s := by
  induction e generalizing s with
  | term t =>
      unfold evaluate
      split <;> exact .refl s
  | unary op operand ih =>
      have hoperand := ih s
      unfold evaluate
      split <;> simp_all
  | binary op left right ihleft ihright =>
      have hleft := ihleft s
      unfold evaluate
      split
      · simp_all
      · rename_i l s₁ heq
        rw [heq] at hleft
        have hright := (ihright s₁).trans hleft
        split
        · exact hleft
        · exact hleft
        · split <;> simp_all
  | belief pattern =>
      unfold evaluate
      split
      · exact .refl s
      · rename_i found extended rest heq
        exact BeliefBase.groundExtends_of_mem_unifyQuery hb (heq ▸ List.mem_cons_self)

theorem snd_truth (e : Expression) (beliefs : BeliefBase) (s : Substitution) :
    (e.truth beliefs s).2 = (e.evaluate beliefs s).2 := by
  unfold truth
  split <;> simp_all

/-- Whether an expression does without equality, the only operators that take terms of any kind. -/
def hasNoEquality : Expression → Bool
  | .term _ | .belief _ => true
  | .unary _ operand => operand.hasNoEquality
  | .binary op left right =>
    op ≠ .equal && op ≠ .notEqual && left.hasNoEquality && right.hasNoEquality

/-- A term that resolves to a number or a truth value does so when more is bound. -/
theorem evaluate_term_again {u : Term} (hext : t.Extends s) (hv : v.isScalar = true)
    (h : (term u).evaluate beliefs s = (.ok v, s')) : (term u).evaluate beliefs t = (.ok v, t) := by
  simp only [evaluate] at h ⊢
  cases hu : s.apply u with
  | number x =>
      rw [hu] at h
      rw [hext.apply_eq_constant rfl hu]
      exact congrArg (·, t) (congrArg Prod.fst h)
  | atom name =>
      rw [hu] at h
      rw [hext.apply_eq_constant rfl hu]
      exact congrArg (·, t) (congrArg Prod.fst h)
  | «variable» x => simp [hu] at h
  | _ =>
      -- no other kind of term is a number or a truth value
      rw [hu] at h
      simp only [Value.ofTerm, Term.boolean?, Prod.mk.injEq, Except.ok.injEq] at h
      rw [← h.1] at hv
      simp [Value.isScalar] at hv

/-- An expression without equality that has a number or a truth value has it again under all
bindings that add ground values to those that it left, and then it binds nothing. -/
theorem evaluate_again (hb : beliefs.AllGround) (he : e.hasNoEquality = true) (hs : Straight s)
    (hv : v.isScalar = true) (h : e.evaluate beliefs s = (.ok v, s')) (ht : t.GroundExtends s') :
    e.evaluate beliefs t = (.ok v, t) := by
  have hground {e : Expression} {s s' : Substitution} {v : Value}
      (h : e.evaluate beliefs s = (.ok v, s')) : s'.GroundExtends s := by
    have hevaluate := groundExtends_evaluate hb e s
    rwa [h] at hevaluate
  induction e generalizing s s' v with
  | term u =>
      exact evaluate_term_again (ht.trans (hground h)).extend hv h
  | unary op operand ih =>
      obtain ⟨w, hw, hop⟩ := evaluate_unary_eq_ok_iff.1 h
      have hscalar := UnaryOperator.isScalar_operand hop
      exact evaluate_unary_eq_ok_iff.2 ⟨w, ih he hs hscalar hw ht, hop⟩
  | binary op left right ihleft ihright =>
      simp only [hasNoEquality, Bool.and_eq_true, decide_eq_true_eq] at he
      obtain ⟨⟨hequal, hleft⟩, hright⟩ := he
      obtain ⟨l, s₁, hl, ⟨hdecided, rfl⟩ | ⟨hdecided, r, hr, hop⟩⟩ :=
        evaluate_binary_eq_ok_iff.1 h
      · have hscalar := BinaryOperator.operand_decidedBy
          (BinaryOperator.eq_and_or_or_of_decidedBy hdecided) hdecided
        exact evaluate_binary_eq_ok_iff.2
          ⟨l, t, ihleft hleft hs hscalar hl ht, Or.inl ⟨hdecided, rfl⟩⟩
      · have hscalar := BinaryOperator.operands_apply hequal hdecided hop
        have hs₁ := hs.groundExtends (hground hl)
        have hl' := ihleft hleft hs hscalar.1 hl (ht.trans (hground hr))
        have hr' := ihright hright hs₁ hscalar.2 hr ht
        exact evaluate_binary_eq_ok_iff.2 ⟨l, t, hl', Or.inr ⟨hdecided, r, hr', hop⟩⟩
  | belief pattern =>
      simp only [evaluate] at h ⊢
      cases hquery : beliefs.unifyQuery pattern s with
      | nil =>
          rw [hquery] at h
          obtain ⟨hv, rfl⟩ := Prod.mk.injEq .. ▸ h
          rw [BeliefBase.unifyQuery_eq_nil hb hs ht hquery, ← hv]
      | cons answer rest =>
          obtain ⟨found, extended⟩ := answer
          rw [hquery] at h
          obtain ⟨hv, rfl⟩ := Prod.mk.injEq .. ▸ h
          obtain ⟨others, hothers⟩ := BeliefBase.unifyQuery_again hb hs ht hquery
          rw [hothers, ← hv]

end Expression
end Deliberation
