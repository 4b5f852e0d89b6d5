import Deliberation.Proofs.Belief.Ground
import Deliberation.Proofs.Logic.Scope
import Deliberation.Proofs.Plan.Selection

/-!
The names that plans bring into bindings.

If all names of an expression are allowed, evaluating it keeps bindings to allowed names, since
beliefs are ground; and its value is a term that a variable may be bound to. So the bindings of a
plan that was chosen for a trigger have names of the plan and of the trigger only.
-/

namespace Deliberation

variable {K : String → Prop} {notes : Prop} {s : Substitution} {beliefs : BeliefBase}

/-! ### Values -/

/-- Numbers and truth values. -/
def Value.isScalar : Value → Bool
  | .number _ | .boolean _ => true
  | .term _ => false

/-- A variable may be bound to a value, and its names are allowed. -/
structure Value.Fits (K : String → Prop) (notes : Prop) (v : Value) : Prop where
  term : v.toTerm.Fits K notes
  proper : v.toTerm.isProper = true

theorem Value.fits_of_isScalar {v : Value} (h : v.isScalar = true) : v.Fits K notes := by
  cases v with
  | number x => exact ⟨Term.fits_of_isGround rfl, rfl⟩
  | boolean b => exact ⟨Term.fits_of_isGround rfl, rfl⟩
  | term t => simp [Value.isScalar] at h

theorem UnaryOperator.isScalar_apply {op : UnaryOperator} {v w : Value} (h : op.apply v = .ok w) :
    w.isScalar = true := by
  cases op <;> cases v <;>
    simp [UnaryOperator.apply, Value.toBoolean, Value.toNumber, bind, Except.bind, pure,
      Except.pure] at h <;>
    (subst h; rfl)

namespace BinaryOperator

variable {left right w : Value}

theorem isScalar_onNumbers {f : Float → Float → Value} (hf : ∀ x y, (f x y).isScalar = true)
    (h : onNumbers f left right = .ok w) : w.isScalar = true := by
  unfold onNumbers at h
  cases hleft : left.toNumber with
  | error e => simp [hleft, bind, Except.bind] at h
  | ok x =>
      cases hright : right.toNumber with
      | error e => simp [hleft, hright, bind, Except.bind] at h
      | ok y =>
          simp only [hleft, hright, bind, Except.bind, pure, Except.pure, Except.ok.injEq] at h
          exact h ▸ hf x y

theorem isScalar_onQuotient {f : Float → Float → Float} (h : onQuotient f left right = .ok w) :
    w.isScalar = true := by
  unfold onQuotient at h
  cases hright : right.toNumber with
  | error e => simp [hright, bind, Except.bind] at h
  | ok y =>
      cases hleft : left.toNumber with
      | error e =>
          simp only [hright, hleft, bind, Except.bind] at h
          repeat' split at h
          all_goals simp_all
      | ok x =>
          simp only [hright, hleft, bind, Except.bind, pure, Except.pure] at h
          repeat' split at h
          all_goals simp_all
          subst h
          rfl

theorem isScalar_ofBoolean {v : Value} {f : Bool → Bool}
    (h : (do let b ← v.toBoolean; return Value.boolean (f b)) = (.ok w : Except _ _)) :
    w.isScalar = true := by
  cases hv : v.toBoolean with
  | error e => simp [hv, bind, Except.bind] at h
  | ok b =>
      simp only [hv, bind, Except.bind, pure, Except.pure, Except.ok.injEq] at h
      subst h
      rfl

theorem isScalar_apply {op : BinaryOperator} (h : op.apply left right = .ok w) :
    w.isScalar = true := by
  cases op with
  | add | subtract | multiply | power | less | lessEqual | greater | greaterEqual =>
      exact isScalar_onNumbers (fun _ _ => rfl) h
  | divide | modulo => exact isScalar_onQuotient h
  | equal | notEqual =>
      obtain rfl := Except.ok.inj h
      rfl
  | and | or => exact isScalar_ofBoolean (f := id) h
  | xor =>
      cases hleft : left.toBoolean with
      | error e => simp [apply, hleft, bind, Except.bind] at h
      | ok b =>
          simp only [apply, hleft, bind, Except.bind] at h
          exact isScalar_ofBoolean (f := fun c => b != c) h

theorem isScalar_decidedBy {op : BinaryOperator} (h : op.decidedBy left = .ok (some w)) :
    w.isScalar = true := by
  cases op with
  | and | or =>
      cases hleft : left.toBoolean with
      | error e => simp [decidedBy, hleft, bind, Except.bind] at h
      | ok b =>
          cases b <;>
            simp [decidedBy, hleft, bind, Except.bind, pure, Except.pure] at h
          subst h
          rfl
  | _ => simp [decidedBy, pure, Except.pure] at h

end BinaryOperator

/-! ### Expressions -/

/-- All names of an expression are allowed. -/
def Expression.Fits (K : String → Prop) (notes : Prop) : Expression → Prop
  | .term t => t.Fits K notes
  | .unary _ operand => operand.Fits K notes
  | .binary _ left right => left.Fits K notes ∧ right.Fits K notes
  | .belief pattern => pattern.Fits K notes

def Expression.decideFits (K : String → Prop) (notes : Prop) [DecidablePred K] [Decidable notes] :
    (e : Expression) → Decidable (e.Fits K notes)
  | .term t => inferInstanceAs (Decidable (t.Fits K notes))
  | .unary _ operand => operand.decideFits K notes
  | .binary _ left right =>
    have := left.decideFits K notes
    have := right.decideFits K notes
    inferInstanceAs (Decidable (left.Fits K notes ∧ right.Fits K notes))
  | .belief pattern => inferInstanceAs (Decidable (pattern.Fits K notes))

instance [DecidablePred K] [Decidable notes] (e : Expression) : Decidable (e.Fits K notes) :=
  e.decideFits K notes

theorem Value.fits_ofTerm {t : Term} (h : t.Fits K notes) (hproper : t.isProper = true) :
    (Value.ofTerm t).Fits K notes := by
  unfold Value.ofTerm
  split
  · exact Value.fits_of_isScalar rfl
  · split
    · exact Value.fits_of_isScalar rfl
    · exact ⟨h, hproper⟩

/-- The bindings after an expression was evaluated have allowed names, and so does its value. -/
theorem Expression.Fits.evaluate {e : Expression} (he : e.Fits K notes) (hs : s.Fits K notes)
    (hb : beliefs.AllGround) :
    (e.evaluate beliefs s).2.Fits K notes ∧
      ∀ v, (e.evaluate beliefs s).1 = .ok v → v.Fits K notes := by
  induction e generalizing s with
  | term t =>
      have hfits := hs.apply he
      have hbare := s.isBare_apply t
      simp only [Expression.evaluate]
      split
      · exact ⟨hs, by simp⟩
      · rename_i hnot
        refine ⟨hs, fun v hv => ?_⟩
        obtain rfl := Except.ok.inj hv
        refine Value.fits_ofTerm hfits ?_
        cases hresolved : s.apply t with
        | «variable» x => exact absurd hresolved (hnot x)
        | bound x v =>
            rw [hresolved] at hbare
            simp [Term.isBare] at hbare
        | _ => rfl
  | unary op operand ih =>
      obtain ⟨hbindings, hvalue⟩ := ih he hs
      simp only [Expression.evaluate]
      split
      · rename_i e s₁ heq
        rw [heq] at hbindings
        exact ⟨hbindings, by simp⟩
      · rename_i v s₁ heq
        rw [heq] at hbindings
        exact ⟨hbindings, fun w hw => Value.fits_of_isScalar (UnaryOperator.isScalar_apply hw)⟩
  | binary op left right ihleft ihright =>
      obtain ⟨hbindings, _⟩ := ihleft he.1 hs
      simp only [Expression.evaluate]
      split
      · rename_i e s₁ heq
        rw [heq] at hbindings
        exact ⟨hbindings, by simp⟩
      · rename_i l s₁ heq
        rw [heq] at hbindings
        split
        · exact ⟨hbindings, by simp⟩
        · rename_i w hdecided
          refine ⟨hbindings, fun v hv => ?_⟩
          obtain rfl := Except.ok.inj hv
          exact Value.fits_of_isScalar (BinaryOperator.isScalar_decidedBy hdecided)
        · obtain ⟨hright, _⟩ := ihright he.2 hbindings
          split
          · rename_i e s₂ heq₂
            rw [heq₂] at hright
            exact ⟨hright, by simp⟩
          · rename_i r s₂ heq₂
            rw [heq₂] at hright
            exact ⟨hright, fun v hv => Value.fits_of_isScalar (BinaryOperator.isScalar_apply hv)⟩
  | belief pattern =>
      simp only [Expression.evaluate]
      split
      · exact ⟨hs, fun v hv => Value.fits_of_isScalar (by obtain rfl := Except.ok.inj hv; rfl)⟩
      · rename_i found extended rest heq
        have hmem : (found, extended) ∈ beliefs.unifyQuery pattern s := by
          rw [heq]
          exact List.mem_cons_self
        obtain ⟨hground, hunify⟩ := BeliefBase.mem_unifyQuery hb hmem
        refine ⟨hs.unifyLiterals he (Literal.fits_of_isGround hground) hunify, fun v hv => ?_⟩
        exact Value.fits_of_isScalar (by obtain rfl := Except.ok.inj hv; rfl)

theorem Expression.Fits.truth {e : Expression} (he : e.Fits K notes) (hs : s.Fits K notes)
    (hb : beliefs.AllGround) : (e.truth beliefs s).2.Fits K notes := by
  have hbindings := (he.evaluate hs hb).1
  unfold Expression.truth
  split
  · rename_i err s₁ heq
    rwa [heq] at hbindings
  · rename_i v s₁ heq
    rwa [heq] at hbindings

theorem Expression.Fits.mono {K' : String → Prop} {e : Expression} (h : e.Fits K notes)
    (hK : ∀ x, K x → K' x) : e.Fits K' notes := by
  induction e with
  | term t => exact Term.Fits.mono h hK
  | unary op operand ih => exact ih h
  | binary op left right ihleft ihright => exact ⟨ihleft h.1, ihright h.2⟩
  | belief pattern => exact Literal.Fits.mono h hK

/-! ### Plans -/

/-- All names of an instruction are allowed. What an action is called with does not matter, as only
its results are bound. -/
def Instruction.Fits (K : String → Prop) (notes : Prop) : Instruction → Prop
  | .addBelief pattern | .removeBelief pattern | .achieve pattern | .testGoal pattern =>
    pattern.Fits K notes
  | .updateBelief old new => old.Fits K notes ∧ new.Fits K notes
  | .post posted => posted.literal.Fits K notes
  | .assign name e => K name ∧ e.Fits K notes
  | .unary name _ => K name
  | .test e => e.Fits K notes
  | .action call => ∀ name ∈ call.returns, K name

instance [DecidablePred K] [Decidable notes] :
    (instruction : Instruction) → Decidable (instruction.Fits K notes)
  | .addBelief pattern | .removeBelief pattern | .achieve pattern | .testGoal pattern =>
    inferInstanceAs (Decidable (pattern.Fits K notes))
  | .updateBelief old new => inferInstanceAs (Decidable (old.Fits K notes ∧ new.Fits K notes))
  | .post posted => inferInstanceAs (Decidable (posted.literal.Fits K notes))
  | .assign name e => inferInstanceAs (Decidable (K name ∧ e.Fits K notes))
  | .unary name _ => inferInstanceAs (Decidable (K name))
  | .test e => inferInstanceAs (Decidable (e.Fits K notes))
  | .action call => inferInstanceAs (Decidable (∀ name ∈ call.returns, K name))

theorem Instruction.Fits.mono {K' : String → Prop} {instruction : Instruction}
    (h : instruction.Fits K notes) (hK : ∀ x, K x → K' x) : instruction.Fits K' notes := by
  cases instruction with
  | addBelief | removeBelief | achieve | testGoal | post => exact Literal.Fits.mono h hK
  | updateBelief => exact ⟨h.1.mono hK, h.2.mono hK⟩
  | assign => exact ⟨hK _ h.1, h.2.mono hK⟩
  | unary => exact hK _ h
  | test => exact Expression.Fits.mono h hK
  | action call => exact fun name hname => hK name (h name hname)

/-- All names of a plan are allowed. -/
structure Plan.Fits (K : String → Prop) (notes : Prop) (p : Plan) : Prop where
  trigger : p.trigger.literal.Fits K notes
  guard : ∀ e, p.guard = some e → e.Fits K notes
  body : ∀ instruction ∈ p.body, instruction.Fits K notes

instance [DecidablePred K] [Decidable notes] (p : Plan) : Decidable (p.Fits K notes) :=
  decidable_of_iff
    (p.trigger.literal.Fits K notes ∧ (∀ e ∈ p.guard, e.Fits K notes) ∧
      ∀ instruction ∈ p.body, instruction.Fits K notes)
    ⟨fun h => ⟨h.1, h.2.1, h.2.2⟩, fun h => ⟨h.trigger, h.guard, h.body⟩⟩

theorem Plan.Fits.mono {K' : String → Prop} {p : Plan} (h : p.Fits K notes)
    (hK : ∀ x, K x → K' x) : p.Fits K' notes where
  trigger := h.trigger.mono hK
  guard e he := (h.guard e he).mono hK
  body instruction hmem := (h.body instruction hmem).mono hK

namespace PlanLibrary

variable {lib : PlanLibrary} {t : Trigger}

theorem fits_guarded {p : Plan} {threshold : Float} {s' : Substitution} (hp : p.Fits K notes)
    (hs : s.Fits K notes) (hb : beliefs.AllGround)
    (h : guarded? beliefs threshold p s = some s') : s'.Fits K notes := by
  unfold guarded? at h
  split at h
  · obtain rfl := Option.some.inj h
    exact hs
  · rename_i guard hguard
    have htruth := (hp.guard guard hguard).truth hs hb
    split at h
    · rename_i degree s₁ heq
      rw [heq] at htruth
      split at h
      · obtain rfl := Option.some.inj h
        exact htruth
      · simp at h
    · simp at h

/-- The bindings of a plan that was selected for a trigger. -/
theorem fits_select {σ : Type} [Scalar σ] {scorer : Scorer σ} {context : SelectionContext}
    {selection : Selection σ} (hlib : ∀ p ∈ lib.plans, p.Fits K notes)
    (ht : t.literal.Fits K notes) (hb : context.beliefs.AllGround)
    (h : lib.select (lib.candidates t) scorer context = some selection) :
    selection.bindings.Fits K notes := by
  obtain ⟨c, hc, p, hp, _, hguarded⟩ := select_eq_some h
  obtain ⟨p', hp', hunify⟩ := mem_candidates hc
  rw [hp] at hp'
  obtain rfl := Option.some.inj hp'
  have hplan := hlib p (List.mem_of_getElem? hp)
  have hhead := Substitution.fits_empty.unifyLiterals hplan.trigger ht hunify
  exact fits_guarded hplan hhead hb hguarded

end PlanLibrary
end Deliberation
