import Deliberation.Proofs.Number.Extended
import Deliberation.Society.Bias
import Mathlib.Algebra.Order.Field.Rat
import Mathlib.Data.List.Basic
import Mathlib.Order.Interval.Set.Defs
import Mathlib.Tactic.NormNum

/-!
What the consistency bias does to the choice of a plan.

The bias multiplies the scores of all candidates with one factor. A positive factor keeps the order
of the scores, so it keeps the choice and changes nothing but the score of what is chosen. A factor
of zero makes all candidates equal, and then the first one whose guard holds is chosen.
-/

namespace Deliberation

section Scaling

variable {σ : Type} [Scalar σ]

/-! ### Scores times a factor -/

/-- It makes no difference whether scores are multiplied before or after they are ranked. -/
structure Scalar.Scales (factor : σ) : Prop where
  lt_iff : ∀ x y : σ, x * factor < y * factor ↔ x < y
  ranked_mul : ∀ x : σ, Scalar.ranked (x * factor) = Scalar.ranked x * factor

namespace Selection

/-- The selection with its score multiplied. -/
def scale (factor : σ) (s : Selection σ) : Selection σ :=
  { s with score := s.score * factor }

omit [Scalar σ] in
/-- What is chosen, whatever its score. -/
def choice (s : Selection σ) : PlanId × Substitution :=
  (s.plan, s.bindings)

end Selection

namespace PlanLibrary

variable {lib : PlanLibrary} {context : SelectionContext} {inner : Scorer σ} {factor : σ}

theorem better_scale (h : Scalar.Scales factor) (best : Option (Selection σ))
    (next : Selection σ) :
    better (best.map (·.scale factor)) (next.scale factor) =
      (better best next).map (·.scale factor) := by
  cases best with
  | none => rfl
  | some b =>
      have hlt : (b.scale factor).score < (next.scale factor).score ↔ b.score < next.score :=
        h.lt_iff b.score next.score
      simp only [better, Option.map_some, hlt]
      split <;> rfl

theorem foldl_better_scale (h : Scalar.Scales factor) (selections : List (Selection σ))
    (best : Option (Selection σ)) :
    (selections.map (·.scale factor)).foldl better (best.map (·.scale factor)) =
      (selections.foldl better best).map (·.scale factor) := by
  induction selections generalizing best with
  | nil => rfl
  | cons next rest ih => rw [List.map_cons, List.foldl_cons, better_scale h, ih, List.foldl_cons]

/-- If no selection is better than another, the first one stays. -/
theorem foldl_better_of_flat {selections : List (Selection σ)}
    (h : ∀ a ∈ selections, ∀ b ∈ selections, ¬ a.score < b.score) :
    selections.foldl better none = selections.head? := by
  rcases selections with _ | ⟨first, rest⟩
  · rfl
  · have hkeep : ∀ next ∈ rest, better (some first) next = some first := fun next hnext =>
      if_neg (h first List.mem_cons_self next (List.mem_cons_of_mem _ hnext))
    refine List.foldlRecOn (motive := fun best => best = some first) rest better rfl ?_
    rintro best rfl next hnext
    exact hkeep next hnext

/-- The guard of a candidate does not look at the scorer. -/
theorem assess_eq_map (rescore : σ → σ) {scorer : Scorer σ}
    (h : ∀ p scoring, scoring.agent = context.agent →
      Scalar.ranked (scorer p scoring) = rescore (Scalar.ranked (inner p scoring)))
    (c : Candidate) :
    lib.assess scorer context c =
      (lib.assess inner context c).map fun s => { s with score := rescore s.score } := by
  simp only [assess, Option.bind_eq_bind]
  cases lib.find? c.plan with
  | none => rfl
  | some p =>
      cases hguard : guarded? context.beliefs context.threshold p c.bindings with
      | none => simp [hguard]
      | some bindings =>
          simp only [Option.bind_some, hguard, pure, Option.map_some]
          rw [h _ _ rfl]

theorem filterMap_assess_eq_map (rescore : σ → σ) {scorer : Scorer σ}
    (h : ∀ p scoring, scoring.agent = context.agent →
      Scalar.ranked (scorer p scoring) = rescore (Scalar.ranked (inner p scoring)))
    (candidates : List Candidate) :
    candidates.filterMap (lib.assess scorer context) =
      (candidates.filterMap (lib.assess inner context)).map
        fun s => { s with score := rescore s.score } := by
  rw [List.map_filterMap]
  exact List.filterMap_congr fun c _ => assess_eq_map rescore h c

section Biased

variable {bias : σ} {standing? : AgentId → Option (Standing σ)}

/-- A factor that keeps the order of the scores keeps the choice. -/
theorem select_biased_of_scales
    (hfactor : Standing.factor (Scalar.clampUnit bias) (standing? context.agent) = factor)
    (h : Scalar.Scales factor) (candidates : List Candidate) :
    lib.select candidates (Scorer.biased bias standing? inner) context =
      (lib.select candidates inner context).map (·.scale factor) := by
  -- The candidates of one choice are all scored for the same agent, so with the same factor.
  have hranked : ∀ p scoring, scoring.agent = context.agent →
      Scalar.ranked (Scorer.biased bias standing? inner p scoring) =
        Scalar.ranked (inner p scoring) * factor := by
    intro p scoring hagent
    rw [Scorer.biased, hagent, hfactor, h.ranked_mul]
  rw [select, filterMap_assess_eq_map (· * factor) hranked]
  exact foldl_better_scale h _ none

/-- A factor that makes all scores equal leaves the choice to the order of the candidates. -/
theorem select_biased_of_flat
    (hfactor : Standing.factor (Scalar.clampUnit bias) (standing? context.agent) = factor)
    {level : σ} (h : ∀ x : σ, Scalar.ranked (x * factor) = level) (hlevel : ¬ level < level)
    (candidates : List Candidate) :
    lib.select candidates (Scorer.biased bias standing? inner) context =
      (candidates.filterMap (lib.assess inner context)).head?.map
        fun s => { s with score := level } := by
  have hranked : ∀ p scoring, scoring.agent = context.agent →
      Scalar.ranked (Scorer.biased bias standing? inner p scoring) = level := by
    intro p scoring hagent
    rw [Scorer.biased, hagent, hfactor, h]
  rw [select, filterMap_assess_eq_map (fun _ => level) hranked, ← List.head?_map]
  refine foldl_better_of_flat fun a ha b hb => ?_
  obtain ⟨s, _, rfl⟩ := List.mem_map.1 ha
  obtain ⟨t, _, rfl⟩ := List.mem_map.1 hb
  exact hlevel

end Biased
end PlanLibrary

/-- The score of an agent, if the last round gave it one. -/
def Standing.fresh? (standing : Option (Standing σ)) : Option σ :=
  standing.bind fun s => if s.stale then none else some s.value

theorem Standing.factor_eq (bias : σ) (standing : Option (Standing σ)) :
    Standing.factor bias standing =
      ((Standing.fresh? standing).map fun x => Scalar.mulAdd bias x (1 - bias)).getD 1 := by
  cases standing with
  | none => rfl
  | some s =>
      rcases s with ⟨value, _ | _, computed⟩ <;> rfl

end Scaling

/-! ### Factors in exact arithmetic -/

namespace Extended

variable {K : Type} [Field K] [LinearOrder K] {factor : K}

theorem undefined_mul (x : K) : (undefined : Extended K) * number x = undefined := rfl

theorem infinite_mul_of_pos (hfactor : 0 < factor) (negative : Bool) :
    (infinite negative : Extended K) * number factor = infinite negative := by
  have hscale : scale negative factor = infinite negative := by
    simp [scale, hfactor.ne', hfactor.not_gt]
  exact hscale

/-- A positive factor keeps the order of scores, the exceptional ones as well. -/
theorem scales_of_pos [IsStrictOrderedRing K] (hfactor : 0 < factor) :
    Scalar.Scales (number factor) where
  lt_iff x y := by
    rcases x with x | a | _ <;> rcases y with y | b | _ <;>
      simp only [number_mul, infinite_mul_of_pos hfactor, undefined_mul]
    case number.number => rw [number_lt, number_lt, mul_lt_mul_iff_left₀ hfactor]
    all_goals exact Iff.rfl
  ranked_mul x := by
    rcases x with x | a | _
    · rfl
    · rw [infinite_mul_of_pos hfactor]
      exact (infinite_mul_of_pos hfactor a).symm
    · exact congrArg number (zero_mul factor).symm

theorem ranked_mul_zero (x : Extended K) : Scalar.ranked (x * number 0) = 0 := by
  rcases x with x | a | _
  · exact congrArg number (mul_zero x)
  · have hscale : scale a (0 : K) = undefined := if_pos rfl
    change Scalar.ranked (scale a (0 : K)) = 0
    rw [hscale]
    rfl
  · rfl

theorem clampUnit_number {x : K} (hx : x ∈ Set.Icc 0 1) :
    Scalar.clampUnit (number x) = number x := by
  have hlow : ¬ number x < (0 : Extended K) := fun h => hx.1.not_gt (number_lt.1 h)
  have hhigh : ¬ (1 : Extended K) < number x := fun h => hx.2.not_gt (number_lt.1 h)
  rw [Scalar.clampUnit, if_neg hlow, if_neg hhigh]

/-- The factor of a bias and a score: the score counts to the degree of the bias. -/
def blend (bias score : K) : K := (1 - bias) + bias * score

theorem blend_nonneg [IsStrictOrderedRing K] {bias score : K} (hbias : bias ∈ Set.Icc 0 1)
    (hscore : score ∈ Set.Icc 0 1) : 0 ≤ blend bias score :=
  add_nonneg (sub_nonneg.2 hbias.2) (mul_nonneg hbias.1 hscore.1)

theorem factor_of_fresh {bias score : K} (hbias : bias ∈ Set.Icc 0 1)
    {standing : Option (Standing (Extended K))}
    (h : Standing.fresh? standing = some (number score)) :
    Standing.factor (Scalar.clampUnit (number bias)) standing = number (blend bias score) := by
  rw [clampUnit_number hbias, Standing.factor_eq, h, Option.map_some, Option.getD_some, one_eq,
    number_sub]
  exact congrArg number (add_comm _ _)

theorem factor_of_not_fresh (bias : Extended K) {standing : Option (Standing (Extended K))}
    (h : Standing.fresh? standing = none) : Standing.factor bias standing = number 1 := by
  rw [Standing.factor_eq, h]
  rfl

theorem mul_one [IsStrictOrderedRing K] (x : Extended K) : x * number 1 = x := by
  rcases x with x | a | _
  · exact congrArg number (MulOneClass.mul_one x)
  · exact infinite_mul_of_pos one_pos a
  · rfl

end Extended

/-! ### When the bias changes the choice -/

namespace PlanLibrary

open Extended

variable {K : Type} [Field K] [LinearOrder K] [IsStrictOrderedRing K]

/-- An agent without a fresh score chooses as if there were no bias. With a fresh score it chooses
the same plan with the same bindings as long as the factor is positive, and the score has the
factor. At factor zero it takes the first candidate whose guard holds, so only there the choice can
be another. -/
theorem select_biased (lib : PlanLibrary) (candidates : List Candidate) (context : SelectionContext)
    (inner : Scorer (Extended K)) (standing? : AgentId → Option (Standing (Extended K))) (bias : K)
    (hbias : bias ∈ Set.Icc 0 1) :
    let biased := lib.select candidates (Scorer.biased (.number bias) standing? inner) context
    let plain := lib.select candidates inner context
    (Standing.fresh? (standing? context.agent) = none → biased = plain) ∧
    ∀ score ∈ Set.Icc (0 : K) 1,
      Standing.fresh? (standing? context.agent) = some (.number score) →
      (0 < blend bias score → biased = plain.map (·.scale (.number (blend bias score)))) ∧
      (blend bias score = 0 →
        biased = (candidates.filterMap (lib.assess inner context)).head?.map
          fun s => { s with score := 0 }) ∧
      (biased.map (·.choice) ≠ plain.map (·.choice) → blend bias score = 0) := by
  intro biased plain
  refine ⟨fun hnone => ?_, fun score hscore hfresh => ?_⟩
  · have hscaled : biased = plain.map (·.scale (.number 1)) :=
      select_biased_of_scales (factor_of_not_fresh _ hnone) (scales_of_pos one_pos) candidates
    have hid : (fun s : Selection (Extended K) => s.scale (.number 1)) = id := by
      funext s
      rw [Selection.scale, Extended.mul_one, id]
    rw [hscaled, hid, Option.map_id_apply]
  · have hfactor := factor_of_fresh hbias hfresh
    have hpos : 0 < blend bias score → biased = plain.map (·.scale (.number (blend bias score))) :=
      fun hpos => select_biased_of_scales hfactor (scales_of_pos hpos) candidates
    refine ⟨hpos, fun hzero => ?_, fun hchoice => ?_⟩
    · rw [hzero] at hfactor
      exact select_biased_of_flat hfactor ranked_mul_zero (fun h => lt_irrefl _ (number_lt.1 h))
        candidates
    · by_contra hne
      refine hchoice ?_
      rw [hpos (lt_of_le_of_ne (blend_nonneg hbias hscore) (Ne.symm hne)), Option.map_map]
      rfl

/-- Two ways to leave, on foot or by train. -/
def departures : PlanLibrary :=
  .ofPlans
    [⟨⟨.addGoal, .atom "leave"⟩, none, [.achieve (.atom "walk")], false⟩,
     ⟨⟨.addGoal, .atom "leave"⟩, none, [.achieve (.atom "ride")], false⟩]

/-- What an agent with no beliefs goes by. -/
def traveller : SelectionContext := ⟨⟨1⟩, .empty, .mean, 0.5, []⟩

/-- The train is better, and to walk is worse than nothing. -/
def preferTrain : Scorer (Extended ℚ) := fun _ scoring =>
  .number (if scoring.plan.index = 0 then -1 else 1 / 2)

/-- All agents have a fresh score. -/
def allScored (score : ℚ) : AgentId → Option (Standing (Extended ℚ)) := fun _ =>
  some ⟨.number score, false, true⟩

/-- At full bias a traveller of score one half takes the train as it would without a bias, and one
of score zero walks. -/
theorem select_biased_departures :
    let ways := departures.candidates ⟨.addGoal, .atom "leave"⟩
    let plain := departures.select ways preferTrain traveller
    let biased (score : ℚ) :=
      departures.select ways (Scorer.biased (.number 1) (allScored score) preferTrain) traveller
    (1 : ℚ) ∈ Set.Icc 0 1 ∧ plain.map (·.plan.index) = some 1 ∧
      biased (1 / 2) = plain.map (·.scale (.number (blend 1 (1 / 2)))) ∧
      (biased 0).map (·.plan.index) = some 0 := by
  intro ways plain biased
  have hbias : (1 : ℚ) ∈ Set.Icc 0 1 := by norm_num
  have hhalf := (select_biased departures ways traveller preferTrain (allScored (1 / 2)) 1 hbias).2
    (1 / 2) (by norm_num) rfl
  have hzero := (select_biased departures ways traveller preferTrain (allScored 0) 1 hbias).2
    0 (by norm_num) rfl
  refine ⟨hbias, by decide +kernel, hhalf.1 (by norm_num [blend]), ?_⟩
  rw [show biased 0 = _ from hzero.2.1 (by norm_num [blend])]
  decide +kernel

end PlanLibrary
end Deliberation
