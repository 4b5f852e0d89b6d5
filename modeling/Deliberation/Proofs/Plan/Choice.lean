import Deliberation.Proofs.Number.Order
import Deliberation.Proofs.Plan.Selection
import Deliberation.Proofs.SortedMap
import Mathlib.Data.List.Induction
import Mathlib.Data.List.Nodup

/-!
The choice of a plan meets its specification.

The index of a library has under each kind and functor the plans for it, in the order in which they
were declared, so looking up a trigger finds what going through all plans would find. Going over the
candidates keeps the best so far and gives it up only for a better one: what is left is the first of
the best.
-/

namespace Deliberation
namespace PlanLibrary

/-! ### The index -/

/-- A plan at its place as a candidate, if it is for the kind of the trigger and its head unifies
with it. -/
def candidate? (t : Trigger) (entry : Plan × Nat) : Option Candidate :=
  if entry.1.trigger.kind = t.kind then
    (unifyLiterals entry.1.trigger.literal t.literal .empty).toOption.map (⟨⟨entry.2⟩, ·⟩)
  else none

/-- All plans that are candidates, in the order of declaration. -/
def scan (plans : List Plan) (t : Trigger) : List Candidate :=
  plans.zipIdx.filterMap (candidate? t)

theorem plan_of_candidate? {t : Trigger} {entry : Plan × Nat} {c : Candidate}
    (h : candidate? t entry = some c) : c.plan = ⟨entry.2⟩ := by
  unfold candidate? at h
  split at h
  · obtain ⟨_, _, rfl⟩ := Option.map_eq_some_iff.1 h
    rfl
  · simp at h

/-- The index lists the plans of each key. -/
def Indexed (lib : PlanLibrary) : Prop :=
  ∀ key, (lib.index.find? key).getD [] =
    lib.plans.zipIdx.filterMap fun entry =>
      if entry.1.trigger.key = key then some ⟨entry.2⟩ else none

theorem indexed_empty : empty.Indexed := fun _ => rfl

theorem Indexed.add {lib : PlanLibrary} (h : lib.Indexed) (p : Plan) : (lib.add p).2.Indexed := by
  intro key
  simp only [PlanLibrary.add, SortedMap.find?_insert, List.zipIdx_append, List.filterMap_append,
    Nat.zero_add]
  rw [← h key]
  by_cases hkey : key = p.trigger.key
  · simp [hkey]
  · simp [hkey, Ne.symm hkey]

theorem indexed_ofPlans (plans : List Plan) : (ofPlans plans).Indexed :=
  List.foldlRecOn (motive := Indexed) plans _ indexed_empty fun _ h p _ => h.add p

/-- Literals with different functors do not unify. -/
theorem unifyLiterals_of_functor_ne {l m : Literal} {s : Substitution} (h : l.functor ≠ m.functor) :
    unifyLiterals l m s = .error .mismatch := by
  simp [unifyLiterals, Literal.sameSignature, h]

theorem Indexed.candidates_eq {lib : PlanLibrary} (h : lib.Indexed) (t : Trigger) :
    lib.candidates t = scan lib.plans t := by
  rw [candidates, h, List.filterMap_filterMap, scan]
  refine List.filterMap_congr fun entry hentry => ?_
  have hfind : lib.find? ⟨entry.2⟩ = some entry.1 := by
    simpa [find?] using List.mem_zipIdx_iff_getElem?.1 hentry
  by_cases hkind : entry.1.trigger.kind = t.kind
  · by_cases hfunctor : entry.1.trigger.literal.functor = t.literal.functor
    · have hkey : entry.1.trigger.key = t.key := by simp [Trigger.key, hkind, hfunctor]
      cases hunify : unifyLiterals entry.1.trigger.literal t.literal .empty <;>
        simp [candidate?, hkey, hkind, hfind, hunify, Except.toOption]
    · have hkey : entry.1.trigger.key ≠ t.key := by simp [Trigger.key, hfunctor]
      simp [candidate?, hkey, hkind, unifyLiterals_of_functor_ne hfunctor, Except.toOption]
  · have hkey : entry.1.trigger.key ≠ t.key := by simp [Trigger.key, hkind]
    simp [candidate?, hkey, hkind]

/-- Candidates stand in the order of their plans. -/
theorem pairwise_scan (plans : List Plan) (t : Trigger) :
    (scan plans t).Pairwise (·.plan.index < ·.plan.index) := by
  have hplaces : plans.zipIdx.Pairwise (·.2 < ·.2) := by
    rw [← List.pairwise_map, List.zipIdx_map_snd]
    exact List.pairwise_lt_range'
  refine hplaces.filterMap _ fun a b hab c hc d hd => ?_
  rw [plan_of_candidate? hc, plan_of_candidate? hd]
  exact hab

/-! ### The first of the best -/

section Best

variable {σ L : Type} [Scalar σ] [LinearOrder L] {selections : List (Selection σ)}

theorem foldl_better_eq_none_iff : selections.foldl better none = none ↔ selections = [] := by
  induction selections using List.reverseRecOn with
  | nil => simp
  | append_singleton rest next _ =>
      rw [List.foldl_concat]
      cases rest.foldl better none with
      | none => simp [better]
      | some best =>
          simp only [better]
          split <;> simp

/-- What is left has no better selection beside it, and those before it are worse. -/
theorem foldl_better_eq_some {place : Selection σ → L} {s : Selection σ}
    (hplace : ∀ a ∈ selections, ∀ b ∈ selections, a.score < b.score ↔ place a < place b)
    (h : selections.foldl better none = some s) :
    ∃ before after, selections = before ++ s :: after ∧ (∀ b ∈ before, place b < place s) ∧
      ∀ b ∈ after, place b ≤ place s := by
  induction selections using List.reverseRecOn generalizing s with
  | nil => simp at h
  | append_singleton rest next ih =>
      rw [List.foldl_concat] at h
      have hrest : ∀ a ∈ rest, ∀ b ∈ rest, a.score < b.score ↔ place a < place b := fun a ha b hb =>
        hplace a (List.mem_append_left _ ha) b (List.mem_append_left _ hb)
      cases hbest : rest.foldl better none with
      | none =>
          rw [hbest] at h
          obtain rfl := Option.some.inj h
          obtain rfl := foldl_better_eq_none_iff.1 hbest
          exact ⟨[], [], rfl, by simp, by simp⟩
      | some best =>
          obtain ⟨before, after, rfl, hbefore, hafter⟩ := ih hrest hbest
          rw [hbest] at h
          have hnext := hplace best (by simp) next (by simp)
          simp only [better] at h
          split at h
          · rename_i hlt
            obtain rfl := Option.some.inj h
            have hlt := hnext.1 hlt
            refine ⟨before ++ best :: after, [], rfl, ?_, by simp⟩
            refine List.forall_mem_append.2 ⟨fun b hb => (hbefore b hb).trans hlt, ?_⟩
            exact List.forall_mem_cons.2 ⟨hlt, fun b hb => (hafter b hb).trans_lt hlt⟩
          · rename_i hnot
            obtain rfl := Option.some.inj h
            refine ⟨before, after ++ [next], by simp, hbefore, ?_⟩
            refine List.forall_mem_append.2 ⟨hafter, List.forall_mem_singleton.2 ?_⟩
            exact not_lt.1 fun hlt => hnot (hnext.2 hlt)

end Best

/-! ### The specification -/

section Specification

variable {lib : PlanLibrary} {candidates : List Candidate} {scorer : Scorer Float}
  {context : SelectionContext} {s : Selection Float}

/-- What a plan is scored by in some choice. -/
def scoring (context : SelectionContext) (plan : PlanId) (bindings : Substitution) :
    ScoringContext where
  agent := context.agent
  plan := plan
  bindings := bindings
  beliefs := context.beliefs
  aggregation := context.aggregation
  statistic := context.statistics[plan.index]?.getD .zero

/-- A candidate can be chosen, with the bindings after its guard. A score that is not a number
counts as zero. -/
def Offers (lib : PlanLibrary) (candidates : List Candidate) (scorer : Scorer Float)
    (context : SelectionContext) (s : Selection Float) : Prop :=
  ∃ c ∈ candidates, ∃ p, lib.find? c.plan = some p ∧ s.plan = c.plan ∧
    p.Passes context.beliefs context.threshold c.bindings s.bindings ∧
    let score := scorer p (scoring context c.plan s.bindings)
    s.score = if score.isNaN then 0 else score

theorem mem_filterMap_assess :
    s ∈ candidates.filterMap (lib.assess scorer context) ↔
      lib.Offers candidates scorer context s := by
  rw [List.mem_filterMap, Offers]
  refine exists_congr fun c => and_congr_right fun _ => ?_
  simp only [assess, Option.bind_eq_bind, Option.bind_eq_some_iff, guarded?_eq_some_iff]
  constructor
  · rintro ⟨p, hp, bindings, hpasses, heq⟩
    obtain rfl := Option.some.inj heq
    exact ⟨p, hp, rfl, hpasses, rfl⟩
  · rintro ⟨p, hp, hplan, hpasses, hscore⟩
    have hs : s = ⟨c.plan, s.bindings, s.score⟩ := by rw [← hplan]
    refine ⟨p, hp, s.bindings, hpasses, congrArg some ?_⟩
    exact (congrArg (Selection.mk c.plan s.bindings) hscore.symm).trans hs.symm

theorem Offers.exists_ranked (h : lib.Offers candidates scorer context s) :
    ∃ x : Float, s.score = Scalar.ranked x := by
  obtain ⟨c, _, p, _, _, _, hscore⟩ := h
  exact ⟨_, hscore⟩

/-- The guard of a candidate does not change its plan. -/
theorem pairwise_assess (lib : PlanLibrary) (scorer : Scorer Float) (context : SelectionContext)
    (h : candidates.Pairwise (·.plan.index < ·.plan.index)) :
    (candidates.filterMap (lib.assess scorer context)).Pairwise (·.plan.index < ·.plan.index) := by
  have hplan {c : Candidate} {s : Selection Float} (hs : lib.assess scorer context c = some s) :
      s.plan = c.plan := by
    simp only [assess, Option.bind_eq_bind, Option.bind_eq_some_iff] at hs
    obtain ⟨p, _, bindings, _, heq⟩ := hs
    obtain rfl := Option.some.inj heq
    rfl
  refine h.filterMap _ fun c d hcd s hs s' hs' => ?_
  rw [hplan hs, hplan hs']
  exact hcd

/-- A selection that no other is better than, and that is better than those of earlier plans. -/
structure Best (lib : PlanLibrary) (candidates : List Candidate) (scorer : Scorer Float)
    (context : SelectionContext) (s : Selection Float) : Prop where
  offers : lib.Offers candidates scorer context s
  greatest : ∀ other, lib.Offers candidates scorer context other → ¬ s.score < other.score
  first : ∀ other, lib.Offers candidates scorer context other →
    other.plan.index < s.plan.index → other.score < s.score

/-- Of candidates in the order of their plans, the first of the best is selected. -/
theorem best_of_select (hsorted : candidates.Pairwise (·.plan.index < ·.plan.index))
    (h : lib.select candidates scorer context = some s) :
    lib.Best candidates scorer context s := by
  have hplace : ∀ a ∈ candidates.filterMap (lib.assess scorer context),
      ∀ b ∈ candidates.filterMap (lib.assess scorer context),
        a.score < b.score ↔ place a.score < place b.score := by
    intro a ha b hb
    obtain ⟨x, hx⟩ := (mem_filterMap_assess.1 ha).exists_ranked
    obtain ⟨y, hy⟩ := (mem_filterMap_assess.1 hb).exists_ranked
    rw [hx, hy]
    exact ranked_lt_ranked_iff
  obtain ⟨before, after, hsplit, hbefore, hafter⟩ := foldl_better_eq_some hplace h
  have hmem : s ∈ candidates.filterMap (lib.assess scorer context) := by simp [hsplit]
  refine ⟨mem_filterMap_assess.1 hmem, fun other hother hlt => ?_, fun other hother hlt => ?_⟩
  · have hother := mem_filterMap_assess.2 hother
    have hlt := (hplace s hmem other hother).1 hlt
    rw [hsplit, List.mem_append, List.mem_cons] at hother
    rcases hother with hother | rfl | hother
    · exact (hbefore other hother).not_gt hlt
    · exact lt_irrefl _ hlt
    · exact (hafter other hother).not_gt hlt
  · have hother := mem_filterMap_assess.2 hother
    refine (hplace other hother s hmem).2 ?_
    -- what comes after the selected plan has a greater id
    have hids := pairwise_assess lib scorer context hsorted
    rw [hsplit, List.pairwise_append, List.pairwise_cons] at hids
    rw [hsplit, List.mem_append, List.mem_cons] at hother
    rcases hother with hother | rfl | hother
    · exact hbefore other hother
    · exact absurd hlt (Nat.lt_irrefl _)
    · exact absurd hlt (Nat.lt_asymm (hids.2.1.1 other hother))

/-- There is one best selection at most. -/
theorem Best.eq (hsorted : candidates.Pairwise (·.plan.index < ·.plan.index)) {s' : Selection Float}
    (h : lib.Best candidates scorer context s) (h' : lib.Best candidates scorer context s') :
    s = s' := by
  have hids := pairwise_assess lib scorer context hsorted
  have hle : ¬ s.plan.index < s'.plan.index := fun hlt =>
    h.greatest s' h'.offers (h'.first s h.offers hlt)
  have hge : ¬ s'.plan.index < s.plan.index := fun hlt =>
    h'.greatest s h.offers (h.first s' h'.offers hlt)
  have hnodup := List.pairwise_map.2 (hids.imp Nat.ne_of_lt)
  exact List.inj_on_of_nodup_map hnodup (mem_filterMap_assess.2 h.offers)
    (mem_filterMap_assess.2 h'.offers) (Nat.le_antisymm (Nat.not_lt.1 hge) (Nat.not_lt.1 hle))

end Specification

/-- Looking up a trigger finds the plans for its kind whose heads unify with it, as a scan of all
plans does. Of these, none is selected if and only if none has no guard or one that holds. Else it
is the one with the greatest score, and of several such the one that was declared first. -/
theorem select_meets_specification (plans : List Plan) (t : Trigger) (scorer : Scorer Float)
    (context : SelectionContext) :
    let lib := ofPlans plans
    lib.candidates t = scan plans t ∧
    (lib.select (lib.candidates t) scorer context = none ↔
      ∀ c ∈ lib.candidates t, ∀ p, lib.find? c.plan = some p →
        ∀ s, ¬ p.Passes context.beliefs context.threshold c.bindings s) ∧
    ∀ s, lib.select (lib.candidates t) scorer context = some s ↔
      lib.Best (lib.candidates t) scorer context s := by
  intro lib
  have hscan : lib.candidates t = scan plans t := by
    rw [(indexed_ofPlans plans).candidates_eq t, plans_ofPlans]
  have hsorted : (lib.candidates t).Pairwise (·.plan.index < ·.plan.index) :=
    hscan ▸ pairwise_scan plans t
  have hnone : lib.select (lib.candidates t) scorer context = none ↔
      ∀ s, ¬ lib.Offers (lib.candidates t) scorer context s := by
    rw [select, foldl_better_eq_none_iff, List.eq_nil_iff_forall_not_mem]
    exact forall_congr' fun s => not_congr mem_filterMap_assess
  refine ⟨hscan, hnone.trans ⟨fun h c hc p hp s hpasses => ?_, fun h s hs => ?_⟩, fun s => ⟨?_, ?_⟩⟩
  · exact h ⟨c.plan, s, Scalar.ranked (scorer p (scoring context c.plan s))⟩
      ⟨c, hc, p, hp, rfl, hpasses, rfl⟩
  · obtain ⟨c, hc, p, hp, _, hpasses, _⟩ := hs
    exact h c hc p hp _ hpasses
  · exact best_of_select hsorted
  · intro hbest
    cases hselect : lib.select (lib.candidates t) scorer context with
    | none => exact absurd hbest.offers (hnone.1 hselect s)
    | some s' => rw [(best_of_select hsorted hselect).eq hsorted hbest]

end PlanLibrary
end Deliberation
