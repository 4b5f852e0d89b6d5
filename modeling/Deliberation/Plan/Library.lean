import Deliberation.Degree
import Deliberation.Plan.Basic

/-!
The plan library and the choice of a plan.

The library finds the plans for a trigger through an index by kind and functor. Of the plans whose
head unifies with the trigger and whose guard holds, the one with the highest score is chosen, and
of several such the one that was declared first.
-/

namespace Deliberation

/-- What plans are indexed by. -/
structure PlanKey where
  kind : TriggerKind
  functor : Path
  deriving DecidableEq

namespace PlanKey

/-- Keys are ordered by kind, and then by functor. -/
instance : LT PlanKey where
  lt a b := a.kind.rank < b.kind.rank ∨ (a.kind.rank = b.kind.rank ∧ a.functor < b.functor)

instance : DecidableLT PlanKey := fun a b =>
  inferInstanceAs (Decidable
    (a.kind.rank < b.kind.rank ∨ (a.kind.rank = b.kind.rank ∧ a.functor < b.functor)))

instance : KeyOrder PlanKey where
  decidableLT := inferInstance
  decidableEq := inferInstance
  irrefl a h := by
    rcases h with h | ⟨_, h⟩
    · exact Nat.lt_irrefl _ h
    · exact KeyOrder.irrefl a.functor h
  trans {a b c} hab hbc := by
    rcases hab with hab | ⟨hab, hfab⟩
    · rcases hbc with hbc | ⟨hbc, _⟩
      · exact Or.inl (Nat.lt_trans hab hbc)
      · exact Or.inl (hbc ▸ hab)
    · rcases hbc with hbc | ⟨hbc, hfbc⟩
      · exact Or.inl (hab ▸ hbc)
      · exact Or.inr ⟨hab.trans hbc, KeyOrder.trans hfab hfbc⟩
  connected {a b} hab hba := by
    have hrank : a.kind.rank = b.kind.rank :=
      Nat.le_antisymm (Nat.not_lt.1 fun h => hba (Or.inl h)) (Nat.not_lt.1 fun h => hab (Or.inl h))
    have hfunctor : a.functor = b.functor :=
      KeyOrder.connected (fun h => hab (Or.inr ⟨hrank, h⟩)) (fun h => hba (Or.inr ⟨hrank.symm, h⟩))
    have hkind : a.kind = b.kind := TriggerKind.rank_injective hrank
    cases a
    cases b
    simp_all

end PlanKey

def Trigger.key (t : Trigger) : PlanKey :=
  ⟨t.kind, t.literal.functor⟩

structure PlanLibrary where
  /-- The plans in the order in which they were declared. -/
  plans : List Plan
  index : SortedMap PlanKey (List PlanId)

/-- A plan whose head unifies with a trigger, and the bindings that this takes. -/
structure Candidate where
  plan : PlanId
  bindings : Substitution

/-- A chosen plan with the bindings of its head and guard. -/
structure Selection (σ : Type) where
  plan : PlanId
  bindings : Substitution
  score : σ

/-- What the score of a candidate may depend on. -/
structure ScoringContext where
  agent : AgentId
  plan : PlanId
  bindings : Substitution
  beliefs : BeliefBase
  aggregation : Aggregation
  statistic : PlanStatistic

/-- What the choice of a plan may depend on. -/
structure SelectionContext where
  agent : AgentId
  beliefs : BeliefBase
  aggregation : Aggregation
  /-- The degree from which on a guard holds. -/
  threshold : Float
  statistics : List PlanStatistic

/-- An estimate of how well a plan will do; higher is better. -/
abbrev Scorer (σ : Type) := Plan → ScoringContext → σ

namespace PlanLibrary

def empty : PlanLibrary := ⟨[], .empty⟩

instance : Inhabited PlanLibrary := ⟨empty⟩

/-- The library with a plan more, and the id of that plan. -/
def add (lib : PlanLibrary) (p : Plan) : PlanId × PlanLibrary :=
  let id : PlanId := ⟨lib.plans.length⟩
  let ids := (lib.index.find? p.trigger.key).getD []
  (id, ⟨lib.plans ++ [p], lib.index.insert p.trigger.key (ids ++ [id])⟩)

def ofPlans (plans : List Plan) : PlanLibrary :=
  plans.foldl (fun lib p => (lib.add p).2) empty

def find? (lib : PlanLibrary) (id : PlanId) : Option Plan :=
  lib.plans[id.index]?

def size (lib : PlanLibrary) : Nat :=
  lib.plans.length

def isEmpty (lib : PlanLibrary) : Bool :=
  lib.plans.isEmpty

/-- The plans with their ids. -/
def toList (lib : PlanLibrary) : List (PlanId × Plan) :=
  lib.plans.zipIdx.map fun (p, i) => (⟨i⟩, p)

/-- Whether there is a plan for a kind of trigger and a functor. -/
def hasPlans (lib : PlanLibrary) (kind : TriggerKind) (functor : Path) : Bool :=
  match lib.index.find? ⟨kind, functor⟩ with
  | some ids => !ids.isEmpty
  | none => false

/-- The plans whose head unifies with a trigger, in the order of declaration. -/
def candidates (lib : PlanLibrary) (t : Trigger) : List Candidate :=
  ((lib.index.find? t.key).getD []).filterMap fun id => do
    let p ← lib.find? id
    let bindings ← (unifyLiterals p.trigger.literal t.literal .empty).toOption
    return ⟨id, bindings⟩

/-- The bindings after the guard of a plan, if it holds to the degree of the threshold. A guard that
cannot be evaluated does not hold. -/
def guarded? (beliefs : BeliefBase) (threshold : Float) (p : Plan) (s : Substitution) :
    Option Substitution :=
  match p.guard with
  | none => some s
  | some guard =>
    match guard.truth beliefs s with
    | (.ok degree, s') => if threshold ≤ degree then some s' else none
    | (.error _, _) => none

variable {σ : Type} [Scalar σ]

/-- The selection that a candidate stands for, if its guard holds. -/
def assess (lib : PlanLibrary) (scorer : Scorer σ) (context : SelectionContext) (c : Candidate) :
    Option (Selection σ) := do
  let p ← lib.find? c.plan
  let bindings ← guarded? context.beliefs context.threshold p c.bindings
  let score := scorer p
    { agent := context.agent
      plan := c.plan
      bindings
      beliefs := context.beliefs
      aggregation := context.aggregation
      statistic := context.statistics[c.plan.index]?.getD .zero }
  return ⟨c.plan, bindings, Scalar.ranked score⟩

/-- The better of two selections; the first one on a tie. -/
def better (best : Option (Selection σ)) (next : Selection σ) : Option (Selection σ) :=
  match best with
  | none => some next
  | some b => if b.score < next.score then some next else some b

/-- The best of some candidates. -/
def select (lib : PlanLibrary) (candidates : List Candidate) (scorer : Scorer σ)
    (context : SelectionContext) : Option (Selection σ) :=
  (candidates.filterMap (lib.assess scorer context)).foldl better none

end PlanLibrary

/-- The annotation that carries the weight of a sub-goal, as in `!g(X)[fuzzy(0.8)]`. -/
def weightNote : String := "fuzzy"

/-- Scores a plan by the weights of its sub-goals. A sub-goal without a weight does not count, and a
plan without weights has full score. -/
def weightScorer : Scorer Float := fun p context =>
  let weights := p.subgoals.filterMap fun goal => do
    let note ← goal.noteNamed? weightNote
    let weight ← note.arguments.head?
    let x ← (context.bindings.apply weight).number?
    return Scalar.clampUnit x
  context.aggregation.aggregate weights

end Deliberation
