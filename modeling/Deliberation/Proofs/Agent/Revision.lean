import Deliberation.Proofs.Agent.Perception
import Deliberation.Proofs.Belief.Removal

/-!
What the instructions that revise beliefs hit.

Removing and replacing look for a belief by unification, which does not see annotations, and take it
out by a second search that does. The second search finds what the first one found, since a belief
speaks of itself. So exactly the first belief goes that unifies with the pattern, and all others
keep their order.
-/

namespace Deliberation

open Unification (straight_of_acyclic)

namespace BeliefBase

variable {b b' b₁ : BeliefBase} {question l m found : Literal} {s s' : Substitution}
  {front back : List Literal}

/-! ### The first answer to a question -/

/-- The first belief that a question unifies with, the beliefs around it and the bindings that it
takes. The beliefs before it do not unify. -/
structure FirstMatch (b : BeliefBase) (question : Literal) (s : Substitution) (front : List Literal)
    (found : Literal) (back : List Literal) (s' : Substitution) : Prop where
  split : b.toList = front ++ found :: back
  unifies : unifyLiterals question found s = .ok s'
  before : ∀ m ∈ front, unifyLiterals question m s = .error .mismatch

/-- No belief unifies with a question. -/
def NoMatch (b : BeliefBase) (question : Literal) (s : Substitution) : Prop :=
  ∀ m ∈ b.toList, unifyLiterals question m s = .error .mismatch

theorem unifyLiterals_of_functor_ne (h : question.functor ≠ m.functor) :
    unifyLiterals question m s = .error .mismatch := by
  have hsignature : question.sameSignature m = false := by
    by_contra hsame
    exact h ((Literal.sameSignature_iff question m).1 (by simpa using hsame)).1
  simp [unifyLiterals, hsignature]

/-- A belief that does not unify is a mismatch: the comparison comes to an end. -/
theorem Reached.unifyLiterals_cases (hb : b.Reached) (hs : s.Acyclic) (hm : m ∈ b.toList) :
    (∃ s', unifyLiterals question m s = .ok s') ∨
      unifyLiterals question m s = .error .mismatch := by
  obtain ⟨functor, hm⟩ := mem_toList_iff.1 hm
  have hends : unifyLiterals question m s ≠ .error .endless :=
    Unification.unifyLiterals_ne_endless (straight_of_acyclic hs) (hb.allGround.beliefs _ m hm)
  cases hunify : unifyLiterals question m s with
  | ok s' => exact Or.inl ⟨s', rfl⟩
  | error e =>
      cases e with
      | mismatch => exact Or.inr rfl
      | endless => exact absurd hunify hends

/-- A question gets the first belief as its answer that unifies with it, or none if none does. -/
theorem Reached.unifyQuery_cases (hb : b.Reached) (hs : s.Acyclic) (question : Literal) :
    (∃ front found back s' rest, b.FirstMatch question s front found back s' ∧
      b.unifyQuery question s = (found, s') :: rest) ∨
    b.NoMatch question s ∧ b.unifyQuery question s = [] := by
  obtain ⟨front, back, hfront, hback, hold, _⟩ := hb.wellFormed.exists_place question.functor
  have hbefore : ∀ m ∈ front, unifyLiterals question m s = .error .mismatch := fun m hm =>
    unifyLiterals_of_functor_ne (KeyOrder.ne_of_lt (hfront m hm)).symm
  have hafter : ∀ m ∈ back, unifyLiterals question m s = .error .mismatch := fun m hm =>
    unifyLiterals_of_functor_ne (KeyOrder.ne_of_lt (hback m hm))
  have hmiss (m : Literal) (hm : m ∈ b.bucket question.functor)
      (hnot : ¬ ∃ s', unifyLiterals question m s = .ok s') :
      unifyLiterals question m s = .error .mismatch :=
    (hb.unifyLiterals_cases hs (mem_toList_iff.2 ⟨_, hm⟩)).resolve_left hnot
  rcases FirstOf.exists_or_none (fun m => ∃ s', unifyLiterals question m s = .ok s')
    (b.bucket question.functor) with ⟨before, found, after, hfirst⟩ | hnone
  · obtain ⟨s', hs'⟩ := hfirst.holds
    have hskipped : ∀ m ∈ before, unifyLiterals question m s = .error .mismatch := fun m hm =>
      hmiss m (by simp [hfirst.split, hm]) (hfirst.before m hm)
    obtain ⟨rest, hquery⟩ : ∃ rest, b.unifyQuery question s = (found, s') :: rest := by
      refine ⟨_, List.filterMap_eq_cons_iff.2
        ⟨before, found, after, hfirst.split, fun m hm => ?_, ?_, rfl⟩⟩
      · simp [hskipped m hm, Except.toOption]
      · simp [hs', Except.toOption]
    refine Or.inl ⟨front ++ before, found, after ++ back, s', rest, ⟨?_, hs', ?_⟩, hquery⟩
    · rw [hold, hfirst.split]
      simp
    · exact List.forall_mem_append.2 ⟨hbefore, hskipped⟩
  · have hall : ∀ m ∈ b.bucket question.functor, unifyLiterals question m s = .error .mismatch :=
      fun m hm => hmiss m hm (hnone m hm)
    refine Or.inr ⟨fun m hm => ?_, List.filterMap_eq_nil_iff.2 fun m hm => ?_⟩
    · rw [hold, List.mem_append, List.mem_append] at hm
      rcases hm with (hm | hm) | hm
      · exact hbefore m hm
      · exact hall m hm
      · exact hafter m hm
    · simp [hall m hm, Except.toOption]

/-! ### What a literal is stored as -/

/-- `b'` is `b` after a literal was offered to it. If an identical belief is held, nothing has
changed. Else the literal stands behind all beliefs with its functor or a smaller one. -/
inductive Receives (b : BeliefBase) (l : Literal) (b' : BeliefBase) : Prop
  | held : (∃ m ∈ b.toList, m.identical l = true) → b'.toList = b.toList → Receives b l b'
  | stored {front back : List Literal} :
      (∀ m ∈ b.toList, m.identical l = false) → (∀ m ∈ front, ¬ l.functor < m.functor) →
      (∀ m ∈ back, l.functor < m.functor) → b.toList = front ++ back →
      b'.toList = front ++ l :: back → Receives b l b'

theorem Receives.congr (h : b.Receives l b₁) (heq : b'.toList = b₁.toList) : b.Receives l b' := by
  cases h with
  | held hheld hsame => exact .held hheld (heq.trans hsame)
  | stored hnone hfront hback hold hnew => exact .stored hnone hfront hback hold (heq.trans hnew)

theorem exists_identical_of_insert? (h : b.insert? l = none) :
    ∃ m ∈ b.toList, m.identical l = true := by
  obtain ⟨m, hm, hidentical⟩ : ∃ m ∈ b.bucket l.functor, m.identical l = true := by
    simpa [insert?, contains] using h
  exact ⟨m, mem_toList_iff.2 ⟨_, hm⟩, hidentical⟩

namespace WellFormed

theorem receives_of_insert? (hb : b.WellFormed) (h : b.insert? l = some b') : b.Receives l b' := by
  obtain ⟨hnone, rfl⟩ := insert?_eq_some_iff.1 h
  obtain ⟨front, back, hfront, hback, hold, hput⟩ := hb.exists_place l.functor
  have hnew : ∀ m ∈ b.toList, m.identical l = false := by
    intro m hm
    by_contra hidentical
    have hfunctor :=
      Literal.functor_eq_of_beq (Literal.beq_of_identical (by simpa using hidentical))
    obtain ⟨functor, hm⟩ := mem_toList_iff.1 hm
    rw [← hb.functor_of_mem hm, hfunctor] at hm
    exact hidentical (hnone m hm)
  refine .stored hnew ?_ hback hold ?_
  · intro m hm hlt
    rcases List.mem_append.1 hm with hm | hm
    · exact KeyOrder.irrefl l.functor (KeyOrder.trans hlt (hfront m hm))
    · exact KeyOrder.ne_of_lt hlt (hb.functor_of_mem hm).symm
  · rw [toList, hput]
    simp

/-- A literal that can be a belief is offered to all beliefs when it is added. -/
theorem add_receives (hb : b.WellFormed) (hl : validate l = .ok ()) :
    ∃ isNew b', b.add l = .ok (isNew, b') ∧ b.Receives l b' := by
  cases hinsert : b.insert? l with
  | none =>
      refine ⟨false, b, ?_, .held (exists_identical_of_insert? hinsert) rfl⟩
      simp only [add, hl, hinsert]
      rfl
  | some b₁ =>
      refine ⟨true, b₁.emit .add l none, ?_, (hb.receives_of_insert? hinsert).congr rfl⟩
      simp only [add, hl, hinsert]
      rfl

/-- Replacing a belief takes out that belief and offers the other literal to those that are left. -/
theorem update_receives (hb : b.WellFormed) (h : b.toList = front ++ found :: back)
    (hl : validate l = .ok ()) :
    ∃ b₁ changed b', b.take? found = some (found, b₁) ∧ b₁.toList = front ++ back ∧
      b.update found l = .ok (changed, b') ∧ b₁.Receives l b' := by
  obtain ⟨b₁, htake, hrest⟩ := hb.take?_self h
  have hb₁ := (hb.take? htake).1
  refine ⟨b₁, true, ?_⟩
  cases hinsert : b₁.insert? l with
  | none =>
      refine ⟨b₁.emit .remove found none, htake, hrest, ?_, ?_⟩
      · simp only [update, hl, htake, hinsert]
        rfl
      · exact .held (exists_identical_of_insert? hinsert) rfl
  | some b₂ =>
      have hreceives := hb₁.receives_of_insert? hinsert
      by_cases hfunctor : found.functor = l.functor
      · refine ⟨b₂.emit .update l (some found), htake, hrest, ?_, hreceives.congr rfl⟩
        simp only [update, hl, htake, hinsert, if_pos hfunctor]
        rfl
      · refine ⟨(b₂.emit .remove found none).emit .add l none, htake, hrest, ?_,
          hreceives.congr rfl⟩
        simp only [update, hl, htake, hinsert, if_neg hfunctor]
        rfl

end WellFormed

theorem grounded_of_validate (h : validate l = .ok ()) : l.grounded = .ok l := by
  simp [Literal.grounded, (validate_eq_ok_iff.1 h).2]

theorem eq_of_grounded (h : l.grounded = .ok m) : m = l := by
  unfold Literal.grounded at h
  split at h
  · exact (Except.ok.inj h).symm
  · simp at h

end BeliefBase

/-! ### Instructions -/

namespace Agent

variable {a : Agent} {s s' : Substitution} {pattern new found : Literal} {front back : List Literal}

/-- What comes of an instruction that offers a literal to some beliefs. If the literal can be a
belief, the agent goes on with the beliefs that received it and with the bindings that were found;
else the instruction fails and changes nothing. -/
inductive Offers (a : Agent) (s s' : Substitution) (b : BeliefBase) (l : Literal) : Executed → Prop
  | accepted {b' : BeliefBase} : BeliefBase.validate l = .ok () → b.Receives l b' →
      Offers a s s' b l ({ a with beliefs := b' }.succeeds s')
  | refused {e : InstructionError} : BeliefBase.validate l ≠ .ok () →
      Offers a s s' b l (a.fails s e)

theorem executeAdd_offers (hb : a.beliefs.WellFormed) (s : Substitution) (new : Literal) :
    a.Offers s s a.beliefs (s.applyLiteral new) (a.executeAdd s new) := by
  cases hvalid : BeliefBase.validate (s.applyLiteral new) with
  | ok u =>
      obtain ⟨isNew, b', hadd, hreceives⟩ := hb.add_receives hvalid
      have heq : a.executeAdd s new = { a with beliefs := b' }.succeeds s := by
        simp only [executeAdd, BeliefBase.grounded_of_validate hvalid, hadd]
      rw [heq]
      exact .accepted hvalid hreceives
  | error e =>
      have hadd : a.beliefs.add (s.applyLiteral new) = .error e := by
        simp only [BeliefBase.add, hvalid]
        rfl
      have hrefused : BeliefBase.validate (s.applyLiteral new) ≠ .ok () := by simp [hvalid]
      unfold executeAdd
      split
      · exact .refused hrefused
      · rename_i l hground
        rw [BeliefBase.eq_of_grounded hground, hadd]
        exact .refused hrefused

/-- The first belief that the pattern unifies with is replaced. -/
theorem executeUpdate_offers (hb : a.beliefs.WellFormed) {b₁ : BeliefBase}
    {rest : List (Literal × Substitution)}
    (hsplit : a.beliefs.toList = front ++ found :: back)
    (hquery : a.beliefs.unifyQuery (s.applyLiteral pattern) s = (found, s') :: rest)
    (htake : a.beliefs.take? found = some (found, b₁)) (new : Literal) :
    a.Offers s s' b₁ (s'.applyLiteral new) (a.executeUpdate s pattern new) := by
  cases hvalid : BeliefBase.validate (s'.applyLiteral new) with
  | ok u =>
      obtain ⟨b₂, changed, b', htake', _, hupdate, hreceives⟩ := hb.update_receives hsplit hvalid
      obtain rfl : b₁ = b₂ := by simpa using htake.symm.trans htake'
      have heq : a.executeUpdate s pattern new = { a with beliefs := b' }.succeeds s' := by
        simp only [executeUpdate, hquery, BeliefBase.grounded_of_validate hvalid, hupdate]
      rw [heq]
      exact .accepted hvalid hreceives
  | error e =>
      have hupdate : a.beliefs.update found (s'.applyLiteral new) = .error e := by
        simp only [BeliefBase.update, hvalid]
        rfl
      have hrefused : BeliefBase.validate (s'.applyLiteral new) ≠ .ok () := by simp [hvalid]
      simp only [executeUpdate, hquery]
      split
      · exact .refused hrefused
      · rename_i l hground
        rw [BeliefBase.eq_of_grounded hground, hupdate]
        exact .refused hrefused

/-- If some belief unifies with a pattern, the first one is what the second search lands on.
Removing takes out this belief and nothing else, and replacing offers the new literal, under the
bindings that were found, to the beliefs that are left. If none unifies, removing changes nothing,
and the new literal is offered to all beliefs. -/
theorem revisions_exact (hb : a.beliefs.Reached) (hs : s.Acyclic) (pattern : Literal) :
    (∃ front found back s' b₁,
      a.beliefs.FirstMatch (s.applyLiteral pattern) s front found back s' ∧
      a.beliefs.take? found = some (found, b₁) ∧ b₁.toList = front ++ back ∧
      (∃ b', a.execute s (.removeBelief pattern) = { a with beliefs := b' }.succeeds s' ∧
        b'.toList = front ++ back) ∧
      ∀ new, a.Offers s s' b₁ (s'.applyLiteral new) (a.execute s (.updateBelief pattern new))) ∨
    a.beliefs.NoMatch (s.applyLiteral pattern) s ∧
      a.execute s (.removeBelief pattern) = a.succeeds s ∧
      ∀ new, a.Offers s s a.beliefs (s.applyLiteral new)
        (a.execute s (.updateBelief pattern new)) := by
  rcases hb.unifyQuery_cases hs (s.applyLiteral pattern) with
    ⟨front, found, back, s', rest, hmatch, hquery⟩ | ⟨hnone, hquery⟩
  · obtain ⟨b₁, htake, hrest⟩ := hb.wellFormed.take?_self hmatch.split
    refine Or.inl ⟨front, found, back, s', b₁, hmatch, htake, hrest,
      ⟨(a.beliefs.remove found).2, ?_, ?_⟩, fun new => ?_⟩
    · simp only [execute, executeRemove, hquery]
    · simp only [BeliefBase.remove, htake]
      exact hrest
    · exact executeUpdate_offers hb.wellFormed hmatch.split hquery htake new
  · refine Or.inr ⟨hnone, ?_, fun new => ?_⟩
    · simp only [execute, executeRemove, hquery]
    · have heq : a.execute s (.updateBelief pattern new) = a.executeAdd s new := by
        simp only [execute, executeUpdate, hquery]
      rw [heq]
      exact executeAdd_offers hb.wellFormed s new

/-- An agent that holds the same fact from two sources. -/
def rainWatcher : AgentSpec where
  id := ⟨1⟩
  config := .default
  library := .ofPlans []
  actions := .empty
  scorer := weightScorer
  hearing := none
  beliefs := [(Literal.of "wet" [.atom "road"]).annotate (.of "source" [.atom "percept"]),
    (Literal.of "wet" [.atom "road"]).annotate (.of "source" [.atom "neighbour"]),
    .of "wet" [.atom "roof"]]
  goals := []

/-- Three beliefs unify with the pattern, and the first two differ in their source only. Removing
takes out the first of them. Replacing it by the fact from the second source only removes it too,
since that fact is held. A pattern with a functor of its own matches nothing. -/
theorem revisions_exact_rainWatcher :
    let pattern := Literal.of "wet" [.variable "X"]
    let told := (Literal.of "wet" [.variable "X"]).annotate (.of "source" [.atom "neighbour"])
    ∃ a, rainWatcher.build = .ok a ∧ a.beliefs.Reached ∧ Substitution.empty.Acyclic ∧
      a.beliefs.toList.map Literal.render =
        ["wet(road)[source(percept)]", "wet(road)[source(neighbour)]", "wet(roof)"] ∧
      (∃ front found back s' b₁,
        a.beliefs.FirstMatch (Substitution.empty.applyLiteral pattern) .empty front found back s' ∧
        a.beliefs.take? found = some (found, b₁) ∧
        (∃ b', a.execute .empty (.removeBelief pattern) = { a with beliefs := b' }.succeeds s' ∧
          b'.toList = front ++ back) ∧
        a.Offers .empty s' b₁ (s'.applyLiteral told)
          (a.execute .empty (.updateBelief pattern told))) ∧
      (a.execute .empty (.removeBelief pattern)).agent.beliefs.toList.map Literal.render =
        ["wet(road)[source(neighbour)]", "wet(roof)"] ∧
      (a.execute .empty (.updateBelief pattern told)).agent.beliefs.toList.map Literal.render =
        ["wet(road)[source(neighbour)]", "wet(roof)"] ∧
      a.execute .empty (.removeBelief (.of "dry" [.variable "X"])) = a.succeeds .empty := by
  intro pattern told
  obtain ⟨a, hbuild, hbeliefs, hremove, hupdate, hmatch, hnone⟩ : ∃ a, rainWatcher.build = .ok a ∧
      a.beliefs.toList.map Literal.render =
        ["wet(road)[source(percept)]", "wet(road)[source(neighbour)]", "wet(roof)"] ∧
      (a.execute .empty (.removeBelief pattern)).agent.beliefs.toList.map Literal.render =
        ["wet(road)[source(neighbour)]", "wet(roof)"] ∧
      (a.execute .empty (.updateBelief pattern told)).agent.beliefs.toList.map Literal.render =
        ["wet(road)[source(neighbour)]", "wet(roof)"] ∧
      (a.beliefs.toList.any fun m =>
        (unifyLiterals (Substitution.empty.applyLiteral pattern) m .empty).toBool) = true ∧
      (a.beliefs.toList.all fun m => decide (m.functor ≠ (Literal.of "dry" []).functor)) = true :=
    ⟨_, rfl, by decide +kernel, by decide +kernel, by decide +kernel, by decide +kernel,
      by decide +kernel⟩
  have hb := reached_of_build hbuild
  refine ⟨a, hbuild, hb, Substitution.acyclic_empty, hbeliefs, ?_, hremove, hupdate, ?_⟩
  · rcases revisions_exact hb Substitution.acyclic_empty pattern with
      ⟨front, found, back, s', b₁, hfirst, htake, _, hexact, hoffers⟩ | ⟨hno, _⟩
    · exact ⟨front, found, back, s', b₁, hfirst, htake, hexact, hoffers told⟩
    · obtain ⟨m, hm, hunifies⟩ := List.any_eq_true.1 hmatch
      rw [hno m hm] at hunifies
      simp [Except.toBool] at hunifies
  · rcases revisions_exact hb Substitution.acyclic_empty (.of "dry" [.variable "X"]) with
      ⟨front, found, back, s', b₁, hfirst, _⟩ | ⟨_, hsame, _⟩
    · have hfound := List.all_eq_true.1 hnone found (by simp [hfirst.split])
      have hmiss : unifyLiterals (Substitution.empty.applyLiteral (.of "dry" [.variable "X"])) found
          .empty = .error .mismatch :=
        BeliefBase.unifyLiterals_of_functor_ne (Ne.symm (of_decide_eq_true hfound))
      exact absurd (hfirst.unifies.symm.trans hmiss) (by simp)
    · exact hsame

end Agent
end Deliberation
