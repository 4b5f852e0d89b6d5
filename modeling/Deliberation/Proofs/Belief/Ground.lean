import Deliberation.Proofs.Belief.Calls
import Deliberation.Proofs.Logic.Matching

/-!
Beliefs are ground.

Whatever is done to a belief base through its operations, it holds ground literals only, and so do
the events that tell of its changes.
-/

namespace Deliberation
namespace BeliefBase

variable {b b' : BeliefBase} {l found : Literal} {functor : Path}

/-- A belief base that the operations on beliefs lead to. -/
inductive Reached : BeliefBase → Prop
  | empty : Reached empty
  | add {b b' : BeliefBase} {l : Literal} {isNew : Bool} :
      Reached b → b.add l = .ok (isNew, b') → Reached b'
  | remove {b : BeliefBase} (l : Literal) : Reached b → Reached (b.remove l).2
  | update {b b' : BeliefBase} {old new : Literal} {changed : Bool} :
      Reached b → b.update old new = .ok (changed, b') → Reached b'
  | drainEvents {b : BeliefBase} : Reached b → Reached b.drainEvents.2
  | observed {b : BeliefBase} (outbox : Outbox) : Reached b → Reached { b with outbox }

/-- All beliefs and all events that were not taken yet are ground. -/
structure AllGround (b : BeliefBase) : Prop where
  beliefs : ∀ functor, ∀ l ∈ b.bucket functor, l.isGround = true
  events : ∀ e ∈ b.events, e.literal.isGround = true

/-- The events of a base tell of ground literals. -/
def EventsGround (b : BeliefBase) : Prop :=
  ∀ e ∈ b.events, e.literal.isGround = true

theorem EventsGround.emit (h : b.EventsGround) (hevents : b'.events = b.events)
    (hl : l.isGround = true) (change : BeliefChange) (previous : Option Literal) :
    (b'.emit change l previous).EventsGround := by
  intro e he
  rcases List.mem_append.1 he with he | he
  · exact h e (hevents ▸ he)
  · obtain rfl := List.mem_singleton.1 he
    exact hl

theorem WellFormed.isGround (h : b.WellFormed) (hl : l ∈ b.bucket functor) : l.isGround = true :=
  (h.filed _ (mem_entries_of_mem_bucket hl) l hl).2

/-- What is taken out of a base was a belief. -/
theorem WellFormed.isGround_of_take? (h : b.WellFormed) (hb : b.take? l = some (found, b')) :
    found.isGround = true := by
  obtain ⟨before, after, hbucket, _⟩ := take?_eq_some hb
  have hfound : found ∈ b.bucket l.functor := by simp [hbucket]
  exact h.isGround hfound

theorem Outcome.eventsGround {c : BeliefCall} {answer : Except ValidationError Bool}
    (hb : b.WellFormed) (h : Outcome b c answer b') (hevents : b.EventsGround) :
    b'.EventsGround := by
  cases h with
  | nothing _ => exact hevents
  | stored _ hvalid hinsert =>
      exact hevents.emit (frame_of_insert? hinsert).1 (validate_eq_ok_iff.1 hvalid).2 _ _
  | taken htake => exact hevents.emit (frame_of_take? htake).1 (hb.isGround_of_take? htake) _ _
  | replaced _ hvalid htake hinsert _ =>
      have hframe := (frame_of_insert? hinsert).1.trans (frame_of_take? htake).1
      exact hevents.emit hframe (validate_eq_ok_iff.1 hvalid).2 _ _
  | moved _ hvalid htake hinsert _ =>
      have hframe := (frame_of_insert? hinsert).1.trans (frame_of_take? htake).1
      have hwent := hevents.emit hframe (hb.isGround_of_take? htake) .remove none
      exact hwent.emit rfl (validate_eq_ok_iff.1 hvalid).2 _ _

theorem Reached.wellFormed_eventsGround (h : b.Reached) : b.WellFormed ∧ b.EventsGround := by
  have hcall {b : BeliefBase} (c : BeliefCall) (ih : b.WellFormed ∧ b.EventsGround) :
      (b.call c).2.WellFormed ∧ (b.call c).2.EventsGround :=
    ⟨ih.1.outcome (b.call_outcome c), (b.call_outcome c).eventsGround ih.1 ih.2⟩
  induction h with
  | empty => exact ⟨.empty, by simp [EventsGround, BeliefBase.empty]⟩
  | @add b b' l isNew _ hb ih => simpa [call, settle, hb] using hcall (.add l) ih
  | remove l _ ih => exact hcall (.remove l) ih
  | @update b b' old new changed _ hb ih =>
      simpa [call, settle, hb] using hcall (.update old new) ih
  | drainEvents _ ih => exact ⟨ih.1.congr rfl rfl, by simp [EventsGround, BeliefBase.drainEvents]⟩
  | observed outbox _ ih => exact ⟨ih.1.congr rfl rfl, ih.2⟩

theorem Reached.call (h : b.Reached) (c : BeliefCall) : (b.call c).2.Reached := by
  cases c with
  | add l =>
      cases hl : b.add l with
      | error e => simpa [BeliefBase.call, settle, hl] using h
      | ok answer => simpa [BeliefBase.call, settle, hl] using h.add hl
  | remove l => exact h.remove l
  | update old new =>
      cases hl : b.update old new with
      | error e => simpa [BeliefBase.call, settle, hl] using h
      | ok answer => simpa [BeliefBase.call, settle, hl] using h.update hl

theorem Reached.allGround (h : b.Reached) : b.AllGround :=
  ⟨fun _ _ hl => h.wellFormed_eventsGround.1.isGround hl, h.wellFormed_eventsGround.2⟩

/-- What answers a question is a belief that unifies with it, with the bindings that this takes. -/
theorem unifies_of_mem_unifyQuery {pattern : Literal} {s s' : Substitution}
    (hl : (l, s') ∈ b.unifyQuery pattern s) :
    l ∈ b.bucket pattern.functor ∧ unifyLiterals pattern l s = .ok s' := by
  obtain ⟨m, hm, heq⟩ := List.mem_filterMap.1 hl
  obtain ⟨s₁, hs₁, heq⟩ := Option.map_eq_some_iff.1 heq
  obtain ⟨rfl, rfl⟩ := Prod.mk.injEq .. ▸ heq
  refine ⟨hm, ?_⟩
  cases hunify : unifyLiterals pattern m s with
  | error e => simp [hunify, Except.toOption] at hs₁
  | ok s₂ =>
      simp only [hunify, Except.toOption, Option.some.injEq] at hs₁
      rw [hs₁]

/-- A belief that a pattern unifies with is ground, and stands with the bindings that it takes. -/
theorem mem_unifyQuery {pattern : Literal} {s s' : Substitution} (h : b.AllGround)
    (hl : (l, s') ∈ b.unifyQuery pattern s) :
    l.isGround = true ∧ unifyLiterals pattern l s = .ok s' := by
  obtain ⟨hmem, hunify⟩ := unifies_of_mem_unifyQuery hl
  exact ⟨h.beliefs _ l hmem, hunify⟩

/-- An answer to a question only adds ground values. -/
theorem groundExtends_of_mem_unifyQuery {pattern : Literal} {s s' : Substitution}
    (h : b.AllGround) (hl : (l, s') ∈ b.unifyQuery pattern s) : s'.GroundExtends s := by
  obtain ⟨hground, hunify⟩ := mem_unifyQuery h hl
  exact Unification.unifyLiterals_groundExtends hground hunify

end BeliefBase

theorem BeliefHistory.reached_after (operations : List BeliefOperation) :
    (after operations).base.Reached := by
  refine after_induction (P := fun h => h.base.Reached) operations .empty fun h hbase o _ => ?_
  cases o with
  | call c => exact hbase.call c
  | drainEvents => exact hbase.drainEvents
  | subscribe capacity => exact hbase.observed _

end Deliberation
