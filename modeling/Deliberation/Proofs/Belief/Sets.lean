import Deliberation.Proofs.Belief.Calls

/-!
Beliefs as a set.

Two literals are the same if they are equal and have the same set of annotations. As long as no
literal that is offered repeats an annotation, beliefs are a set of literals in this sense: one is
refused exactly if the same is held, no two beliefs are the same, and how many there are does not
depend on the order in which they come.

A literal that repeats an annotation is stored even if the same is held. Annotating never repeats
one, but replacing variables does when it makes two annotations alike.
-/

namespace Deliberation

theorem Literal.functor_eq_of_same {l m : Literal} (h : l.same m = true) : l.functor = m.functor :=
  ((Literal.beq_iff l m).1 (Literal.same_iff.1 h).1).1

namespace BeliefBase

variable {b b' : BeliefBase} {c : BeliefCall} {answer : Except ValidationError Bool} {l m : Literal}

/-- Whether the same literal is held. -/
def Holds (b : BeliefBase) (l : Literal) : Prop :=
  ∃ m ∈ b.toList, m.same l = true

instance : Decidable (b.Holds l) :=
  inferInstanceAs (Decidable (∃ m ∈ b.toList, m.same l = true))

theorem Holds.congr (h : b.Holds l) (hsame : l.same m = true) : b.Holds m := by
  obtain ⟨k, hk, hkl⟩ := h
  exact ⟨k, hk, Literal.same_trans hkl hsame⟩

/-- A base in which no belief repeats an annotation. -/
structure IsSet (b : BeliefBase) : Prop extends b.WellFormed where
  notesDistinct : ∀ l ∈ b.toList, l.notesDistinct = true

namespace IsSet

theorem outcome (h : b.IsSet) (hcall : Outcome b c answer b')
    (hoffered : ∀ l ∈ c.offered?, validate l = .ok () → l.notesDistinct = true) : b'.IsSet := by
  refine ⟨h.toWellFormed.outcome hcall, fun l hl => ?_⟩
  rcases hcall.mem_toList hl with hl | ⟨hl, hvalid⟩
  · exact h.notesDistinct l hl
  · exact hoffered l hl hvalid

theorem insert?_eq_none_iff (h : b.IsSet) :
    b.insert? l = none ↔ l.notesDistinct = true ∧ b.Holds l := by
  have hnone : b.insert? l = none ↔ ∃ m ∈ b.bucket l.functor, m.identical l = true := by
    simp [insert?, contains]
  rw [hnone]
  constructor
  · rintro ⟨m, hm, hidentical⟩
    have hheld := mem_toList_iff.2 ⟨_, hm⟩
    obtain ⟨hsame, hl⟩ := (Literal.identical_iff_same (h.notesDistinct m hheld)).1 hidentical
    exact ⟨hl, m, hheld, hsame⟩
  · rintro ⟨hl, m, hm, hsame⟩
    refine ⟨m, ?_, (Literal.identical_iff_same (h.notesDistinct m hm)).2 ⟨hsame, hl⟩⟩
    obtain ⟨functor, hm⟩ := mem_toList_iff.1 hm
    rwa [← Literal.functor_eq_of_same hsame, h.functor_of_mem hm]

/-- No two beliefs are the same. -/
theorem pairwise_same (h : b.IsSet) : b.toList.Pairwise fun l m => l.same m = false := by
  refine h.pairwise_toList (fun functor => ?_) fun l m hfunctor => ?_
  · refine (h.pairwise_bucket functor).imp_of_mem fun {l m} hl hm hidentical => ?_
    have hlNotes := h.notesDistinct l (mem_toList_iff.2 ⟨_, hl⟩)
    have hmNotes := h.notesDistinct m (mem_toList_iff.2 ⟨_, hm⟩)
    exact Literal.same_eq_false hlNotes hmNotes hidentical
  · by_contra hsame
    exact hfunctor (Literal.functor_eq_of_same (by simpa using hsame))

end IsSet

/-- What adding a literal comes to that can be a belief. -/
theorem call_add (hvalid : validate l = .ok ()) :
    b.call (.add l) =
      (b.insert? l).elim (.ok false, b) fun b₁ => (.ok true, b₁.emit .add l none) := by
  simp only [call, add, hvalid, bind, Except.bind]
  cases b.insert? l with
  | none => rfl
  | some b₁ => rfl

theorem call_add_eq_false_iff (hvalid : validate l = .ok ()) :
    (b.call (.add l)).1 = .ok false ↔ b.insert? l = none := by
  rw [call_add hvalid]
  cases b.insert? l with
  | none => simp
  | some b₁ => simp

namespace IsSet

theorem call_add (h : b.IsSet) (hl : l.notesDistinct = true) : (b.call (.add l)).2.IsSet :=
  h.outcome (b.call_outcome _) (by simp [BeliefCall.offered?, hl])

/-- After a literal was added, the same is held of what was held, and of it. -/
theorem holds_add (h : b.IsSet) (hvalid : validate l = .ok ()) (hl : l.notesDistinct = true) :
    (b.call (.add l)).2.Holds m ↔ b.Holds m ∨ l.same m = true := by
  rw [BeliefBase.call_add hvalid]
  cases hinsert : b.insert? l with
  | none =>
      have hheld := (h.insert?_eq_none_iff.1 hinsert).2
      exact ⟨Or.inl, fun hm => hm.elim id hheld.congr⟩
  | some b₁ =>
      have hmem (k : Literal) : k ∈ (b₁.emit .add l none).toList ↔ k ∈ b.toList ∨ k = l :=
        (mem_toList_of_insert? hinsert : k ∈ b₁.toList ↔ _)
      simp only [Option.elim_some, Holds, hmem]
      constructor
      · rintro ⟨k, hk | rfl, hsame⟩
        · exact Or.inl ⟨k, hk, hsame⟩
        · exact Or.inr hsame
      · rintro (⟨k, hk, hsame⟩ | hsame)
        · exact ⟨k, Or.inl hk, hsame⟩
        · exact ⟨l, Or.inr rfl, hsame⟩

theorem length_add (h : b.IsSet) (hvalid : validate l = .ok ()) (hl : l.notesDistinct = true) :
    (b.call (.add l)).2.toList.length = b.toList.length + if b.Holds l then 0 else 1 := by
  rw [BeliefBase.call_add hvalid]
  cases hinsert : b.insert? l with
  | none => simp [(h.insert?_eq_none_iff.1 hinsert).2]
  | some b₁ =>
      have hheld : ¬ b.Holds l := fun hheld => by
        simp [h.insert?_eq_none_iff.2 ⟨hl, hheld⟩] at hinsert
      have hcounted := (h.toWellFormed.insert? hvalid hinsert).emit .add l none |>.counted
      obtain ⟨_, rfl⟩ := insert?_eq_some_iff.1 hinsert
      rw [if_neg hheld, ← h.counted]
      exact hcounted.symm

/-- How many beliefs there are after two were added does not depend on which came first. -/
theorem length_add_add (h : b.IsSet) (hl : validate l = .ok ()) (hlNotes : l.notesDistinct = true)
    (hm : validate m = .ok ()) (hmNotes : m.notesDistinct = true) :
    (((b.call (.add l)).2.call (.add m)).2.toList).length =
      (((b.call (.add m)).2.call (.add l)).2.toList).length := by
  rw [(h.call_add hlNotes).length_add hm hmNotes, h.length_add hl hlNotes,
    (h.call_add hmNotes).length_add hl hlNotes, h.length_add hm hmNotes]
  simp only [h.holds_add hl hlNotes, h.holds_add hm hmNotes]
  by_cases hsame : l.same m = true
  · -- Each is held as soon as the other is.
    have hiff : b.Holds l ↔ b.Holds m := ⟨(·.congr hsame), (·.congr (Literal.same_symm hsame))⟩
    simp [hsame, Literal.same_symm hsame, hiff]
  · have hback : ¬ m.same l = true := fun hback => hsame (Literal.same_symm hback)
    simp only [hsame, hback, Bool.false_eq_true, or_false]
    omega

end IsSet
end BeliefBase

namespace BeliefHistory

theorem isSet_after {operations : List BeliefOperation}
    (hoffered : ∀ o ∈ operations, ∀ l ∈ o.offered?,
      BeliefBase.validate l = .ok () → l.notesDistinct = true) :
    (after operations).base.IsSet := by
  refine after_induction (P := fun h => h.base.IsSet) operations ?_ fun h hbase o ho => ?_
  · exact ⟨.empty, by simp [BeliefBase.toList, BeliefBase.empty, SortedMap.empty]⟩
  · cases o with
    | call c => exact hbase.outcome (h.base.call_outcome c) (hoffered _ ho)
    | drainEvents => exact ⟨hbase.toWellFormed.congr rfl rfl, hbase.notesDistinct⟩
    | subscribe capacity => exact ⟨hbase.toWellFormed.congr rfl rfl, hbase.notesDistinct⟩

theorem after_append (operations : List BeliefOperation) (o o' : BeliefOperation) :
    after (operations ++ [o, o']) = ((after operations).perform o).perform o' := by
  simp [after]

/-- If no belief that was offered repeats an annotation, then a literal that can be a belief is
refused exactly if it repeats none and the same is held; no two beliefs are the same; and of two
literals that repeat none, either may be added first without a difference in number. -/
theorem beliefs_form_set {operations : List BeliefOperation}
    (hoffered : ∀ o ∈ operations, ∀ l ∈ o.offered?,
      BeliefBase.validate l = .ok () → l.notesDistinct = true) :
    (∀ l, BeliefBase.validate l = .ok () →
      (((after operations).base.call (.add l)).1 = .ok false ↔
        l.notesDistinct = true ∧ ∃ m ∈ (after operations).base.toList, m.same l = true)) ∧
    ((after operations).base.toList.Pairwise fun l m => l.same m = false) ∧
    ∀ l m, BeliefBase.validate l = .ok () → BeliefBase.validate m = .ok () →
      l.notesDistinct = true → m.notesDistinct = true →
      (after (operations ++ [.call (.add l), .call (.add m)])).base.toList.length =
        (after (operations ++ [.call (.add m), .call (.add l)])).base.toList.length := by
  have hbase := isSet_after hoffered
  refine ⟨fun l hl => ?_, hbase.pairwise_same, fun l m hl hm hlNotes hmNotes => ?_⟩
  · rw [BeliefBase.call_add_eq_false_iff hl, hbase.insert?_eq_none_iff, BeliefBase.Holds]
  · rw [after_append, after_append]
    exact hbase.length_add_add hl hlNotes hm hmNotes

/-- Two sources that turn out to be one: the literal is not refused although the same is held, and
then it stands in the way of one that is new. -/
theorem beliefs_form_set_sharedSource :
    let source (t : Term) := Literal.of "source" [t]
    let held := (Literal.of "p" []).annotate (source (.atom "a"))
    let pattern := ((Literal.of "p" []).annotate (source (.variable "X"))).annotate
      (source (.variable "Y"))
    let l := (Substitution.ofList [("X", .atom "a"), ("Y", .atom "a")]).applyLiteral pattern
    let other := held.annotate (source (.atom "b"))
    let b := (after [.call (.add held)]).base
    (∃ m ∈ b.toList, m.same l = true) ∧ (b.call (.add l)).1 ≠ .ok false ∧
      (b.call (.add other)).1 ≠ .ok false ∧
      ((b.call (.add l)).2.call (.add other)).1 = .ok false := by
  intro source held pattern l other b
  have hoffered : ∀ o ∈ [BeliefOperation.call (.add held)],
      ∀ l ∈ o.offered?, l.notesDistinct = true := by
    decide +kernel
  have hadd := (beliefs_form_set fun o ho l hl _ => hoffered o ho l hl).1
  refine ⟨by decide +kernel, fun hrefused => ?_, fun hrefused => ?_, rfl⟩
  · exact absurd ((hadd l rfl).1 hrefused).1 (by decide +kernel)
  · exact absurd ((hadd other rfl).1 hrefused).2 (by decide +kernel)

end BeliefHistory
end Deliberation
