import Deliberation.Proofs.Logic.Identity

/-!
Annotations that were collected.

A literal is collected if its annotations were added one by one, each to what was there, and so were
theirs. These are the literals whose annotations are distinct at every level. On them identity is an
equivalence, although it looks in one direction only, and it compares the annotations as sets: all
that matters is what a literal is annotated with, not in which order.
-/

namespace Deliberation
namespace Literal

variable {l m note b : Literal}

/-- The annotations of a literal were only ever added by annotating it, and so were theirs. -/
inductive Collected : Literal → Prop
  | plain (functor : Path) (negated : Bool) (arguments : List Term) :
      Collected ⟨functor, negated, arguments, []⟩
  | annotate {l note : Literal} : Collected l → Collected note → Collected (l.annotate note)

theorem Collected.notesDistinct (h : l.Collected) : l.notesDistinct = true := by
  induction h with
  | plain functor negated arguments => rfl
  | annotate _ _ hl hnote => exact notesDistinct_annotate hl hnote

/-- Distinct annotations are collected from the first to the last: none is identical to one
before. -/
theorem collected_of_notes {functor : Path} {negated : Bool} {arguments : List Term}
    {notes : List Literal} (hnotes : ∀ a ∈ notes, a.Collected)
    (hapart : notes.Pairwise fun a b => a.identical b = false) :
    Collected ⟨functor, negated, arguments, notes⟩ := by
  induction notes using List.reverseRecOn with
  | nil => exact .plain functor negated arguments
  | append_singleton notes a ih =>
      rw [List.forall_mem_append] at hnotes
      rw [List.pairwise_append] at hapart
      obtain ⟨hbefore, _, hnew⟩ := hapart
      -- annotating with the last one adds it, since those before are not identical to it
      have hcollected := Collected.annotate (ih hnotes.1 hbefore) (hnotes.2 a List.mem_cons_self)
      rw [Literal.annotate, if_neg] at hcollected
      · exact hcollected
      · simpa using fun b hb => hnew b hb a List.mem_cons_self

theorem collected_iff : l.Collected ↔ l.notesDistinct = true := by
  constructor
  · exact Collected.notesDistinct
  · intro hl
    induction l using Literal.notes_induction with
    | h l ih =>
        obtain ⟨hnotes, hapart⟩ := notesDistinct_iff.1 hl
        cases l
        exact collected_of_notes (fun a ha => ih a ha (hnotes a ha)) hapart

theorem identical_symm (hl : l.notesDistinct = true) (h : l.identical m = true) :
    m.identical l = true := by
  obtain ⟨hsame, hm⟩ := same_of_identical hl h
  exact (identical_of_same hl hm hsame).2

/-! ### What a literal is annotated with -/

/-- A literal is annotated with another one, up to identity. -/
def Notes (l b : Literal) : Prop :=
  ∃ a ∈ l.annotations, b.identical a = true

theorem notes_of_mem (hb : b ∈ l.annotations) : l.Notes b :=
  ⟨b, hb, b.identical_refl⟩

/-- Literals with distinct annotations are identical if they are equal and annotated with the
same. -/
theorem identical_iff_notes (hl : l.notesDistinct = true) (hm : m.notesDistinct = true) :
    l.identical m = true ↔
      (l == m) = true ∧ (∀ a ∈ l.annotations, m.Notes a) ∧ ∀ b ∈ m.annotations, l.Notes b := by
  have hnotes := (notesDistinct_iff.1 hl).1
  constructor
  · intro h
    obtain ⟨heq, _, hleft⟩ := identical_iff.1 h
    exact ⟨heq, hleft, (identical_iff.1 (identical_symm hl h)).2.2⟩
  · rintro ⟨heq, hleft, hright⟩
    refine (identical_of_same hl hm (same_iff.2 ⟨heq, fun a ha => ?_, fun b hb => ?_⟩)).1
    · obtain ⟨b, hb, hab⟩ := hleft a ha
      exact ⟨b, hb, (same_of_identical (hnotes a ha) hab).1⟩
    · obtain ⟨a, ha, hba⟩ := hright b hb
      have hb := (notesDistinct_iff.1 hm).1 b hb
      exact ⟨a, ha, same_symm (same_of_identical hb hba).1⟩

theorem annotate_beq (l note : Literal) : (l.annotate note == l) = true := by
  rw [Literal.annotate]
  split
  · exact BEq.rfl
  · exact (Literal.beq_iff _ _).2 ((Literal.beq_iff l l).1 BEq.rfl)

/-- After annotating, a literal is annotated with what it was annotated with and with the new
one. -/
theorem notes_annotate (hl : l.notesDistinct = true) :
    (l.annotate note).Notes b ↔ l.Notes b ∨ b.identical note = true := by
  rw [Literal.annotate]
  split
  · rename_i hold
    obtain ⟨a, ha, hnote⟩ := List.any_eq_true.1 hold
    refine ⟨Or.inl, fun h => h.elim id fun hb => ⟨a, ha, ?_⟩⟩
    -- the new one is identical to an old one, and so is all that is identical to it
    exact identical_trans hb (identical_symm ((notesDistinct_iff.1 hl).1 a ha) hnote)
  · simp [Notes, or_and_right, exists_or]

/-- Annotating again and again. -/
def annotateAll (l : Literal) (notes : List Literal) : Literal :=
  notes.foldl annotate l

theorem notesDistinct_annotateAll {notes : List Literal} (hl : l.notesDistinct = true)
    (hnotes : ∀ x ∈ notes, x.notesDistinct = true) :
    (l.annotateAll notes).notesDistinct = true := by
  induction notes generalizing l with
  | nil => exact hl
  | cons x notes ih =>
      rw [List.forall_mem_cons] at hnotes
      exact ih (notesDistinct_annotate hl hnotes.1) hnotes.2

theorem annotateAll_beq (l : Literal) (notes : List Literal) :
    (l.annotateAll notes == l) = true := by
  induction notes generalizing l with
  | nil => exact BEq.rfl
  | cons x notes ih => exact BEq.trans (ih (l.annotate x)) (annotate_beq l x)

theorem notes_annotateAll {notes : List Literal} (hl : l.notesDistinct = true)
    (hnotes : ∀ x ∈ notes, x.notesDistinct = true) :
    (l.annotateAll notes).Notes b ↔ l.Notes b ∨ ∃ x ∈ notes, b.identical x = true := by
  induction notes generalizing l with
  | nil => simp [annotateAll]
  | cons x notes ih =>
      rw [List.forall_mem_cons] at hnotes
      have hrest := ih (notesDistinct_annotate hl hnotes.1) hnotes.2
      rw [notes_annotate hl, or_assoc] at hrest
      simpa [annotateAll] using hrest

/-- The order of annotations does not matter. -/
theorem identical_annotateAll {notes notes' : List Literal} (hl : l.notesDistinct = true)
    (hnotes : ∀ x ∈ notes, x.notesDistinct = true) (hperm : notes.Perm notes') :
    (l.annotateAll notes).identical (l.annotateAll notes') = true := by
  have hnotes' : ∀ x ∈ notes', x.notesDistinct = true := fun x hx => hnotes x (hperm.mem_iff.2 hx)
  have hiff (b : Literal) : (l.annotateAll notes).Notes b ↔ (l.annotateAll notes').Notes b := by
    rw [notes_annotateAll hl hnotes, notes_annotateAll hl hnotes']
    simp only [hperm.mem_iff]
  rw [identical_iff_notes (notesDistinct_annotateAll hl hnotes)
    (notesDistinct_annotateAll hl hnotes')]
  refine ⟨BEq.trans (annotateAll_beq l notes) (BEq.symm (annotateAll_beq l notes')), ?_, ?_⟩
  · exact fun a ha => (hiff a).1 (notes_of_mem ha)
  · exact fun b hb => (hiff b).2 (notes_of_mem hb)

/-- The literals whose annotations were collected are those whose annotations are distinct at every
level, and annotating keeps them so. On them identity is an equivalence: two of them are identical
exactly if they are equal and each annotation of either is identical to one of the other. In which
order annotations are added does not matter. -/
theorem identical_of_collected :
    (∀ l : Literal, l.Collected ↔ l.notesDistinct = true) ∧
      (∀ l x : Literal, l.notesDistinct = true → x.notesDistinct = true →
        (l.annotate x).notesDistinct = true) ∧
      Equivalence (fun l m : { l : Literal // l.Collected } => l.1.identical m.1 = true) ∧
      (∀ l m : Literal, l.Collected → m.Collected → (l.identical m = true ↔ (l == m) = true ∧
        (∀ a ∈ l.annotations, ∃ b ∈ m.annotations, a.identical b = true) ∧
        ∀ b ∈ m.annotations, ∃ a ∈ l.annotations, b.identical a = true)) ∧
      ∀ (l : Literal) (notes notes' : List Literal), l.Collected → (∀ x ∈ notes, x.Collected) →
        notes.Perm notes' → (l.annotateAll notes).identical (l.annotateAll notes') = true := by
  refine ⟨fun l => collected_iff, fun l x => notesDistinct_annotate, ⟨?_, ?_, ?_⟩, ?_, ?_⟩
  · exact fun l => l.1.identical_refl
  · exact fun {l m} h => identical_symm l.2.notesDistinct h
  · exact fun h h' => identical_trans h h'
  · exact fun l m hl hm => identical_iff_notes hl.notesDistinct hm.notesDistinct
  · exact fun l notes notes' hl hnotes hperm =>
      identical_annotateAll hl.notesDistinct (fun x hx => (hnotes x hx).notesDistinct) hperm

/-- A sighting that two sources confirm, with the notes on one of them in either order too. -/
theorem identical_of_collected_sources :
    let seen := Literal.of "seen" [.atom "tom"]
    let source (name : String) := Literal.of "source" [.atom name]
    let note := ((source "ann").annotate (.atom "fresh")).annotate (.atom "sure")
    let note' := ((source "ann").annotate (.atom "sure")).annotate (.atom "fresh")
    let l := (seen.annotate (source "bob")).annotate note
    let m := (seen.annotate note').annotate (source "bob")
    l.Collected ∧ m.Collected ∧ l.annotations.length = 2 ∧ l.identical m = true ∧
      m.identical l = true ∧
      (seen.annotateAll [source "bob", note]).identical (seen.annotateAll [note, source "bob"]) =
        true := by
  intro seen source note note' l m
  obtain ⟨hcollected, _, hequivalence, _, horder⟩ := identical_of_collected
  have hl : l.Collected := (hcollected l).2 (by decide +kernel)
  have hm : m.Collected := (hcollected m).2 (by decide +kernel)
  have hidentical : l.identical m = true := by decide +kernel
  have hsymm := hequivalence.symm (x := ⟨l, hl⟩) (y := ⟨m, hm⟩) hidentical
  refine ⟨hl, hm, by decide +kernel, hidentical, hsymm, horder _ _ _ ?_ ?_ (.swap _ _ _)⟩
  · exact (hcollected seen).2 (by decide +kernel)
  · intro x hx
    refine (hcollected x).2 ?_
    revert x
    decide +kernel

end Literal
end Deliberation
