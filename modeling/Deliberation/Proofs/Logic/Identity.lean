import Deliberation.Proofs.Lists
import Deliberation.Proofs.Logic.Equality

/-!
Identity of literals and their sets of annotations.

`Literal.identical` counts the annotations and looks for those of one literal among those of the
other. `Literal.same` compares the annotations as sets, at every level. The two agree on literals
whose annotations are distinct at every level, and the annotations that `Literal.annotate` collects
are: if each of equally many distinct annotations has its like on the other side, nothing is left
over there.
-/

namespace Deliberation

/-- What holds of a literal if it holds of its annotations holds of every literal. -/
theorem Literal.notes_induction {P : Literal → Prop}
    (h : ∀ l, (∀ a ∈ l.annotations, P a) → P l) (l : Literal) : P l := by
  suffices hboth : (∀ _ : Term, True) ∧ ∀ l, P l from hboth.2 l
  apply Term.induction
  case mk =>
    intro f n xs notes _ ih
    exact h _ ih
  all_goals intros; trivial

/-! ### Identity -/

theorem Literal.beq_withoutNotes (f : Path) (n : Bool) (xs : List Term) (notes marks : List Literal)
    (m : Literal) : Literal.beq ⟨f, n, xs, notes⟩ m = Literal.beq ⟨f, n, xs, marks⟩ m := by
  cases m
  rfl

theorem Literal.eachIdenticalIn_iff {notes others : List Literal} :
    Literal.eachIdenticalIn notes others = true ↔
      ∀ a ∈ notes, ∃ b ∈ others, a.identical b = true := by
  induction notes with
  | nil => simp [Literal.eachIdenticalIn]
  | cons a notes ih => simp [Literal.eachIdenticalIn, ih]

theorem Literal.identical_iff {l m : Literal} :
    l.identical m = true ↔
      (l == m) = true ∧ l.annotations.length = m.annotations.length ∧
        ∀ a ∈ l.annotations, ∃ b ∈ m.annotations, a.identical b = true := by
  obtain ⟨f, n, xs, notes⟩ := l
  rw [Literal.identical, Literal.beq_withoutNotes f n xs [] notes]
  simp only [Bool.and_eq_true, beq_iff_eq, Literal.eachIdenticalIn_iff, and_assoc]
  rfl

theorem Literal.identical_refl (l : Literal) : l.identical l = true := by
  induction l using Literal.notes_induction with
  | h l ih => exact identical_iff.2 ⟨BEq.rfl, rfl, fun a ha => ⟨a, ha, ih a ha⟩⟩

theorem Literal.identical_trans {l m k : Literal} (h : l.identical m = true)
    (h' : m.identical k = true) : l.identical k = true := by
  induction l using Literal.notes_induction generalizing m k with
  | h l ih =>
      rw [identical_iff] at h h' ⊢
      refine ⟨BEq.trans h.1 h'.1, h.2.1.trans h'.2.1, fun a ha => ?_⟩
      obtain ⟨b, hb, hab⟩ := h.2.2 a ha
      obtain ⟨c, hc, hbc⟩ := h'.2.2 b hb
      exact ⟨c, hc, ih a ha hab hbc⟩

/-! ### Annotations as sets -/

mutual

/-- Equality that compares the annotations as sets: each of either side has its like on the
other. -/
def Literal.same : Literal → Literal → Bool
  | ⟨f, n, xs, notes⟩, other =>
    Literal.beq ⟨f, n, xs, []⟩ other && Literal.eachSameIn notes other.annotations &&
      other.annotations.all (Literal.someSame notes)

/-- Whether each literal of a list has its like in another list. -/
def Literal.eachSameIn : List Literal → List Literal → Bool
  | [], _ => true
  | a :: rest, others => others.any (Literal.same a) && Literal.eachSameIn rest others

/-- Whether a list has the like of a literal. -/
def Literal.someSame : List Literal → Literal → Bool
  | [], _ => false
  | a :: rest, b => Literal.same a b || Literal.someSame rest b

end

theorem Literal.eachSameIn_iff {notes others : List Literal} :
    Literal.eachSameIn notes others = true ↔ ∀ a ∈ notes, ∃ b ∈ others, a.same b = true := by
  induction notes with
  | nil => simp [Literal.eachSameIn]
  | cons a notes ih => simp [Literal.eachSameIn, ih]

theorem Literal.someSame_iff {notes : List Literal} {b : Literal} :
    Literal.someSame notes b = true ↔ ∃ a ∈ notes, a.same b = true := by
  induction notes with
  | nil => simp [Literal.someSame]
  | cons a notes ih => simp [Literal.someSame, ih]

theorem Literal.same_iff {l m : Literal} :
    l.same m = true ↔
      (l == m) = true ∧ (∀ a ∈ l.annotations, ∃ b ∈ m.annotations, a.same b = true) ∧
        ∀ b ∈ m.annotations, ∃ a ∈ l.annotations, a.same b = true := by
  obtain ⟨f, n, xs, notes⟩ := l
  rw [Literal.same, Literal.beq_withoutNotes f n xs [] notes]
  simp only [Bool.and_eq_true, Literal.eachSameIn_iff, List.all_eq_true, Literal.someSame_iff,
    and_assoc]
  rfl

theorem Literal.same_symm {l m : Literal} (h : l.same m = true) : m.same l = true := by
  induction l using Literal.notes_induction generalizing m with
  | h l ih =>
      rw [same_iff] at h ⊢
      refine ⟨BEq.symm h.1, fun b hb => ?_, fun a ha => ?_⟩
      · obtain ⟨a, ha, hab⟩ := h.2.2 b hb
        exact ⟨a, ha, ih a ha hab⟩
      · obtain ⟨b, hb, hab⟩ := h.2.1 a ha
        exact ⟨b, hb, ih a ha hab⟩

theorem Literal.same_trans {l m k : Literal} (h : l.same m = true) (h' : m.same k = true) :
    l.same k = true := by
  induction l using Literal.notes_induction generalizing m k with
  | h l ih =>
      rw [same_iff] at h h' ⊢
      refine ⟨BEq.trans h.1 h'.1, fun a ha => ?_, fun c hc => ?_⟩
      · obtain ⟨b, hb, hab⟩ := h.2.1 a ha
        obtain ⟨c, hc, hbc⟩ := h'.2.1 b hb
        exact ⟨c, hc, ih a ha hab hbc⟩
      · obtain ⟨b, hb, hbc⟩ := h'.2.2 c hc
        obtain ⟨a, ha, hab⟩ := h.2.2 b hb
        exact ⟨a, ha, ih a ha hab hbc⟩

/-! ### Distinct annotations -/

mutual

/-- Whether, at every level, no annotation is identical to a later one. -/
def Literal.notesDistinct : Literal → Bool
  | ⟨_, _, _, notes⟩ => Literal.allDistinct notes

def Literal.allDistinct : List Literal → Bool
  | [] => true
  | a :: rest =>
    Literal.notesDistinct a && rest.all (fun b => !a.identical b) && Literal.allDistinct rest

end

theorem Literal.allDistinct_iff {notes : List Literal} :
    Literal.allDistinct notes = true ↔
      (∀ a ∈ notes, a.notesDistinct = true) ∧ notes.Pairwise fun a b => a.identical b = false := by
  induction notes with
  | nil => simp [Literal.allDistinct]
  | cons a notes ih =>
      simp only [Literal.allDistinct, Bool.and_eq_true, ih, List.all_eq_true, Bool.not_eq_true',
        List.forall_mem_cons, List.pairwise_cons]
      exact ⟨fun ⟨⟨ha, hfirst⟩, hall, hrest⟩ => ⟨⟨ha, hall⟩, hfirst, hrest⟩,
        fun ⟨⟨ha, hall⟩, hfirst, hrest⟩ => ⟨⟨ha, hfirst⟩, hall, hrest⟩⟩

theorem Literal.notesDistinct_iff {l : Literal} :
    l.notesDistinct = true ↔
      (∀ a ∈ l.annotations, a.notesDistinct = true) ∧
        l.annotations.Pairwise fun a b => a.identical b = false := by
  cases l
  exact allDistinct_iff

/-- Annotating keeps annotations distinct. -/
theorem Literal.notesDistinct_annotate {l note : Literal} (hl : l.notesDistinct = true)
    (hnote : note.notesDistinct = true) : (l.annotate note).notesDistinct = true := by
  rw [Literal.annotate]
  split
  · exact hl
  · rename_i hnew
    rw [notesDistinct_iff] at hl ⊢
    simp only [List.any_eq_true, not_exists, not_and, Bool.not_eq_true] at hnew
    constructor
    · exact List.forall_mem_append.2 ⟨hl.1, by simpa using hnote⟩
    · exact List.pairwise_append.2 ⟨hl.2, List.pairwise_singleton _ _, by simpa using hnew⟩

/-! ### Identity and sets -/

/-- Distinct annotations that make up the same set are identical one by one, both ways. -/
theorem Literal.identical_of_same {l m : Literal} (hl : l.notesDistinct = true)
    (hm : m.notesDistinct = true) (h : l.same m = true) :
    l.identical m = true ∧ m.identical l = true := by
  induction l using Literal.notes_induction generalizing m with
  | h l ih =>
      rw [notesDistinct_iff] at hl hm
      obtain ⟨heq, hleft, hright⟩ := same_iff.1 h
      have hboth (a b : Literal) (ha : a ∈ l.annotations) (hb : b ∈ m.annotations)
          (hab : a.same b = true) : a.identical b = true ∧ b.identical a = true :=
        ih a ha (hl.1 a ha) (hm.1 b hb) hab
      have hle : l.annotations.length ≤ m.annotations.length := by
        refine List.length_le_of_partners hleft (hl.2.imp_of_mem ?_)
        intro a a' ha ha' hne b hb hab hab'
        have haa' := identical_trans (hboth a b ha hb hab).1 (hboth a' b ha' hb hab').2
        simp [hne] at haa'
      have hge : m.annotations.length ≤ l.annotations.length := by
        refine List.length_le_of_partners hright (hm.2.imp_of_mem ?_)
        intro b b' hb hb' hne a ha hab hab'
        have hbb' := identical_trans (hboth a b ha hb hab).2 (hboth a b' ha hb' hab').1
        simp [hne] at hbb'
      have hlength := Nat.le_antisymm hle hge
      constructor
      · refine identical_iff.2 ⟨heq, hlength, fun a ha => ?_⟩
        obtain ⟨b, hb, hab⟩ := hleft a ha
        exact ⟨b, hb, (hboth a b ha hb hab).1⟩
      · refine identical_iff.2 ⟨BEq.symm heq, hlength.symm, fun b hb => ?_⟩
        obtain ⟨a, ha, hab⟩ := hright b hb
        exact ⟨a, ha, (hboth a b ha hb hab).2⟩

theorem Literal.same_eq_false {l m : Literal} (hl : l.notesDistinct = true)
    (hm : m.notesDistinct = true) (h : l.identical m = false) : l.same m = false := by
  by_contra hsame
  have hidentical := (identical_of_same hl hm (by simpa using hsame)).1
  simp [h] at hidentical

/-- What distinct annotations are identical to, one by one, is distinct, whichever way it is
compared. -/
theorem Literal.pairwise_partners_identical {notes partners : List Literal}
    (hlike : ∀ a ∈ notes, ∀ b, a.identical b = true → a.same b = true)
    (hapart : notes.Pairwise fun a a' => a.same a' = false)
    (h : List.Forall₂ (fun a b => a ∈ notes ∧ a.identical b = true) notes partners) :
    partners.Pairwise fun b b' => b.identical b' = false ∧ b'.identical b = false := by
  have hne {a a' b b' : Literal} (hab : a ∈ notes ∧ a.identical b = true)
      (hab' : a' ∈ notes ∧ a'.identical b' = true) (haa' : a.same a' = false) :
      b.identical b' = false := by
    by_contra hbb'
    have hab'' := identical_trans hab.2 (by simpa using hbb')
    have hsame := same_trans (hlike a hab.1 b' hab'') (same_symm (hlike a' hab'.1 b' hab'.2))
    simp [haa'] at hsame
  refine List.pairwise_partners (fun hab hab' haa' => ?_) h hapart
  refine ⟨hne hab hab' haa', hne hab' hab ?_⟩
  by_contra hsame
  have haa'' := same_symm (by simpa using hsame)
  simp [haa'] at haa''

/-- What a literal with distinct annotations is identical to has the same set of annotations, and
they are distinct too. -/
theorem Literal.same_of_identical {l m : Literal} (hl : l.notesDistinct = true)
    (h : l.identical m = true) : l.same m = true ∧ m.notesDistinct = true := by
  induction l using Literal.notes_induction generalizing m with
  | h l ih =>
      rw [notesDistinct_iff] at hl
      obtain ⟨heq, hlength, hmeet⟩ := identical_iff.1 h
      have hlike (a : Literal) (ha : a ∈ l.annotations) (b : Literal) (hab : a.identical b = true) :
          a.same b = true ∧ b.notesDistinct = true := ih a ha (hl.1 a ha) hab
      have hapart : l.annotations.Pairwise fun a a' => a.same a' = false :=
        hl.2.imp_of_mem fun ha ha' hne => same_eq_false (hl.1 _ ha) (hl.1 _ ha') hne
      -- Each annotation has a partner of its own, and nothing is left over.
      obtain ⟨partners, hpartners, hperm⟩ :=
        List.exists_partners_perm (R := fun a b => a ∈ l.annotations ∧ a.identical b = true)
          (fun a ha => (hmeet a ha).imp fun b hb => ⟨hb.1, ha, hb.2⟩)
          (hapart.imp fun {a a'} hne b _ hab hab' => by
            have haa' := same_trans (hlike a hab.1 b hab.2).1
              (same_symm (hlike a' hab'.1 b hab'.2).1)
            simp [hne] at haa') hlength
      have hright : ∀ b ∈ m.annotations, ∃ a ∈ l.annotations, a.identical b = true := by
        intro b hb
        obtain ⟨a, ha, _, hab⟩ := List.exists_of_mem_partners hpartners (hperm.mem_iff.2 hb)
        exact ⟨a, ha, hab⟩
      constructor
      · refine same_iff.2 ⟨heq, fun a ha => ?_, fun b hb => ?_⟩
        · obtain ⟨b, hb, hab⟩ := hmeet a ha
          exact ⟨b, hb, (hlike a ha b hab).1⟩
        · obtain ⟨a, ha, hab⟩ := hright b hb
          exact ⟨a, ha, (hlike a ha b hab).1⟩
      · refine notesDistinct_iff.2 ⟨fun b hb => ?_, ?_⟩
        · obtain ⟨a, ha, hab⟩ := hright b hb
          exact (hlike a ha b hab).2
        · have hdistinct := pairwise_partners_identical (fun a ha b hab => (hlike a ha b hab).1)
            hapart hpartners
          exact ((hperm.pairwise_iff And.symm).1 hdistinct).imp And.left

theorem Literal.identical_iff_same {l m : Literal} (hl : l.notesDistinct = true) :
    l.identical m = true ↔ l.same m = true ∧ m.notesDistinct = true :=
  ⟨same_of_identical hl, fun ⟨hsame, hm⟩ => (identical_of_same hl hm hsame).1⟩

end Deliberation
