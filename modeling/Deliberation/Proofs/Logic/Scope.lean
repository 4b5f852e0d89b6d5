import Deliberation.Proofs.Logic.Unification

/-!
Which names occur in terms and bindings.

Names that are made up have the form `X#7`. A name is known at a number if it has no hash mark or a
number that is not larger, so a name with the next number is new. A term fits if all its names are
allowed; whether annotations may have names at all is a choice. Terms that fit stay so when they are
resolved, and bindings when they are unified or assigned.
-/

namespace Deliberation

/-! ### Made-up names -/

/-- The name that is made up for a name with a number. -/
def freshName (x : String) (k : Nat) : String :=
  x ++ "#" ++ toString k

/-- A name without a hash mark. -/
def IsPlain (x : String) : Prop :=
  '#' ∉ x.toList

instance (x : String) : Decidable (IsPlain x) :=
  inferInstanceAs (Decidable ('#' ∉ x.toList))

/-- A name that is plain or was made up with a number up to `n`. -/
def Known (n : Nat) (x : String) : Prop :=
  IsPlain x ∨ ∃ y k, k ≤ n ∧ x = freshName y k

theorem toList_freshName (x : String) (k : Nat) :
    (freshName x k).toList = x.toList ++ '#' :: Nat.toDigits 10 k := by
  simp [freshName]

theorem hash_notMem_toDigits (k : Nat) : '#' ∉ Nat.toDigits 10 k := by
  intro h
  have hdigit := Nat.isDigit_of_mem_toDigits (by decide) (by decide) h
  simp at hdigit

theorem freshName_number_eq {x y : String} {j k : Nat} (h : freshName x j = freshName y k) :
    j = k := by
  have hlist := congrArg String.toList h
  rw [toList_freshName, toList_freshName] at hlist
  have hdigits := List.eq_of_append_cons_eq (hash_notMem_toDigits j) (hash_notMem_toDigits k) hlist
  rw [← Nat.ofDigitChars_ten_toDigits (n := j), hdigits, Nat.ofDigitChars_ten_toDigits]

theorem not_isPlain_freshName (x : String) (k : Nat) : ¬ IsPlain (freshName x k) := by
  rw [IsPlain, toList_freshName]
  simp

theorem known_freshName_iff {n k : Nat} {x : String} : Known n (freshName x k) ↔ k ≤ n := by
  constructor
  · rintro (hplain | ⟨y, j, hj, heq⟩)
    · exact absurd hplain (not_isPlain_freshName x k)
    · rw [freshName_number_eq heq]
      exact hj
  · intro hk
    exact Or.inr ⟨x, k, hk, rfl⟩

theorem Known.mono {m n : Nat} {x : String} (h : Known m x) (hmn : m ≤ n) : Known n x :=
  h.imp id fun ⟨y, k, hk, heq⟩ => ⟨y, k, hk.trans hmn, heq⟩

theorem IsPlain.known {x : String} (h : IsPlain x) (n : Nat) : Known n x :=
  Or.inl h

theorem freshName_ne_anonymous (x : String) (k : Nat) : freshName x k ≠ anonymousName := by
  intro h
  have hplain : IsPlain anonymousName := by decide
  exact not_isPlain_freshName x k (h ▸ hplain)

/-! ### Terms whose names are allowed -/

/-- All names of a term are allowed, and those in annotations only if `notes` holds. -/
structure Term.Fits (K : String → Prop) (notes : Prop) (t : Term) : Prop where
  names : ∀ x ∈ t.allNames, K x
  notes : notes ∨ t.noteNames = []

/-- All names of a literal are allowed, and those in annotations only if `notes` holds. -/
def Literal.Fits (K : String → Prop) (notes : Prop) (l : Literal) : Prop :=
  (Term.literal l).Fits K notes

variable {K K' : String → Prop} {notes : Prop} {t : Term} {l : Literal}

instance [DecidablePred K] [Decidable notes] (t : Term) : Decidable (t.Fits K notes) :=
  decidable_of_iff ((∀ x ∈ t.allNames, K x) ∧ (notes ∨ t.noteNames = []))
    ⟨fun h => ⟨h.1, h.2⟩, fun h => ⟨h.names, h.notes⟩⟩

instance [DecidablePred K] [Decidable notes] (l : Literal) : Decidable (l.Fits K notes) :=
  inferInstanceAs (Decidable ((Term.literal l).Fits K notes))

theorem Term.Fits.mono (h : t.Fits K notes) (hK : ∀ x, K x → K' x) : t.Fits K' notes :=
  ⟨fun x hx => hK x (h.names x hx), h.notes⟩

theorem Literal.Fits.mono (h : l.Fits K notes) (hK : ∀ x, K x → K' x) : l.Fits K' notes :=
  Term.Fits.mono h hK

theorem Term.fits_of_isGround (h : t.isGround = true) : t.Fits K notes := by
  have hnames := allNames_of_isGround.1 t h
  refine ⟨by simp [hnames], Or.inr ?_⟩
  refine List.eq_nil_iff_forall_not_mem.2 fun x hx => ?_
  have hall := (mem_allNames_iff.1 t x).2 (Or.inr hx)
  simp [hnames] at hall

theorem Literal.fits_of_isGround (h : l.isGround = true) : l.Fits K notes :=
  Term.fits_of_isGround (t := .literal l) h

theorem Term.fits_variable {x : String} (h : K x) : (Term.variable x).Fits K notes := by
  refine ⟨fun y hy => ?_, Or.inr rfl⟩
  obtain ⟨_, rfl⟩ := Term.mem_allNames_variable.1 hy
  exact h

theorem Term.Fits.of_mem_sequence {xs : List Term} (h : (Term.sequence xs).Fits K notes)
    (ht : t ∈ xs) : t.Fits K notes where
  names x hx := h.names x <| by
    simp only [Term.allNames, Term.allNamesAll_eq, List.mem_flatMap]
    exact ⟨t, ht, hx⟩
  notes := h.notes.imp id fun hnil => by
    simp only [Term.noteNames, Term.noteNamesAll_eq, List.flatMap_eq_nil_iff] at hnil
    exact hnil t ht

theorem Literal.Fits.of_mem_arguments (h : l.Fits K notes) (ht : t ∈ l.arguments) :
    t.Fits K notes := by
  obtain ⟨f, n, xs, marks⟩ := l
  refine ⟨fun x hx => h.names x ?_, h.notes.imp id fun hnil => ?_⟩
  · simp only [Term.allNames, Literal.allNames, Term.allNamesAll_eq, List.mem_append,
      List.mem_flatMap]
    exact Or.inl ⟨t, ht, hx⟩
  · simp only [Term.noteNames, Literal.noteNames, Term.noteNamesAll_eq, List.append_eq_nil_iff,
      List.flatMap_eq_nil_iff] at hnil
    exact hnil.1 t ht

/-- A term fits after a replacement if all fits that it put in. -/
theorem Term.Fits.replace {σ : String → Option Term} (h : t.Fits K notes)
    (hσ : ∀ x ∈ t.allNames, (imageOf σ x).Fits K' notes) : (t.replace σ).Fits K' notes where
  names y hy := by
    obtain ⟨x, hx, hy⟩ := ((mem_allNames_replace σ y).1 t).1 hy
    exact (hσ x hx).names y hy
  notes := by
    by_cases hnotes : notes
    · exact Or.inl hnotes
    · refine Or.inr (List.eq_nil_iff_forall_not_mem.2 fun y hy => ?_)
      have hnil := h.notes.resolve_left hnotes
      rcases ((mem_noteNames_replace σ y).1 t).1 hy with ⟨x, hx, hy⟩ | ⟨x, hx, _⟩
      · have himage := (hσ x (t.names_subset hx)).notes.resolve_left hnotes
        simp [himage] at hy
      · simp [hnil] at hx

/-! ### Bindings whose names are allowed -/

/-- What a variable may be bound to: neither the anonymous variable nor one that carries its
value. -/
def Term.isProper : Term → Bool
  | .variable x => x ≠ anonymousName
  | .bound _ _ => false
  | _ => true

theorem Term.isAnonymous_of_isProper (h : t.isProper = true) : t.isAnonymous = false := by
  cases t <;> simp_all [Term.isProper, Term.isAnonymous]

namespace Substitution

/-- All names of some bindings are allowed, and no value is an anonymous variable. -/
def Fits (K : String → Prop) (notes : Prop) (s : Substitution) : Prop :=
  ∀ x t, s.find? x = some t → K x ∧ t.Fits K notes ∧ t.isProper = true

variable {s s' : Substitution} {x y : String} {pairs : List (Term × Term)}

theorem fits_empty : empty.Fits K notes := by
  intro x t ht
  simp [find?, empty] at ht

theorem Fits.mono (h : s.Fits K notes) (hK : ∀ x, K x → K' x) : s.Fits K' notes := by
  intro x t ht
  obtain ⟨hx, hfits, hproper⟩ := h x t ht
  exact ⟨hK x hx, hfits.mono hK, hproper⟩

theorem Fits.bind (h : s.Fits K notes) (hx : K x) (ht : t.Fits K notes)
    (hproper : t.isProper = true) : (s.bind x t).Fits K notes := by
  intro y u hy
  rw [find?_bind] at hy
  split at hy
  · rename_i heq
    obtain rfl := Option.some.inj hy
    exact ⟨heq ▸ hx, ht, hproper⟩
  · exact h y u hy

theorem Fits.resolve? (h : s.Fits K notes) {depth : Nat} (hx : K x) :
    (imageOf (s.resolve? depth) x).Fits K notes := by
  induction depth generalizing x with
  | zero => exact Term.fits_variable hx
  | succ depth ih =>
      cases ht : s.find? x with
      | none =>
          rw [imageOf, resolve?_of_find?_eq_none ht]
          exact Term.fits_variable hx
      | some t =>
          have hfits := (h x t ht).2.1
          simp only [imageOf, Substitution.resolve?, ht, Option.map_some, Option.getD_some]
          exact hfits.replace fun y hy => ih (hfits.names y hy)

/-- A term that fits still fits when it is resolved. -/
theorem Fits.apply (h : s.Fits K notes) (ht : t.Fits K notes) : (s.apply t).Fits K notes :=
  ht.replace fun x hx => h.resolve? (ht.names x hx)

theorem Fits.applyLiteral (h : s.Fits K notes) (hl : l.Fits K notes) :
    (s.applyLiteral l).Fits K notes :=
  h.apply hl

/-- A variable with a name is not resolved to an anonymous variable. -/
theorem Fits.isProper_resolve? (h : s.Fits K notes) {depth : Nat} (hx : x ≠ anonymousName) :
    (imageOf (s.resolve? depth) x).isProper = true := by
  induction depth generalizing x with
  | zero => simp [imageOf, Substitution.resolve?, Term.isProper, hx]
  | succ depth ih =>
      cases ht : s.find? x with
      | none =>
          rw [imageOf, resolve?_of_find?_eq_none ht]
          simp [Term.isProper, hx]
      | some t =>
          have hproper := (h x t ht).2.2
          simp only [imageOf, Substitution.resolve?, ht, Option.map_some, Option.getD_some]
          cases t with
          | «variable» y =>
              have hy : y ≠ anonymousName := by simpa [Term.isProper] using hproper
              rw [Term.replace_variable _ hy]
              exact ih hy
          | bound y v => simp [Term.isProper] at hproper
          | _ => rfl

theorem Fits.follow? (h : s.Fits K notes) {a : Term} (ha : a.Fits K notes)
    (ht : s.follow? a = some t) : t.Fits K notes := by
  cases a with
  | bound x v =>
      obtain rfl : v = t := by simpa [Substitution.follow?] using ht
      exact ⟨ha.names, ha.notes⟩
  | «variable» x =>
      simp only [Substitution.follow?] at ht
      split at ht
      · simp at ht
      · exact (h x t ht).2.1
  | _ => simp [Substitution.follow?] at ht

/-- The end of a chain of variables is the name itself or stands in a value. -/
theorem Fits.aliasEnd (h : s.Fits K notes) (hx : K x) (steps : Nat) : K (s.aliasEnd steps x) := by
  induction steps generalizing x with
  | zero => exact hx
  | succ steps ih =>
      simp only [Substitution.aliasEnd]
      split
      · rename_i next hnext
        split
        · rename_i hne
          have hfits := (h x _ hnext).2.1
          exact ih (hfits.names next (Term.mem_allNames_variable.2 ⟨hne.1, rfl⟩))
        · exact hx
      · exact hx

theorem Fits.assign (h : s.Fits K notes) (hx : K x) (ht : t.Fits K notes)
    (hproper : t.isProper = true) : (s.assign x t).Fits K notes :=
  h.bind (h.aliasEnd hx _) ht hproper

end Substitution

/-! ### Unification -/

namespace Unification

variable {s s' : Substitution} {b : Term} {pairs : List (Term × Term)}

/-- What a variable is bound to while pairs are solved is proper. -/
theorem isProper_of_follow? (hanonymous : b.isAnonymous = false) (h : s.follow? b = none) :
    b.isProper = true := by
  cases b with
  | «variable» x => simpa [Term.isAnonymous, Term.isProper] using hanonymous
  | bound x v => simp [Substitution.follow?] at h
  | _ => rfl

/-- Solving pairs brings in no names that were not there. -/
theorem Solves.fits (h : Solves pairs s s') (hs : s.Fits K notes)
    (hpairs : AllPairs (Term.Fits K notes) pairs) : s'.Fits K notes := by
  induction h with
  | done => exact hs
  | skip _ _ ih | same _ ih | atom _ ih | number _ _ ih | text _ ih =>
      exact ih hs (allPairs_cons.1 hpairs).2
  | left hfollow _ ih =>
      have ⟨⟨ha, hb⟩, hrest⟩ := allPairs_cons.1 hpairs
      exact ih hs (allPairs_cons.2 ⟨⟨hs.follow? ha hfollow, hb⟩, hrest⟩)
  | right hfollow _ ih =>
      have ⟨⟨ha, hb⟩, hrest⟩ := allPairs_cons.1 hpairs
      exact ih hs (allPairs_cons.2 ⟨⟨ha, hs.follow? hb hfollow⟩, hrest⟩)
  | bindLeft hx _ hb hfollow _ ih =>
      have ⟨⟨hvar, hfits⟩, hrest⟩ := allPairs_cons.1 hpairs
      have hK := hvar.names _ (Term.mem_allNames_variable.2 ⟨hx, rfl⟩)
      exact ih (hs.bind hK hfits (isProper_of_follow? hb hfollow)) hrest
  | bindRight hy _ ha hfollow _ ih =>
      have ⟨⟨hfits, hvar⟩, hrest⟩ := allPairs_cons.1 hpairs
      have hK := hvar.names _ (Term.mem_allNames_variable.2 ⟨hy, rfl⟩)
      exact ih (hs.bind hK hfits (isProper_of_follow? ha hfollow)) hrest
  | sequence _ _ ih =>
      have ⟨⟨hxs, hys⟩, hrest⟩ := allPairs_cons.1 hpairs
      have hzip := allPairs_zip (fun _ => hxs.of_mem_sequence) (fun _ => hys.of_mem_sequence)
      exact ih hs (hzip.append hrest)
  | @literal l m _ _ _ _ _ ih =>
      have ⟨⟨hl, hm⟩, hrest⟩ := allPairs_cons.1 hpairs
      have hl' : l.Fits K notes := hl
      have hm' : m.Fits K notes := hm
      have hzip := allPairs_zip (fun _ => hl'.of_mem_arguments) (fun _ => hm'.of_mem_arguments)
      exact ih hs (hzip.append hrest)

end Unification

namespace Substitution

variable {s s' : Substitution}

theorem Fits.unify (h : s.Fits K notes) {a b : Term} (ha : a.Fits K notes) (hb : b.Fits K notes)
    (hs' : unify a b s = .ok s') : s'.Fits K notes :=
  (Unification.unify_solves hs').fits h (by simp [Unification.AllPairs, ha, hb])

theorem Fits.unifyLiterals (h : s.Fits K notes) {l m : Literal} (hl : l.Fits K notes)
    (hm : m.Fits K notes) (hs' : unifyLiterals l m s = .ok s') : s'.Fits K notes :=
  (Unification.unifyLiterals_solves hs').2.fits h
    (Unification.allPairs_zip (fun _ => hl.of_mem_arguments) (fun _ => hm.of_mem_arguments))

end Substitution
end Deliberation
