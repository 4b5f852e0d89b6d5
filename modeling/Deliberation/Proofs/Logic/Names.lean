import Mathlib.Data.List.Basic
import Deliberation.Logic.Unification

/-!
The names of variables in terms, and what replacing them does.

`Term.names` leaves annotations out, where a replacement does reach. `Term.allNames` lists the names
of all variables without a value and `Term.noteNames` those in annotations. A replacement is
determined by what it does to the names of a term, and the names of the result are those of the
values that came in.
-/

namespace Deliberation

/-! ### Terms and literals as trees -/

/-- Induction over terms and literals together. -/
theorem Term.induction {P : Term → Prop} {Q : Literal → Prop}
    (atom : ∀ a, P (.atom a)) (number : ∀ x, P (.number x)) (text : ∀ s, P (.text s))
    (sequence : ∀ xs, (∀ t ∈ xs, P t) → P (.sequence xs))
    (literal : ∀ l, Q l → P (.literal l))
    (var : ∀ x, P (.variable x)) (bound : ∀ x v, P v → P (.bound x v))
    (mk : ∀ f n xs notes, (∀ t ∈ xs, P t) → (∀ l ∈ notes, Q l) → Q ⟨f, n, xs, notes⟩) :
    (∀ t, P t) ∧ ∀ l, Q l := by
  have cons {α : Type} {R : α → Prop} (head : α) (tail : List α) (hhead : R head)
      (htail : ∀ t ∈ tail, R t) : ∀ t ∈ head :: tail, R t :=
    List.forall_mem_cons.2 ⟨hhead, htail⟩
  constructor
  · exact @Term.rec P Q (fun xs => ∀ t ∈ xs, P t) (fun notes => ∀ l ∈ notes, Q l)
      atom number text sequence literal var bound mk (by simp) cons (by simp) cons
  · exact @Literal.rec P Q (fun xs => ∀ t ∈ xs, P t) (fun notes => ∀ l ∈ notes, Q l)
      atom number text sequence literal var bound mk (by simp) cons (by simp) cons

@[simp] theorem Term.replaceAll_eq (σ : String → Option Term) (xs : List Term) :
    Term.replaceAll σ xs = xs.map (Term.replace σ) := by
  induction xs with
  | nil => rfl
  | cons x xs ih => simp [Term.replaceAll, ih]

@[simp] theorem Literal.replaceAll_eq (σ : String → Option Term) (notes : List Literal) :
    Literal.replaceAll σ notes = notes.map (Literal.replace σ) := by
  induction notes with
  | nil => rfl
  | cons l notes ih => simp [Literal.replaceAll, ih]

@[simp] theorem Term.namesAll_eq (xs : List Term) : Term.namesAll xs = xs.flatMap Term.names := by
  induction xs with
  | nil => rfl
  | cons x xs ih => simp [Term.namesAll, ih]

@[simp] theorem Term.allGround_eq (xs : List Term) : Term.allGround xs = xs.all Term.isGround := by
  induction xs with
  | nil => rfl
  | cons x xs ih => simp [Term.allGround, ih]

@[simp] theorem Literal.allGround_eq (notes : List Literal) :
    Literal.allGround notes = notes.all Literal.isGround := by
  induction notes with
  | nil => rfl
  | cons l notes ih => simp [Literal.allGround, ih]

/-! ### Names everywhere, and names in annotations -/

mutual

/-- The names of the variables without a value, annotations included; the anonymous variable has
none. -/
def Term.allNames : Term → List String
  | .atom _ | .number _ | .text _ => []
  | .sequence xs => Term.allNamesAll xs
  | .literal l => Literal.allNames l
  | .variable x => if x = anonymousName then [] else [x]
  | .bound _ v => Term.allNames v

def Term.allNamesAll : List Term → List String
  | [] => []
  | x :: xs => Term.allNames x ++ Term.allNamesAll xs

def Literal.allNames : Literal → List String
  | ⟨_, _, xs, notes⟩ => Term.allNamesAll xs ++ Literal.allNamesAll notes

def Literal.allNamesAll : List Literal → List String
  | [] => []
  | l :: notes => Literal.allNames l ++ Literal.allNamesAll notes

end

@[simp] theorem Term.allNamesAll_eq (xs : List Term) :
    Term.allNamesAll xs = xs.flatMap Term.allNames := by
  induction xs with
  | nil => rfl
  | cons x xs ih => simp [Term.allNamesAll, ih]

@[simp] theorem Literal.allNamesAll_eq (notes : List Literal) :
    Literal.allNamesAll notes = notes.flatMap Literal.allNames := by
  induction notes with
  | nil => rfl
  | cons l notes ih => simp [Literal.allNamesAll, ih]

mutual

/-- The names of the variables without a value in annotations. -/
def Term.noteNames : Term → List String
  | .atom _ | .number _ | .text _ | .variable _ => []
  | .sequence xs => Term.noteNamesAll xs
  | .literal l => Literal.noteNames l
  | .bound _ v => Term.noteNames v

def Term.noteNamesAll : List Term → List String
  | [] => []
  | x :: xs => Term.noteNames x ++ Term.noteNamesAll xs

def Literal.noteNames : Literal → List String
  | ⟨_, _, xs, notes⟩ => Term.noteNamesAll xs ++ Literal.allNamesAll notes

end

@[simp] theorem Term.noteNamesAll_eq (xs : List Term) :
    Term.noteNamesAll xs = xs.flatMap Term.noteNames := by
  induction xs with
  | nil => rfl
  | cons x xs ih => simp [Term.noteNamesAll, ih]

/-- A name stands outside of annotations or in one. -/
theorem mem_allNames_iff :
    (∀ (t : Term) (x : String), x ∈ t.allNames ↔ x ∈ t.names ∨ x ∈ t.noteNames) ∧
      ∀ (l : Literal) (x : String), x ∈ l.allNames ↔ x ∈ l.names ∨ x ∈ l.noteNames := by
  apply Term.induction
  case sequence =>
    intro xs ih x
    simp only [Term.allNames, Term.names, Term.noteNames, Term.allNamesAll_eq, Term.namesAll_eq,
      Term.noteNamesAll_eq, List.mem_flatMap]
    constructor
    · rintro ⟨t, ht, hx⟩
      exact ((ih t ht x).1 hx).imp (⟨t, ht, ·⟩) (⟨t, ht, ·⟩)
    · rintro (⟨t, ht, hx⟩ | ⟨t, ht, hx⟩)
      · exact ⟨t, ht, (ih t ht x).2 (Or.inl hx)⟩
      · exact ⟨t, ht, (ih t ht x).2 (Or.inr hx)⟩
  case mk =>
    intro f n xs notes ih _ x
    simp only [Literal.allNames, Literal.names, Literal.noteNames, Term.allNamesAll_eq,
      Term.namesAll_eq, Term.noteNamesAll_eq, List.mem_append, List.mem_flatMap]
    constructor
    · rintro (⟨t, ht, hx⟩ | hx)
      · rcases (ih t ht x).1 hx with hx | hx
        · exact Or.inl ⟨t, ht, hx⟩
        · exact Or.inr (Or.inl ⟨t, ht, hx⟩)
      · exact Or.inr (Or.inr hx)
    · rintro (⟨t, ht, hx⟩ | ⟨t, ht, hx⟩ | hx)
      · exact Or.inl ⟨t, ht, (ih t ht x).2 (Or.inl hx)⟩
      · exact Or.inl ⟨t, ht, (ih t ht x).2 (Or.inr hx)⟩
      · exact Or.inr hx
  case literal =>
    intro l ih x
    exact ih x
  case bound =>
    intro _ v ih x
    exact ih x
  all_goals simp [Term.allNames, Term.names, Term.noteNames]

theorem Term.names_subset (t : Term) : t.names ⊆ t.allNames :=
  fun x hx => (mem_allNames_iff.1 t x).2 (Or.inl hx)

theorem Literal.names_subset (l : Literal) : l.names ⊆ l.allNames :=
  fun x hx => (mem_allNames_iff.2 l x).2 (Or.inl hx)

/-- The anonymous variable has no name. -/
theorem ne_anonymous_of_mem_allNames {x : String} :
    (∀ t : Term, x ∈ t.allNames → x ≠ anonymousName) ∧
      ∀ l : Literal, x ∈ l.allNames → x ≠ anonymousName := by
  apply Term.induction
  case sequence =>
    intro xs ih hx
    simp only [Term.allNames, Term.allNamesAll_eq, List.mem_flatMap] at hx
    obtain ⟨t, ht, hx⟩ := hx
    exact ih t ht hx
  case mk =>
    intro f n xs notes ihargs ihnotes hx
    simp only [Literal.allNames, Term.allNamesAll_eq, Literal.allNamesAll_eq, List.mem_append,
      List.mem_flatMap] at hx
    rcases hx with ⟨t, ht, hx⟩ | ⟨l, hl, hx⟩
    · exact ihargs t ht hx
    · exact ihnotes l hl hx
  case literal =>
    intro l ih hx
    exact ih hx
  case var =>
    intro y hx
    by_cases hy : y = anonymousName
    · simp [Term.allNames, hy] at hx
    · simp only [Term.allNames, hy, ↓reduceIte, List.mem_singleton] at hx
      exact hx ▸ hy
  case bound =>
    intro _ v ih hx
    exact ih hx
  all_goals simp [Term.allNames]

/-- A ground term has no names. -/
theorem allNames_of_isGround :
    (∀ t : Term, t.isGround = true → t.allNames = []) ∧
      ∀ l : Literal, l.isGround = true → l.allNames = [] := by
  apply Term.induction
  case sequence =>
    intro xs ih h
    simp only [Term.isGround, Term.allGround_eq, List.all_eq_true] at h
    simp only [Term.allNames, Term.allNamesAll_eq, List.flatMap_eq_nil_iff]
    exact fun t ht => ih t ht (h t ht)
  case mk =>
    intro f n xs notes ihargs ihnotes h
    simp only [Literal.isGround, Term.allGround_eq, Literal.allGround_eq, Bool.and_eq_true,
      List.all_eq_true] at h
    simp only [Literal.allNames, Term.allNamesAll_eq, Literal.allNamesAll_eq,
      List.append_eq_nil_iff, List.flatMap_eq_nil_iff]
    exact ⟨fun t ht => ihargs t ht (h.1 t ht), fun l hl => ihnotes l hl (h.2 l hl)⟩
  case literal =>
    intro l ih h
    exact ih h
  case bound =>
    intro _ v ih h
    exact ih h
  all_goals simp [Term.allNames, Term.isGround]

/-! ### Replacement -/

/-- What a replacement puts in the place of a name. -/
def imageOf (σ : String → Option Term) (x : String) : Term :=
  (σ x).getD (.variable x)

theorem Term.replace_variable (σ : String → Option Term) {x : String} (hx : x ≠ anonymousName) :
    (Term.variable x).replace σ = imageOf σ x := by
  simp [Term.replace, hx, imageOf]

theorem Term.mem_allNames_variable {x y : String} :
    y ∈ (Term.variable x).allNames ↔ x ≠ anonymousName ∧ y = x := by
  by_cases hx : x = anonymousName <;> simp [Term.allNames, hx]

/-- A replacement is determined by what it puts in the place of the names of a term. -/
theorem replace_congr {σ τ : String → Option Term} :
    (∀ t : Term, (∀ x ∈ t.allNames, imageOf σ x = imageOf τ x) → t.replace σ = t.replace τ) ∧
      ∀ l : Literal, (∀ x ∈ l.allNames, imageOf σ x = imageOf τ x) → l.replace σ = l.replace τ := by
  apply Term.induction
  case sequence =>
    intro xs ih h
    simp only [Term.replace, Term.replaceAll_eq, Term.sequence.injEq]
    refine List.map_congr_left fun t ht => ih t ht fun x hx => h x ?_
    simp only [Term.allNames, Term.allNamesAll_eq, List.mem_flatMap]
    exact ⟨t, ht, hx⟩
  case mk =>
    intro f n xs notes ihargs ihnotes h
    simp only [Literal.allNames, Term.allNamesAll_eq, Literal.allNamesAll_eq, List.mem_append,
      List.mem_flatMap] at h
    simp only [Literal.replace, Term.replaceAll_eq, Literal.replaceAll_eq, Literal.mk.injEq,
      true_and]
    constructor
    · exact List.map_congr_left fun t ht => ihargs t ht fun x hx => h x (Or.inl ⟨t, ht, hx⟩)
    · exact List.map_congr_left fun l hl => ihnotes l hl fun x hx => h x (Or.inr ⟨l, hl, hx⟩)
  case literal =>
    intro l ih h
    simp only [Term.replace, Term.literal.injEq]
    exact ih h
  case var =>
    intro x h
    by_cases hx : x = anonymousName
    · simp [Term.replace, hx]
    · rw [Term.replace_variable σ hx, Term.replace_variable τ hx]
      exact h x (Term.mem_allNames_variable.2 ⟨hx, rfl⟩)
  case bound =>
    intro _ v ih h
    exact ih h
  all_goals simp [Term.replace]

/-- Two replacements one after the other are one. -/
theorem replace_replace (σ τ : String → Option Term) :
    (∀ t : Term, (t.replace σ).replace τ = t.replace fun x => some ((imageOf σ x).replace τ)) ∧
      ∀ l : Literal,
        (l.replace σ).replace τ = l.replace fun x => some ((imageOf σ x).replace τ) := by
  apply Term.induction
  case sequence =>
    intro xs ih
    simp only [Term.replace, Term.replaceAll_eq, List.map_map, Term.sequence.injEq]
    exact List.map_congr_left ih
  case mk =>
    intro f n xs notes ihargs ihnotes
    simp only [Literal.replace, Term.replaceAll_eq, Literal.replaceAll_eq, List.map_map,
      Literal.mk.injEq, true_and]
    exact ⟨List.map_congr_left ihargs, List.map_congr_left ihnotes⟩
  case literal =>
    intro l ih
    simp only [Term.replace, Term.literal.injEq]
    exact ih
  case var =>
    intro x
    by_cases hx : x = anonymousName
    · simp [Term.replace, hx]
    · rw [Term.replace_variable σ hx, Term.replace_variable _ hx]
      rfl
  case bound =>
    intro _ v ih
    exact ih
  all_goals simp [Term.replace]

/-- If the names of each part stand for the same as the part, so do the names of all parts. -/
theorem exists_mem_names_iff {α : Type} {parts : List α} {names : α → List String}
    {P : α → Prop} {Q : String → Prop} (h : ∀ t ∈ parts, P t ↔ ∃ x ∈ names t, Q x) :
    (∃ t ∈ parts, P t) ↔ ∃ x, (∃ t ∈ parts, x ∈ names t) ∧ Q x := by
  constructor
  · rintro ⟨t, ht, hP⟩
    obtain ⟨x, hx, hQ⟩ := (h t ht).1 hP
    exact ⟨x, ⟨t, ht, hx⟩, hQ⟩
  · rintro ⟨x, ⟨t, ht, hx⟩, hQ⟩
    exact ⟨t, ht, (h t ht).2 ⟨x, hx, hQ⟩⟩

/-- The names after a replacement are those of what it put in. -/
theorem mem_allNames_replace (σ : String → Option Term) (y : String) :
    (∀ t : Term, y ∈ (t.replace σ).allNames ↔ ∃ x ∈ t.allNames, y ∈ (imageOf σ x).allNames) ∧
      ∀ l : Literal, y ∈ (l.replace σ).allNames ↔
        ∃ x ∈ l.allNames, y ∈ (imageOf σ x).allNames := by
  apply Term.induction
  case sequence =>
    intro xs ih
    simp only [Term.replace, Term.replaceAll_eq, Term.allNames, Term.allNamesAll_eq,
      List.mem_flatMap, List.mem_map, exists_exists_and_eq_and]
    exact exists_mem_names_iff ih
  case mk =>
    intro f n xs notes ihargs ihnotes
    simp only [Literal.replace, Term.replaceAll_eq, Literal.replaceAll_eq, Literal.allNames,
      Term.allNamesAll_eq, Literal.allNamesAll_eq, List.mem_append, List.mem_flatMap, List.mem_map,
      exists_exists_and_eq_and, or_and_right, exists_or]
    exact or_congr (exists_mem_names_iff ihargs) (exists_mem_names_iff ihnotes)
  case literal =>
    intro l ih
    exact ih
  case var =>
    intro x
    by_cases hx : x = anonymousName
    · simp [Term.replace, Term.allNames, hx]
    · rw [Term.replace_variable σ hx]
      simp [Term.allNames, hx]
  case bound =>
    intro _ v ih
    exact ih
  all_goals simp [Term.replace, Term.allNames]

theorem mem_names_replace (σ : String → Option Term) (y : String) :
    (∀ t : Term, y ∈ (t.replace σ).names ↔ ∃ x ∈ t.names, y ∈ (imageOf σ x).names) ∧
      ∀ l : Literal, y ∈ (l.replace σ).names ↔ ∃ x ∈ l.names, y ∈ (imageOf σ x).names := by
  apply Term.induction
  case sequence =>
    intro xs ih
    simp only [Term.replace, Term.replaceAll_eq, Term.names, Term.namesAll_eq, List.mem_flatMap,
      List.mem_map, exists_exists_and_eq_and]
    exact exists_mem_names_iff ih
  case mk =>
    intro f n xs notes ih _
    simp only [Literal.replace, Term.replaceAll_eq, Literal.names, Term.namesAll_eq,
      List.mem_flatMap, List.mem_map, exists_exists_and_eq_and]
    exact exists_mem_names_iff ih
  case literal =>
    intro l ih
    exact ih
  case var =>
    intro x
    by_cases hx : x = anonymousName
    · simp [Term.replace, Term.names, hx]
    · rw [Term.replace_variable σ hx]
      simp [Term.names, hx]
  case bound =>
    intro _ v ih
    exact ih
  all_goals simp [Term.replace, Term.names]

/-- What stands in annotations after a replacement was put into one, or brought one along. -/
theorem mem_noteNames_replace (σ : String → Option Term) (y : String) :
    (∀ t : Term, y ∈ (t.replace σ).noteNames ↔ (∃ x ∈ t.names, y ∈ (imageOf σ x).noteNames) ∨
        ∃ x ∈ t.noteNames, y ∈ (imageOf σ x).allNames) ∧
      ∀ l : Literal, y ∈ (l.replace σ).noteNames ↔
        (∃ x ∈ l.names, y ∈ (imageOf σ x).noteNames) ∨
          ∃ x ∈ l.noteNames, y ∈ (imageOf σ x).allNames := by
  have hparts (xs : List Term)
      (ih : ∀ t ∈ xs, y ∈ (t.replace σ).noteNames ↔
        (∃ x ∈ t.names, y ∈ (imageOf σ x).noteNames) ∨
          ∃ x ∈ t.noteNames, y ∈ (imageOf σ x).allNames) :
      (∃ t ∈ xs, y ∈ (t.replace σ).noteNames) ↔
        (∃ x, (∃ t ∈ xs, x ∈ t.names) ∧ y ∈ (imageOf σ x).noteNames) ∨
          ∃ x, (∃ t ∈ xs, x ∈ t.noteNames) ∧ y ∈ (imageOf σ x).allNames := by
    rw [← exists_mem_names_iff fun _ _ => Iff.rfl, ← exists_mem_names_iff fun _ _ => Iff.rfl,
      ← exists_or]
    refine exists_congr fun t => ?_
    rw [← and_or_left]
    exact and_congr_right (ih t)
  apply Term.induction
  case sequence =>
    intro xs ih
    simp only [Term.replace, Term.replaceAll_eq, Term.names, Term.namesAll_eq, Term.noteNames,
      Term.noteNamesAll_eq, List.mem_flatMap, List.mem_map, exists_exists_and_eq_and]
    exact hparts xs ih
  case mk =>
    intro f n xs notes ih _
    simp only [Literal.replace, Term.replaceAll_eq, Literal.replaceAll_eq, Literal.names,
      Term.namesAll_eq, Literal.noteNames, Term.noteNamesAll_eq, Literal.allNamesAll_eq,
      List.mem_append, List.mem_flatMap, List.mem_map, exists_exists_and_eq_and, or_and_right,
      exists_or]
    rw [hparts xs ih, exists_mem_names_iff fun l _ => (mem_allNames_replace σ y).2 l, or_assoc]
  case literal =>
    intro l ih
    exact ih
  case var =>
    intro x
    by_cases hx : x = anonymousName
    · simp [Term.replace, Term.names, Term.noteNames, hx]
    · rw [Term.replace_variable σ hx]
      simp [Term.names, Term.noteNames, hx]
  case bound =>
    intro _ v ih
    exact ih
  all_goals simp [Term.replace, Term.names, Term.noteNames]

/-! ### Terms without carried values -/

mutual

/-- Whether no variable carries its value, annotations included. -/
def Term.isBare : Term → Bool
  | .atom _ | .number _ | .text _ | .variable _ => true
  | .sequence xs => Term.allBare xs
  | .literal l => Literal.isBare l
  | .bound _ _ => false

def Term.allBare : List Term → Bool
  | [] => true
  | x :: xs => Term.isBare x && Term.allBare xs

def Literal.isBare : Literal → Bool
  | ⟨_, _, xs, notes⟩ => Term.allBare xs && Literal.allBare notes

def Literal.allBare : List Literal → Bool
  | [] => true
  | l :: notes => Literal.isBare l && Literal.allBare notes

end

@[simp] theorem Term.allBare_eq (xs : List Term) : Term.allBare xs = xs.all Term.isBare := by
  induction xs with
  | nil => rfl
  | cons x xs ih => simp [Term.allBare, ih]

@[simp] theorem Literal.allBare_eq (notes : List Literal) :
    Literal.allBare notes = notes.all Literal.isBare := by
  induction notes with
  | nil => rfl
  | cons l notes ih => simp [Literal.allBare, ih]

/-- A replacement takes carried values out, and brings none in if what it puts in has none. -/
theorem isBare_replace {σ : String → Option Term} :
    (∀ t : Term, (∀ x ∈ t.allNames, (imageOf σ x).isBare = true) → (t.replace σ).isBare = true) ∧
      ∀ l : Literal, (∀ x ∈ l.allNames, (imageOf σ x).isBare = true) →
        (l.replace σ).isBare = true := by
  apply Term.induction
  case sequence =>
    intro xs ih h
    simp only [Term.allNames, Term.allNamesAll_eq, List.mem_flatMap] at h
    simp only [Term.replace, Term.replaceAll_eq, Term.isBare, Term.allBare_eq, List.all_map,
      List.all_eq_true]
    exact fun t ht => ih t ht fun x hx => h x ⟨t, ht, hx⟩
  case mk =>
    intro f n xs notes ihargs ihnotes h
    simp only [Literal.allNames, Term.allNamesAll_eq, Literal.allNamesAll_eq, List.mem_append,
      List.mem_flatMap] at h
    simp only [Literal.replace, Term.replaceAll_eq, Literal.replaceAll_eq, Literal.isBare,
      Term.allBare_eq, Literal.allBare_eq, List.all_map, Bool.and_eq_true, List.all_eq_true]
    exact ⟨fun t ht => ihargs t ht fun x hx => h x (Or.inl ⟨t, ht, hx⟩),
      fun l hl => ihnotes l hl fun x hx => h x (Or.inr ⟨l, hl, hx⟩)⟩
  case literal =>
    intro l ih h
    exact ih h
  case var =>
    intro x h
    by_cases hx : x = anonymousName
    · simp [Term.replace, Term.isBare, hx]
    · rw [Term.replace_variable σ hx]
      exact h x (Term.mem_allNames_variable.2 ⟨hx, rfl⟩)
  case bound =>
    intro _ v ih h
    exact ih h
  all_goals simp [Term.replace, Term.isBare]

/-- A replacement that leaves the names of a term alone leaves the term alone. -/
theorem replace_eq_self {σ : String → Option Term} :
    (∀ t : Term, t.isBare = true → (∀ x ∈ t.allNames, imageOf σ x = .variable x) →
        t.replace σ = t) ∧
      ∀ l : Literal, l.isBare = true → (∀ x ∈ l.allNames, imageOf σ x = .variable x) →
        l.replace σ = l := by
  apply Term.induction
  case sequence =>
    intro xs ih hbare h
    simp only [Term.isBare, Term.allBare_eq, List.all_eq_true] at hbare
    simp only [Term.allNames, Term.allNamesAll_eq, List.mem_flatMap] at h
    simp only [Term.replace, Term.replaceAll_eq, Term.sequence.injEq]
    exact (List.map_congr_left fun t ht => ih t ht (hbare t ht) fun x hx =>
      h x ⟨t, ht, hx⟩).trans (List.map_id' xs)
  case mk =>
    intro f n xs notes ihargs ihnotes hbare h
    simp only [Literal.isBare, Term.allBare_eq, Literal.allBare_eq, Bool.and_eq_true,
      List.all_eq_true] at hbare
    simp only [Literal.allNames, Term.allNamesAll_eq, Literal.allNamesAll_eq, List.mem_append,
      List.mem_flatMap] at h
    simp only [Literal.replace, Term.replaceAll_eq, Literal.replaceAll_eq, Literal.mk.injEq,
      true_and]
    constructor
    · exact (List.map_congr_left fun t ht => ihargs t ht (hbare.1 t ht) fun x hx =>
        h x (Or.inl ⟨t, ht, hx⟩)).trans (List.map_id' xs)
    · exact (List.map_congr_left fun l hl => ihnotes l hl (hbare.2 l hl) fun x hx =>
        h x (Or.inr ⟨l, hl, hx⟩)).trans (List.map_id' notes)
  case literal =>
    intro l ih hbare h
    simp only [Term.replace, Term.literal.injEq]
    exact ih hbare h
  case var =>
    intro x _ h
    by_cases hx : x = anonymousName
    · simp [Term.replace, hx]
    · rw [Term.replace_variable σ hx]
      exact h x (Term.mem_allNames_variable.2 ⟨hx, rfl⟩)
  case bound => simp [Term.isBare]
  all_goals simp [Term.replace]

end Deliberation
