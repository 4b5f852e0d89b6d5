import Deliberation.Agent.Basic
import Deliberation.Proofs.Logic.Instance

/-!
Renaming the free variables of a literal.

`Literal.freshen` renames the variables that stand outside of annotations, wherever they stand. If
all names of the literal are known, the new names are not, and the literal is renamed in one go: no
new name is renamed again. A name that stands in annotations only is left as it is.
-/

namespace Deliberation

variable {notes : Prop} {l : Literal} {n : Nat} {x y : String}

namespace Literal

/-- What freshening puts in the place of names. -/
def newNames (l : Literal) (n : Nat) : Substitution :=
  .ofList <| l.freeNames.zipIdx.map fun (x, i) => (x, .variable (freshName x (n + i + 1)))

/-- The names that freshening makes up. -/
def generated (l : Literal) (n : Nat) : List String :=
  l.freeNames.zipIdx.map fun (x, i) => freshName x (n + i + 1)

/-- The names that stand in annotations only; freshening leaves them as they are. -/
def strayNames (l : Literal) : List String :=
  l.noteNames.filter fun x => x ∉ l.names

theorem mem_strayNames : x ∈ l.strayNames ↔ x ∈ l.noteNames ∧ x ∉ l.names := by
  simp [strayNames]

theorem mem_freeNames : x ∈ l.freeNames ↔ x ∈ l.names :=
  List.mem_eraseDups

theorem freshen_snd (l : Literal) (n : Nat) : (l.freshen n).2 = n + l.freeNames.length := by
  unfold freshen
  split
  · rename_i hnil
    simp [hnil]
  · rfl

theorem le_freshen (l : Literal) (n : Nat) : n ≤ (l.freshen n).2 := by
  rw [freshen_snd]
  omega

/-- The names are numbered from `n + 1` on. -/
theorem mem_generated (hx : x ∈ l.generated n) :
    ∃ y k, n < k ∧ k ≤ (l.freshen n).2 ∧ x = freshName y k := by
  obtain ⟨⟨y, i⟩, hmem, rfl⟩ := List.mem_map.1 hx
  rw [List.mk_mem_zipIdx_iff_getElem?] at hmem
  obtain ⟨hlt, _⟩ := List.getElem?_eq_some_iff.1 hmem
  rw [freshen_snd]
  exact ⟨y, n + i + 1, by omega, by omega, rfl⟩

theorem not_known_of_mem_generated (hx : x ∈ l.generated n) : ¬ Known n x := by
  obtain ⟨y, k, hlt, _, rfl⟩ := mem_generated hx
  rw [known_freshName_iff]
  omega

theorem known_of_mem_generated (hx : x ∈ l.generated n) : Known (l.freshen n).2 x := by
  obtain ⟨y, k, _, hle, rfl⟩ := mem_generated hx
  exact known_freshName_iff.2 hle

theorem ne_anonymous_of_mem_generated (hx : x ∈ l.generated n) : x ≠ anonymousName := by
  obtain ⟨y, k, _, _, rfl⟩ := mem_generated hx
  exact freshName_ne_anonymous y k

/-- A name outside of annotations gets a new one, and no other name does. -/
theorem find?_newNames (l : Literal) (n : Nat) (x : String) :
    (x ∈ l.names ∧ ∃ y ∈ l.generated n, (l.newNames n).find? x = some (.variable y)) ∨
      x ∉ l.names ∧ (l.newNames n).find? x = none := by
  rcases SortedMap.find?_ofList
      (l.freeNames.zipIdx.map fun (x, i) => (x, Term.variable (freshName x (n + i + 1)))) x with
    ⟨t, hmem, hfind⟩ | ⟨hnot, hfind⟩
  · left
    obtain ⟨⟨y, i⟩, hy, heq⟩ := List.mem_map.1 hmem
    obtain ⟨rfl, rfl⟩ := Prod.mk.injEq .. ▸ heq
    have hget := List.mk_mem_zipIdx_iff_getElem?.1 hy
    exact ⟨mem_freeNames.1 (List.mem_of_getElem? hget), _, List.mem_map.2 ⟨_, hy, rfl⟩, hfind⟩
  · right
    refine ⟨fun hx => hnot ?_, hfind⟩
    obtain ⟨i, hi⟩ := List.mem_iff_getElem?.1 (mem_freeNames.2 hx)
    exact List.mem_map.2
      ⟨_, List.mem_map.2 ⟨(x, i), List.mk_mem_zipIdx_iff_getElem?.2 hi, rfl⟩, rfl⟩

theorem imageOf_newNames_of_mem (n : Nat) (hx : x ∈ l.names) :
    ∃ y ∈ l.generated n, imageOf (l.newNames n).find? x = .variable y := by
  rcases l.find?_newNames n x with ⟨_, y, hy, hfind⟩ | ⟨hnot, _⟩
  · exact ⟨y, hy, by rw [imageOf, hfind]; rfl⟩
  · exact absurd hx hnot

theorem imageOf_newNames_of_notMem (n : Nat) (hx : x ∉ l.names) :
    imageOf (l.newNames n).find? x = .variable x := by
  rcases l.find?_newNames n x with ⟨hmem, _⟩ | ⟨_, hfind⟩
  · exact absurd hmem hx
  · rw [imageOf, hfind]
    rfl

theorem isBare_newNames (l : Literal) (n : Nat) (x : String) :
    (imageOf (l.newNames n).find? x).isBare = true := by
  by_cases hx : x ∈ l.names
  · obtain ⟨y, _, hy⟩ := imageOf_newNames_of_mem n hx
    rw [hy]
    rfl
  · rw [imageOf_newNames_of_notMem n hx]
    rfl

theorem freshen_of_names_eq_nil (h : l.freeNames = []) : (l.freshen n).1 = l := by
  simp [freshen, h]

theorem freshen_of_names_ne_nil (h : l.freeNames ≠ []) :
    (l.freshen n).1 = (l.newNames n).applyLiteral l := by
  unfold freshen
  split
  · contradiction
  · rfl

/-- The new names are not renamed again. -/
theorem imageOf_resolve?_newNames (hknown : ∀ x ∈ l.names, Known n x) (x : String) :
    imageOf ((l.newNames n).resolve? (l.newNames n).size) x = imageOf (l.newNames n).find? x := by
  rcases l.find?_newNames n x with ⟨_, y, hy, hfind⟩ | ⟨_, hfind⟩
  · have hynone : (l.newNames n).find? y = none := by
      rcases l.find?_newNames n y with ⟨hmem, _⟩ | ⟨_, hnone⟩
      · exact absurd (hknown y hmem) (not_known_of_mem_generated hy)
      · exact hnone
    have hsettles : (l.newNames n).Settles x := by
      refine Substitution.settles_of_dead_end fun z ⟨t, ht, hz⟩ => ?_
      rw [hfind] at ht
      obtain rfl := Option.some.inj ht
      obtain ⟨_, rfl⟩ := Term.mem_allNames_variable.1 hz
      exact hynone
    rw [imageOf, imageOf, Substitution.resolve?_size hsettles, hfind, Option.map_some,
      Substitution.apply_variable_of_find?_eq_none hynone]
  · rw [imageOf, imageOf, Substitution.resolve?_of_find?_eq_none hfind, hfind]

/-- The names of a literal are renamed once. -/
theorem freshen_eq (hbare : l.isBare = true) (hknown : ∀ x ∈ l.allNames, Known n x) :
    (l.freshen n).1 = l.replace (l.newNames n).find? := by
  by_cases hnil : l.freeNames = []
  · rw [freshen_of_names_eq_nil hnil]
    refine (replace_eq_self.2 l hbare fun x _ => imageOf_newNames_of_notMem n ?_).symm
    rw [← mem_freeNames, hnil]
    simp
  · rw [freshen_of_names_ne_nil hnil]
    refine replace_congr.2 l fun x _ => imageOf_resolve?_newNames (fun y hy => ?_) x
    exact hknown y (l.names_subset hy)

/-- Outside of annotations there are only new names. -/
theorem mem_generated_of_mem_names (hknown : ∀ x ∈ l.names, Known n x)
    (hx : x ∈ (l.freshen n).1.names) : x ∈ l.generated n := by
  by_cases hnil : l.freeNames = []
  · rw [freshen_of_names_eq_nil hnil, ← mem_freeNames, hnil] at hx
    simp at hx
  · rw [freshen_of_names_ne_nil hnil] at hx
    obtain ⟨y, hy, hx⟩ := ((mem_names_replace _ x).2 l).1 hx
    obtain ⟨z, hz, himage⟩ := imageOf_newNames_of_mem n hy
    rw [imageOf_resolve?_newNames hknown, himage] at hx
    obtain ⟨_, rfl⟩ := Term.mem_allNames_variable.1 (Term.names_subset _ hx)
    exact hz

theorem fits_newNames (h : l.Fits (Known n) notes) :
    (l.newNames n).Fits (Known (l.freshen n).2) notes := by
  intro x t ht
  rcases l.find?_newNames n x with ⟨hmem, y, hy, hfind⟩ | ⟨_, hfind⟩
  · rw [hfind] at ht
    obtain rfl := Option.some.inj ht
    refine ⟨(h.names x (l.names_subset hmem)).mono (l.le_freshen n),
      Term.fits_variable (known_of_mem_generated hy), ?_⟩
    simp [Term.isProper, ne_anonymous_of_mem_generated hy]
  · simp [hfind] at ht

theorem Fits.freshen (h : l.Fits (Known n) notes) :
    (l.freshen n).1.Fits (Known (l.freshen n).2) notes := by
  have hmono : l.Fits (Known (l.freshen n).2) notes := h.mono fun _ hx => hx.mono (l.le_freshen n)
  by_cases hnil : l.freeNames = []
  · rw [freshen_of_names_eq_nil hnil]
    exact hmono
  · rw [freshen_of_names_ne_nil hnil]
    exact (fits_newNames h).applyLiteral hmono

end Literal
end Deliberation
