import Mathlib.Data.List.Perm.Subperm
import Mathlib.Data.List.Range
import Deliberation.Intention.Frame

/-!
The arena of frames as a finite map.

An arena is valid if its free list names the empty slots, each once. Valid arenas behave like maps
from names to frames: storing, changing and removing a frame have an effect under one name only, and
the size counts the frames that are stored.
-/

namespace Deliberation
namespace FrameArena

variable {a b : FrameArena} {id other : FrameId} {f g : Frame}

/-- The free list names the slots without a frame, each of them once. -/
structure Valid (a : FrameArena) : Prop where
  free_nodup : a.free.Nodup
  mem_free_iff : ∀ slot, slot ∈ a.free ↔ ∃ s, a.slots[slot]? = some s ∧ s.frame = none

theorem valid_empty : empty.Valid := by
  refine ⟨List.nodup_nil, ?_⟩
  intro slot
  simp [empty]

theorem find?_eq_some_iff :
    a.find? id = some f ↔ a.slots[id.slot]? = some ⟨id.generation, some f⟩ := by
  unfold find?
  cases hslot : a.slots[id.slot]? with
  | none => simp
  | some s =>
      obtain ⟨generation, frame⟩ := s
      by_cases hgen : generation = id.generation <;> simp [hgen]

theorem Valid.lt_of_mem_free (h : a.Valid) {slot : Nat} (hslot : slot ∈ a.free) :
    slot < a.slots.length := by
  obtain ⟨s, hs, _⟩ := (h.mem_free_iff slot).1 hslot
  exact (List.getElem?_eq_some_iff.1 hs).1

theorem Valid.length_free_le (h : a.Valid) : a.free.length ≤ a.slots.length := by
  have hsub : a.free ⊆ List.range a.slots.length := fun slot hslot =>
    List.mem_range.2 (h.lt_of_mem_free hslot)
  simpa using (List.subperm_of_subset h.free_nodup hsub).length_le

/-- The slot of a stored frame is not free. -/
theorem Valid.slot_notMem_free (h : a.Valid) (hf : a.find? id = some f) : id.slot ∉ a.free := by
  intro hmem
  obtain ⟨s, hs, hframe⟩ := (h.mem_free_iff id.slot).1 hmem
  rw [find?_eq_some_iff.1 hf] at hs
  simp [← Option.some.inj hs] at hframe

theorem Valid.length_free_lt (h : a.Valid) (hf : a.find? id = some f) :
    a.free.length < a.slots.length := by
  have hslot : id.slot < a.slots.length :=
    (List.getElem?_eq_some_iff.1 (find?_eq_some_iff.1 hf)).1
  have hnodup : (id.slot :: a.free).Nodup :=
    List.nodup_cons.2 ⟨h.slot_notMem_free hf, h.free_nodup⟩
  have hsub : (id.slot :: a.free) ⊆ List.range a.slots.length := by
    intro slot hmem
    rcases List.mem_cons.1 hmem with rfl | hmem
    · exact List.mem_range.2 hslot
    · exact List.mem_range.2 (h.lt_of_mem_free hmem)
  have hlength := (List.subperm_of_subset hnodup hsub).length_le
  simpa [Nat.succ_le_iff] using hlength

/-! ### Storing a frame -/

/-- A frame is stored either in a new slot, or in the first free one under its generation. -/
theorem Valid.insert_cases (h : a.Valid) (f : Frame) :
    (a.free = [] ∧ a.insert f = (⟨a.slots.length, 0⟩, ⟨a.slots ++ [⟨0, some f⟩], []⟩)) ∨
      ∃ slot free generation, a.free = slot :: free ∧
        a.slots[slot]? = some ⟨generation, none⟩ ∧
        a.insert f = (⟨slot, generation⟩, ⟨a.slots.set slot ⟨generation, some f⟩, free⟩) := by
  cases hfree : a.free with
  | nil => exact Or.inl ⟨rfl, by simp [insert, append, hfree]⟩
  | cons slot free =>
      have hmem : slot ∈ a.free := by simp [hfree]
      obtain ⟨⟨generation, frame⟩, hs, hframe⟩ := (h.mem_free_iff slot).1 hmem
      simp only at hframe
      subst hframe
      exact Or.inr ⟨slot, free, generation, rfl, hs, by simp [insert, hfree, hs]⟩

theorem Valid.find?_insert_self (h : a.Valid) (f : Frame) :
    (a.insert f).2.find? (a.insert f).1 = some f := by
  rw [find?_eq_some_iff]
  obtain ⟨_, heq⟩ | ⟨slot, free, generation, _, hs, heq⟩ := h.insert_cases f
  · simp [heq]
  · have hlt := (List.getElem?_eq_some_iff.1 hs).1
    simp [heq, hlt]

/-- The name under which a frame is stored was not in use. -/
theorem Valid.find?_insert_name (h : a.Valid) (f : Frame) : a.find? (a.insert f).1 = none := by
  obtain ⟨_, heq⟩ | ⟨slot, free, generation, _, hs, heq⟩ := h.insert_cases f
  · simp [heq, find?]
  · simp [heq, find?, hs]

theorem Valid.find?_insert_of_ne (h : a.Valid) (f : Frame) (hne : other ≠ (a.insert f).1) :
    (a.insert f).2.find? other = a.find? other := by
  obtain ⟨slot', generation'⟩ := other
  obtain ⟨_, heq⟩ | ⟨slot, free, generation, _, hs, heq⟩ := h.insert_cases f
  · simp only [heq, ne_eq, FrameId.mk.injEq, not_and] at hne ⊢
    simp only [find?]
    by_cases hslot : slot' = a.slots.length
    · have hgen : ¬ 0 = generation' := fun hz => hne hslot hz.symm
      simp [hslot, hgen]
    · rcases Nat.lt_or_gt_of_ne hslot with hlt | hgt
      · simp [List.getElem?_append_left hlt]
      · have hnone : a.slots[slot']? = none := List.getElem?_eq_none (Nat.le_of_lt hgt)
        rw [hnone, List.getElem?_eq_none (by simp; omega)]
  · simp only [heq, ne_eq, FrameId.mk.injEq, not_and] at hne ⊢
    simp only [find?]
    by_cases hslot : slot = slot'
    · have hlt := (List.getElem?_eq_some_iff.1 hs).1
      have hgen : ¬ generation = generation' := fun hg => hne hslot.symm hg.symm
      subst hslot
      rw [hs, List.getElem?_set_self hlt]
      simp [hgen]
    · rw [List.getElem?_set_ne hslot]

theorem Valid.insert (h : a.Valid) (f : Frame) : (a.insert f).2.Valid := by
  obtain ⟨hfree, heq⟩ | ⟨slot, free, generation, hfree, hs, heq⟩ := h.insert_cases f
  · rw [heq]
    refine ⟨List.nodup_nil, ?_⟩
    intro slot
    -- no slot was empty before, and the new one is not
    have hfull : ∀ s, a.slots[slot]? = some s → s.frame ≠ none := by
      intro s hs hnone
      have := (h.mem_free_iff slot).2 ⟨s, hs, hnone⟩
      simp [hfree] at this
    simp only [List.not_mem_nil, false_iff, not_exists, not_and]
    intro s hs
    rw [List.getElem?_append] at hs
    split at hs
    · exact hfull s hs
    · obtain ⟨_, hs⟩ := List.getElem?_eq_some_iff.1 hs
      simp [← hs]
  · have hnodup := h.free_nodup
    rw [hfree, List.nodup_cons] at hnodup
    rw [heq]
    refine ⟨hnodup.2, ?_⟩
    intro slot'
    have hiff := h.mem_free_iff slot'
    rw [hfree, List.mem_cons] at hiff
    by_cases hslot : slot = slot'
    · subst hslot
      have hlt := (List.getElem?_eq_some_iff.1 hs).1
      simp [hnodup.1, hlt]
    · have hne : ¬ slot' = slot := fun he => hslot he.symm
      simpa [List.getElem?_set_ne hslot, hne] using hiff

theorem Valid.size_insert (h : a.Valid) (f : Frame) : (a.insert f).2.size = a.size + 1 := by
  have hle := h.length_free_le
  obtain ⟨hfree, heq⟩ | ⟨slot, free, generation, hfree, _, heq⟩ := h.insert_cases f
  · simp [heq, size, hfree]
  · rw [hfree] at hle
    simp only [List.length_cons] at hle
    simp only [heq, size, hfree, List.length_set, List.length_cons]
    omega

/-! ### Changing a frame -/

theorem find?_modify_self (a : FrameArena) (id : FrameId) (change : Frame → Frame) :
    (a.modify id change).find? id = (a.find? id).map change := by
  simp only [find?, modify, List.getElem?_modify_eq]
  cases a.slots[id.slot]? with
  | none => rfl
  | some s => by_cases hgen : s.generation = id.generation <;> simp [hgen]

theorem find?_modify_of_ne (a : FrameArena) (change : Frame → Frame) (hne : other ≠ id) :
    (a.modify id change).find? other = a.find? other := by
  simp only [find?, modify]
  by_cases hslot : id.slot = other.slot
  · have hgen : id.generation ≠ other.generation := by
      intro hgen
      exact hne (by cases id; cases other; simp_all)
    rw [← hslot, List.getElem?_modify_eq]
    cases a.slots[id.slot]? with
    | none => rfl
    | some s =>
        by_cases hs : s.generation = id.generation
        · simp [hs, hgen]
        · simp [hs]
  · rw [List.getElem?_modify_ne _ _ hslot]

theorem Valid.modify (h : a.Valid) (id : FrameId) (change : Frame → Frame) :
    (a.modify id change).Valid := by
  refine ⟨h.free_nodup, ?_⟩
  intro slot
  simp only [FrameArena.modify, List.getElem?_modify]
  rw [h.mem_free_iff slot]
  cases a.slots[slot]? with
  | none => simp
  | some s => by_cases hslot : id.slot = slot <;> by_cases hgen : s.generation = id.generation <;>
      simp [hslot, hgen]

@[simp] theorem size_modify (a : FrameArena) (id : FrameId) (change : Frame → Frame) :
    (a.modify id change).size = a.size := by
  simp [size, modify]

/-- Only the last of two frames that are stored under a name stays. -/
theorem modify_modify (a : FrameArena) (id : FrameId) (f g : Frame) :
    ((a.modify id fun _ => f).modify id fun _ => g) = a.modify id fun _ => g := by
  simp only [modify, List.modify_modify_eq]
  congr 2
  funext s
  by_cases hgen : s.generation = id.generation <;> simp [hgen, Function.comp_def]

/-- Which name a new frame gets does not depend on what is stored under other names. -/
theorem insert_modify_name (a : FrameArena) (id : FrameId) (change : Frame → Frame) (f : Frame) :
    ((a.modify id change).insert f).1 = (a.insert f).1 := by
  simp only [insert, modify, append]
  cases a.free with
  | nil => simp
  | cons slot free =>
      simp only [List.getElem?_modify]
      cases a.slots[slot]? with
      | none => simp
      | some s =>
          by_cases hslot : id.slot = slot <;> by_cases hgen : s.generation = id.generation <;>
            simp [hslot, hgen]

/-! ### Removing a frame -/

theorem remove?_eq_some_iff {frames : FrameArena} :
    a.remove? id = some (f, frames) ↔ a.find? id = some f ∧
      frames = ⟨a.slots.set id.slot ⟨id.generation + 1, none⟩, id.slot :: a.free⟩ := by
  unfold remove?
  cases a.find? id with
  | none => simp
  | some found => simp [eq_comm]

theorem remove?_isSome (hf : a.find? id = some f) : ∃ frames, a.remove? id = some (f, frames) :=
  ⟨_, remove?_eq_some_iff.2 ⟨hf, rfl⟩⟩

theorem find?_remove_self {frames : FrameArena} (h : a.remove? id = some (f, frames)) :
    frames.find? id = none := by
  obtain ⟨hf, rfl⟩ := remove?_eq_some_iff.1 h
  have hlt := (List.getElem?_eq_some_iff.1 (find?_eq_some_iff.1 hf)).1
  simp [find?, hlt]

theorem find?_remove_of_ne {frames : FrameArena} (h : a.remove? id = some (f, frames))
    (hne : other ≠ id) : frames.find? other = a.find? other := by
  obtain ⟨hf, rfl⟩ := remove?_eq_some_iff.1 h
  have hs := find?_eq_some_iff.1 hf
  have hlt := (List.getElem?_eq_some_iff.1 hs).1
  simp only [find?]
  by_cases hslot : id.slot = other.slot
  · have hgen : id.generation ≠ other.generation := by
      intro hgen
      exact hne (by cases id; cases other; simp_all)
    rw [← hslot, hs]
    simp [hlt, hgen]
  · rw [List.getElem?_set_ne hslot]

theorem Valid.remove {frames : FrameArena} (h : a.Valid) (hr : a.remove? id = some (f, frames)) :
    frames.Valid := by
  obtain ⟨hf, rfl⟩ := remove?_eq_some_iff.1 hr
  have hlt := (List.getElem?_eq_some_iff.1 (find?_eq_some_iff.1 hf)).1
  refine ⟨List.nodup_cons.2 ⟨h.slot_notMem_free hf, h.free_nodup⟩, ?_⟩
  intro slot
  by_cases hslot : id.slot = slot
  · subst hslot
    simp [hlt]
  · have hne : ¬ slot = id.slot := fun he => hslot he.symm
    simpa [List.getElem?_set_ne hslot, hne] using h.mem_free_iff slot

theorem Valid.size_remove {frames : FrameArena} (h : a.Valid)
    (hr : a.remove? id = some (f, frames)) : frames.size + 1 = a.size := by
  obtain ⟨hf, rfl⟩ := remove?_eq_some_iff.1 hr
  have hlt := h.length_free_lt hf
  simp only [size, List.length_set, List.length_cons]
  omega

/-! ### Names that were given -/

/-- A name was given to a frame before: its slot holds that frame or a later generation. -/
def Used (a : FrameArena) (id : FrameId) : Prop :=
  ∃ s, a.slots[id.slot]? = some s ∧
    (id.generation < s.generation ∨ id.generation = s.generation ∧ s.frame.isSome)

theorem Valid.not_used_insert_name (h : a.Valid) (f : Frame) : ¬ a.Used (a.insert f).1 := by
  rintro ⟨s, hs, hgen⟩
  obtain ⟨_, heq⟩ | ⟨slot, free, generation, _, hslot, heq⟩ := h.insert_cases f
  · simp [heq] at hs
  · simp only [heq] at hs hgen
    obtain rfl := Option.some.inj (hslot.symm.trans hs)
    simp at hgen

theorem Valid.used_insert_self (h : a.Valid) (f : Frame) :
    (a.insert f).2.Used (a.insert f).1 :=
  ⟨_, find?_eq_some_iff.1 (h.find?_insert_self f), Or.inr ⟨rfl, rfl⟩⟩

theorem Used.insert (hid : a.Used id) (h : a.Valid) (f : Frame) : (a.insert f).2.Used id := by
  obtain ⟨s, hs, hgen⟩ := hid
  obtain ⟨_, heq⟩ | ⟨slot, free, generation, _, hslot, heq⟩ := h.insert_cases f
  · rw [heq]
    exact ⟨s, by rw [List.getElem?_append_left (List.getElem?_eq_some_iff.1 hs).1, hs], hgen⟩
  · rw [heq]
    by_cases hne : slot = id.slot
    · subst hne
      obtain rfl := Option.some.inj (hslot.symm.trans hs)
      have hlt := (List.getElem?_eq_some_iff.1 hslot).1
      exact ⟨⟨generation, some f⟩, List.getElem?_set_self hlt,
        by simpa using hgen.imp_right And.left⟩
    · exact ⟨s, by rw [List.getElem?_set_ne hne, hs], hgen⟩

theorem Used.modify (hid : a.Used id) (other : FrameId) (change : Frame → Frame) :
    (a.modify other change).Used id := by
  obtain ⟨s, hs, hgen⟩ := hid
  by_cases hslot : other.slot = id.slot
  · by_cases hsame : s.generation = other.generation
    · refine ⟨{ s with frame := s.frame.map change }, ?_, by simpa using hgen⟩
      simp [FrameArena.modify, hslot, hs, hsame]
    · exact ⟨s, by simp [FrameArena.modify, hslot, hs, hsame], hgen⟩
  · exact ⟨s, by simp [FrameArena.modify, List.getElem?_modify_ne _ _ hslot, hs], hgen⟩

theorem Used.remove {frames : FrameArena} (hid : a.Used id)
    (hr : a.remove? other = some (f, frames)) : frames.Used id := by
  obtain ⟨s, hs, hgen⟩ := hid
  obtain ⟨hf, rfl⟩ := remove?_eq_some_iff.1 hr
  have hother := find?_eq_some_iff.1 hf
  by_cases hslot : other.slot = id.slot
  · rw [hslot] at hother
    obtain rfl := Option.some.inj (hother.symm.trans hs)
    have hlt := (List.getElem?_eq_some_iff.1 hs).1
    refine ⟨⟨other.generation + 1, none⟩, by rw [hslot, List.getElem?_set_self hlt], Or.inl ?_⟩
    simp only at hgen ⊢
    omega
  · exact ⟨s, by rw [List.getElem?_set_ne hslot, hs], hgen⟩

end FrameArena
end Deliberation
