import Deliberation.Proofs.Agent.Return
import Deliberation.Proofs.Intention.Arena

/-!
Links between frames and the frames that wait for them.

Every frame with a parent was started for the sub-goal that its parent still waits for, under the
bindings that the parent still has. A frame without children may be stored, started and removed
without breaking a link between others.
-/

namespace Deliberation

variable {notes : Prop}

/-- All names in some frames are known, and each frame with a parent was started for what its parent
waits for, and no other was. -/
structure FrameArena.Linked (notes : Prop) (n : Nat) (frames : FrameArena) : Prop where
  fits : ∀ id f, frames.find? id = some f → f.Fits notes n
  serves : ∀ id f parent, frames.find? id = some f → f.parent = some parent →
    ∃ g goal, frames.find? parent = some g ∧ f.Serves notes n g goal
  only : ∀ id id' f f' parent, frames.find? id = some f → frames.find? id' = some f' →
    f.parent = some parent → f'.parent = some parent → id = id'

/-- No frame has the given one as its parent. -/
def FrameArena.Childless (frames : FrameArena) (id : FrameId) : Prop :=
  ∀ id' f, frames.find? id' = some f → f.parent ≠ some id

namespace FrameArena

variable {frames frames' : FrameArena} {n m : Nat} {id parent : FrameId} {f g : Frame}
  {goal : Literal}

theorem Linked.mono (h : frames.Linked notes n) (hnm : n ≤ m) : frames.Linked notes m where
  fits id f hf := (h.fits id f hf).mono hnm
  serves id f parent hf hparent := by
    obtain ⟨g, goal, hg, hserves⟩ := h.serves id f parent hf hparent
    exact ⟨g, goal, hg, hserves.mono hnm⟩
  only := h.only

theorem linked_empty : empty.Linked notes n where
  fits id f hf := by simp [find?, empty] at hf
  serves id f parent hf := by simp [find?, empty] at hf
  only id id' f f' parent hf := by simp [find?, empty] at hf

/-- A frame that waits for nothing has no child. -/
theorem Linked.childless (h : frames.Linked notes n) (hg : frames.find? id = some g)
    (hawaiting : g.awaiting = none) : frames.Childless id := by
  intro id' f hf hparent
  obtain ⟨g', goal, hg', hserves⟩ := h.serves id' f id hf hparent
  rw [hg] at hg'
  obtain rfl := Option.some.inj hg'
  have hsome := hserves.awaiting
  simp [hawaiting] at hsome

theorem find?_store_cases {other : FrameId}
    (h : (frames.modify id fun _ => g).find? other = some f) :
    other = id ∧ f = g ∨ other ≠ id ∧ frames.find? other = some f := by
  by_cases hne : other = id
  · subst hne
    rw [find?_modify_self] at h
    obtain ⟨_, _, rfl⟩ := Option.map_eq_some_iff.1 h
    exact Or.inl ⟨rfl, rfl⟩
  · rw [find?_modify_of_ne _ _ hne] at h
    exact Or.inr ⟨hne, h⟩

theorem find?_store (hold : frames.find? id = some f) :
    (frames.modify id fun _ => g).find? id = some g := by
  rw [find?_modify_self, hold]
  rfl

theorem Childless.store (h : frames.Childless id) (hold : frames.find? id = some f)
    (hparent : g.parent = f.parent) : (frames.modify id fun _ => g).Childless id := by
  intro other f' hf'
  rcases find?_store_cases hf' with ⟨_, rfl⟩ | ⟨_, hf'⟩
  · rw [hparent]
    exact h id f hold
  · exact h other f' hf'

/-- A frame without children may be replaced by another one with the same parent and trigger. -/
theorem Linked.store (h : frames.Linked notes n) (hold : frames.find? id = some f)
    (hchildless : frames.Childless id) (hfits : g.Fits notes n) (hparent : g.parent = f.parent)
    (htrigger : g.trigger = f.trigger) :
    (frames.modify id fun _ => g).Linked notes n := by
  -- the parent of a stored frame was the parent of a frame before
  have hback (other : FrameId) (f' : Frame)
      (hf' : (frames.modify id fun _ => g).find? other = some f') :
      ∃ f₀, frames.find? other = some f₀ ∧ f'.parent = f₀.parent ∧ f'.trigger = f₀.trigger := by
    rcases find?_store_cases hf' with ⟨rfl, rfl⟩ | ⟨_, hf₀⟩
    · exact ⟨f, hold, hparent, htrigger⟩
    · exact ⟨f', hf₀, rfl, rfl⟩
  refine ⟨fun other f' hf' => ?_, fun other f' parent hf' hp => ?_,
    fun other other' f' f'' parent hf' hf'' hp hp' => ?_⟩
  · rcases find?_store_cases hf' with ⟨_, rfl⟩ | ⟨_, hf'⟩
    · exact hfits
    · exact h.fits other f' hf'
  · obtain ⟨f₀, hf₀, hp₀, ht₀⟩ := hback other f' hf'
    obtain ⟨g', goal, hg', hserves⟩ := h.serves other f₀ parent hf₀ (hp₀ ▸ hp)
    have hne : parent ≠ id := by
      rintro rfl
      exact hchildless other f₀ hf₀ (hp₀ ▸ hp)
    refine ⟨g', goal, (find?_modify_of_ne _ _ hne).trans hg', ?_⟩
    exact ⟨hserves.awaiting, hserves.applied, ht₀ ▸ hserves.trigger⟩
  · obtain ⟨f₀, hf₀, hp₀, _⟩ := hback other f' hf'
    obtain ⟨f₁, hf₁, hp₁, _⟩ := hback other' f'' hf''
    exact h.only other other' f₀ f₁ parent hf₀ hf₁ (hp₀ ▸ hp) (hp₁ ▸ hp')

theorem find?_insert_cases {other : FrameId} (hvalid : frames.Valid)
    (h : (frames.insert g).2.find? other = some f) :
    other = (frames.insert g).1 ∧ f = g ∨
      other ≠ (frames.insert g).1 ∧ frames.find? other = some f := by
  by_cases hne : other = (frames.insert g).1
  · rw [hne, hvalid.find?_insert_self] at h
    exact Or.inl ⟨hne, (Option.some.inj h).symm⟩
  · rw [hvalid.find?_insert_of_ne g hne] at h
    exact Or.inr ⟨hne, h⟩

/-- A new frame may be started for what a frame without children waits for, or without a parent. -/
theorem Linked.insert (h : frames.Linked notes n) (hvalid : frames.Valid) (hfits : g.Fits notes n)
    (hparent : ∀ parent, g.parent = some parent → frames.Childless parent ∧
      ∃ f goal, frames.find? parent = some f ∧ g.Serves notes n f goal) :
    (frames.insert g).2.Linked notes n := by
  have hname := hvalid.find?_insert_name g
  have hkept {other : FrameId} {f : Frame} (hf : frames.find? other = some f) :
      (frames.insert g).2.find? other = some f := by
    rw [hvalid.find?_insert_of_ne g, hf]
    rintro rfl
    simp [hname] at hf
  refine ⟨fun other f hf => ?_, fun other f parent hf hp => ?_,
    fun other other' f f' parent hf hf' hp hp' => ?_⟩
  · rcases find?_insert_cases hvalid hf with ⟨_, rfl⟩ | ⟨_, hf⟩
    · exact hfits
    · exact h.fits other f hf
  · rcases find?_insert_cases hvalid hf with ⟨_, rfl⟩ | ⟨_, hf⟩
    · obtain ⟨_, f', goal, hf', hserves⟩ := hparent parent hp
      exact ⟨f', goal, hkept hf', hserves⟩
    · obtain ⟨f', goal, hf', hserves⟩ := h.serves other f parent hf hp
      exact ⟨f', goal, hkept hf', hserves⟩
  · rcases find?_insert_cases hvalid hf with ⟨hother, rfl⟩ | ⟨_, hold⟩
    · rcases find?_insert_cases hvalid hf' with ⟨hother', _⟩ | ⟨_, hold'⟩
      · rw [hother, hother']
      · exact absurd hp' ((hparent parent hp).1 other' f' hold')
    · rcases find?_insert_cases hvalid hf' with ⟨_, rfl⟩ | ⟨_, hold'⟩
      · exact absurd hp ((hparent parent hp').1 other f hold)
      · exact h.only other other' f f' parent hold hold' hp hp'

theorem find?_of_remove {other : FrameId} (hr : frames.remove? id = some (f, frames'))
    (hg : frames'.find? other = some g) : other ≠ id ∧ frames.find? other = some g := by
  have hne : other ≠ id := by
    rintro rfl
    simp [find?_remove_self hr] at hg
  exact ⟨hne, (find?_remove_of_ne hr hne).symm.trans hg⟩

/-- A frame without children may be removed. -/
theorem Linked.remove (h : frames.Linked notes n) (hchildless : frames.Childless id)
    (hr : frames.remove? id = some (f, frames')) : frames'.Linked notes n where
  fits other g hg := h.fits other g (find?_of_remove hr hg).2
  serves other g parent hg hp := by
    have hg := (find?_of_remove hr hg).2
    obtain ⟨g', goal, hg', hserves⟩ := h.serves other g parent hg hp
    have hne : parent ≠ id := by
      rintro rfl
      exact hchildless other g hg hp
    exact ⟨g', goal, (find?_remove_of_ne hr hne).trans hg', hserves⟩
  only other other' g g' parent hg hg' :=
    h.only other other' g g' parent (find?_of_remove hr hg).2 (find?_of_remove hr hg').2

/-- The parent of a removed frame has no child left. -/
theorem Linked.childless_of_remove (h : frames.Linked notes n)
    (hr : frames.remove? id = some (f, frames')) (hparent : f.parent = some parent) :
    frames'.Childless parent := by
  intro other g hg hp
  obtain ⟨hne, hg⟩ := find?_of_remove hr hg
  have hf := (remove?_eq_some_iff.1 hr).1
  exact hne (h.only other id g f parent hg hf hp hparent)

end FrameArena
end Deliberation
