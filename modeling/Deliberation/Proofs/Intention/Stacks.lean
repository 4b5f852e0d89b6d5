import Mathlib.Data.List.Perm.Basic
import Deliberation.Plan.Library
import Deliberation.Proofs.Intention.Arena

/-!
How the frames of an arena stand on stacks.

On the stack of an intention the frame on top can run, and every frame below waits for the one above
it. The frames of an arena are arranged if each of them stands on exactly one stack; a single stack
may have any frame on its top meanwhile. Storing, pushing and removing the frame on top of a stack
keep the arrangement, whatever the other stacks are.
-/

namespace Deliberation

/-- A frame that waits for a sub-goal. -/
structure Frame.Waits (library : PlanLibrary) (f : Frame) : Prop where
  state : f.state = .suspended
  awaiting : f.awaiting.isSome
  degrees : f.degrees.length + 1 = f.pc
  plan : ∃ p, library.find? f.plan = some p ∧ (f.failure.isSome → p.atomic)

/-- A frame whose next instruction can be run, or whose plan has none. -/
structure Frame.Ready (library : PlanLibrary) (f : Frame) : Prop where
  state : f.state = .waiting ∨ f.state = .running
  waiting_iff : f.state = .waiting ↔ f.pc = 0
  awaiting : f.awaiting = none
  degrees : f.degrees.length = f.pc
  plan : ∃ p, library.find? f.plan = some p ∧ (f.failure.isSome → p.atomic) ∧
    (p.body ≠ [] → f.pc < p.body.length)

namespace FrameArena

/-- Each frame of a stack waits, and its parent is the frame below it. -/
def AllWait (frames : FrameArena) (library : PlanLibrary) : List FrameId → Prop
  | [] => True
  | id :: below =>
    (∃ f, frames.find? id = some f ∧ f.parent = below.head? ∧ f.Waits library) ∧
      frames.AllWait library below

/-- A stack with a frame on top of which `P` holds, over frames that wait. -/
def Topped (frames : FrameArena) (library : PlanLibrary) (P : Frame → Prop) :
    List FrameId → Prop
  | [] => False
  | id :: below =>
    (∃ f, frames.find? id = some f ∧ f.parent = below.head? ∧ P f) ∧
      frames.AllWait library below

/-- The stack of an intention: the frame on top can run, and those below wait. -/
def Stacked (frames : FrameArena) (library : PlanLibrary) (stack : List FrameId) : Prop :=
  frames.Topped library (Frame.Ready library) stack

variable {frames frames' : FrameArena} {library : PlanLibrary} {P Q : Frame → Prop}
  {stack below : List FrameId} {others : List (List FrameId)} {id : FrameId} {f g : Frame}

theorem AllWait.waits (h : frames.AllWait library stack) (hid : id ∈ stack) :
    ∃ f, frames.find? id = some f ∧ f.Waits library := by
  induction stack with
  | nil => simp at hid
  | cons head below ih =>
      rcases List.mem_cons.1 hid with rfl | hid
      · obtain ⟨f, hf, _, hwaits⟩ := h.1
        exact ⟨f, hf, hwaits⟩
      · exact ih h.2 hid

theorem AllWait.live (h : frames.AllWait library stack) (hid : id ∈ stack) :
    ∃ f, frames.find? id = some f := by
  obtain ⟨f, hf, _⟩ := h.waits hid
  exact ⟨f, hf⟩

theorem Topped.live (h : frames.Topped library P stack) (hid : id ∈ stack) :
    ∃ f, frames.find? id = some f := by
  cases stack with
  | nil => exact h.elim
  | cons head below =>
      rcases List.mem_cons.1 hid with rfl | hid
      · obtain ⟨f, hf, _⟩ := h.1
        exact ⟨f, hf⟩
      · exact h.2.live hid

/-- A stack does not notice what happens to frames that do not stand on it. -/
theorem AllWait.congr (h : frames.AllWait library stack)
    (heq : ∀ id ∈ stack, frames'.find? id = frames.find? id) : frames'.AllWait library stack := by
  induction stack with
  | nil => trivial
  | cons head below ih =>
      obtain ⟨⟨f, hf, hparent, hwaits⟩, hbelow⟩ := h
      refine ⟨⟨f, ?_, hparent, hwaits⟩, ih hbelow fun id hid => heq id (List.mem_cons_of_mem _ hid)⟩
      rw [heq head List.mem_cons_self, hf]

theorem Topped.congr (h : frames.Topped library P stack)
    (heq : ∀ id ∈ stack, frames'.find? id = frames.find? id) :
    frames'.Topped library P stack := by
  cases stack with
  | nil => exact h.elim
  | cons head below =>
      obtain ⟨⟨f, hf, hparent, hP⟩, hbelow⟩ := h
      refine ⟨⟨f, ?_, hparent, hP⟩,
        hbelow.congr fun id hid => heq id (List.mem_cons_of_mem _ hid)⟩
      rw [heq head List.mem_cons_self, hf]

/-- The frames of an arena are those of some stacks, each of them once. On top of the first stack
stands a frame with `P`, and the other stacks are those of intentions. -/
structure Arranged (frames : FrameArena) (library : PlanLibrary) (P : Frame → Prop)
    (stack : List FrameId) (others : List (List FrameId)) : Prop where
  valid : frames.Valid
  top : frames.Topped library P stack
  stacked : ∀ other ∈ others, frames.Stacked library other
  distinct : (stack :: others).flatten.Nodup
  size : frames.size = (stack :: others).flatten.length

/-- The frames of an arena are those of the stacks of intentions, each of them once. -/
structure Serves (frames : FrameArena) (library : PlanLibrary) (all : List (List FrameId)) :
    Prop where
  valid : frames.Valid
  stacked : ∀ stack ∈ all, frames.Stacked library stack
  distinct : all.flatten.Nodup
  size : frames.size = all.flatten.length

theorem Serves.perm {all all' : List (List FrameId)} (h : frames.Serves library all)
    (hperm : all.Perm all') : frames.Serves library all' where
  valid := h.valid
  stacked stack hstack := h.stacked stack (hperm.mem_iff.2 hstack)
  distinct := hperm.flatten.nodup_iff.1 h.distinct
  size := h.size.trans hperm.flatten.length_eq

theorem arranged_ready_iff :
    frames.Arranged library (Frame.Ready library) stack others ↔
      frames.Serves library (stack :: others) := by
  constructor
  · intro h
    refine ⟨h.valid, ?_, h.distinct, h.size⟩
    intro other hother
    rcases List.mem_cons.1 hother with rfl | hother
    · exact h.top
    · exact h.stacked other hother
  · intro h
    exact ⟨h.valid, h.stacked stack List.mem_cons_self,
      fun other hother => h.stacked other (List.mem_cons_of_mem _ hother), h.distinct, h.size⟩

theorem Arranged.imp (h : frames.Arranged library P stack others) (hPQ : ∀ f, P f → Q f) :
    frames.Arranged library Q stack others where
  valid := h.valid
  top := by
    cases stack with
    | nil => exact h.top
    | cons id below =>
        obtain ⟨⟨f, hf, hparent, hP⟩, hbelow⟩ := h.top
        exact ⟨⟨f, hf, hparent, hPQ f hP⟩, hbelow⟩
  stacked := h.stacked
  distinct := h.distinct
  size := h.size

theorem Arranged.notMem_others (h : frames.Arranged library P stack others) (hid : id ∈ stack)
    {other : List FrameId} (hother : other ∈ others) : id ∉ other := by
  have hdistinct := h.distinct
  rw [List.flatten_cons, List.nodup_append] at hdistinct
  intro hmem
  exact hdistinct.2.2 id hid id (List.mem_flatten_of_mem hother hmem) rfl

theorem Arranged.notMem_below (h : frames.Arranged library P (id :: below) others) :
    id ∉ below := by
  have hdistinct := h.distinct
  rw [List.flatten_cons, List.cons_append, List.nodup_cons] at hdistinct
  exact fun hmem => hdistinct.1 (List.mem_append_left _ hmem)

/-- The frame on top of a stack may be replaced by another one over the same parent. -/
theorem Arranged.store (h : frames.Arranged library P (id :: below) others)
    (hparent : g.parent = below.head?) (hQ : Q g) :
    (frames.modify id fun _ => g).Arranged library Q (id :: below) others where
  valid := h.valid.modify _ _
  top := by
    obtain ⟨⟨f, hf, _⟩, hbelow⟩ := h.top
    refine ⟨⟨g, ?_, hparent, hQ⟩, hbelow.congr fun other hother => ?_⟩
    · rw [find?_modify_self, hf]
      rfl
    · exact find?_modify_of_ne _ _ fun heq => h.notMem_below (heq ▸ hother)
  stacked other hother := by
    refine (h.stacked other hother).congr fun id' hid' => find?_modify_of_ne _ _ ?_
    rintro rfl
    exact h.notMem_others List.mem_cons_self hother hid'
  distinct := h.distinct
  size := by rw [size_modify, h.size]

/-- A name that leads to no frame stands on no stack. -/
theorem Serves.name_fresh {all : List (List FrameId)} (h : frames.Serves library all)
    (hid : frames.find? id = none) : id ∉ all.flatten := by
  intro hmem
  obtain ⟨stack, hstack, hmem⟩ := List.mem_flatten.1 hmem
  obtain ⟨f, hf⟩ := (h.stacked stack hstack).live hmem
  simp [hid] at hf

/-- A new frame may start a stack of its own. -/
theorem Serves.start {all : List (List FrameId)} (h : frames.Serves library all)
    (hparent : g.parent = none) (hg : g.Ready library) :
    (frames.insert g).2.Serves library ([(frames.insert g).1] :: all) where
  valid := h.valid.insert g
  stacked stack hstack := by
    rcases List.mem_cons.1 hstack with rfl | hstack
    · exact ⟨⟨g, h.valid.find?_insert_self g, hparent, hg⟩, trivial⟩
    · refine (h.stacked stack hstack).congr fun id hid => h.valid.find?_insert_of_ne g ?_
      rintro rfl
      exact h.name_fresh (h.valid.find?_insert_name g) (List.mem_flatten_of_mem hstack hid)
  distinct := by
    rw [List.flatten_cons, List.singleton_append, List.nodup_cons]
    exact ⟨h.name_fresh (h.valid.find?_insert_name g), h.distinct⟩
  size := by
    rw [h.valid.size_insert, h.size]
    simp

theorem Arranged.name_fresh (h : frames.Arranged library P stack others)
    (hid : frames.find? id = none) : id ∉ (stack :: others).flatten := by
  intro hmem
  rw [List.flatten_cons, List.mem_append] at hmem
  rcases hmem with hmem | hmem
  · obtain ⟨f, hf⟩ := h.top.live hmem
    simp [hid] at hf
  · obtain ⟨other, hother, hmem⟩ := List.mem_flatten.1 hmem
    obtain ⟨f, hf⟩ := (h.stacked other hother).live hmem
    simp [hid] at hf

/-- A new frame may be put on a frame that waits. -/
theorem Arranged.push (h : frames.Arranged library (Frame.Waits library) (id :: below) others)
    (hparent : g.parent = some id) (hQ : Q g) :
    (frames.insert g).2.Arranged library Q ((frames.insert g).1 :: id :: below) others where
  valid := h.valid.insert g
  top := by
    have hold : ∀ other ∈ id :: below,
        (frames.insert g).2.find? other = frames.find? other := by
      intro other hother
      apply h.valid.find?_insert_of_ne
      rintro rfl
      exact h.name_fresh (h.valid.find?_insert_name g) (List.mem_append_left _ hother)
    have hwait : frames.AllWait library (id :: below) := ⟨h.top.1, h.top.2⟩
    exact ⟨⟨g, h.valid.find?_insert_self g, hparent, hQ⟩, hwait.congr hold⟩
  stacked other hother := by
    refine (h.stacked other hother).congr fun id' hid' => h.valid.find?_insert_of_ne g ?_
    rintro rfl
    exact h.name_fresh (h.valid.find?_insert_name g)
      (List.mem_flatten_of_mem (List.mem_cons_of_mem _ hother) hid')
  distinct := by
    rw [List.flatten_cons, List.cons_append, List.nodup_cons]
    exact ⟨h.name_fresh (h.valid.find?_insert_name g), h.distinct⟩
  size := by
    rw [h.valid.size_insert, h.size]
    simp

/-- What is left when the frame on top of a stack is removed: the frame below waits for it. -/
theorem Arranged.remove_top (h : frames.Arranged library P (id :: below) others)
    (hr : frames.remove? id = some (f, frames')) :
    frames'.Valid ∧ frames'.AllWait library below ∧
      (∀ other ∈ others, frames'.Stacked library other) ∧
      (below :: others).flatten.Nodup ∧ frames'.size = (below :: others).flatten.length := by
  have hdistinct := h.distinct
  rw [List.flatten_cons, List.cons_append, List.nodup_cons] at hdistinct
  refine ⟨h.valid.remove hr, ?_, ?_, hdistinct.2, ?_⟩
  · refine h.top.2.congr fun other hother => find?_remove_of_ne hr ?_
    rintro rfl
    exact h.notMem_below hother
  · intro other hother
    refine (h.stacked other hother).congr fun id' hid' => find?_remove_of_ne hr ?_
    rintro rfl
    exact h.notMem_others List.mem_cons_self hother hid'
  · have hsize := h.valid.size_remove hr
    have hold := h.size
    rw [List.flatten_cons, List.cons_append, List.length_cons] at hold
    rw [List.flatten_cons]
    omega

theorem Arranged.remove_last (h : frames.Arranged library P [id] others)
    (hr : frames.remove? id = some (f, frames')) : frames'.Serves library others := by
  obtain ⟨hvalid, _, hothers, hdistinct, hsize⟩ := h.remove_top hr
  exact ⟨hvalid, hothers, by simpa using hdistinct, by simpa using hsize⟩

theorem Arranged.remove_above {parent : FrameId}
    (h : frames.Arranged library P (id :: parent :: below) others)
    (hr : frames.remove? id = some (f, frames')) :
    frames'.Arranged library (Frame.Waits library) (parent :: below) others := by
  obtain ⟨hvalid, hwait, hothers, hdistinct, hsize⟩ := h.remove_top hr
  exact ⟨hvalid, ⟨hwait.1, hwait.2⟩, hothers, hdistinct, hsize⟩

end FrameArena
end Deliberation
