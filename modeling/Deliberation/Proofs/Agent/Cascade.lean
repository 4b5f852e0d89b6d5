import Deliberation.Proofs.Agent.Endings
import Deliberation.Proofs.Agent.Intentions

/-!
What the end of a frame does to the agent.

The frames that end with it by the rules are taken off their stack one by one, counted and reported,
and the frame that is left on top goes on. Without one the intention is removed, and its goal is
given up if it failed. Nothing happens to the frames and the stacks of other intentions.
-/

namespace Deliberation

namespace Frame

theorem resume_ok {g : Frame} {goal answer : Literal} {s : Substitution} (degree : Float)
    (hgoal : g.awaiting = some goal) (hs : unifyLiterals goal answer g.bindings = .ok s) :
    g.resume degree none (some answer) = ({ g.woken degree with bindings := s }, none) := by
  simp only [resume, hgoal, hs]
  rfl

theorem resume_error {g : Frame} {goal answer : Literal} {error : UnifyError} (degree : Float)
    (hgoal : g.awaiting = some goal) (hs : unifyLiterals goal answer g.bindings = .error error) :
    g.resume degree none (some answer) = (g.woken degree, some (mismatch goal answer)) := by
  simp only [resume, hgoal, hs]
  rfl

end Frame

/-- What is left to do after a part of a step. -/
def Progress.proceed (place : Nat) (i : Intention) (stack : List FrameId) : Progress → Agent
  | .done a => a
  | .ends a failure => Agent.unwind place i stack a failure

/-- The agent in which the frame on top ends in success. -/
def Progress.succeeded? : Progress → Option Agent
  | .ends a none => some a
  | _ => none

theorem Progress.eq_of_succeeded? {p : Progress} {a : Agent} (h : p.succeeded? = some a) :
    p = .ends a none := by
  cases p with
  | done b => simp [Progress.succeeded?] at h
  | ends b failure =>
      cases failure with
      | none => exact congrArg (Progress.ends · none) (Option.some.inj h)
      | some e => simp [Progress.succeeded?] at h

namespace Agent

variable {a b c : Agent} {place fresh fresh' : Nat} {i : Intention} {id parent : FrameId}
  {f g : Frame} {stack plain rest lower left : List (FrameId × Frame)}
  {failure : Option InstructionError} {e : InstructionError} {shed : List FrameId}
  {ended ended' : List Ending}

/-! ### Frames that are gone -/

/-- Counts and reports the ends of frames. -/
def closeAll (a : Agent) (i : Intention) (ended : List Ending) : Agent :=
  ended.foldl (fun a e => a.closeFrame i e.frame e.depth e.failure) a

theorem closeAll_with (a : Agent) (i : Intention) (ended : List Ending) (frames : FrameArena)
    (fresh : Nat) :
    { a with frames, fresh }.closeAll i ended = { a.closeAll i ended with frames, fresh } := by
  induction ended generalizing a with
  | nil => rfl
  | cons e ended ih => exact ih (a.closeFrame i e.frame e.depth e.failure)

/-- Counting and reporting has nothing to do with what else the agent keeps. -/
theorem closeAll_constants (a : Agent) (i : Intention) (ended : List Ending) :
    (a.closeAll i ended).library = a.library ∧ (a.closeAll i ended).config = a.config ∧
      (a.closeAll i ended).intentions = a.intentions ∧
      (a.closeAll i ended).pending = a.pending := by
  induction ended generalizing a with
  | nil => exact ⟨rfl, rfl, rfl, rfl⟩
  | cons e ended ih => exact ih (a.closeFrame i e.frame e.depth e.failure)

/-- `b` is `a` without some frames, after their ends were counted and reported. -/
structure Sheds (a b : Agent) (i : Intention) (shed : List FrameId)
    (ended : List Ending) : Prop where
  same : b = { a.closeAll i ended with frames := b.frames, fresh := b.fresh }
  gone : ∀ id ∈ shed, b.frames.find? id = none
  kept : ∀ id, id ∉ shed → b.frames.find? id = a.frames.find? id

namespace Sheds

theorem library (h : a.Sheds b i shed ended) : b.library = a.library := by
  rw [h.same]
  exact (closeAll_constants a i ended).1

theorem config (h : a.Sheds b i shed ended) : b.config = a.config := by
  rw [h.same]
  exact (closeAll_constants a i ended).2.1

theorem intentions (h : a.Sheds b i shed ended) : b.intentions = a.intentions := by
  rw [h.same]
  exact (closeAll_constants a i ended).2.2.1

theorem pending (h : a.Sheds b i shed ended) : b.pending = a.pending := by
  rw [h.same]
  exact (closeAll_constants a i ended).2.2.2

theorem update_eq (h : a.Sheds b i shed ended) (frames : FrameArena) (intentions : List Intention)
    (pending : List Trigger) :
    { b with frames, intentions, pending } =
      { a.closeAll i ended with fresh := b.fresh, frames, intentions, pending } :=
  congrArg (fun x : Agent => { x with frames, intentions, pending }) h.same

/-- More ends after a frame was told of the first ones. -/
theorem closeAll_storeFrame (h : a.Sheds b i shed ended) (parent : FrameId) (g : Frame)
    (ended' : List Ending) :
    (b.storeFrame parent g).closeAll i ended' = { a.closeAll i (ended ++ ended') with
      frames := (b.storeFrame parent g).frames, fresh := b.fresh } := by
  have hstored : b.storeFrame parent g = { a.closeAll i ended with
      frames := (b.storeFrame parent g).frames, fresh := b.fresh } := by
    rw [storeFrame, h.same]
  rw [hstored, closeAll_with, closeAll, closeAll, closeAll, List.foldl_append]

/-- A frame is gone, and others after the one below was told. -/
theorem trans (h : a.Sheds b i [id] ended)
    (h' : (b.storeFrame parent g).Sheds c i shed ended') (hparent : parent ∈ shed) :
    a.Sheds c i (id :: shed) (ended ++ ended') where
  same := by
    rw [h'.same, h.closeAll_storeFrame]
  gone other hother := by
    by_cases hshed : other ∈ shed
    · exact h'.gone other hshed
    · have hid : other = id := (List.mem_cons.1 hother).resolve_right hshed
      have hne : other ≠ parent := fun heq => hshed (heq ▸ hparent)
      rw [h'.kept other hshed]
      exact (FrameArena.find?_modify_of_ne _ _ hne).trans (h.gone other (by simp [hid]))
  kept other hother := by
    rw [List.mem_cons, not_or] at hother
    have hne : other ≠ parent := fun heq => hother.2 (heq ▸ hparent)
    rw [h'.kept other hother.2]
    exact (FrameArena.find?_modify_of_ne _ _ hne).trans (h.kept other (by simp [hother.1]))

end Sheds

/-! ### Stacks -/

/-- The intention at a place and the frames that are left on its stack, from the top down: each
waits for the one above it, and no other intention has one of them. -/
structure Holds (a : Agent) (place : Nat) (i : Intention) (stack : List (FrameId × Frame)) :
    Prop where
  intention : a.intentions[place]? = some i
  arranged : a.frames.Arranged a.library (fun _ => True) (stack.map Prod.fst)
    ((a.intentions.eraseIdx place).map Intention.stack)
  frames : ∀ entry ∈ stack, a.frames.find? entry.1 = some entry.2

theorem Holds.parent_eq (h : a.Holds place i ((id, f) :: rest)) :
    f.parent = (rest.map Prod.fst).head? := by
  obtain ⟨⟨f', hf', hparent, _⟩, _⟩ := h.arranged.top
  obtain rfl := Option.some.inj ((h.frames (id, f) List.mem_cons_self).symm.trans hf')
  exact hparent

theorem Holds.parent_below (h : a.Holds place i ((id, f) :: (parent, g) :: lower)) :
    g.parent = (lower.map Prod.fst).head? ∧ g.awaiting.isSome := by
  obtain ⟨_, ⟨g', hg', hparent, hwaits⟩, _⟩ := h.arranged.top
  obtain rfl := Option.some.inj ((h.frames (parent, g) (by simp)).symm.trans hg')
  exact ⟨hparent, hwaits.awaiting⟩

/-- Taking the top frame off its stack. -/
theorem sheds_remove {frames : FrameArena} (hr : a.frames.remove? id = some (f, frames))
    (i : Intention) (depth : Nat) (failure : Option InstructionError) (fresh : Nat) :
    a.Sheds { { a with frames }.closeFrame i f depth failure with fresh } i [id]
      [⟨f, depth, failure⟩] where
  same := rfl
  gone := List.forall_mem_singleton.2 (FrameArena.find?_remove_self hr)
  kept other hother := FrameArena.find?_remove_of_ne hr (by simpa using hother)

/-- What is left of a stack after its top frame is gone and the one below was told. -/
theorem Holds.tell {frames : FrameArena} {g' : Frame}
    (h : a.Holds place i ((id, f) :: (parent, g) :: lower))
    (hr : a.frames.remove? id = some (f, frames)) (hparent : g'.parent = g.parent)
    (failure : Option InstructionError) (fresh : Nat) :
    ({ { a with frames }.closeFrame i f (lower.length + 1) failure with fresh }.storeFrame parent
      g').Holds place i ((parent, g') :: lower) where
  intention := h.intention
  arranged := by
    have harranged := h.arranged.remove_above hr
    exact harranged.store (hparent.trans h.parent_below.1) trivial
  frames entry hentry := by
    have harranged := h.arranged.remove_above hr
    have hid (other : FrameId) (hother : other ∈ parent :: lower.map Prod.fst) : other ≠ id :=
      fun heq => h.arranged.notMem_below (heq ▸ hother)
    rcases List.mem_cons.1 hentry with rfl | hentry
    · obtain ⟨⟨g₁, hg₁, _⟩, _⟩ := harranged.top
      exact (FrameArena.find?_modify_self _ _ _).trans (congrArg (Option.map fun _ => g') hg₁)
    · have hmem : entry.1 ∈ lower.map Prod.fst := List.mem_map_of_mem hentry
      have hne : entry.1 ≠ parent := fun heq => harranged.notMem_below (heq ▸ hmem)
      refine (FrameArena.find?_modify_of_ne _ _ hne).trans ?_
      refine (FrameArena.find?_remove_of_ne hr (hid _ (List.mem_cons_of_mem _ hmem))).trans ?_
      exact h.frames entry (by simp [hentry])

/-! ### One frame ends -/

theorem unwind_eq {frames : FrameArena} (hr : a.frames.remove? id = some (f, frames)) (place : Nat)
    (i : Intention) (rest : List FrameId) (failure : Option InstructionError) :
    unwind place i (id :: rest) a failure =
      (({ a with frames }.closeFrame i f rest.length failure).deliver place i rest f
        failure).proceed place i rest := by
  rw [unwind, hr]
  rfl

theorem deliver_root (hparent : f.parent = none) (place : Nat) (i : Intention)
    (rest : List FrameId) (failure : Option InstructionError) :
    a.deliver place i rest f failure = .done (a.endIntention place i failure) := by
  simp only [deliver, hparent]

theorem deliver_child (hparent : f.parent = some parent) (hg : a.frames.find? parent = some g)
    (place : Nat) (i : Intention) (rest : List FrameId) (failure : Option InstructionError) :
    a.deliver place i rest f failure =
      let told := g.resume (a.config.aggregation.aggregate f.degrees) failure
        (f.answer failure a.fresh).1
      { a with fresh := (f.answer failure a.fresh).2 }.settle place rest parent told.1 told.2 := by
  simp only [deliver, hparent, hg]

theorem Holds.unwind_last (h : a.Holds place i [(id, f)]) (failure : Option InstructionError) :
    ∃ b, a.Sheds b i [id] [⟨f, 0, failure⟩] ∧ b.fresh = a.fresh ∧
      unwind place i [id] a failure = b.endIntention place i failure := by
  obtain ⟨frames, hr⟩ := FrameArena.remove?_isSome (h.frames (id, f) List.mem_cons_self)
  refine ⟨_, sheds_remove hr i 0 failure a.fresh, rfl, ?_⟩
  rw [unwind_eq hr, deliver_root h.parent_eq]
  rfl

/-- The frame on top ends, and the one below hears of it. -/
theorem Holds.unwind_cons (h : a.Holds place i ((id, f) :: (parent, g) :: lower))
    (failure : Option InstructionError) :
    ∃ b, a.Sheds b i [id] [⟨f, lower.length + 1, failure⟩] ∧
      b.fresh = (f.answer failure a.fresh).2 ∧
      (∀ g', g'.parent = g.parent →
        (b.storeFrame parent g').Holds place i ((parent, g') :: lower)) ∧
      let told := g.resume (a.config.aggregation.aggregate f.degrees) failure
        (f.answer failure a.fresh).1
      unwind place i (id :: parent :: lower.map Prod.fst) a failure =
        (b.settle place (parent :: lower.map Prod.fst) parent told.1 told.2).proceed place i
          (parent :: lower.map Prod.fst) := by
  obtain ⟨frames, hr⟩ := FrameArena.remove?_isSome (h.frames (id, f) List.mem_cons_self)
  have hsheds := sheds_remove hr i (lower.length + 1) failure (f.answer failure a.fresh).2
  refine ⟨_, hsheds, rfl, fun g' hparent => h.tell hr hparent failure _, ?_⟩
  have hne : parent ≠ id := fun heq => h.arranged.notMem_below (by simp [heq])
  have hg : frames.find? parent = some g :=
    (FrameArena.find?_remove_of_ne hr hne).trans (h.frames (parent, g) (by simp))
  have hlength : (parent :: lower.map Prod.fst).length = lower.length + 1 := by simp
  rw [unwind_eq hr, hlength, deliver_child (f := f) h.parent_eq hg]
  rfl

/-- What becomes of a frame that was told how its sub-goal ended: it goes on, or it ends with what
it has noted if no instruction is left. -/
structure Proceeds (a : Agent) (place : Nat) (i : Intention) (id : FrameId) (f : Frame)
    (lower : List FrameId) (result : Agent) : Prop where
  resumes : f.hasMore a.library = true → result = (a.storeFrame id f).setStack place (id :: lower)
  ends : f.hasMore a.library = false →
    result = unwind place i (id :: lower) (a.storeFrame id f) f.failure

theorem bodyOf_eq_isAtomic (a : Agent) (f : Frame) :
    (a.bodyOf f.plan).1 = f.isAtomic a.library := by
  simp only [bodyOf, Frame.isAtomic]
  cases a.library.find? f.plan <;> rfl

theorem lt_bodyOf_iff (a : Agent) (f : Frame) :
    f.pc < (a.bodyOf f.plan).2 ↔ f.hasMore a.library = true := by
  simp only [bodyOf, Frame.hasMore]
  cases a.library.find? f.plan <;> simp

theorem proceeds_settle {lower : List FrameId} (h : failure = none ∨ f.isAtomic a.library = true) :
    a.Proceeds place i id (f.noting failure) lower
      ((a.settle place (id :: lower) id f failure).proceed place i (id :: lower)) := by
  have hsettle : a.settle place (id :: lower) id f failure =
      if (f.noting failure).hasMore a.library then
        .done ((a.storeFrame id (f.noting failure)).setStack place (id :: lower))
      else .ends (a.storeFrame id (f.noting failure)) (f.noting failure).failure := by
    have hmore := lt_bodyOf_iff a (f.noting failure)
    rcases h with rfl | hatomic
    · simp only [settle, ← hmore]
      rfl
    · rw [← bodyOf_eq_isAtomic] at hatomic
      cases failure <;> simp only [settle, hatomic, ← hmore] <;> rfl
  rw [hsettle]
  constructor
  · intro hon
    rw [if_pos hon]
    rfl
  · intro hoff
    rw [if_neg (by simp [hoff])]
    rfl

theorem proceeds_settle_success {lower : List FrameId} :
    a.Proceeds place i id f lower
      ((a.settle place (id :: lower) id f none).proceed place i (id :: lower)) := by
  have h : a.Proceeds place i id (f.noting none) lower
      ((a.settle place (id :: lower) id f none).proceed place i (id :: lower)) :=
    proceeds_settle (Or.inl rfl)
  rwa [Frame.noting_none] at h

theorem proceed_settle_failure {lower : List FrameId} (h : f.isAtomic a.library = false) :
    (a.settle place (id :: lower) id f (some e)).proceed place i (id :: lower) =
      unwind place i (id :: lower) (a.storeFrame id f) (some e) := by
  rw [← bodyOf_eq_isAtomic] at h
  simp [settle, h, Progress.proceed]

/-! ### A frame is reached -/

/-- What a failure comes to that went down to the rest of a stack: the intention ends, or the next
frame hears of it. -/
def FallsTo (b : Agent) (place : Nat) (i : Intention) (degree : Float) (e : InstructionError)
    (result : Agent) : List (FrameId × Frame) → Prop
  | [] => result = b.endIntention place i (some e)
  | (parent, g) :: lower =>
    (∀ g', g'.parent = g.parent → (b.storeFrame parent g').Holds place i ((parent, g') :: lower)) ∧
      result = (b.settle place (parent :: lower.map Prod.fst) parent (g.woken degree)
        (some e)).proceed place i (parent :: lower.map Prod.fst)

/-- A failure ends the frame on top and goes on through plans that fail with it. -/
theorem Holds.fail (h : a.Holds place i ((id, f) :: (plain ++ rest)))
    (hplain : ∀ entry ∈ plain, entry.2.isAtomic a.library = false) (e : InstructionError) :
    ∃ b, a.Sheds b i (id :: plain.map Prod.fst)
        (endings a.config.aggregation.aggregate (some e) rest.length f plain) ∧ b.fresh = a.fresh ∧
      b.FallsTo place i (handedDown a.config.aggregation.aggregate f plain) e
        (unwind place i (id :: (plain ++ rest).map Prod.fst) a (some e)) rest := by
  induction plain generalizing a id f with
  | nil =>
      cases rest with
      | nil => exact h.unwind_last (some e)
      | cons entry lower => exact h.unwind_cons (some e)
  | cons entry plain ih =>
      -- The next frame hears of the failure and is then the one on top that ends with it.
      obtain ⟨parent, g⟩ := entry
      rw [List.cons_append] at h
      obtain ⟨b, hsheds, hfresh, hholds, hunwind⟩ := h.unwind_cons (some e)
      let told := g.woken (a.config.aggregation.aggregate f.degrees)
      have hlibrary : (b.storeFrame parent told).library = a.library := hsheds.library
      have hconfig : (b.storeFrame parent told).config = a.config := hsheds.config
      have hg : told.isAtomic b.library = false := by
        rw [hsheds.library]
        exact hplain (parent, g) List.mem_cons_self
      obtain ⟨c, hsheds', hfresh', hfalls⟩ := ih (hholds told rfl)
        (fun entry hentry => hlibrary ▸ hplain entry (List.mem_cons_of_mem _ hentry))
      rw [hconfig] at hsheds' hfalls
      rw [← proceed_settle_failure hg] at hfalls
      have hlength : (plain ++ rest).length + 1 = plain.length + 1 + rest.length := by
        rw [List.length_append]
        omega
      rw [hlength] at hsheds
      refine ⟨c, hsheds.trans hsheds' List.mem_cons_self, hfresh'.trans hfresh, ?_⟩
      exact hunwind ▸ hfalls

/-- The end of the frame on top takes the agent to the frame that is reached. -/
theorem Holds.reaches (h : a.Holds place i stack)
    (hreaches : Reaches a.library a.config.aggregation.aggregate a.fresh failure stack ended parent
      g lower fresh) :
    ∃ b upper, stack.map Prod.fst = upper ++ parent :: lower.map Prod.fst ∧
      a.Sheds b i upper ended ∧ b.fresh = fresh ∧
      (b.storeFrame parent g).Holds place i ((parent, g) :: lower) ∧
      b.Proceeds place i parent g (lower.map Prod.fst)
        (unwind place i (stack.map Prod.fst) a failure) := by
  cases hreaches with
  | @failure e id _ f g plain _ hplain hatomic =>
      obtain ⟨b, hsheds, hfresh, hholds, hunwind⟩ := h.fail hplain e
      refine ⟨b, id :: plain.map Prod.fst, by simp, hsheds, hfresh, hholds _ rfl, ?_⟩
      rw [← hsheds.library] at hatomic
      exact hunwind ▸ proceeds_settle (Or.inr hatomic)
  | @answer id _ f g goal s _ hgoal hs =>
      obtain ⟨b, hsheds, hfresh, hholds, hunwind⟩ := h.unwind_cons none
      refine ⟨b, [id], rfl, hsheds, hfresh, hholds _ rfl, ?_⟩
      have hresume := Frame.resume_ok (a.config.aggregation.aggregate f.degrees) hgoal hs
      simp only [Frame.answer, hresume] at hunwind
      exact hunwind ▸ proceeds_settle_success
  | @mismatch id _ f g goal error _ hgoal hs hatomic =>
      obtain ⟨b, hsheds, hfresh, hholds, hunwind⟩ := h.unwind_cons none
      refine ⟨b, [id], rfl, hsheds, hfresh, hholds _ rfl, ?_⟩
      have hresume := Frame.resume_error (a.config.aggregation.aggregate f.degrees) hgoal hs
      simp only [Frame.answer, hresume] at hunwind
      rw [← hsheds.library] at hatomic
      exact hunwind ▸ proceeds_settle (Or.inr hatomic)

/-! ### The agent after an end -/

/-- The trigger that an intention leaves behind whose root failed. -/
def repair (i : Intention) (ended : List Ending) (left : List (FrameId × Frame)) : List Trigger :=
  if left.isEmpty && ended.getLast?.any (·.failure.isSome) && i.root.kind = .addGoal then
    [⟨.removeGoal, i.root.literal⟩]
  else []

/-- `c` is `a` after frames of a stack came to their ends, and `left` is what is left of it. Nothing
else has changed. -/
structure Unwinds (a c : Agent) (place : Nat) (i : Intention) (stack : List FrameId)
    (ended : List Ending) (left : List (FrameId × Frame)) (fresh : Nat) : Prop where
  same : c = { a.closeAll i ended with
    fresh, frames := c.frames, intentions := c.intentions, pending := c.pending }
  gone : ∀ id ∈ stack, id ∉ left.map Prod.fst → c.frames.find? id = none
  kept : ∀ entry ∈ left, c.frames.find? entry.1 = some entry.2
  others : ∀ id, id ∉ stack → c.frames.find? id = a.frames.find? id
  intentions : c.intentions =
    if left.isEmpty then a.intentions.eraseIdx place
    else a.intentions.modify place fun i => { i with stack := left.map Prod.fst }
  pending : c.pending = a.pending ++ repair i ended left

/-- The last frame of a stack is gone, and so is the intention. -/
theorem Sheds.unwinds_nil (h : a.Sheds b i shed ended)
    (hlast : ended.getLast?.map Ending.failure = some failure) :
    a.Unwinds (b.endIntention place i failure) place i shed ended [] b.fresh where
  same := by
    rw [endIntention_eq]
    exact h.update_eq _ _ _
  gone id hid _ := by
    rw [endIntention_eq]
    exact h.gone id hid
  kept entry hentry := absurd hentry List.not_mem_nil
  others id hid := by
    rw [endIntention_eq]
    exact h.kept id hid
  intentions := by
    rw [endIntention_eq]
    exact congrArg (List.eraseIdx · place) h.intentions
  pending := by
    obtain ⟨last, hget, rfl⟩ := Option.map_eq_some_iff.1 hlast
    rw [endIntention_eq]
    simp [repair, hget, h.pending]

/-- The frames above one are gone, and it goes on. -/
theorem Sheds.unwinds_cons (h : a.Sheds b i shed ended)
    (hholds : (b.storeFrame parent g).Holds place i ((parent, g) :: lower)) :
    a.Unwinds ((b.storeFrame parent g).setStack place (parent :: lower.map Prod.fst)) place i
      (shed ++ parent :: lower.map Prod.fst) ended ((parent, g) :: lower) b.fresh where
  same := h.update_eq _ _ _
  gone id hid hleft := by
    have hne : id ≠ parent := fun heq => hleft (by simp [heq])
    have hshed : id ∈ shed := (List.mem_append.1 hid).resolve_right hleft
    exact (FrameArena.find?_modify_of_ne _ _ hne).trans (h.gone id hshed)
  kept := hholds.frames
  others id hid := by
    rw [List.mem_append, List.mem_cons, not_or, not_or] at hid
    exact (FrameArena.find?_modify_of_ne _ _ hid.2.1).trans (h.kept id hid.1)
  intentions := congrArg (List.modify · place _) h.intentions
  pending := h.pending.trans (by simp [repair])

/-- The frames above one are gone, and then it ends too. -/
theorem Sheds.unwinds_trans (h : a.Sheds b i shed ended)
    (h' : (b.storeFrame parent g).Unwinds c place i (parent :: lower.map Prod.fst) ended' left
      fresh)
    (hended : ended' ≠ []) :
    a.Unwinds c place i (shed ++ parent :: lower.map Prod.fst) (ended ++ ended') left fresh where
  same := by
    rw [h'.same, h.closeAll_storeFrame]
  gone id hid hleft := by
    by_cases hstack : id ∈ parent :: lower.map Prod.fst
    · exact h'.gone id hstack hleft
    · have hne : id ≠ parent := fun heq => hstack (by simp [heq])
      rw [h'.others id hstack]
      exact (FrameArena.find?_modify_of_ne _ _ hne).trans
        (h.gone id ((List.mem_append.1 hid).resolve_right hstack))
  kept := h'.kept
  others id hid := by
    rw [List.mem_append, not_or] at hid
    have hne : id ≠ parent := fun heq => hid.2 (by simp [heq])
    rw [h'.others id hid.2]
    exact (FrameArena.find?_modify_of_ne _ _ hne).trans (h.kept id hid.1)
  intentions := h.intentions ▸ h'.intentions
  pending := by
    have hlast : (ended ++ ended').getLast? = ended'.getLast? := by
      rw [List.getLast?_append, List.getLast?_eq_some_getLast hended]
      rfl
    rw [h'.pending, repair, repair, hlast]
    exact congrArg (· ++ _) h.pending

/-- Ending the frame on top of a stack does what the rules say. -/
theorem Holds.unwinds {library : PlanLibrary} {aggregate : List Float → Float}
    (h : a.Holds place i stack)
    (hcascade : Cascade library aggregate fresh failure stack ended left fresh')
    (hlibrary : a.library = library) (haggregate : a.config.aggregation.aggregate = aggregate)
    (hfresh : a.fresh = fresh) :
    a.Unwinds (unwind place i (stack.map Prod.fst) a failure) place i (stack.map Prod.fst) ended
      left fresh' := by
  -- By induction on the rules. What they read of the agent stays the same when frames end.
  induction hcascade generalizing a with
  | @fails _ e id f plain hplain =>
      subst hlibrary haggregate hfresh
      rw [← List.append_nil plain] at h
      obtain ⟨b, hsheds, hfresh, hunwind⟩ := h.fail hplain e
      rw [List.append_nil] at hunwind
      rw [← hfresh]
      exact hunwind ▸ hsheds.unwinds_nil (getLast?_endings _ _ _ _)
  | @succeeds _ id f =>
      subst hfresh
      obtain ⟨b, hsheds, hfresh, hunwind⟩ := h.unwind_last none
      rw [← hfresh]
      exact hunwind ▸ hsheds.unwinds_nil rfl
  | goesOn hreaches hmore =>
      subst hlibrary haggregate hfresh
      obtain ⟨b, upper, hstack, hsheds, rfl, hholds, hproceeds⟩ := h.reaches hreaches
      rw [hproceeds.resumes (hsheds.library ▸ hmore), hstack]
      exact hsheds.unwinds_cons hholds
  | endsToo hreaches hmore hrest ih =>
      subst hlibrary haggregate hfresh
      obtain ⟨b, upper, hstack, hsheds, rfl, hholds, hproceeds⟩ := h.reaches hreaches
      rw [hproceeds.ends (hsheds.library ▸ hmore), hstack]
      have hunwinds :=
        ih hholds hsheds.library (congrArg (·.aggregation.aggregate) hsheds.config) rfl
      exact hsheds.unwinds_trans hunwinds hrest.ended_ne_nil
  | @mismatch _ _ id parent f g goal error lower left ended hgoal hs hplain hrest ih =>
      subst hlibrary haggregate hfresh
      obtain ⟨b, hsheds, hfresh, hholds, hunwind⟩ := h.unwind_cons none
      have hresume := Frame.resume_error (a.config.aggregation.aggregate f.degrees) hgoal hs
      have hg : (g.woken (a.config.aggregation.aggregate f.degrees)).isAtomic b.library =
          false := by
        rw [hsheds.library]
        exact hplain
      simp only [Frame.answer, hresume, proceed_settle_failure hg] at hunwind
      have hunwinds := ih (hholds _ rfl) hsheds.library
        (congrArg (·.aggregation.aggregate) hsheds.config) hfresh
      rw [List.map_cons, List.map_cons, hunwind]
      exact hsheds.unwinds_trans hunwinds hrest.ended_ne_nil

theorem Holds.awaits (h : a.Holds place i ((id, f) :: rest)) :
    ∀ entry ∈ rest, entry.2.awaiting.isSome := by
  intro entry hentry
  obtain ⟨g, hg, hwaits⟩ := h.arranged.top.2.waits (List.mem_map_of_mem hentry)
  rw [h.frames entry (List.mem_cons_of_mem _ hentry)] at hg
  obtain rfl := Option.some.inj hg
  exact hwaits.awaiting

theorem exists_entries {frames : FrameArena} {stack : List FrameId}
    (h : ∀ id ∈ stack, ∃ f, frames.find? id = some f) :
    ∃ entries : List (FrameId × Frame), entries.map Prod.fst = stack ∧
      ∀ entry ∈ entries, frames.find? entry.1 = some entry.2 := by
  induction stack with
  | nil => exact ⟨[], rfl, by simp⟩
  | cons id below ih =>
      obtain ⟨f, hf⟩ := h id List.mem_cons_self
      obtain ⟨entries, rfl, hentries⟩ :=
        ih fun other hother => h other (List.mem_cons_of_mem _ hother)
      exact ⟨(id, f) :: entries, rfl, List.forall_mem_cons.2 ⟨hf, hentries⟩⟩

/-- The stack of an open intention, with its frames. -/
theorem Opens.holds {P : Frame → Prop} {stack : List FrameId} (h : a.Opens place P stack)
    (hi : a.intentions[place]? = some i) :
    ∃ entries, entries.map Prod.fst = stack ∧ a.Holds place i entries := by
  obtain ⟨entries, rfl, hentries⟩ := exists_entries fun _ hid => h.arranged.top.live hid
  exact ⟨entries, rfl, hi, h.arranged.imp fun _ _ => trivial, hentries⟩

/-- Whenever a step of an intention comes to the end of a frame, its stack is of this kind. -/
theorem Sound.holds (h : a.Sound) (hturn : a.turn place = .ends b failure) :
    ∃ i stack, b.Holds place i stack ∧ i.stack = stack.map Prod.fst := by
  obtain ⟨i, hcourse⟩ := course_of_turn hturn
  obtain ⟨entries, hentries, hholds⟩ := (h.course hcourse).holds hcourse.intention_of_ends
  exact ⟨i, entries, hholds, hentries.symm⟩

/-- The end of the frame on top of a stack. The rules of `Cascade` always give a result, and
`finish` does what they say: the frames that they name are taken off one by one from the top, each
reported with its own depth and failure, the one that they leave on top goes on, or the intention is
removed and its goal, if it failed, is given up. All other frames and intentions stay as they
are. -/
theorem finish_cascades (h : a.Holds place i stack) (hi : i.stack = stack.map Prod.fst)
    (failure : Option InstructionError) :
    (∃ ended left fresh,
      Cascade a.library a.config.aggregation.aggregate a.fresh failure stack ended left fresh) ∧
    ∀ ended left fresh,
      Cascade a.library a.config.aggregation.aggregate a.fresh failure stack ended left fresh →
      a.Unwinds (a.finish place failure) place i i.stack ended left fresh ∧
      ended.map Ending.depth ++ (List.range left.length).reverse =
        (List.range stack.length).reverse ∧
      left.map Prod.fst = i.stack.drop ended.length ∧ left.tail = stack.drop (ended.length + 1) ∧
      0 < ended.length ∧ ended.length ≤ stack.length ∧
      ∀ other ∈ a.intentions.eraseIdx place, ∀ id ∈ other.stack,
        (a.finish place failure).frames.find? id = a.frames.find? id := by
  constructor
  · cases stack with
    | nil => exact h.arranged.top.elim
    | cons entry rest => exact exists_cascade _ _ _ _ _ _ _ h.awaits
  · intro ended left fresh hcascade
    have hdepths := hcascade.depths
    have hlength := congrArg List.length hdepths
    simp only [List.length_append, List.length_map, List.length_reverse,
      List.length_range] at hlength
    have hfinish : a.finish place failure = unwind place i (stack.map Prod.fst) a failure := by
      rw [finish, h.intention, ← hi]
    have hunwinds := h.unwinds hcascade rfl rfl rfl
    rw [hfinish, hi, ← List.map_drop]
    refine ⟨hunwinds, hdepths, hcascade.left_eq.1, hcascade.left_eq.2,
      List.length_pos_iff.2 hcascade.ended_ne_nil, by omega, ?_⟩
    intro other hother id hid
    exact hunwinds.others id fun hstack =>
      h.arranged.notMem_others hstack (List.mem_map_of_mem hother) hid

/-- An agent with an errand that goes on after a failure and then succeeds in its last part. -/
def unluckyErrand : AgentSpec where
  id := ⟨1⟩
  config := .default
  library := .ofPlans
    [⟨⟨.addGoal, .atom "main"⟩, none,
      [.achieve (.atom "errand"), .addBelief (.atom "home")], false⟩,
     ⟨⟨.addGoal, .atom "errand"⟩, none, [.unary "N" .increment, .achieve (.atom "walk")], true⟩,
     ⟨⟨.addGoal, .atom "walk"⟩, none, [.addBelief (.atom "walked")], false⟩]
  actions := .empty
  scorer := weightScorer
  hearing := none
  beliefs := []
  goals := [.atom "main"]

/-- What is seen of a frame before and after a success of the frame on top: what it is for, whether
it has an instruction left or a failure noted, and whether it is gone. -/
structure Fate where
  trigger : String
  hasMore : Bool
  failed : Bool
  gone : Bool
  deriving DecidableEq

def fate (b : Agent) (entry : FrameId × Frame) : Fate where
  trigger := entry.2.trigger.render
  hasMore := entry.2.hasMore b.library
  failed := entry.2.failure.isSome
  gone := ((b.finish 0 none).frames.find? entry.1).isNone

theorem exists_unluckyErrand_ends :
    ∃ a b i stack, unluckyErrand.build = .ok a ∧
      (a.performAll [.tick, .tick, .tick, .tick]).turn 0 = .ends b none ∧
      b.Holds 0 i stack ∧ i.stack = stack.map Prod.fst ∧ (b.finish 0 none).intentions.length = 0 ∧
      stack.map b.fate = [⟨"+!walk", false, false, true⟩, ⟨"+!errand", false, true, true⟩,
        ⟨"+!main", true, false, true⟩] := by
  obtain ⟨a, hbuild, hgone, hrun⟩ : ∃ a, unluckyErrand.build = .ok a ∧
      ((a.performAll [.tick, .tick, .tick, .tick]).turn 0).succeeded?.map
        (fun b => (b.finish 0 none).intentions.length) = some 0 ∧
      ((a.performAll [.tick, .tick, .tick, .tick]).turn 0).succeeded?.map
        (fun b => b.intentions.map fun i => i.stack.map fun id =>
          (b.frames.find? id).map fun f => b.fate (id, f)) =
        some [[some ⟨"+!walk", false, false, true⟩, some ⟨"+!errand", false, true, true⟩,
          some ⟨"+!main", true, false, true⟩]] := ⟨_, rfl, by decide +kernel, by decide +kernel⟩
  obtain ⟨b, hb, hseen⟩ := Option.map_eq_some_iff.1 hrun
  rw [hb] at hgone
  have hturn := Progress.eq_of_succeeded? hb
  obtain ⟨i, stack, hholds, hi⟩ := (sound_performAll hbuild _).holds hturn
  refine ⟨a, b, i, stack, hbuild, hturn, hholds, hi, Option.some.inj hgone, ?_⟩
  have hfates := congrArg (·[0]?) hseen
  simp only [List.getElem?_map, hholds.intention, Option.map_some, hi, List.map_map] at hfates
  have hmap : stack.map (some ∘ b.fate) = [some ⟨"+!walk", false, false, true⟩,
      some ⟨"+!errand", false, true, true⟩, some ⟨"+!main", true, false, true⟩] := by
    refine Eq.trans (List.map_congr_left fun entry hentry => ?_) (Option.some.inj hfates)
    simp [hholds.frames entry hentry]
  rw [← List.map_map] at hmap
  exact List.map_injective_iff.2 (Option.some_injective _) hmap

/-- The errand has noted a failure and ends with its last part. -/
theorem finish_cascades_unluckyErrand :
    ∃ a b i stack, unluckyErrand.build = .ok a ∧
      (a.performAll [.tick, .tick, .tick, .tick]).turn 0 = .ends b none ∧
      b.Holds 0 i stack ∧ i.stack = stack.map Prod.fst ∧
      ∃ ended fresh, ended.map Ending.depth = [2, 1, 0] ∧
        Cascade b.library b.config.aggregation.aggregate b.fresh none stack ended [] fresh ∧
        b.Unwinds (b.finish 0 none) 0 i i.stack ended [] fresh := by
  obtain ⟨a, b, i, stack, hbuild, hturn, hholds, hi, hintentions, hfates⟩ :=
    exists_unluckyErrand_ends
  obtain ⟨⟨ended, left, fresh, hcascade⟩, hcascades⟩ := finish_cascades hholds hi none
  obtain ⟨hunwinds, hdepths, _⟩ := hcascades ended left fresh hcascade
  have hlength : stack.length = 3 := by simpa using congrArg List.length hfates
  have hplace := (List.getElem?_eq_some_iff.1 hholds.intention).1
  obtain rfl : left = [] := by
    cases left with
    | nil => rfl
    | cons entry left =>
        have hkept := hintentions.symm.trans (congrArg List.length hunwinds.intentions)
        simp only [List.isEmpty_cons, Bool.false_eq_true, if_false, List.length_modify] at hkept
        omega
  rw [hlength, List.length_nil, List.range_zero, List.reverse_nil, List.append_nil] at hdepths
  exact ⟨a, b, i, stack, hbuild, hturn, hholds, hi, ended, fresh, hdepths, hcascade, hunwinds⟩

/-- A success of the frame on top may end a frame that has an instruction left and no failure noted,
when a frame between the two ends with a failure. -/
theorem success_ends_unfinished_unluckyErrand :
    ∃ a b i stack, unluckyErrand.build = .ok a ∧
      (a.performAll [.tick, .tick, .tick, .tick]).turn 0 = .ends b none ∧
      b.Holds 0 i stack ∧ i.stack = stack.map Prod.fst ∧
      ∃ entry ∈ stack, entry.2.hasMore b.library = true ∧ entry.2.failure = none ∧
        (b.finish 0 none).frames.find? entry.1 = none := by
  obtain ⟨a, b, i, stack, hbuild, hturn, hholds, hi, _, hfates⟩ := exists_unluckyErrand_ends
  have hmain : Fate.mk "+!main" true false true ∈ stack.map b.fate := by
    simp [hfates]
  obtain ⟨entry, hentry, hfate⟩ := List.mem_map.1 hmain
  simp only [fate, Fate.mk.injEq] at hfate
  exact ⟨a, b, i, stack, hbuild, hturn, hholds, hi, entry, hentry, hfate.2.1,
    by simpa using hfate.2.2.1, by simpa using hfate.2.2.2⟩

end Agent
end Deliberation
