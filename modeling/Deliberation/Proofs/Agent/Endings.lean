import Deliberation.Agent.Cycle
import Deliberation.Proofs.Intention.Stacks

/-!
The rules by which the end of a frame goes down its stack.

A failure ends the frame on top and every frame below it, down to the first one whose plan goes on
after failures. That one notes the failure, unless it has noted one before, and goes on; if it has
no instruction left it ends with the first failure that it noted, and that goes down the stack in
the same way. A success ends the frame on top and hands an answer to the frame below. If that one
has no instruction left it ends too, in success or with what it has noted, and a failure then ends
frames that still had work to do.
-/

namespace Deliberation

/-! ### Frames that hear of an end -/

namespace Frame

/-- The plan of a frame goes on after failures. -/
def isAtomic (library : PlanLibrary) (f : Frame) : Bool :=
  (library.find? f.plan).any Plan.atomic

/-- The plan of a frame has an instruction left. -/
def hasMore (library : PlanLibrary) (f : Frame) : Bool :=
  (library.find? f.plan).any fun p => f.pc < p.body.length

/-- A waiting frame that is told how far its sub-goal was met. -/
def woken (g : Frame) (degree : Float) : Frame :=
  { g with state := .running, awaiting := none, degrees := g.degrees ++ [degree] }

/-- The frame with a failure noted, unless it has one. -/
def noting (g : Frame) (failure : Option InstructionError) : Frame :=
  { g with failure := g.failure.or failure }

theorem noting_none (g : Frame) : g.noting none = g := by
  simp [noting]

/-- An answer that does not fit the goal that a frame waits for is a failure. -/
def mismatch (goal answer : Literal) : InstructionError :=
  .unificationFailed (goal.render ++ " with " ++ answer.render)

end Frame

/-! ### How an end goes down a stack -/

/-- The end of a frame over some others. -/
structure Ending where
  frame : Frame
  depth : Nat
  failure : Option InstructionError

/-- A frame and those below it end with one failure, over `below` others. -/
def endings (aggregate : List Float → Float) (failure : Option InstructionError) (below : Nat) :
    Frame → List (FrameId × Frame) → List Ending
  | f, [] => [⟨f, below, failure⟩]
  | f, (_, g) :: rest =>
    ⟨f, rest.length + 1 + below, failure⟩ ::
      endings aggregate failure below (g.woken (aggregate f.degrees)) rest

/-- The degree that the last of these frames ends with. -/
def handedDown (aggregate : List Float → Float) : Frame → List (FrameId × Frame) → Float
  | f, [] => aggregate f.degrees
  | f, (_, g) :: rest => handedDown aggregate (g.woken (aggregate f.degrees)) rest

/-- The end of the frame on top of a stack reaches a frame of it: those above it are at their ends,
and it is told. `Reaches library aggregate fresh failure stack ended parent g lower fresh'` has the
stack from the top down, and the frame as it is then. -/
inductive Reaches (library : PlanLibrary) (aggregate : List Float → Float) :
    Nat → Option InstructionError → List (FrameId × Frame) →
      List Ending → FrameId → Frame → List (FrameId × Frame) → Nat → Prop
  /-- A failure reaches the first frame whose plan goes on after failures. -/
  | failure {fresh : Nat} {e : InstructionError} {id parent : FrameId} {f g : Frame}
      {plain lower : List (FrameId × Frame)} :
      (∀ entry ∈ plain, entry.2.isAtomic library = false) → g.isAtomic library = true →
      Reaches library aggregate fresh (some e) ((id, f) :: (plain ++ (parent, g) :: lower))
        (endings aggregate (some e) (lower.length + 1) f plain) parent
        ((g.woken (handedDown aggregate f plain)).noting (some e)) lower fresh
  /-- A success reaches the frame below, which takes over what it learns from the answer. -/
  | answer {fresh : Nat} {id parent : FrameId} {f g : Frame} {goal : Literal} {s : Substitution}
      {lower : List (FrameId × Frame)} :
      g.awaiting = some goal →
      unifyLiterals goal (f.instantiated.freshen fresh).1 g.bindings = .ok s →
      Reaches library aggregate fresh none ((id, f) :: (parent, g) :: lower)
        [⟨f, lower.length + 1, none⟩] parent { g.woken (aggregate f.degrees) with bindings := s }
        lower (f.instantiated.freshen fresh).2
  /-- If the answer does not fit, a plan that goes on after failures notes that. -/
  | mismatch {fresh : Nat} {id parent : FrameId} {f g : Frame} {goal : Literal} {error : UnifyError}
      {lower : List (FrameId × Frame)} :
      g.awaiting = some goal →
      unifyLiterals goal (f.instantiated.freshen fresh).1 g.bindings = .error error →
      g.isAtomic library = true →
      Reaches library aggregate fresh none ((id, f) :: (parent, g) :: lower)
        [⟨f, lower.length + 1, none⟩] parent
        ((g.woken (aggregate f.degrees)).noting
          (some (Frame.mismatch goal (f.instantiated.freshen fresh).1))) lower
        (f.instantiated.freshen fresh).2

/-- The frame on top of a stack ends, with a failure or in success, and others with it. `Cascade
library aggregate fresh failure stack ended left fresh'` has the ends in their order and what is
left of the stack. -/
inductive Cascade (library : PlanLibrary) (aggregate : List Float → Float) :
    Nat → Option InstructionError → List (FrameId × Frame) →
      List Ending → List (FrameId × Frame) → Nat → Prop
  /-- Without a plan below that goes on after failures, a failure ends all frames. -/
  | fails {fresh : Nat} {e : InstructionError} {id : FrameId} {f : Frame}
      {plain : List (FrameId × Frame)} :
      (∀ entry ∈ plain, entry.2.isAtomic library = false) →
      Cascade library aggregate fresh (some e) ((id, f) :: plain)
        (endings aggregate (some e) 0 f plain) [] fresh
  | succeeds {fresh : Nat} {id : FrameId} {f : Frame} :
      Cascade library aggregate fresh none [(id, f)] [⟨f, 0, none⟩] [] fresh
  /-- A frame that was reached goes on if an instruction is left. -/
  | goesOn {fresh fresh' : Nat} {failure : Option InstructionError} {parent : FrameId} {g : Frame}
      {stack lower : List (FrameId × Frame)} {ended : List Ending} :
      Reaches library aggregate fresh failure stack ended parent g lower fresh' →
      g.hasMore library = true →
      Cascade library aggregate fresh failure stack ended ((parent, g) :: lower) fresh'
  /-- Otherwise it ends too, with the failure that it has noted or in success. -/
  | endsToo {fresh fresh' fresh'' : Nat} {failure : Option InstructionError} {parent : FrameId}
      {g : Frame} {stack lower left : List (FrameId × Frame)} {ended ended' : List Ending} :
      Reaches library aggregate fresh failure stack ended parent g lower fresh' →
      g.hasMore library = false →
      Cascade library aggregate fresh' g.failure ((parent, g) :: lower) ended' left fresh'' →
      Cascade library aggregate fresh failure stack (ended ++ ended') left fresh''
  /-- If an answer does not fit, the frame that waits for it fails. -/
  | mismatch {fresh fresh' : Nat} {id parent : FrameId} {f g : Frame} {goal : Literal}
      {error : UnifyError} {lower left : List (FrameId × Frame)} {ended : List Ending} :
      g.awaiting = some goal →
      unifyLiterals goal (f.instantiated.freshen fresh).1 g.bindings = .error error →
      g.isAtomic library = false →
      Cascade library aggregate (f.instantiated.freshen fresh).2
        (some (Frame.mismatch goal (f.instantiated.freshen fresh).1))
        ((parent, g.woken (aggregate f.degrees)) :: lower) ended left fresh' →
      Cascade library aggregate fresh none ((id, f) :: (parent, g) :: lower)
        (⟨f, lower.length + 1, none⟩ :: ended) left fresh'

section

variable {library : PlanLibrary} {aggregate : List Float → Float} {fresh fresh' : Nat}
  {failure : Option InstructionError} {parent : FrameId} {f g : Frame}
  {stack lower left : List (FrameId × Frame)} {ended : List Ending}

theorem depths_endings (failure : Option InstructionError) (below : Nat) (f : Frame)
    (plain : List (FrameId × Frame)) :
    (endings aggregate failure below f plain).map Ending.depth ++ (List.range below).reverse =
      (List.range (plain.length + 1 + below)).reverse := by
  induction plain generalizing f with
  | nil => simp [endings, Nat.add_comm 1, List.range_succ]
  | cons entry plain ih =>
      have hlength : (entry :: plain).length + 1 + below = plain.length + 1 + below + 1 := by
        simp only [List.length_cons]
        omega
      rw [hlength, List.range_succ, List.reverse_append, endings, List.map_cons,
        List.cons_append, ih]
      rfl

theorem length_endings (failure : Option InstructionError) (below : Nat) (f : Frame)
    (plain : List (FrameId × Frame)) :
    (endings aggregate failure below f plain).length = plain.length + 1 := by
  induction plain generalizing f with
  | nil => rfl
  | cons entry plain ih => simp [endings, ih]

theorem Reaches.depths
    (h : Reaches library aggregate fresh failure stack ended parent g lower fresh') :
    ended.map Ending.depth ++ (List.range (lower.length + 1)).reverse =
      (List.range stack.length).reverse := by
  cases h with
  | @failure e id _ f g plain _ hplain hatomic =>
      rw [depths_endings]
      congr 2
      simp only [List.length_cons, List.length_append]
      omega
  | answer => simp [List.range_succ]
  | mismatch => simp [List.range_succ]

/-- The frames at the top of the stack end one after the other, each at its depth. -/
theorem Cascade.depths (h : Cascade library aggregate fresh failure stack ended left fresh') :
    ended.map Ending.depth ++ (List.range left.length).reverse =
      (List.range stack.length).reverse := by
  induction h with
  | fails hplain => simpa using depths_endings _ 0 _ _
  | succeeds => rfl
  | goesOn hreaches hmore => exact hreaches.depths
  | endsToo hreaches hmore hrest ih =>
      rw [List.map_append, List.append_assoc, ih]
      exact hreaches.depths
  | mismatch hgoal hs hplain hrest ih =>
      rw [List.map_cons, List.cons_append, ih]
      simp [List.range_succ]

theorem Reaches.split
    (h : Reaches library aggregate fresh failure stack ended parent g lower fresh') :
    ∃ upper g₀, stack = upper ++ (parent, g₀) :: lower ∧ upper.length = ended.length := by
  cases h with
  | @failure e id _ f g plain _ hplain hatomic =>
      exact ⟨(id, f) :: plain, g, rfl, (length_endings _ _ _ _).symm⟩
  | @answer id _ f g => exact ⟨[(id, f)], g, rfl, rfl⟩
  | @mismatch id _ f g => exact ⟨[(id, f)], g, rfl, rfl⟩

theorem getLast?_endings (failure : Option InstructionError) (below : Nat) (f : Frame)
    (plain : List (FrameId × Frame)) :
    (endings aggregate failure below f plain).getLast?.map Ending.failure = some failure := by
  induction plain generalizing f with
  | nil => rfl
  | cons entry plain ih =>
      have hne : endings aggregate failure below (entry.2.woken (aggregate f.degrees)) plain ≠ [] :=
        List.ne_nil_of_length_eq_add_one (length_endings _ _ _ _)
      rw [endings, List.getLast?_cons_of_ne_nil hne]
      exact ih _

theorem Reaches.ended_ne_nil
    (h : Reaches library aggregate fresh failure stack ended parent g lower fresh') :
    ended ≠ [] := by
  cases h with
  | failure hplain hatomic => exact List.ne_nil_of_length_eq_add_one (length_endings _ _ _ _)
  | answer | mismatch => exact List.cons_ne_nil _ _

theorem Cascade.ended_ne_nil (h : Cascade library aggregate fresh failure stack ended left fresh') :
    ended ≠ [] := by
  induction h with
  | fails hplain => exact List.ne_nil_of_length_eq_add_one (length_endings _ _ _ _)
  | succeeds => exact List.cons_ne_nil _ _
  | goesOn hreaches hmore => exact hreaches.ended_ne_nil
  | endsToo hreaches hmore hrest ih => exact List.append_ne_nil_of_right_ne_nil _ ih
  | mismatch hgoal hs hplain hrest ih => exact List.cons_ne_nil _ _

/-- The frames that are left are those that did not end, and only the one on top of them has
changed. -/
theorem Cascade.left_eq (h : Cascade library aggregate fresh failure stack ended left fresh') :
    left.map Prod.fst = (stack.drop ended.length).map Prod.fst ∧
      left.tail = stack.drop (ended.length + 1) := by
  induction h with
  | fails hplain => simp [length_endings]
  | succeeds => simp
  | goesOn hreaches hmore =>
      obtain ⟨upper, g₀, rfl, hlength⟩ := hreaches.split
      simp [← hlength]
  | endsToo hreaches hmore hrest ih =>
      obtain ⟨upper, g₀, rfl, hlength⟩ := hreaches.split
      rw [ih.1, ih.2, List.length_append, ← hlength, Nat.add_assoc, List.drop_length_add_append,
        List.drop_length_add_append]
      refine ⟨?_, rfl⟩
      rw [List.map_drop, List.map_drop]
      rfl
  | mismatch hgoal hs hplain hrest ih =>
      rw [ih.1, ih.2]
      refine ⟨?_, rfl⟩
      rw [List.map_drop, List.map_drop]
      rfl

theorem Reaches.exists_cascade
    (h : Reaches library aggregate fresh failure stack ended parent g lower fresh')
    (hrest : ∃ ended left fresh'',
      Cascade library aggregate fresh' g.failure ((parent, g) :: lower) ended left fresh'') :
    ∃ ended left fresh'', Cascade library aggregate fresh failure stack ended left fresh'' := by
  cases hmore : g.hasMore library with
  | true => exact ⟨_, _, _, .goesOn h hmore⟩
  | false =>
      obtain ⟨ended', left, fresh'', hrest⟩ := hrest
      exact ⟨_, _, _, .endsToo h hmore hrest⟩

/-- The end of a frame over frames that wait always comes to a stop. -/
theorem exists_cascade (library : PlanLibrary) (aggregate : List Float → Float) (fresh : Nat)
    (failure : Option InstructionError) (id : FrameId) (f : Frame) (rest : List (FrameId × Frame))
    (hawaits : ∀ entry ∈ rest, entry.2.awaiting.isSome) :
    ∃ ended left fresh',
      Cascade library aggregate fresh failure ((id, f) :: rest) ended left fresh' := by
  -- A frame that is reached stands over fewer others than the one on top.
  induction hn : rest.length using Nat.strong_induction_on generalizing fresh failure id f rest with
  | _ n ih =>
  subst hn
  cases failure with
  | some e =>
      cases hfind : rest.find? (fun entry => entry.2.isAtomic library) with
      | none =>
          rw [List.find?_eq_none] at hfind
          exact ⟨_, _, _, .fails fun entry hentry => by simpa using hfind entry hentry⟩
      | some entry =>
          obtain ⟨hatomic, plain, lower, rfl, hplain⟩ := List.find?_eq_some_iff_append.1 hfind
          have hlt : lower.length < (plain ++ entry :: lower).length := by
            simp only [List.length_append, List.length_cons]
            omega
          refine Reaches.exists_cascade
            (.failure (fun entry hentry => by simpa using hplain entry hentry) hatomic) ?_
          exact ih _ hlt _ _ _ _ lower (fun entry hentry => hawaits entry (by simp [hentry])) rfl
  | none =>
      cases rest with
      | nil => exact ⟨_, _, _, .succeeds⟩
      | cons entry lower =>
          obtain ⟨parent, g⟩ := entry
          obtain ⟨goal, hgoal⟩ :=
            Option.isSome_iff_exists.1 (hawaits (parent, g) List.mem_cons_self)
          have hrest (fresh : Nat) (failure : Option InstructionError) (g : Frame) :
              ∃ ended left fresh',
                Cascade library aggregate fresh failure ((parent, g) :: lower) ended left fresh' :=
            ih lower.length (Nat.lt_succ_self _) fresh failure parent g lower
              (fun entry hentry => hawaits entry (List.mem_cons_of_mem _ hentry)) rfl
          cases hs : unifyLiterals goal (f.instantiated.freshen fresh).1 g.bindings with
          | ok s => exact Reaches.exists_cascade (.answer hgoal hs) (hrest _ _ _)
          | error error =>
              cases hatomic : g.isAtomic library with
              | true => exact Reaches.exists_cascade (.mismatch hgoal hs hatomic) (hrest _ _ _)
              | false =>
                  obtain ⟨ended, left, fresh', hrest⟩ := hrest _ _ _
                  exact ⟨_, _, _, .mismatch hgoal hs hatomic hrest⟩

end

end Deliberation
