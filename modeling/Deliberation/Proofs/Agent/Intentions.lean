import Deliberation.Proofs.Agent.Course
import Deliberation.Proofs.Intention.Stacks
import Deliberation.Proofs.Plan.Selection

/-!
The intentions of an agent are well formed in every run.

Every intention has a stack of frames that no other intention shares, and no frame is stored that
stands on no stack. While the frames of one intention end its stack is open: the other intentions
are as they should be, and what is left of the stack still stands on waiting frames. So a step never
meets a frame, a plan or an action that is missing.
-/

namespace Deliberation

namespace Agent

variable {a b : Agent} {place : Nat} {i : Intention} {P Q : Frame → Prop} {id : FrameId}
  {stack below : List FrameId} {f g : Frame} {failure : Option InstructionError}

theorem select?_plan {t : Trigger} {s : Selection Float} (h : a.select? t = some s) :
    ∃ p, a.library.find? s.plan = some p := by
  obtain ⟨c, _, p, hp, hplan, _⟩ := PlanLibrary.select_eq_some h
  exact ⟨p, hplan ▸ hp⟩

/-- A frame is suspended only for a plan that was selected, by the agent with some more names. -/
theorem execute_suspend {s : Substitution} {instruction : Instruction} {goal : Literal}
    {t : Trigger} {selection : Selection Float}
    (h : (a.execute s instruction).outcome = .ok (.suspend goal t selection)) :
    ∃ pattern kind, (instruction = .achieve pattern ∧ kind = .addGoal ∨
        instruction = .testGoal pattern ∧ kind = .testGoal) ∧
      goal = s.applyLiteral pattern ∧ t = ⟨kind, (goal.freshen a.fresh).1⟩ ∧
      (a.execute s instruction).bindings = s ∧
      (a.execute s instruction).agent = { a with fresh := (goal.freshen a.fresh).2 } ∧
      { a with fresh := (goal.freshen a.fresh).2 }.select? t = some selection := by
  cases instruction with
  | achieve pattern =>
      simp only [execute, executeAchieve, fails] at h ⊢
      split at h
      · simp at h
      · rename_i found hselect
        simp only [Except.ok.injEq, Step.suspend.injEq] at h
        obtain ⟨rfl, rfl, rfl⟩ := h
        exact ⟨pattern, .addGoal, Or.inl ⟨rfl, rfl⟩, rfl, rfl, rfl, rfl, hselect⟩
  | testGoal pattern =>
      simp only [execute, executeTestGoal, fails, succeeds] at h ⊢
      split at h
      · simp at h
      · split at h
        · rename_i found hselect
          simp only [Except.ok.injEq, Step.suspend.injEq] at h
          obtain ⟨rfl, rfl, rfl⟩ := h
          exact ⟨pattern, .testGoal, Or.inr ⟨rfl, rfl⟩, rfl, rfl, rfl, rfl, hselect⟩
        · simp at h
  | addBelief pattern =>
      simp only [execute, executeAdd, fails, succeeds] at h
      repeat' split at h
      all_goals simp at h
  | removeBelief pattern =>
      simp only [execute, executeRemove, succeeds] at h
      split at h <;> simp at h
  | updateBelief old new =>
      simp only [execute, executeUpdate, executeAdd, fails, succeeds] at h
      repeat' split at h
      all_goals simp at h
  | post posted =>
      simp only [execute, executePost, fails, succeeds] at h
      split at h <;> simp at h
  | assign name e =>
      simp only [execute, executeAssign, fails, succeeds] at h
      split at h <;> simp at h
  | unary name op =>
      simp only [execute, executeUnary, fails, succeeds] at h
      split at h <;> simp at h
  | test e =>
      simp only [execute, executeTest, fails] at h
      repeat' split at h
      all_goals simp at h
  | action call =>
      simp only [execute, executeAction, fails] at h
      repeat' split at h
      all_goals simp at h

end Agent

/-! ### Agents with sound and with open stacks -/

/-- A frame that waits for no sub-goal. -/
def Frame.AwaitsNothing (f : Frame) : Prop :=
  f.awaiting = none

/-- A frame that got through an instruction or a sub-goal, before it is known whether it goes on. -/
structure Frame.Active (library : PlanLibrary) (f : Frame) : Prop where
  state : f.state = .running
  pos : 0 < f.pc
  awaiting : f.awaiting = none
  degrees : f.degrees.length = f.pc
  plan : ∃ p, library.find? f.plan = some p ∧ (f.failure.isSome → p.atomic)

theorem Frame.ready_start {library : PlanLibrary} {plan : PlanId} {p : Plan}
    (hplan : library.find? plan = some p) (t : Trigger) (s : Substitution)
    (parent : Option FrameId) : (Frame.start plan t s parent).Ready library where
  state := Or.inl rfl
  waiting_iff := by simp [Frame.start]
  awaiting := rfl
  degrees := rfl
  plan := by
    refine ⟨p, hplan, by simp [Frame.start], ?_⟩
    intro hbody
    exact List.length_pos_iff.2 hbody

/-- A waiting frame becomes active, however its sub-goal came out. -/
theorem Frame.Waits.active {library : PlanLibrary} {f : Frame} (h : f.Waits library)
    (s : Substitution) (degree : Float) :
    { f with
      state := .running
      awaiting := none
      bindings := s
      degrees := f.degrees ++ [degree] }.Active library := by
  have hpos : 0 < f.pc := by
    rw [← h.degrees]
    exact Nat.succ_pos _
  refine ⟨rfl, hpos, rfl, ?_, h.plan⟩
  rw [List.length_append]
  exact h.degrees

/-- A ready frame becomes active when an instruction of it came to something. -/
theorem Frame.Ready.active {library : PlanLibrary} {f : Frame} (h : f.Ready library)
    (s : Substitution) (degree : Float) :
    { f with
      state := .running
      pc := f.pc + 1
      bindings := s
      degrees := f.degrees ++ [degree] }.Active library := by
  obtain ⟨p, hplan, hatomic, _⟩ := h.plan
  refine ⟨rfl, Nat.succ_pos _, h.awaiting, ?_, p, hplan, hatomic⟩
  rw [List.length_append, h.degrees]
  rfl

/-- A frame goes on only if its plan has another instruction. -/
theorem Frame.lt_of_verdict {f : Frame} {p : Plan} {r : Result} (h : f.verdict p r = none) :
    f.pc < p.body.length := by
  unfold Frame.verdict at h
  split at h
  · simp at h
  · split at h
    · assumption
    · simp at h

/-- An active frame that goes on is ready. -/
theorem Frame.ready_absorb {library : PlanLibrary} {f : Frame} {p : Plan} {r : Result}
    (h : { f with degrees := f.degrees ++ [r.degree] }.Active library)
    (hplan : library.find? f.plan = some p) (hverdict : f.verdict p r = none) :
    (f.absorb p r).Ready library := by
  obtain ⟨p', hplan', hatomic⟩ := h.plan
  obtain rfl : p = p' := Option.some.inj (hplan.symm.trans hplan')
  have hstate : f.state = .running := h.state
  have hne : f.pc ≠ 0 := Nat.pos_iff_ne_zero.1 h.pos
  have hpc := Frame.lt_of_verdict hverdict
  refine ⟨Or.inr h.state, by simp [Frame.absorb, hstate, hne], h.awaiting, h.degrees, p, hplan, ?_,
    fun _ => hpc⟩
  cases hp : p.atomic with
  | true => exact fun _ => rfl
  | false => simpa [Frame.absorb, hp] using hatomic

namespace Agent

variable {a b : Agent} {place : Nat} {i : Intention} {P Q : Frame → Prop} {id : FrameId}
  {stack below : List FrameId} {f g : Frame} {failure : Option InstructionError}

/-- Every action that a plan calls is registered. -/
def Equipped (a : Agent) : Prop :=
  ∀ p ∈ a.library.plans, ∀ name ∈ p.actions, a.actions.contains name = true

/-- The intentions of an agent own its frames. -/
structure Sound (a : Agent) : Prop where
  serves : a.frames.Serves a.library (a.intentions.map Intention.stack)
  equipped : a.Equipped

/-- The intention at a place is open: `stack` is what is left of its stack, with a frame on top of
which `P` holds, and the other intentions own all other frames. -/
structure Opens (a : Agent) (place : Nat) (P : Frame → Prop) (stack : List FrameId) : Prop where
  place_lt : place < a.intentions.length
  arranged : a.frames.Arranged a.library P stack
    ((a.intentions.eraseIdx place).map Intention.stack)
  equipped : a.Equipped

theorem Sound.congr (h : a.Sound) (hframes : b.frames = a.frames)
    (hintentions : b.intentions = a.intentions) (hlibrary : b.library = a.library)
    (hactions : b.actions = a.actions) : b.Sound := by
  refine ⟨?_, ?_⟩
  · rw [hframes, hintentions, hlibrary]
    exact h.serves
  · unfold Equipped
    rw [hlibrary, hactions]
    exact h.equipped

theorem Opens.congr (h : a.Opens place P stack) (hframes : b.frames = a.frames)
    (hintentions : b.intentions = a.intentions) (hlibrary : b.library = a.library)
    (hactions : b.actions = a.actions) : b.Opens place P stack := by
  refine ⟨?_, ?_, ?_⟩
  · rw [hintentions]
    exact h.place_lt
  · rw [hframes, hintentions, hlibrary]
    exact h.arranged
  · unfold Equipped
    rw [hlibrary, hactions]
    exact h.equipped

/-- An intention of a sound agent may be opened. -/
theorem Sound.opens (h : a.Sound) (hi : a.intentions[place]? = some i) :
    a.Opens place (Frame.Ready a.library) i.stack := by
  obtain ⟨hlt, hget⟩ := List.getElem?_eq_some_iff.1 hi
  refine ⟨hlt, FrameArena.arranged_ready_iff.2 ?_, h.equipped⟩
  have hperm := (List.getElem_cons_eraseIdx_perm hlt).symm.map Intention.stack
  rw [List.map_cons, hget] at hperm
  exact h.serves.perm hperm

/-- An open intention whose top frame can run is closed by noting its stack. -/
theorem Opens.setStack (h : a.Opens place (Frame.Ready a.library) stack) :
    (a.setStack place stack).Sound := by
  refine ⟨?_, h.equipped⟩
  have hserves := FrameArena.arranged_ready_iff.1 h.arranged
  refine hserves.perm ?_
  have hlt := h.place_lt
  have hset : (a.intentions.modify place fun i => { i with stack := stack }) =
      a.intentions.set place { a.intentions[place] with stack := stack } := by
    apply List.ext_getElem?
    intro k
    by_cases hk : place = k
    · subst hk
      simp [hlt]
    · simp [List.getElem?_set_ne hk, List.getElem?_modify_ne _ _ hk]
  have hperm := (List.set_perm_cons_eraseIdx hlt
    { a.intentions[place] with stack := stack }).symm.map Intention.stack
  rw [← hset] at hperm
  exact hperm

theorem Opens.store (h : a.Opens place P (id :: below)) (hQ : Q g)
    (hparent : g.parent = below.head?) : (a.storeFrame id g).Opens place Q (id :: below) :=
  ⟨h.place_lt, h.arranged.store hparent hQ, h.equipped⟩

theorem Opens.push (h : a.Opens place (Frame.Waits a.library) (id :: below)) {t : Trigger}
    {selection : Selection Float} {p : Plan}
    (hplan : a.library.find? selection.plan = some p) :
    (a.pushSubgoal place (id :: below) id t selection).Sound := by
  let child := Frame.start selection.plan t selection.bindings (some id)
  have hchild : child.Ready a.library := Frame.ready_start hplan t _ _
  have hopens : { a with frames := (a.frames.insert child).2 }.Opens place
      (Frame.Ready a.library) ((a.frames.insert child).1 :: id :: below) :=
    ⟨h.place_lt, h.arranged.push rfl hchild, h.equipped⟩
  exact hopens.setStack

end Agent

/-- What a step of the intention at a place comes to: a sound agent, or one with an open intention
whose top frame ends. -/
def Progress.Keeps (place : Nat) (stack : List FrameId) : Progress → Prop
  | .done b => b.Sound
  | .ends b _ => b.Opens place Frame.AwaitsNothing stack

namespace Agent

variable {a b c : Agent} {place : Nat} {i : Intention} {P Q : Frame → Prop} {id parent : FrameId}
  {stack below : List FrameId} {f g : Frame} {failure : Option InstructionError} {j : Journal}

/-- An active frame goes on if its plan has another instruction, and ends otherwise. -/
theorem Opens.absorb {p : Plan} {r : Result} (h : a.Opens place P (id :: below))
    (hactive : { f with degrees := f.degrees ++ [r.degree] }.Active a.library)
    (hplan : a.library.find? f.plan = some p) (hparent : f.parent = below.head?) :
    (Progress.of (a.storeFrame id (f.absorb p r)) place (id :: below) (f.verdict p r)).Keeps place
      (id :: below) := by
  cases hverdict : f.verdict p r with
  | none => exact (h.store (Frame.ready_absorb hactive hplan hverdict) hparent).setStack
  | some failure =>
      have hawaiting : (f.absorb p r).AwaitsNothing := hactive.awaiting
      exact h.store hawaiting hparent

/-- The frame on top of an open stack is there, and so is the one that waits for it. -/
theorem Opens.top (h : a.Opens place P (id :: below)) :
    ∃ f frames, a.frames.remove? id = some (f, frames) ∧ P f ∧ f.parent = below.head? := by
  obtain ⟨⟨f, hf, hparent, hP⟩, _⟩ := h.arranged.top
  obtain ⟨frames, hr⟩ := FrameArena.remove?_isSome hf
  exact ⟨f, frames, hr, hP, hparent⟩

/-! ### Steps and ticks -/

theorem Sound.top (h : a.Sound) (hi : a.intentions[place]? = some i) :
    ∃ id below f p, i.stack = id :: below ∧ a.frames.find? id = some f ∧
      f.parent = below.head? ∧ f.Ready a.library ∧ a.library.find? f.plan = some p := by
  have hstacked := (h.opens hi).arranged.top
  cases hstack : i.stack with
  | nil =>
      rw [hstack] at hstacked
      exact hstacked.elim
  | cons id below =>
      rw [hstack] at hstacked
      obtain ⟨⟨f, hf, hparent, hready⟩, _⟩ := hstacked
      obtain ⟨p, hplan, _⟩ := hready.plan
      exact ⟨id, below, f, p, rfl, hf, hparent, hready, hplan⟩

theorem Sound.ready (h : a.Sound) (htop : a.TopFrame place i id below f) :
    f.parent = below.head? ∧ f.Ready a.library := by
  obtain ⟨id', below', f', p, hstack, hf, hparent, hready, _⟩ := h.top htop.intention
  obtain ⟨rfl, rfl⟩ := List.cons.inj (htop.stack.symm.trans hstack)
  obtain rfl := Option.some.inj (htop.frame.symm.trans hf)
  exact ⟨hparent, hready⟩

theorem Sound.find?_ne_none (h : a.Sound) (hi : a.intentions[place]? = some i)
    (hstack : i.stack = id :: below) : a.frames.find? id ≠ none := by
  obtain ⟨id', below', f, _, hstack', hf, _⟩ := h.top hi
  obtain ⟨rfl, _⟩ := List.cons.inj (hstack.symm.trans hstack')
  simp [hf]

/-- The stack is open when the frame on top begins to run. -/
theorem Sound.started (h : a.Sound) (htop : a.TopFrame place i id below f) :
    (a.started id f).Opens place Frame.AwaitsNothing (id :: below) := by
  obtain ⟨hparent, hready⟩ := h.ready htop
  have hopens := h.opens htop.intention
  rw [htop.stack] at hopens
  have hawaiting : { f with state := .running }.AwaitsNothing := hready.awaiting
  exact hopens.store hawaiting hparent

theorem Sound.executed (h : a.Sound) (htop : a.TopFrame place i id below f)
    (instruction : Instruction) :
    (a.executed id f instruction).agent.Opens place Frame.AwaitsNothing (id :: below) := by
  obtain ⟨beliefs, pending, fresh, hagent⟩ :=
    execute_agent (a.started id f) f.bindings instruction
  rw [Agent.executed, hagent]
  exact (h.started htop).congr rfl rfl rfl rfl

theorem Sound.valid_executed (h : a.Sound) (id : FrameId) (f g : Frame)
    (instruction : Instruction) :
    ((a.executed id f instruction).agent.storeFrame id g).frames.Valid := by
  rw [storeFrame, frames_executed]
  exact (h.serves.valid.modify _ _).modify _ _

/-- The frame for a sub-goal is put on the stack. -/
theorem Sound.suspend {p : Plan} {instruction : Instruction} {goal : Literal} {t : Trigger}
    {selection : Selection Float} (h : a.Sound) (hruns : a.Runs place i id below f p instruction)
    (houtcome : (a.executed id f instruction).outcome = .ok (.suspend goal t selection))
    (s : Substitution) :
    (((a.executed id f instruction).agent.storeFrame id { f with
      state := .suspended
      pc := f.pc + 1
      bindings := s
      awaiting := some goal }).pushSubgoal place i.stack id t selection).Sound := by
  obtain ⟨hparent, hready⟩ := h.ready hruns.toTopFrame
  obtain ⟨q, hplan, hatomic, _⟩ := hready.plan
  obtain ⟨_, _, _, _, _, _, _, hselect⟩ := execute_suspend houtcome
  obtain ⟨q', hplan'⟩ := select?_plan hselect
  have hlibrary := a.library_executed id f instruction
  have hwaits : { f with
      state := .suspended
      pc := f.pc + 1
      bindings := s
      awaiting := some goal }.Waits (a.executed id f instruction).agent.library := by
    rw [hlibrary]
    exact ⟨rfl, rfl, by simp [hready.degrees], q, hplan, hatomic⟩
  rw [hruns.stack]
  refine ((h.executed hruns.toTopFrame instruction).store hwaits hparent).push (p := q') ?_
  rw [storeFrame, hlibrary]
  exact hplan'

/-- The frame on top of an open stack is taken off. -/
theorem Opens.of_closes (h : a.Opens place P (id :: below))
    (hcloses : a.Closes i id below.length failure f c) : P f ∧ f.parent = below.head? := by
  obtain ⟨_, hr, _⟩ := hcloses
  obtain ⟨f', _, hr', hf⟩ := h.top
  rw [hr] at hr'
  obtain ⟨rfl, _⟩ := Prod.mk.injEq .. ▸ Option.some.inj hr'
  exact hf

/-- The intention ends with its last frame. -/
theorem Opens.endIntention (h : a.Opens place P (id :: below))
    (hcloses : a.Closes i id below.length failure f c) (hparent : f.parent = none) :
    (c.endIntention place i failure).Sound := by
  have hhead := (h.of_closes hcloses).2
  obtain ⟨frames, hr, rfl⟩ := hcloses
  rw [hparent] at hhead
  obtain rfl := List.head?_eq_none_iff.1 hhead.symm
  rw [endIntention_eq]
  exact ⟨h.arranged.remove_last hr, h.equipped⟩

/-- The frame below waits for the one that is taken off. -/
theorem Opens.waits_of_closes (h : a.Opens place P (id :: below))
    (hcloses : a.Closes i id below.length failure f c) (hparent : f.parent = some parent) :
    ∃ g lower, below = parent :: lower ∧ c.frames.find? parent = some g ∧
      g.parent = lower.head? ∧ g.Waits a.library ∧
      ∀ fresh, { c with fresh }.Opens place (Frame.Waits a.library) (parent :: lower) := by
  have hhead := (h.of_closes hcloses).2
  obtain ⟨frames, hr, rfl⟩ := hcloses
  rw [hparent] at hhead
  obtain ⟨lower, rfl⟩ := List.head?_eq_some_iff.1 hhead.symm
  have harranged := h.arranged.remove_above hr
  obtain ⟨⟨g, hg, hgparent, hwaits⟩, _⟩ := harranged.top
  exact ⟨g, lower, rfl, hg, hgparent, hwaits, fun _ => ⟨h.place_lt, harranged, h.equipped⟩⟩

/-- On the whole course of a step the other intentions are as they should be. -/
theorem Sound.course {progress : Progress} (h : a.Sound)
    (hcourse : Course a place i j stack progress) : progress.Keeps place stack := by
  -- What is left of the stack is open by induction, so the rules for lost frames do not apply.
  induction hcourse with
  | lost hi hstack hnone => exact absurd hnone (h.find?_ne_none hi hstack)
  | exhaust htop _ =>
      rw [htop.stack]
      exact h.started htop
  | @run id below f g p instruction r hruns hr hg =>
      obtain ⟨hparent, hready⟩ := h.ready hruns.toTopFrame
      have hlibrary := a.library_executed id f instruction
      subst hg
      rw [hruns.stack]
      refine (h.executed hruns.toTopFrame instruction).absorb ?_ (hlibrary ▸ hruns.plan) hparent
      rw [hlibrary]
      exact hready.active _ _
  | suspend hruns houtcome hg =>
      subst hg
      exact h.suspend hruns houtcome _
  | skip _ hnone ih =>
      obtain ⟨_, _, hr, _⟩ := ih.top
      simp [hnone] at hr
  | bare _ ih => exact ih.arranged.top.elim
  | endRoot _ hcloses hparent ih => exact ih.endIntention hcloses hparent
  | orphan _ hcloses hparent hnone ih =>
      obtain ⟨_, _, _, hg, _⟩ := ih.waits_of_closes hcloses hparent
      simp [hnone] at hg
  | endChild _ hcloses hparent hg hq _ _ hback ih =>
      obtain ⟨g', lower, rfl, hg', hgparent, hwaits, hopens⟩ := ih.waits_of_closes hcloses hparent
      obtain rfl := Option.some.inj (hg.symm.trans hg')
      obtain ⟨q', hplan, _⟩ := hwaits.plan
      obtain ⟨_, _, rfl⟩ := hcloses
      obtain rfl := hq q' hplan
      subst hback
      exact (hopens _).absorb (hwaits.active _ _) hplan hgparent

theorem Sound.step (h : a.Sound) (place : Nat) : (a.step place).Sound := by
  obtain ⟨hstep, _⟩ | ⟨i, rest, hcourse⟩ := a.step_cases place
  · rw [hstep]
    exact h
  · exact h.course hcourse

theorem choose_eq_some {t : Trigger} {chosen : Trigger × Selection Float}
    (h : a.choose t = some chosen) :
    chosen.1.literal = t.literal ∧ a.select? chosen.1 = some chosen.2 := by
  unfold choose at h
  split at h
  · rename_i selection hselect
    obtain rfl := Option.some.inj h
    exact ⟨rfl, hselect⟩
  · split at h
    · obtain ⟨selection, hselect, rfl⟩ := Option.map_eq_some_iff.1 h
      exact ⟨rfl, hselect⟩
    · simp at h

theorem Sound.handle (h : a.Sound) (t : Trigger) : (a.handle t).Sound := by
  unfold Agent.handle
  simp only
  split
  · rename_i t' selection hchoose
    obtain ⟨p, hplan⟩ := select?_plan (choose_eq_some hchoose).2
    have hserves := h.serves.start
      (g := .start selection.plan t' selection.bindings none) rfl
      (Frame.ready_start hplan t' selection.bindings none)
    refine ⟨hserves.perm ?_, h.equipped⟩
    simp only [List.map_append, List.map_cons, List.map_nil]
    exact List.perm_append_singleton _ _ |>.symm
  · split
    · exact h.congr rfl rfl rfl rfl
    · exact h.congr rfl rfl rfl rfl

theorem Sound.awake (h : a.Sound) : a.awake.Sound := by
  obtain ⟨_, _, _, _, heq⟩ := a.awake_eq
  rw [heq]
  exact h.congr rfl rfl rfl rfl

theorem Sound.conclude (h : a.Sound) : a.conclude.Sound :=
  h.congr rfl rfl rfl rfl

theorem Sound.tick (h : a.Sound) : a.tick.2.Sound := by
  obtain ⟨_, heq⟩ | heq | ⟨t, rest, _, heq⟩ | ⟨place, _, _, heq⟩ := a.tick_cases
  · rw [heq]
    exact h
  · rw [heq]
    exact h.awake.conclude
  · rw [heq]
    have hawake : { a.awake with pending := rest }.Sound := h.awake.congr rfl rfl rfl rfl
    exact (hawake.handle t).conclude
  · rw [heq]
    exact (h.awake.step place).conclude

theorem Sound.trigger (h : a.Sound) {t : Trigger} (hb : a.trigger t = .ok b) : b.Sound := by
  obtain ⟨_, rfl⟩ := trigger_eq_ok hb
  exact h.congr rfl rfl rfl rfl

theorem Sound.perform (h : a.Sound) (op : Operation) : (a.perform op).Sound := by
  cases op with
  | tick => exact h.tick
  | trigger t =>
      simp only [Agent.perform]
      split
      · rename_i b hb
        exact h.trigger hb
      · exact h
  | achieve goal =>
      simp only [Agent.perform, achieve]
      split
      · rename_i b hb
        exact h.trigger hb
      · exact h
  | wakeUp terms =>
      simp only [Agent.perform, Agent.wakeUp]
      split
      · exact h
      · exact h.congr rfl rfl rfl rfl
  | perceive | hear | fallAsleep | terminate | drainReports => exact h.congr rfl rfl rfl rfl

/-! ### Runs -/

theorem sound_blank {spec : AgentSpec} (h : spec.undefinedAction? = none) (beliefs : BeliefBase) :
    (spec.blank beliefs).Sound := by
  refine ⟨⟨FrameArena.valid_empty, ?_, ?_, rfl⟩, ?_⟩
  · simp [AgentSpec.blank]
  · simp [AgentSpec.blank]
  · intro p hp name hname
    have hnone := List.findSome?_eq_none_iff.1 h p hp
    rw [Option.map_eq_none_iff, List.find?_eq_none] at hnone
    have hregistered := hnone name hname
    rw [Bool.not_eq_true, Bool.not_eq_false'] at hregistered
    exact hregistered

theorem sound_build {spec : AgentSpec} (h : spec.build = .ok a) : a.Sound := by
  obtain ⟨hundefined, beliefs, _, hgoals⟩ := build_eq_ok h
  refine List.foldlM_induction (P := Sound) ?_ (sound_blank hundefined beliefs) hgoals
  intro b goal _ c hb hc
  exact hb.trigger (Except.mapError_eq_ok_iff.1 hc)

theorem sound_performAll {spec : AgentSpec} (h : spec.build = .ok a) (operations : List Operation) :
    (a.performAll operations).Sound :=
  performAll_induction (fun _ op hb _ => hb.perform op) (sound_build h) (a.admits_true operations)

/-- In every round of a step the stack is open, and the intention is still there. -/
theorem Sound.round (h : a.Sound) (hround : Round a place i stack b failure) :
    b.Opens place Frame.AwaitsNothing stack ∧ b.intentions[place]? = some i := by
  obtain ⟨j, hcourse⟩ := hround.course
  exact ⟨h.course hcourse, hcourse.intention_of_ends⟩

/-- The intentions of an agent and its frames fit together: every stack has a frame on top that can
run, over frames that wait; no frame stands twice on the stacks, and there is no other frame. -/
structure WellFormed (a : Agent) : Prop where
  stacked : ∀ i ∈ a.intentions, a.frames.Stacked a.library i.stack
  distinct : (a.intentions.flatMap Intention.stack).Nodup
  size : a.frames.size = (a.intentions.flatMap Intention.stack).length

theorem Sound.wellFormed (h : a.Sound) : a.WellFormed where
  stacked i hi := h.serves.stacked i.stack (List.mem_map_of_mem hi)
  distinct := h.serves.distinct
  size := h.serves.size

/-- A step of the intention at a place finds whatever it looks for: the frame on top and its plan,
the action that it calls, and in every round the frame that ends and the one that waits for it. -/
structure Complete (a : Agent) (place : Nat) (i : Intention) : Prop where
  turn : ∃ id below f p, i.stack = id :: below ∧ a.frames.find? id = some f ∧
    a.library.find? f.plan = some p ∧
    ∀ call, p.body[f.pc]? = some (.action call) → ∃ action, a.actions.find? call.name = some action
  round : ∀ stack b failure, Round a place i stack b failure →
    ∃ id below f frames, stack = id :: below ∧ b.frames.remove? id = some (f, frames) ∧
      ∀ parent, f.parent = some parent →
        ∃ g p, frames.find? parent = some g ∧ b.library.find? g.plan = some p

theorem Equipped.find? {p : Plan} {plan : PlanId} {call : ActionCall} {pc : Nat} (h : a.Equipped)
    (hplan : a.library.find? plan = some p) (hcall : p.body[pc]? = some (.action call)) :
    ∃ action, a.actions.find? call.name = some action := by
  have hname : call.name ∈ p.actions :=
    List.mem_filterMap.2 ⟨.action call, List.mem_of_getElem? hcall, rfl⟩
  exact Option.isSome_iff_exists.1 (h p (List.mem_of_getElem? hplan) call.name hname)

theorem Sound.complete (h : a.Sound) (hi : a.intentions[place]? = some i) :
    a.Complete place i where
  turn := by
    obtain ⟨id, below, f, p, hstack, hf, _, _, hplan⟩ := h.top hi
    exact ⟨id, below, f, p, hstack, hf, hplan, fun call hcall => h.equipped.find? hplan hcall⟩
  round stack b failure hround := by
    have hopens := (h.round hround).1
    cases stack with
    | nil => exact hopens.arranged.top.elim
    | cons id below =>
        obtain ⟨f, frames, hr, _, hparent⟩ := hopens.top
        refine ⟨id, below, f, frames, rfl, hr, ?_⟩
        intro parent hsome
        rw [hparent] at hsome
        obtain ⟨rest, rfl⟩ := List.head?_eq_some_iff.1 hsome
        obtain ⟨⟨g, hg, _, hwaits⟩, _⟩ := (hopens.arranged.remove_above hr).top
        obtain ⟨p, hplan, _⟩ := hwaits.plan
        exact ⟨g, p, hg, hplan⟩

/-- After any run of a built agent its intentions are well formed, and the next tick finds every
frame, plan and action that it looks for. -/
theorem performAll_wellFormed {spec : AgentSpec} (h : spec.build = .ok a)
    (operations : List Operation) :
    (a.performAll operations).WellFormed ∧
      ∀ place i, (a.performAll operations).awake.intentions[place]? = some i →
        (a.performAll operations).awake.Complete place i := by
  have hsound := sound_performAll h operations
  exact ⟨hsound.wellFormed, fun place i hi => hsound.awake.complete hi⟩

/-- An agent with a plan that goes on after failures and pursues a sub-goal, whose plan fails. -/
def nestedGoals : AgentSpec where
  id := ⟨1⟩
  config := .default
  library := .ofPlans
    [⟨⟨.addGoal, .atom "outer"⟩, none, [.achieve (.atom "inner")], true⟩,
     ⟨⟨.addGoal, .atom "inner"⟩, none, [.unary "N" .increment], false⟩]
  actions := .empty
  scorer := weightScorer
  hearing := none
  beliefs := []
  goals := [.atom "outer"]

theorem performAll_wellFormed_nestedGoals :
    ∃ a, nestedGoals.build = .ok a ∧
      (a.performAll [.tick, .tick]).intentions.map (fun i => i.stack.length) = [2] ∧
      (a.performAll [.tick, .tick]).WellFormed ∧
      (a.performAll [.tick, .tick, .tick]).intentions.length = 0 ∧
      (a.performAll [.tick, .tick, .tick]).WellFormed := by
  have hbuild : nestedGoals.build = .ok _ := rfl
  refine ⟨_, hbuild, ?_, (performAll_wellFormed hbuild _).1, ?_,
    (performAll_wellFormed hbuild _).1⟩
  · decide +kernel
  · decide +kernel

end Agent
end Deliberation
