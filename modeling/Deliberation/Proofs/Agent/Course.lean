import Deliberation.Proofs.Agent.Journal

/-!
The course of a step.

A step runs an instruction of the frame on top of a stack, or finds that there is none, and then
frames end one after the other until one of them goes on. `Agent.Course` has a rule for each thing
that can happen on the way, with what the journal tells of it. The functions that make up a step are
taken apart only here: what a step keeps is shown rule by rule.
-/

namespace Deliberation

/-! ### What an instruction comes to for its frame -/

namespace Frame

/-- The frame with what an instruction came to. A plan that goes on after failures notes the first
one. -/
def absorb (f : Frame) (p : Plan) (r : Result) : Frame :=
  { f with
    degrees := f.degrees ++ [r.degree]
    failure := if p.atomic then f.failure.or r.failure else f.failure }

/-- Whether a frame ends after an instruction came to something, and with which failure. -/
def verdict (f : Frame) (p : Plan) (r : Result) : Option (Option InstructionError) :=
  match r.failure, p.atomic with
  | some e, false => some (some e)
  | _, _ => if f.pc < p.body.length then none else some (f.absorb p r).failure

/-- A frame that is told how its sub-goal came out runs again, with bindings that it may have
got. -/
theorem resume_eq_running (f : Frame) (degree : Float) (failure : Option InstructionError)
    (resolved : Option Literal) :
    (f.resume degree failure resolved).1 =
      { f with
        state := .running
        awaiting := none
        bindings := (f.resume degree failure resolved).1.bindings
        degrees := f.degrees ++ [degree] } := by
  simp only [resume]
  split
  · split <;> rfl
  · rfl

end Frame

namespace Progress

/-- The agent after a turn. -/
def agent : Progress → Agent
  | .done a => a
  | .ends a _ => a

/-- The step of the agent is over, or the frame on top has to end. -/
def of (a : Agent) (place : Nat) (stack : List FrameId) :
    Option (Option InstructionError) → Progress
  | none => .done (a.setStack place stack)
  | some failure => .ends a failure

theorem eq_of_of_eq_ends {a b : Agent} {place : Nat} {stack : List FrameId}
    {verdict : Option (Option InstructionError)} {failure : Option InstructionError}
    (h : of a place stack verdict = .ends b failure) : b = a := by
  cases verdict with
  | none => simp [of] at h
  | some failure' =>
      simp only [of, ends.injEq] at h
      exact h.1.symm

theorem eq_of_of_eq_done {a b : Agent} {place : Nat} {stack : List FrameId}
    {verdict : Option (Option InstructionError)} (h : of a place stack verdict = .done b) :
    b = a.setStack place stack := by
  cases verdict with
  | none =>
      simp only [of, done.injEq] at h
      exact h.symm
  | some failure => simp [of] at h

/-- What does not depend on whether the stack is noted. -/
theorem agent_of {P : Agent → Prop} {a : Agent} {place : Nat} {stack : List FrameId} (h : P a)
    (hnoted : P (a.setStack place stack)) (verdict : Option (Option InstructionError)) :
    P (of a place stack verdict).agent := by
  cases verdict with
  | none => exact hnoted
  | some failure => exact h

end Progress

namespace Agent

variable {a b c : Agent} {place : Nat} {i : Intention} {id parent : FrameId}
  {stack below rest : List FrameId} {f g : Frame} {p : Plan} {instruction : Instruction}
  {failure : Option InstructionError} {j : Journal}

theorem bodyOf_eq {plan : PlanId} (h : a.library.find? plan = some p) :
    a.bodyOf plan = (p.atomic, p.body.length) := by
  simp [bodyOf, h]

/-- A plan that is missing is like one without instructions. -/
theorem exists_bodyOf (a : Agent) (plan : PlanId) (t : Trigger) :
    ∃ q : Plan, a.bodyOf plan = (q.atomic, q.body.length) ∧
      ∀ p, a.library.find? plan = some p → q = p := by
  cases hplan : a.library.find? plan with
  | none => exact ⟨⟨t, none, [], false⟩, by simp [bodyOf, hplan], by simp⟩
  | some p => exact ⟨p, bodyOf_eq hplan, by simp⟩

theorem settle_eq (a : Agent) (place : Nat) (stack : List FrameId) (id : FrameId) (f : Frame)
    (hbody : a.bodyOf f.plan = (p.atomic, p.body.length)) (r : Result) :
    a.settle place stack id { f with degrees := f.degrees ++ [r.degree] } r.failure =
      .of (a.storeFrame id (f.absorb p r)) place stack (f.verdict p r) := by
  obtain ⟨degree, failure⟩ := r
  simp only [settle, hbody, Frame.absorb, Frame.verdict]
  cases failure with
  | none =>
      simp only [Option.or_none, ite_self]
      split <;> rfl
  | some e =>
      cases p.atomic with
      | false => rfl
      | true =>
          simp only [↓reduceIte]
          split <;> rfl

theorem endIntention_eq (a : Agent) (place : Nat) (i : Intention)
    (failure : Option InstructionError) :
    a.endIntention place i failure = { a with
      intentions := a.intentions.eraseIdx place
      pending := a.pending ++ if failure.isSome && i.root.kind = .addGoal then
        [⟨.removeGoal, i.root.literal⟩] else [] } := by
  simp only [endIntention, dropIntention, enqueue]
  split <;> simp

/-- The intentions of an agent keep their names and their triggers when a stack is noted. -/
theorem exists_of_mem_setStack (h : i ∈ (a.setStack place stack).intentions) :
    ∃ k ∈ a.intentions, i.id = k.id ∧ i.root = k.root := by
  obtain ⟨n, hn⟩ := List.mem_iff_getElem?.1 h
  rw [setStack, List.getElem?_modify] at hn
  obtain ⟨k, hk, rfl⟩ := Option.map_eq_some_iff.1 hn
  refine ⟨k, List.mem_of_getElem? hk, ?_⟩
  split <;> exact ⟨rfl, rfl⟩

/-! ### The rules -/

/-- The frame on top of the stack of the intention at a place. -/
structure TopFrame (a : Agent) (place : Nat) (i : Intention) (id : FrameId) (below : List FrameId)
    (f : Frame) : Prop where
  intention : a.intentions[place]? = some i
  stack : i.stack = id :: below
  frame : a.frames.find? id = some f

/-- The frame on top of a stack has an instruction to run. -/
structure Runs (a : Agent) (place : Nat) (i : Intention) (id : FrameId) (below : List FrameId)
    (f : Frame) (p : Plan) (instruction : Instruction) : Prop
    extends a.TopFrame place i id below f where
  plan : a.library.find? f.plan = some p
  body : p.body[f.pc]? = some instruction

/-- The instruction that the turn of the intention at a place runs, and the bindings of its
frame. -/
def upcoming? (a : Agent) (place : Nat) : Option (Substitution × Instruction) := do
  let i ← a.intentions[place]?
  let id ← i.stack.head?
  let f ← a.frames.find? id
  let p ← a.library.find? f.plan
  let instruction ← p.body[f.pc]?
  return (f.bindings, instruction)

theorem Runs.upcoming? (h : a.Runs place i id below f p instruction) :
    a.upcoming? place = some (f.bindings, instruction) := by
  simp [Agent.upcoming?, h.intention, h.stack, h.frame, h.plan, h.body]

/-- The agent when a frame begins to run. -/
def started (a : Agent) (id : FrameId) (f : Frame) : Agent :=
  a.storeFrame id { f with state := .running }

/-- What comes of an instruction of a frame. -/
def executed (a : Agent) (id : FrameId) (f : Frame) (instruction : Instruction) : Executed :=
  (a.started id f).execute f.bindings instruction

/-- A frame is taken off its stack, counted and reported. -/
def Closes (a : Agent) (i : Intention) (id : FrameId) (depth : Nat)
    (failure : Option InstructionError) (f : Frame) (b : Agent) : Prop :=
  ∃ frames, a.frames.remove? id = some (f, frames) ∧
    b = { a with frames }.closeFrame i f depth failure

/-- How far a step of the intention `i` at a place got, what the journal tells of it, and what is
left of the stack of the intention when frames have ended. The rules `lost`, `skip`, `bare` and
`orphan` are for agents whose frames do not stand as they should. -/
inductive Course (a : Agent) (place : Nat) (i : Intention) :
    Journal → List FrameId → Progress → Prop
  | lost {id : FrameId} {below : List FrameId} :
      a.intentions[place]? = some i → i.stack = id :: below → a.frames.find? id = none →
      Course a place i [] i.stack (.done (a.dropIntention place))
  /-- There is no instruction to run. -/
  | exhaust {id : FrameId} {below : List FrameId} {f : Frame} {failure : Option InstructionError} :
      a.TopFrame place i id below f →
      (∀ p, a.library.find? f.plan = some p → p.body[f.pc]? = none ∧ failure = f.failure) →
      Course a place i [] i.stack (.ends (a.started id f) failure)
  | run {id : FrameId} {below : List FrameId} {f g : Frame} {p : Plan} {instruction : Instruction}
      {r : Result} :
      a.Runs place i id below f p instruction →
      Result.of? (a.executed id f instruction).outcome = some r →
      g = { f with
        state := .running
        pc := f.pc + 1
        bindings := (a.executed id f instruction).bindings } →
      Course a place i
        ((a.started id f).runEntries i.id id { f with state := .running } instruction) i.stack
        (.of ((a.executed id f instruction).agent.storeFrame id (g.absorb p r)) place i.stack
          (g.verdict p r))
  /-- A sub-goal is pursued. -/
  | suspend {id : FrameId} {below : List FrameId} {f g : Frame} {p : Plan}
      {instruction : Instruction} {goal : Literal} {t : Trigger} {selection : Selection Float} :
      a.Runs place i id below f p instruction →
      (a.executed id f instruction).outcome = .ok (.suspend goal t selection) →
      g = { f with
        state := .suspended
        pc := f.pc + 1
        bindings := (a.executed id f instruction).bindings
        awaiting := some goal } →
      Course a place i
        ((a.started id f).runEntries i.id id { f with state := .running } instruction) i.stack
        (.done (((a.executed id f instruction).agent.storeFrame id g).pushSubgoal place i.stack id t
          selection))
  | skip {j : Journal} {id : FrameId} {rest : List FrameId} {b : Agent}
      {failure : Option InstructionError} :
      Course a place i j (id :: rest) (.ends b failure) → b.frames.remove? id = none →
      Course a place i j rest (.ends b failure)
  | bare {j : Journal} {b : Agent} {failure : Option InstructionError} :
      Course a place i j [] (.ends b failure) →
      Course a place i j [] (.done (b.dropIntention place))
  /-- The last frame of an intention ends. -/
  | endRoot {j : Journal} {id : FrameId} {rest : List FrameId} {b c : Agent} {f : Frame}
      {failure : Option InstructionError} :
      Course a place i j (id :: rest) (.ends b failure) →
      b.Closes i id rest.length failure f c → f.parent = none →
      Course a place i
        (j ++ .closed i.id id (b.endReport i f rest.length failure) ::
          c.deliveryEntries i f failure) rest
        (.done (c.endIntention place i failure))
  | orphan {j : Journal} {id parent : FrameId} {rest : List FrameId} {b c : Agent} {f : Frame}
      {failure : Option InstructionError} :
      Course a place i j (id :: rest) (.ends b failure) →
      b.Closes i id rest.length failure f c → f.parent = some parent →
      c.frames.find? parent = none →
      Course a place i
        (j ++ .closed i.id id (b.endReport i f rest.length failure) ::
          c.deliveryEntries i f failure) rest
        (.done ({ c with fresh := (f.answer failure c.fresh).2 }.dropIntention place))
  /-- The frame for a sub-goal ends, and the one that waits for it is told. -/
  | endChild {j : Journal} {id parent : FrameId} {rest : List FrameId} {b c : Agent}
      {f g back : Frame} {q : Plan} {degree : Float} {told : Frame × Option InstructionError}
      {failure : Option InstructionError} :
      Course a place i j (id :: rest) (.ends b failure) →
      b.Closes i id rest.length failure f c → f.parent = some parent →
      c.frames.find? parent = some g → (∀ p, c.library.find? g.plan = some p → q = p) →
      degree = c.config.aggregation.aggregate f.degrees →
      told = g.resume degree failure (f.answer failure c.fresh).1 →
      back = { g with state := .running, awaiting := none, bindings := told.1.bindings } →
      Course a place i
        (j ++ .closed i.id id (b.endReport i f rest.length failure) ::
          c.deliveryEntries i f failure) rest
        (.of ({ c with fresh := (f.answer failure c.fresh).2 }.storeFrame parent
          (back.absorb q ⟨degree, told.2⟩)) place rest (back.verdict q ⟨degree, told.2⟩))

/-! ### Every step has a course -/

theorem runInstruction_eq {r : Result}
    (hr : Result.of? (a.execute f.bindings instruction).outcome = some r) :
    a.runInstruction place stack id f instruction =
      (a.execute f.bindings instruction).agent.settle place stack id
        { f with
          pc := f.pc + 1
          bindings := (a.execute f.bindings instruction).bindings
          degrees := f.degrees ++ [r.degree] } r.failure := by
  simp only [runInstruction]
  split
  · rename_i degree houtcome
    simp only [houtcome, Result.of?, Option.some.injEq] at hr
    subst hr
    rfl
  · rename_i houtcome
    simp [houtcome, Result.of?] at hr
  · rename_i e houtcome
    simp only [houtcome, Result.of?, Option.some.injEq] at hr
    subst hr
    rfl

theorem library_executed (a : Agent) (id : FrameId) (f : Frame) (instruction : Instruction) :
    (a.executed id f instruction).agent.library = a.library := by
  obtain ⟨beliefs, pending, fresh, hagent⟩ :=
    execute_agent (a.started id f) f.bindings instruction
  rw [executed, hagent]
  rfl

theorem frames_executed (a : Agent) (id : FrameId) (f : Frame) (instruction : Instruction) :
    (a.executed id f instruction).agent.frames = (a.started id f).frames := by
  obtain ⟨beliefs, pending, fresh, hagent⟩ :=
    execute_agent (a.started id f) f.bindings instruction
  rw [executed, hagent]

theorem intentions_executed (a : Agent) (id : FrameId) (f : Frame) (instruction : Instruction) :
    (a.executed id f instruction).agent.intentions = a.intentions := by
  obtain ⟨beliefs, pending, fresh, hagent⟩ :=
    execute_agent (a.started id f) f.bindings instruction
  rw [executed, hagent]
  rfl

theorem Runs.course (h : a.Runs place i id below f p instruction) :
    Course a place i ((a.started id f).runEntries i.id id { f with state := .running } instruction)
      i.stack
      ((a.started id f).runInstruction place i.stack id { f with state := .running }
        instruction) := by
  let g : Frame :=
    { f with
      state := .running
      pc := f.pc + 1
      bindings := (a.executed id f instruction).bindings }
  have hsettled {r : Result} (hr : Result.of? (a.executed id f instruction).outcome = some r) :
      (a.started id f).runInstruction place i.stack id { f with state := .running } instruction =
        .of ((a.executed id f instruction).agent.storeFrame id (g.absorb p r)) place i.stack
          (g.verdict p r) := by
    have hplan : (a.executed id f instruction).agent.library.find? f.plan = some p := by
      rw [library_executed]
      exact h.plan
    rw [runInstruction_eq (f := { f with state := .running }) hr]
    exact settle_eq (a.executed id f instruction).agent place i.stack id g (bodyOf_eq hplan) r
  -- An instruction comes to something at once, well or badly, or it has to wait for a sub-goal.
  match houtcome : (a.executed id f instruction).outcome with
  | .ok (.proceed degree) =>
      have hr : Result.of? (a.executed id f instruction).outcome = some ⟨degree, none⟩ := by
        rw [houtcome]
        rfl
      rw [hsettled hr]
      exact .run h hr rfl
  | .error e =>
      have hr : Result.of? (a.executed id f instruction).outcome = some ⟨e.truth, some e⟩ := by
        rw [houtcome]
        rfl
      rw [hsettled hr]
      exact .run h hr rfl
  | .ok (.suspend goal t selection) =>
      have houtcome' : ((a.started id f).execute
          { f with state := .running }.bindings instruction).outcome =
          .ok (.suspend goal t selection) := houtcome
      simp only [runInstruction, houtcome']
      exact .suspend h houtcome rfl

theorem course_turn (hi : a.intentions[place]? = some i) (hstack : i.stack = id :: below) :
    Course a place i (a.turnEntries place) i.stack (a.turn place) := by
  cases hf : a.frames.find? id with
  | none =>
      simp only [turn, turnEntries, hi, hstack, hf]
      rw [← hstack]
      exact .lost hi hstack hf
  | some f =>
      have htop : a.TopFrame place i id below f := ⟨hi, hstack, hf⟩
      have hlibrary : (a.storeFrame id { f with state := .running }).library = a.library := rfl
      simp only [turn, turnEntries, hi, hstack, hf, hlibrary]
      rw [← hstack]
      cases hplan : a.library.find? f.plan with
      | none => exact .exhaust htop (by simp [hplan])
      | some p =>
          cases hbody : p.body[f.pc]? with
          | none =>
              simp only [Option.elim_none, hbody]
              refine .exhaust htop fun q hq => ?_
              obtain rfl : p = q := Option.some.inj (hplan.symm.trans hq)
              exact ⟨hbody, rfl⟩
          | some instruction =>
              simp only [Option.elim_some, hbody]
              exact Runs.course ⟨htop, hplan, hbody⟩

namespace Course

theorem deliver {frames : FrameArena} (h : Course a place i j (id :: rest) (.ends b failure))
    (hr : b.frames.remove? id = some (f, frames))
    (hc : c = { b with frames }.closeFrame i f rest.length failure) :
    Course a place i
      (j ++ .closed i.id id (b.endReport i f rest.length failure) :: c.deliveryEntries i f failure)
      rest (c.deliver place i rest f failure) := by
  have hcloses : b.Closes i id rest.length failure f c := ⟨frames, hr, hc⟩
  unfold Agent.deliver
  cases hparent : f.parent with
  | none => exact h.endRoot hcloses hparent
  | some parent =>
      simp only
      cases hg : c.frames.find? parent with
      | none => exact h.orphan hcloses hparent hg
      | some g =>
          obtain ⟨q, hbody, hq⟩ := c.exists_bodyOf g.plan g.trigger
          simp only
          generalize hdegree : c.config.aggregation.aggregate f.degrees = degree
          generalize htold : g.resume degree failure (f.answer failure c.fresh).1 = told
          -- The frame as it is told, before it takes over what the sub-goal came to.
          let back := { g with state := .running, awaiting := none, bindings := told.1.bindings }
          have hback : told.1 = { back with degrees := back.degrees ++ [degree] } := by
            subst htold
            exact g.resume_eq_running degree failure _
          have hsettle := settle_eq { c with fresh := (f.answer failure c.fresh).2 } place rest
            parent back hbody ⟨degree, told.2⟩
          rw [hback, hsettle]
          exact h.endChild hcloses hparent hg hq hdegree.symm htold.symm rfl

/-- All frames that have to end one after the other end. -/
theorem unwind (h : Course a place i j stack (.ends b failure)) :
    ∃ rest, Course a place i (j ++ unwindEntries place i stack b failure) rest
      (.done (unwind place i stack b failure)) := by
  induction stack generalizing j b failure with
  | nil => exact ⟨[], by simpa [unwindEntries, Agent.unwind] using h.bare⟩
  | cons id rest ih =>
      rw [unwindEntries, Agent.unwind]
      cases hr : b.frames.remove? id with
      | none => exact ih (h.skip hr)
      | some removed =>
          obtain ⟨f, frames⟩ := removed
          have hdelivered := h.deliver hr rfl
          simp only
          cases hdeliver : ({ b with frames }.closeFrame i f rest.length failure).deliver place i
              rest f failure with
          | done c =>
              rw [hdeliver] at hdelivered
              exact ⟨rest, by simpa using hdelivered⟩
          | ends c failure' =>
              rw [hdeliver] at hdelivered
              simpa using ih hdelivered

end Course

/-- The other agent has other beliefs, triggers, frames, intentions, counts and reports at most, and
may have made up names. -/
def Touches (a b : Agent) : Prop :=
  ∃ beliefs pending frames intentions statistics reports fresh,
    b = { a with beliefs, pending, frames, intentions, statistics, reports, fresh }

theorem touches_executed (a : Agent) (id : FrameId) (f : Frame) (instruction : Instruction) :
    a.Touches (a.executed id f instruction).agent := by
  obtain ⟨beliefs, pending, fresh, hagent⟩ :=
    execute_agent (a.started id f) f.bindings instruction
  exact ⟨beliefs, pending, _, _, _, _, fresh, hagent⟩

namespace Course

variable {progress : Progress}

/-- A step leaves the name, the settings, the plans and the actions of an agent alone. -/
theorem touches (h : Course a place i j stack progress) : a.Touches progress.agent := by
  induction h with
  | lost => exact ⟨_, _, _, _, _, _, _, rfl⟩
  | exhaust => exact ⟨_, _, _, _, _, _, _, rfl⟩
  | @run id _ f _ _ instruction =>
      obtain ⟨_, _, _, _, _, _, _, hagent⟩ := a.touches_executed id f instruction
      rw [hagent]
      refine Progress.agent_of (P := a.Touches) ?_ ?_ _ <;> exact ⟨_, _, _, _, _, _, _, rfl⟩
  | @suspend id _ f _ _ instruction =>
      obtain ⟨_, _, _, _, _, _, _, hagent⟩ := a.touches_executed id f instruction
      rw [hagent]
      exact ⟨_, _, _, _, _, _, _, rfl⟩
  | skip _ _ ih => exact ih
  | bare _ ih =>
      obtain ⟨_, _, _, _, _, _, _, rfl⟩ := ih
      exact ⟨_, _, _, _, _, _, _, rfl⟩
  | endRoot _ hcloses _ ih =>
      obtain ⟨_, _, _, _, _, _, _, rfl⟩ := ih
      obtain ⟨_, _, rfl⟩ := hcloses
      rw [endIntention_eq]
      exact ⟨_, _, _, _, _, _, _, rfl⟩
  | orphan _ hcloses _ _ ih =>
      obtain ⟨_, _, _, _, _, _, _, rfl⟩ := ih
      obtain ⟨_, _, rfl⟩ := hcloses
      exact ⟨_, _, _, _, _, _, _, rfl⟩
  | endChild _ hcloses _ _ _ _ _ _ ih =>
      obtain ⟨_, _, _, _, _, _, _, rfl⟩ := ih
      obtain ⟨_, _, rfl⟩ := hcloses
      refine Progress.agent_of (P := a.Touches) ?_ ?_ _ <;> exact ⟨_, _, _, _, _, _, _, rfl⟩

theorem intention (h : Course a place i j stack progress) : a.intentions[place]? = some i := by
  induction h with
  | lost hi => exact hi
  | exhaust htop => exact htop.intention
  | run hruns => exact hruns.intention
  | suspend hruns => exact hruns.intention
  | skip _ _ ih => exact ih
  | bare _ ih => exact ih
  | endRoot _ _ _ ih => exact ih
  | orphan _ _ _ _ ih => exact ih
  | endChild _ _ _ _ _ _ _ _ ih => exact ih

/-- Until a step is over, the intentions stay as they were. -/
theorem intentions (h : Course a place i j stack (.ends b failure)) :
    b.intentions = a.intentions := by
  generalize hprogress : Progress.ends b failure = progress at h
  induction h generalizing b failure with
  | lost | suspend | bare | endRoot | orphan => cases hprogress
  | exhaust =>
      cases hprogress
      rfl
  | @run id _ f _ _ instruction =>
      rw [Progress.eq_of_of_eq_ends hprogress.symm]
      exact a.intentions_executed id f instruction
  | skip _ _ ih => exact ih hprogress
  | endChild _ hcloses _ _ _ _ _ _ ih =>
      obtain ⟨_, _, rfl⟩ := hcloses
      have hbefore := ih rfl
      rw [Progress.eq_of_of_eq_ends hprogress.symm]
      exact hbefore

/-- What is left of a stack is the lower part of it. -/
theorem suffix (h : Course a place i j stack progress) : stack <:+ i.stack := by
  induction h with
  | lost | exhaust | run | suspend => exact List.suffix_rfl
  | skip _ _ ih => exact (List.suffix_cons _ _).trans ih
  | bare _ ih => exact ih
  | endRoot _ _ _ ih => exact (List.suffix_cons _ _).trans ih
  | orphan _ _ _ _ ih => exact (List.suffix_cons _ _).trans ih
  | endChild _ _ _ _ _ _ _ _ ih => exact (List.suffix_cons _ _).trans ih

theorem intention_of_ends (h : Course a place i j stack (.ends b failure)) :
    b.intentions[place]? = some i := by
  rw [h.intentions]
  exact h.intention

end Course

theorem course_of_turn (hturn : a.turn place = .ends b failure) :
    ∃ i, Course a place i (a.turnEntries place) i.stack (.ends b failure) := by
  cases hi : a.intentions[place]? with
  | none => simp [turn, hi] at hturn
  | some i =>
      cases hstack : i.stack with
      | nil => simp [turn, hi, hstack] at hturn
      | cons id below => exact ⟨i, hturn ▸ course_turn hi hstack⟩

/-- A step that finds an intention with a stack has a course. -/
theorem course_step (hi : a.intentions[place]? = some i) (hstack : i.stack = id :: below) :
    ∃ rest, Course a place i (a.stepEntries place) rest (.done (a.step place)) := by
  have hturn := course_turn hi hstack
  simp only [stepEntries, step]
  cases hprogress : a.turn place with
  | done b =>
      rw [hprogress] at hturn
      exact ⟨i.stack, by simpa using hturn⟩
  | ends b failure =>
      rw [hprogress] at hturn
      simpa [finish, hturn.intention_of_ends] using hturn.unwind

/-- A step changes nothing or has a course. -/
theorem step_cases (a : Agent) (place : Nat) :
    a.step place = a ∧ a.stepEntries place = [] ∨
      ∃ i rest, Course a place i (a.stepEntries place) rest (.done (a.step place)) := by
  cases hi : a.intentions[place]? with
  | none => exact Or.inl (by simp [step, stepEntries, turn, turnEntries, hi])
  | some i =>
      cases hstack : i.stack with
      | nil => exact Or.inl (by simp [step, stepEntries, turn, turnEntries, hi, hstack])
      | cons id below =>
          obtain ⟨rest, hcourse⟩ := course_step hi hstack
          exact Or.inr ⟨i, rest, hcourse⟩

theorem step_touches (a : Agent) (place : Nat) : a.Touches (a.step place) := by
  obtain ⟨hstep, _⟩ | ⟨i, rest, hcourse⟩ := a.step_cases place
  · rw [hstep]
    exact ⟨_, _, _, _, _, _, _, rfl⟩
  · exact hcourse.touches

/-- The rounds of a step are on its course. -/
theorem Round.course (h : Round a place i stack b failure) :
    ∃ j, Course a place i j stack (.ends b failure) := by
  induction h with
  | first hturn hi =>
      obtain ⟨i', hcourse⟩ := course_of_turn hturn
      rw [hcourse.intention_of_ends] at hi
      obtain rfl := Option.some.inj hi
      exact ⟨_, hcourse⟩
  | next _ hremove hdeliver ih =>
      obtain ⟨j, hcourse⟩ := ih
      have hdelivered := hcourse.deliver hremove rfl
      rw [hdeliver] at hdelivered
      exact ⟨_, hdelivered⟩

end Agent
end Deliberation
