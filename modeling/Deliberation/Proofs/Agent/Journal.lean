import Deliberation.Proofs.Agent.Run

/-!
The journal of a run.

A journal tells in order what happened to an agent: which triggers were raised and which were
handled, which frames were opened and closed, which instructions they ran, and what was reported.
`Agent.entries` says what an operation adds to it. The rest of the file reads journals: the stack
that is open for an intention, the instructions that a frame ran and what they came to, the reports
that nobody took yet.
-/

namespace Deliberation

/-- Where a trigger comes from. -/
inductive Origin where
  | belief (e : BeliefEvent)
  | outside
  | waking
  | instruction
  /-- An intention for a new goal failed. -/
  | repair

/-- What an instruction of a frame came to. For a sub-goal this is known when the frame for it
ends. -/
structure Result where
  degree : Float
  failure : Option InstructionError

/-- What an instruction came to, unless it was a sub-goal that is pursued now. -/
def Result.of? : Except InstructionError Step → Option Result
  | .ok (.proceed degree) => some ⟨degree, none⟩
  | .ok (.suspend ..) => none
  | .error e => some ⟨e.truth, some e⟩

/-- Something that happens to an agent. -/
inductive Entry where
  /-- A trigger is put at the end of the queue. -/
  | raised (origin : Origin) (t : Trigger)
  /-- A trigger is taken from the front of the queue, and a plan is chosen for it or not. -/
  | handled (t : Trigger) (chosen : Option (Trigger × Selection Float))
  /-- A frame is put on the stack of an intention. -/
  | opened (i : IntentionId) (id : FrameId) (f : Frame)
  /-- A frame runs an instruction, the one with this number in its plan. -/
  | ran (i : IntentionId) (id : FrameId) (number : Nat) (instruction : Instruction)
      (outcome : Except InstructionError Step)
  /-- A frame ends and is taken off the stack of its intention. -/
  | closed (i : IntentionId) (id : FrameId) (r : Report)
  /-- The frame that waited for the one that ended is told. -/
  | returned (id : FrameId) (result : Result)
  /-- There was no plan for a goal. -/
  | unmet (r : Report)
  /-- Someone takes the reports. -/
  | drained

abbrev Journal := List Entry

/-! ### What operations add to the journal -/

namespace Agent

/-- The changes of beliefs become triggers. -/
def collectionEntries (a : Agent) : Journal :=
  a.beliefs.events.map fun e => .raised (.belief e) (.ofEvent e)

/-- A sleep that is over ends. -/
def wakingEntries (a : Agent) : Journal :=
  match a.sleep with
  | some ⟨some 0, terms⟩ => (wakeupTriggers terms).map (.raised .waking)
  | _ => []

/-- The report on a goal without a plan. -/
def unmetReport (a : Agent) (t : Trigger) : Report where
  intention := ⟨a.nextIntention⟩
  plan := none
  trigger := t
  state := .failed
  degree := 0
  error := some (.noApplicablePlan t.render)
  depth := 0
  cycle := a.cycle

/-- The report on a frame that ends over `depth` others. -/
def endReport (a : Agent) (i : Intention) (f : Frame) (depth : Nat)
    (failure : Option InstructionError) : Report where
  intention := i.id
  plan := some f.plan
  trigger := f.trigger
  state := if failure.isNone then .succeeded else .failed
  degree := a.config.aggregation.aggregate f.degrees
  error := failure
  depth
  cycle := a.cycle

/-- A trigger is handled. -/
def handlingEntries (a : Agent) (t : Trigger) : Journal :=
  .handled t (a.choose t) ::
    match a.choose t with
    | some (t, selection) =>
      let f := Frame.start selection.plan t selection.bindings none
      [.opened ⟨a.nextIntention⟩ (a.frames.insert f).1 f]
    | none => if t.kind.isGoal then [.unmet (a.unmetReport t)] else []

/-- The trigger that an instruction raises, if it does. -/
def posted (a : Agent) (s : Substitution) : Instruction → List Trigger
  | .post t =>
    let literal := s.applyLiteral t.literal
    if t.kind.isGoal || literal.isGround then [⟨t.kind, (literal.freshen a.fresh).1⟩] else []
  | _ => []

/-- The frame for a sub-goal. -/
def subgoalEntries (a : Agent) (i : IntentionId) (id : FrameId) :
    Except InstructionError Step → Journal
  | .ok (.suspend _ t selection) =>
    let child := Frame.start selection.plan t selection.bindings (some id)
    [.opened i (a.frames.insert child).1 child]
  | _ => []

/-- A frame runs an instruction. -/
def runEntries (a : Agent) (i : IntentionId) (id : FrameId) (f : Frame)
    (instruction : Instruction) : Journal :=
  let outcome := (a.execute f.bindings instruction).outcome
  .ran i id f.pc instruction outcome ::
    ((a.posted f.bindings instruction).map (.raised .instruction) ++ a.subgoalEntries i id outcome)

/-- The next instruction of the frame on top of a stack is run. -/
def turnEntries (a : Agent) (place : Nat) : Journal :=
  match a.intentions[place]? with
  | none => []
  | some i =>
    match i.stack with
    | [] => []
    | id :: _ =>
      match a.frames.find? id with
      | none => []
      | some f =>
        let f := { f with state := .running }
        let a := a.storeFrame id f
        match a.library.find? f.plan with
        | none => []
        | some p => p.body[f.pc]?.elim [] (a.runEntries i.id id f)

/-- The end of a frame is told to the frame that waits for it, or else, if a new goal failed, raises
the trigger that the goal was given up. -/
def deliveryEntries (a : Agent) (i : Intention) (f : Frame) (failure : Option InstructionError) :
    Journal :=
  match f.parent with
  | none =>
    if failure.isSome && i.root.kind = .addGoal then
      [.raised .repair ⟨.removeGoal, i.root.literal⟩]
    else []
  | some parent =>
    let degree := a.config.aggregation.aggregate f.degrees
    let resolved := (f.answer failure a.fresh).1
    (a.frames.find? parent).toList.map fun g =>
      .returned parent ⟨degree, (g.resume degree failure resolved).2⟩

/-- The frames at the top of a stack end. -/
def unwindEntries (place : Nat) (i : Intention) :
    List FrameId → Agent → Option InstructionError → Journal
  | [], _, _ => []
  | id :: rest, a, failure =>
    match a.frames.remove? id with
    | none => unwindEntries place i rest a failure
    | some (f, frames) =>
      let closed := { a with frames }.closeFrame i f rest.length failure
      .closed i.id id (a.endReport i f rest.length failure) ::
        (closed.deliveryEntries i f failure ++
          match closed.deliver place i rest f failure with
          | .done _ => []
          | .ends a failure => unwindEntries place i rest a failure)

def stepEntries (a : Agent) (place : Nat) : Journal :=
  a.turnEntries place ++
    match a.turn place with
    | .done _ => []
    | .ends b failure =>
      (b.intentions[place]?).elim [] fun i => unwindEntries place i i.stack b failure

def workEntries (a : Agent) : Journal :=
  let (asleep, b) := a.sleepThrough
  a.wakingEntries ++
    if asleep then []
    else
      match b.pending with
      | t :: rest => { b with pending := rest }.handlingEntries t
      | [] => b.runnable?.elim [] b.stepEntries

def tickEntries (a : Agent) : Journal :=
  if a.terminated then []
  else
    let b := { a with cycle := a.cycle + 1 }
    b.collectionEntries ++ b.collectBeliefEvents.workEntries ++
      b.collectBeliefEvents.work.2.collectionEntries

/-- A trigger is handed in. One that is refused is not noted. -/
def triggerEntries (a : Agent) (t : Trigger) : Journal :=
  match a.trigger t with
  | .ok _ => [.raised .outside ⟨t.kind, (t.literal.freshen a.fresh).1⟩]
  | .error _ => []

/-- What an operation adds to the journal. -/
def entries (a : Agent) : Operation → Journal
  | .tick => a.tickEntries
  | .trigger t => a.triggerEntries t
  | .achieve goal => a.triggerEntries ⟨.addGoal, goal⟩
  | .wakeUp terms =>
    a.sleep.elim [] fun sleep => (wakeupTriggers (sleep.terms ++ terms)).map (.raised .waking)
  | .drainReports => [.drained]
  | .perceive _ | .hear _ | .fallAsleep .. | .terminate => []

/-- The journal of a run. -/
def journal (a : Agent) : List Operation → Journal
  | [] => []
  | op :: rest => a.entries op ++ (a.perform op).journal rest

theorem journal_append (a : Agent) (operations rest : List Operation) :
    a.journal (operations ++ rest) =
      a.journal operations ++ (a.performAll operations).journal rest := by
  induction operations generalizing a with
  | nil => rfl
  | cons op operations ih =>
      simp only [List.cons_append, journal, ih, List.append_assoc]
      rfl

end Agent

/-- The journal of an agent that is set up, given its first goals, and run. It is empty if the agent
cannot hold its first beliefs. -/
def AgentSpec.journal (spec : AgentSpec) (operations : List Operation) : Journal :=
  match spec.beliefs.foldlM
    (fun (b : BeliefBase) l => ((b.add l).map (·.2)).mapError EngineError.validation)
    BeliefBase.empty with
  | .ok beliefs => (spec.blank beliefs).journal (spec.goals.map .achieve ++ operations)
  | .error _ => []

/-! ### What a journal tells -/

namespace Entry

/-- The trigger that was put into the queue. -/
@[simp] def raised? : Entry → Option Trigger
  | .raised _ t => some t
  | _ => none

/-- The trigger that was taken from the queue. -/
@[simp] def handled? : Entry → Option Trigger
  | .handled t _ => some t
  | _ => none

/-- The event that a trigger was raised for. -/
@[simp] def collected? : Entry → Option BeliefEvent
  | .raised (.belief e) _ => some e
  | _ => none

/-- A trigger that was raised for an event. -/
@[simp] def believed? : Entry → Option Trigger
  | .raised (.belief _) t => some t
  | _ => none

@[simp] def report? : Entry → Option Report
  | .closed _ _ r => some r
  | .unmet r => some r
  | _ => none

/-- The frame that was opened. -/
@[simp] def opened? : Entry → Option FrameId
  | .opened _ id _ => some id
  | _ => none

/-- The frame that was closed. -/
@[simp] def closed? : Entry → Option FrameId
  | .closed _ id _ => some id
  | _ => none

/-- The number of an instruction that a frame runs. -/
@[simp] def numberOf? (id : FrameId) : Entry → Option Nat
  | .ran _ id' number _ _ => if id' = id then some number else none
  | _ => none

/-- What an instruction of a frame came to. -/
@[simp] def resultOf? (id : FrameId) : Entry → Option Result
  | .ran _ id' _ _ outcome => if id' = id then Result.of? outcome else none
  | .returned id' result => if id' = id then some result else none
  | _ => none

/-- The stack of an intention after something happened. -/
@[simp] def restack (i : IntentionId) (stack : List FrameId) : Entry → List FrameId
  | .opened i' id _ => if i' = i then id :: stack else stack
  | .closed i' _ _ => if i' = i then stack.tail else stack
  | _ => stack

/-- The reports that nobody took after something happened. -/
@[simp] def leave (reports : List Report) : Entry → List Report
  | .drained => []
  | e => reports ++ e.report?.toList

end Entry

namespace Agent

theorem filterMap_collectionEntries {α : Type} {view : Entry → Option α}
    (hview : ∀ e t, view (.raised (.belief e) t) = none) (a : Agent) :
    a.collectionEntries.filterMap view = [] := by
  simp [collectionEntries, hview]

theorem foldl_collectionEntries {σ : Type} {step : σ → Entry → σ}
    (hstep : ∀ s e t, step s (.raised (.belief e) t) = s) (a : Agent) (s : σ) :
    a.collectionEntries.foldl step s = s := by
  unfold collectionEntries
  induction a.beliefs.events with
  | nil => rfl
  | cons e events ih => simpa [hstep] using ih

theorem filterMap_deliveryEntries {α : Type} {view : Entry → Option α}
    (hraised : ∀ origin t, view (.raised origin t) = none)
    (hreturned : ∀ id r, view (.returned id r) = none) (a : Agent) (i : Intention) (f : Frame)
    (failure : Option InstructionError) :
    (a.deliveryEntries i f failure).filterMap view = [] := by
  unfold deliveryEntries
  split
  · split <;> simp [hraised]
  · simp [hreturned]

/-- The end of frames is told by a few kinds of entries. -/
theorem filterMap_unwindEntries {α : Type} {view : Entry → Option α}
    (hraised : ∀ origin t, view (.raised origin t) = none)
    (hclosed : ∀ n id r, view (.closed n id r) = none)
    (hreturned : ∀ id r, view (.returned id r) = none) (place : Nat) (i : Intention)
    (stack : List FrameId) (a : Agent) (failure : Option InstructionError) :
    (unwindEntries place i stack a failure).filterMap view = [] := by
  induction stack generalizing a failure with
  | nil => rfl
  | cons id rest ih =>
      rw [unwindEntries]
      split
      · exact ih a failure
      · simp only [List.filterMap_cons, hclosed, List.filterMap_append,
          filterMap_deliveryEntries hraised hreturned, List.nil_append]
        split
        · rfl
        · exact ih _ _

end Agent

namespace Journal

/-- The numbers of the instructions that a frame ran, in order. -/
def numbersOf (j : Journal) (id : FrameId) : List Nat := j.filterMap (Entry.numberOf? id)

/-- What the instructions of a frame came to, in order. -/
def resultsOf (j : Journal) (id : FrameId) : List Result := j.filterMap (Entry.resultOf? id)

/-- The frames of an intention that are open, the one that was opened last first. -/
def stackOf (j : Journal) (i : IntentionId) : List FrameId := j.foldl (Entry.restack i) []

/-- The reports since they were taken last, oldest first. -/
def undrained (j : Journal) : List Report := j.foldl Entry.leave []

/-- Every entry is as it should be after those before it. -/
def Every (P : Journal → Entry → Prop) (j : Journal) : Prop :=
  ∀ before e after, j = before ++ e :: after → P before e

variable {j k : Journal} {e : Entry} {P : Journal → Entry → Prop}

@[simp] theorem numbersOf_nil {id : FrameId} : numbersOf [] id = [] := rfl

@[simp] theorem numbersOf_cons {id : FrameId} :
    numbersOf (e :: j) id = (e.numberOf? id).toList ++ numbersOf j id := by
  cases h : e.numberOf? id with
  | none => exact List.filterMap_cons_none h
  | some _ => exact List.filterMap_cons_some h

@[simp] theorem numbersOf_append {id : FrameId} :
    numbersOf (j ++ k) id = numbersOf j id ++ numbersOf k id := List.filterMap_append

@[simp] theorem resultsOf_nil {id : FrameId} : resultsOf [] id = [] := rfl

@[simp] theorem resultsOf_cons {id : FrameId} :
    resultsOf (e :: j) id = (e.resultOf? id).toList ++ resultsOf j id := by
  cases h : e.resultOf? id with
  | none => exact List.filterMap_cons_none h
  | some _ => exact List.filterMap_cons_some h

@[simp] theorem resultsOf_append {id : FrameId} :
    resultsOf (j ++ k) id = resultsOf j id ++ resultsOf k id := List.filterMap_append

theorem stackOf_append {i : IntentionId} :
    stackOf (j ++ k) i = k.foldl (Entry.restack i) (stackOf j i) := List.foldl_append

theorem undrained_append : undrained (j ++ k) = k.foldl Entry.leave (undrained j) :=
  List.foldl_append

theorem every_nil : Every P [] := by
  intro before e after h
  simp at h

theorem every_concat_iff : Every P (j ++ [e]) ↔ Every P j ∧ P j e := by
  constructor
  · intro h
    refine ⟨fun before e' after heq => h before e' (after ++ [e]) (by simp [heq]), ?_⟩
    exact h j e [] rfl
  · rintro ⟨h, he⟩ before e' after heq
    rcases List.eq_nil_or_concat after with rfl | ⟨after, last, rfl⟩
    · obtain ⟨rfl, hlast⟩ := List.append_inj' heq rfl
      obtain rfl := List.singleton_inj.1 hlast
      exact he
    · have hsplit : j ++ [e] = (before ++ e' :: after) ++ [last] := by simpa using heq
      exact h before e' after (List.append_inj' hsplit rfl).1

theorem every_pair_iff {e' : Entry} :
    Every P (j ++ [e, e']) ↔ Every P j ∧ P j e ∧ P (j ++ [e]) e' := by
  rw [List.append_cons, every_concat_iff, every_concat_iff, and_assoc]

/-- Entries that are all right after any others may be added. -/
theorem Every.append (h : Every P j) (hk : ∀ e ∈ k, ∀ before, P before e) : Every P (j ++ k) := by
  induction k generalizing j with
  | nil => simpa using h
  | cons e k ih =>
      rw [List.append_cons]
      exact ih (every_concat_iff.2 ⟨h, hk e List.mem_cons_self j⟩)
        fun e' he' => hk e' (List.mem_cons_of_mem _ he')

end Journal
end Deliberation
