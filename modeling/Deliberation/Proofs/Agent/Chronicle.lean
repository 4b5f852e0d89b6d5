import Deliberation.Proofs.Agent.Intentions
import Deliberation.Proofs.Belief.Log

/-!
The rules that a run follows.

`Agent.Chronicle` has one rule for each way in which an agent and its journal can change together,
and every run follows them. What is so at the start and is kept by every rule is then so in every
run. While a step ends several frames, the stack of the intention is noted after each of them,
although the program notes it only once, and the frame that has to end next is due.
-/

namespace Deliberation

/-- An action only makes calls to the beliefs that it is given. -/
def ActionRegistry.KeepsLog (r : ActionRegistry) : Prop :=
  ∀ name action, r.find? name = some action → ∀ (tick : Nat) (context : ActionContext),
    context.beliefs.Changes (action.run tick context).beliefs

/-- Whoever changes the beliefs from outside only makes calls. -/
def Operation.KeepsLog : Operation → Prop
  | .perceive change => ∀ b, BeliefBase.Changes b (change b)
  | _ => True

namespace Frame

/-- What a frame is told about the end of the one that it waits for: how that one failed, or that
what it handed back does not fit. -/
def Hears (failure heard : Option InstructionError) : Prop :=
  heard = failure ∨ failure = none ∧ ∃ text, heard = some (.unificationFailed text)

theorem hears_resume (g f : Frame) (degree : Float) (failure : Option InstructionError)
    (fresh : Nat) :
    Hears failure (g.resume degree failure (f.answer failure fresh).1).2 := by
  cases failure with
  | some e => exact Or.inl (by simp [resume, answer])
  | none =>
      cases hawaiting : g.awaiting with
      | none => exact Or.inl (by simp [resume, answer, hawaiting])
      | some goal =>
          cases hunify : unifyLiterals goal (f.instantiated.freshen fresh).1 g.bindings with
          | ok s => exact Or.inl (by simp [resume, answer, hawaiting, hunify])
          | error e => exact Or.inr ⟨rfl, _, by simp [resume, answer, hawaiting, hunify]; rfl⟩

end Frame

/-- A frame that has to end, and the failure that it ends with. -/
abbrev Due := FrameId × Option InstructionError

namespace Agent

variable {a b : Agent} {place : Nat} {i : Intention} {P : Frame → Prop} {id parent : FrameId}
  {stack below rest : List FrameId} {f g : Frame} {p : Plan} {failure : Option InstructionError}

/-- How an agent became another one, and what the journal tells of it. If `lawful` holds, beliefs
were only changed by calls. -/
inductive Chronicle (lawful : Prop) (start : Agent) : Journal → Option Due → Agent → Prop
  | start : Chronicle lawful start [] none start
  /-- Some of what the agent keeps is not told about. -/
  | quiet {j : Journal} {due : Option Due} {a : Agent} (cycle fresh : Nat) (sleep : Option Sleep)
      (terminated : Bool) (hearing : Option Hearing) (snapshot : Snapshot) :
      Chronicle lawful start j due a →
      Chronicle lawful start j due { a with cycle, fresh, sleep, terminated, hearing, snapshot }
  | believe {j : Journal} {due : Option Due} {a : Agent} {beliefs : BeliefBase} :
      Chronicle lawful start j due a → (lawful → a.beliefs.Changes beliefs) →
      Chronicle lawful start j due { a with beliefs }
  | collect {j : Journal} {a : Agent} :
      Chronicle lawful start j none a →
      Chronicle lawful start (j ++ a.collectionEntries) none a.collectBeliefEvents
  | raise {j : Journal} {due : Option Due} {a : Agent} {origin : Origin} (t : Trigger) :
      Chronicle lawful start j due a → (∀ e, origin ≠ .belief e) →
      Chronicle lawful start (j ++ [.raised origin t]) due (a.enqueue t)
  /-- A change of beliefs for which there is no plan. -/
  | pass {j : Journal} {a : Agent} {t : Trigger} {rest : List Trigger} :
      Chronicle lawful start j none a → a.pending = t :: rest → t.kind.isGoal = false →
      Chronicle lawful start (j ++ [.handled t none]) none
        { a with pending := rest, nextIntention := a.nextIntention + 1 }
  | unmet {j : Journal} {a : Agent} {t : Trigger} {rest : List Trigger} :
      Chronicle lawful start j none a → a.pending = t :: rest → t.kind.isGoal = true →
      Chronicle lawful start (j ++ [.handled t none, .unmet (a.unmetReport t)]) none
        ({ a with pending := rest, nextIntention := a.nextIntention + 1 }.addReport
          (a.unmetReport t))
  | begin {j : Journal} {a : Agent} {t : Trigger} {rest : List Trigger} {f : Frame}
      {chosen : Trigger × Selection Float} {p : Plan} :
      Chronicle lawful start j none a → a.pending = t :: rest →
      f = .start chosen.2.plan chosen.1 chosen.2.bindings none →
      a.library.find? chosen.2.plan = some p →
      Chronicle lawful start
        (j ++ [.handled t (some chosen), .opened ⟨a.nextIntention⟩ (a.frames.insert f).1 f]) none
        { a with
          pending := rest
          nextIntention := a.nextIntention + 1
          frames := (a.frames.insert f).2
          intentions := a.intentions ++ [⟨⟨a.nextIntention⟩, chosen.1, [(a.frames.insert f).1]⟩] }
  /-- There is no instruction to run. -/
  | exhaust {j : Journal} {a : Agent} {place : Nat} {i : Intention} {id : FrameId}
      {below : List FrameId} {f : Frame} {p : Plan} :
      Chronicle lawful start j none a → a.TopFrame place i id below f → f.awaiting = none →
      a.library.find? f.plan = some p → p.body[f.pc]? = none →
      Chronicle lawful start j (some (id, f.failure))
        (a.storeFrame id { f with state := .running })
  | run {j : Journal} {a : Agent} {place : Nat} {i : Intention} {id : FrameId}
      {below : List FrameId} {f g : Frame} {p : Plan} {instruction : Instruction}
      {outcome : Except InstructionError Step} {r : Result} {s : Substitution} :
      Chronicle lawful start j none a → a.TopFrame place i id below f → f.awaiting = none →
      a.library.find? f.plan = some p → p.body[f.pc]? = some instruction →
      Result.of? outcome = some r →
      g = { f with state := .running, pc := f.pc + 1, bindings := s } →
      Chronicle lawful start (j ++ [.ran i.id id f.pc instruction outcome])
        ((g.verdict p r).map (id, ·)) (a.storeFrame id (g.absorb p r))
  /-- A sub-goal is pursued. -/
  | suspend {j : Journal} {a : Agent} {place : Nat} {i : Intention} {id : FrameId}
      {below : List FrameId} {f g child : Frame} {p q : Plan} {instruction : Instruction}
      {goal : Literal} {t : Trigger} {selection : Selection Float} {s : Substitution} :
      Chronicle lawful start j none a → a.TopFrame place i id below f → f.awaiting = none →
      a.library.find? f.plan = some p → p.body[f.pc]? = some instruction →
      (∃ pattern, instruction = .achieve pattern ∨ instruction = .testGoal pattern) →
      a.library.find? selection.plan = some q →
      g = { f with state := .suspended, pc := f.pc + 1, bindings := s, awaiting := some goal } →
      child = .start selection.plan t selection.bindings (some id) →
      Chronicle lawful start
        (j ++ [.ran i.id id f.pc instruction (.ok (.suspend goal t selection)),
          .opened i.id (a.frames.insert child).1 child]) none
        ((a.storeFrame id g).pushSubgoal place (id :: below) id t selection)
  /-- The last frame of an intention ends. -/
  | endRoot {j : Journal} {a : Agent} {place : Nat} {i : Intention} {id : FrameId} {f : Frame}
      {frames : FrameArena} {failure : Option InstructionError} :
      Chronicle lawful start j (some (id, failure)) a → a.TopFrame place i id [] f →
      f.parent = none → a.frames.remove? id = some (f, frames) →
      Chronicle lawful start (j ++ [.closed i.id id (a.endReport i f 0 failure)]) none
        (({ a with frames }.closeFrame i f 0 failure).dropIntention place)
  /-- The frame for a sub-goal ends. -/
  | endChild {j : Journal} {a : Agent} {place : Nat} {i : Intention} {id parent : FrameId}
      {below : List FrameId} {f g back : Frame} {q : Plan} {frames : FrameArena}
      {failure : Option InstructionError} {r : Result} {s : Substitution} :
      Chronicle lawful start j (some (id, failure)) a →
      a.TopFrame place i id (parent :: below) f → f.parent = some parent →
      a.frames.remove? id = some (f, frames) → frames.find? parent = some g →
      a.library.find? g.plan = some q → g.awaiting.isSome →
      r.degree = a.config.aggregation.aggregate f.degrees → Frame.Hears failure r.failure →
      back = { g with state := .running, awaiting := none, bindings := s } →
      Chronicle lawful start
        (j ++ [.closed i.id id (a.endReport i f (below.length + 1) failure), .returned parent r])
        ((back.verdict q r).map (parent, ·))
        ((({ a with frames }.closeFrame i f (below.length + 1) failure).storeFrame parent
          (back.absorb q r)).setStack place (parent :: below))
  | drain {j : Journal} {due : Option Due} {a : Agent} :
      Chronicle lawful start j due a →
      Chronicle lawful start (j ++ [.drained]) due a.drainReports.2

namespace Chronicle

variable {lawful : Prop} {start : Agent} {j : Journal} {due : Option Due}

/-- The settings, the plans and the actions of an agent stay the same. -/
theorem constants (h : Chronicle lawful start j due a) :
    a.config = start.config ∧ a.library = start.library ∧ a.actions = start.actions := by
  induction h with
  | start => exact ⟨rfl, rfl, rfl⟩
  | quiet _ _ _ _ _ _ _ ih => exact ih
  | believe _ _ ih | collect _ ih | raise _ _ _ ih | drain _ ih => exact ih
  | pass _ _ _ ih | unmet _ _ _ ih | begin _ _ _ _ ih => exact ih
  | exhaust _ _ _ _ _ ih | run _ _ _ _ _ _ _ ih | suspend _ _ _ _ _ _ _ _ _ ih => exact ih
  | endRoot _ _ _ _ ih | endChild _ _ _ _ _ _ _ _ _ _ ih => exact ih

theorem fresh (h : Chronicle lawful start j due a) (fresh : Nat) :
    Chronicle lawful start j due { a with fresh } :=
  h.quiet a.cycle fresh a.sleep a.terminated a.hearing a.snapshot

theorem raiseAll (h : Chronicle lawful start j due a) (origin : Origin)
    (horigin : ∀ e, origin ≠ .belief e) (ts : List Trigger) :
    Chronicle lawful start (j ++ ts.map (.raised origin)) due
      { a with pending := a.pending ++ ts } := by
  induction ts generalizing j a with
  | nil => simpa using h
  | cons t ts ih => simpa [enqueue] using ih (h.raise t horigin)

end Chronicle

/-! ### Steps -/

theorem setStack_setStack (a : Agent) (place : Nat) (stack below : List FrameId) :
    (a.setStack place stack).setStack place below = a.setStack place below := by
  simp only [setStack, List.modify_modify_eq]
  rfl

theorem setStack_self (hi : a.intentions[place]? = some i) : a.setStack place i.stack = a := by
  have hself : (a.intentions.modify place fun k => { k with stack := i.stack }) = a.intentions := by
    apply List.ext_getElem?
    intro n
    by_cases hn : place = n
    · subst hn
      simp [hi]
    · exact List.getElem?_modify_ne _ _ hn
  rw [setStack, hself]

theorem getElem?_setStack (hi : a.intentions[place]? = some i) (stack : List FrameId) :
    (a.setStack place stack).intentions[place]? = some { i with stack } := by
  simp [setStack, hi]

theorem dropIntention_setStack (a : Agent) (place : Nat) (stack : List FrameId) :
    (a.setStack place stack).dropIntention place = a.dropIntention place := by
  have herase : (a.intentions.modify place fun i => { i with stack }).eraseIdx place =
      a.intentions.eraseIdx place := by
    apply List.ext_getElem?
    intro n
    rw [List.getElem?_eraseIdx, List.getElem?_eraseIdx]
    split
    · exact List.getElem?_modify_ne _ _ (by omega)
    · exact List.getElem?_modify_ne _ _ (by omega)
  simp only [dropIntention, setStack, herase]

/-- What may become of the beliefs of an agent: calls were made to them, or an action left them
so. -/
def Alters (a : Agent) (beliefs : BeliefBase) : Prop :=
  a.beliefs.Changes beliefs ∨
    ∃ name action context, a.actions.find? name = some action ∧ context.beliefs = a.beliefs ∧
      beliefs = (action.run a.cycle context).beliefs

theorem Alters.changes {beliefs : BeliefBase} (h : a.Alters beliefs)
    (hactions : a.actions.KeepsLog) : a.beliefs.Changes beliefs := by
  obtain hchanges | ⟨name, action, context, hfind, hbeliefs, rfl⟩ := h
  · exact hchanges
  · exact hbeliefs ▸ hactions name action hfind a.cycle context

/-- What an instruction does to an agent: it may change the beliefs, make up names and raise
triggers. -/
def Affects (a b : Agent) (posted : List Trigger) : Prop :=
  ∃ beliefs fresh, b = { a with beliefs, fresh, pending := a.pending ++ posted } ∧ a.Alters beliefs

theorem Affects.self (a : Agent) : a.Affects a [] :=
  ⟨a.beliefs, a.fresh, by simp, Or.inl .refl⟩

theorem Affects.believe {beliefs : BeliefBase} (h : a.Alters beliefs) :
    a.Affects { a with beliefs } [] :=
  ⟨beliefs, a.fresh, by simp, h⟩

theorem Affects.fresh (a : Agent) (fresh : Nat) : a.Affects { a with fresh } [] :=
  ⟨a.beliefs, fresh, by simp, Or.inl .refl⟩

theorem executeAdd_affects (a : Agent) (s : Substitution) (pattern : Literal) :
    a.Affects (a.executeAdd s pattern).agent [] := by
  simp only [executeAdd, fails, succeeds]
  split
  · exact .self a
  · split
    · exact .self a
    · rename_i hadd
      exact .believe (Or.inl (.of_add hadd))

theorem executeAction_affects (a : Agent) (s : Substitution) (call : ActionCall) :
    a.Affects (a.executeAction s call).agent [] := by
  simp only [executeAction, fails]
  split
  · exact .self a
  · rename_i action haction
    have hran : a.Alters (action.run a.cycle (a.actionContext s call)).beliefs :=
      Or.inr ⟨call.name, action, a.actionContext s call, haction, rfl, rfl⟩
    repeat' split
    · exact .self a
    all_goals exact .believe hran

theorem execute_affects (a : Agent) (s : Substitution) (instruction : Instruction) :
    a.Affects (a.execute s instruction).agent (a.posted s instruction) := by
  cases instruction with
  | addBelief pattern => exact executeAdd_affects a s pattern
  | removeBelief pattern =>
      simp only [execute, executeRemove, succeeds]
      split
      · exact .self a
      · rename_i found _ _ _
        exact .believe (Or.inl (.call (.remove found) .refl))
  | updateBelief old new =>
      simp only [execute, executeUpdate]
      split
      · exact executeAdd_affects a s new
      · simp only [fails, succeeds]
        split
        · exact .self a
        · split
          · exact .self a
          · rename_i hupdate
            exact .believe (Or.inl (.of_update hupdate))
  | achieve goal =>
      simp only [execute, executeAchieve, fails]
      split <;> exact .fresh a _
  | post posted =>
      simp only [execute, executePost, fails, succeeds, Agent.posted, Literal.grounded]
      cases posted.kind.isGoal with
      | true => exact ⟨a.beliefs, _, rfl, Or.inl .refl⟩
      | false =>
          cases (s.applyLiteral posted.literal).isGround with
          | true => exact ⟨a.beliefs, _, rfl, Or.inl .refl⟩
          | false => exact .self a
  | testGoal pattern =>
      simp only [execute, executeTestGoal, fails, succeeds]
      split
      · exact .self a
      · split <;> exact .fresh a _
  | assign name e =>
      simp only [execute, executeAssign, fails, succeeds]
      split <;> exact .self a
  | unary name op =>
      simp only [execute, executeUnary, fails, succeeds]
      split <;> exact .self a
  | test e =>
      simp only [execute, executeTest, fails]
      repeat' split
      all_goals exact .self a
  | action call => exact executeAction_affects a s call

end Agent

/-- How far a step got is what the journal tells: it is over, or the frame on top of `stack` is
due. -/
def Progress.Follows (lawful : Prop) (start : Agent) (j : Journal) (place : Nat)
    (stack : List FrameId) : Progress → Prop
  | .done b => Agent.Chronicle lawful start j none b
  | .ends b failure => ∃ id, stack.head? = some id ∧
    Agent.Chronicle lawful start j (some (id, failure)) (b.setStack place stack)

namespace Agent

variable {a b : Agent} {place : Nat} {i : Intention} {P : Frame → Prop} {id parent : FrameId}
  {stack below rest : List FrameId} {f g : Frame} {p : Plan} {failure : Option InstructionError}
  {lawful : Prop} {start : Agent} {j : Journal} {due : Option Due}

theorem Chronicle.follows {verdict : Option (Option InstructionError)}
    (h : Chronicle lawful start j (verdict.map (id, ·)) (a.setStack place (id :: below))) :
    (Progress.of a place (id :: below) verdict).Follows lawful start j place (id :: below) := by
  cases verdict with
  | none => exact h
  | some failure => exact ⟨id, rfl, h⟩

theorem runEntries_of_result {instruction : Instruction} {r : Result}
    (hr : Result.of? (a.execute f.bindings instruction).outcome = some r) (owner : IntentionId)
    (id : FrameId) :
    a.runEntries owner id f instruction =
      .ran owner id f.pc instruction (a.execute f.bindings instruction).outcome ::
        (a.posted f.bindings instruction).map (.raised .instruction) := by
  unfold runEntries
  match houtcome : (a.execute f.bindings instruction).outcome with
  | .ok (.suspend goal t selection) => simp [houtcome, Result.of?] at hr
  | .ok (.proceed degree) => simp [subgoalEntries]
  | .error e => simp [subgoalEntries]

/-- An instruction that suspends its frame raises no trigger. -/
theorem posted_eq_nil {s : Substitution} {instruction : Instruction}
    (h : ∃ pattern, instruction = .achieve pattern ∨ instruction = .testGoal pattern) :
    a.posted s instruction = [] := by
  obtain ⟨pattern, rfl | rfl⟩ := h <;> rfl

/-- The frame on top of a stack runs an instruction that comes to something at once. -/
theorem Chronicle.settled {instruction : Instruction} {r : Result}
    (h : Chronicle lawful start j none a) (hlawful : lawful → a.actions.KeepsLog)
    (hruns : a.Runs place i id below f p instruction) (hawaiting : f.awaiting = none)
    (hr : Result.of? (a.executed id f instruction).outcome = some r)
    (hg : g = { f with
      state := .running
      pc := f.pc + 1
      bindings := (a.executed id f instruction).bindings }) :
    (Progress.of ((a.executed id f instruction).agent.storeFrame id (g.absorb p r)) place i.stack
      (g.verdict p r)).Follows lawful start
        (j ++ (a.started id f).runEntries i.id id { f with state := .running } instruction)
        place i.stack := by
  obtain ⟨beliefs, fresh, hagent, halters⟩ :=
    (a.started id f).execute_affects f.bindings instruction
  have hi : (a.executed id f instruction).agent.intentions[place]? = some i := by
    rw [executed, hagent]
    exact hruns.intention
  have hstore : (a.executed id f instruction).agent.storeFrame id (g.absorb p r) =
      { { a with beliefs, fresh }.storeFrame id (g.absorb p r) with
        pending := a.pending ++ (a.started id f).posted f.bindings instruction } := by
    rw [executed, hagent]
    simp only [started, storeFrame, FrameArena.modify_modify]
  have hchanged : Chronicle lawful start j none { a with beliefs, fresh } :=
    (h.believe fun hl => halters.changes (hlawful hl)).fresh fresh
  have hran := hchanged.run ⟨hruns.intention, hruns.stack, hruns.frame⟩ hawaiting hruns.plan
    hruns.body hr hg
  have hraised :=
    hran.raiseAll .instruction (by simp) ((a.started id f).posted f.bindings instruction)
  rw [hruns.stack]
  apply Chronicle.follows
  rw [← hruns.stack, setStack_self (a := Agent.storeFrame _ id _) hi, hstore,
    runEntries_of_result (f := { f with state := .running }) hr]
  rw [List.append_assoc] at hraised
  exact hraised

/-- The frame on top of a stack is suspended. -/
theorem Chronicle.suspended {instruction : Instruction} {goal : Literal} {t : Trigger}
    {selection : Selection Float} (h : Chronicle lawful start j none a)
    (hruns : a.Runs place i id below f p instruction) (hawaiting : f.awaiting = none)
    (houtcome : (a.executed id f instruction).outcome = .ok (.suspend goal t selection))
    (hg : g = { f with
      state := .suspended
      pc := f.pc + 1
      bindings := (a.executed id f instruction).bindings
      awaiting := some goal }) :
    Chronicle lawful start
      (j ++ (a.started id f).runEntries i.id id { f with state := .running } instruction) none
      (((a.executed id f instruction).agent.storeFrame id g).pushSubgoal place i.stack id t
        selection) := by
  obtain ⟨pattern, kind, hkind, _, _, _, hagent, hselect⟩ := execute_suspend houtcome
  obtain ⟨q, hq⟩ := select?_plan hselect
  have hsubgoal : ∃ pattern, instruction = .achieve pattern ∨ instruction = .testGoal pattern :=
    ⟨pattern, hkind.imp And.left And.left⟩
  have hstore : (a.executed id f instruction).agent.storeFrame id g =
      { a with fresh := (goal.freshen (a.started id f).fresh).2 }.storeFrame id g := by
    rw [executed, hagent]
    simp only [started, storeFrame, FrameArena.modify_modify]
  have hname (child : Frame) :
      ((a.started id f).frames.insert child).1 = (a.frames.insert child).1 :=
    a.frames.insert_modify_name id _ child
  have hentries : (a.started id f).runEntries i.id id { f with state := .running } instruction =
      [.ran i.id id f.pc instruction (.ok (.suspend goal t selection)),
        .opened i.id (a.frames.insert (.start selection.plan t selection.bindings (some id))).1
          (.start selection.plan t selection.bindings (some id))] := by
    have houtcome' : ((a.started id f).execute { f with state := .running }.bindings
      instruction).outcome = .ok (.suspend goal t selection) := houtcome
    simp only [runEntries, houtcome', posted_eq_nil hsubgoal, subgoalEntries, hname, List.map_nil,
      List.nil_append]
  rw [hentries, hstore, hruns.stack]
  exact (h.fresh (goal.freshen (a.started id f).fresh).2).suspend
    ⟨hruns.intention, hruns.stack, hruns.frame⟩ hawaiting hruns.plan hruns.body hsubgoal hq hg rfl

theorem TopFrame.of_closes {c : Agent} (hi : a.intentions[place]? = some i)
    (hcloses : a.Closes i id below.length failure f c) :
    (a.setStack place (id :: below)).TopFrame place { i with stack := id :: below } id below f := by
  obtain ⟨_, hr, _⟩ := hcloses
  exact ⟨getElem?_setStack hi _, rfl, (FrameArena.remove?_eq_some_iff.1 hr).1⟩

/-- The last frame of an intention ends when it is due. -/
theorem Chronicle.endIntention {c : Agent}
    (h : Chronicle lawful start j (some (id, failure)) (a.setStack place [id]))
    (hi : a.intentions[place]? = some i) (hcloses : a.Closes i id 0 failure f c)
    (hparent : f.parent = none) :
    Chronicle lawful start
      (j ++ .closed i.id id (a.endReport i f 0 failure) :: c.deliveryEntries i f failure) none
      (c.endIntention place i failure) := by
  have htop : (a.setStack place [id]).TopFrame place { i with stack := [id] } id [] f :=
    .of_closes hi hcloses
  obtain ⟨frames, hr, rfl⟩ := hcloses
  have hended := h.endRoot htop hparent hr
  have hdrop := dropIntention_setStack ({ a with frames }.closeFrame i f 0 failure) place [id]
  have hclosed : Chronicle lawful start (j ++ [.closed i.id id (a.endReport i f 0 failure)]) none
      (({ a with frames }.closeFrame i f 0 failure).dropIntention place) := hdrop ▸ hended
  simp only [deliveryEntries, hparent, Agent.endIntention]
  split
  · have hrepair := hclosed.raise ⟨.removeGoal, i.root.literal⟩
      (show ∀ e, Origin.repair ≠ .belief e by simp)
    rw [List.append_assoc] at hrepair
    exact hrepair
  · exact hclosed

/-- A frame that is due ends, and the one that waits for it is told. -/
theorem Chronicle.tell {c : Agent} {back : Frame} {q : Plan} {degree : Float}
    {told : Frame × Option InstructionError}
    (h : Chronicle lawful start j (some (id, failure)) (a.setStack place (id :: parent :: below)))
    (hi : a.intentions[place]? = some i)
    (hcloses : a.Closes i id (parent :: below).length failure f c)
    (hparent : f.parent = some parent)
    (hg : c.frames.find? parent = some g) (hq : ∀ p, c.library.find? g.plan = some p → q = p)
    (hwaits : g.Waits a.library) (hdegree : degree = c.config.aggregation.aggregate f.degrees)
    (htold : told = g.resume degree failure (f.answer failure c.fresh).1)
    (hback : back = { g with state := .running, awaiting := none, bindings := told.1.bindings }) :
    (Progress.of ({ c with fresh := (f.answer failure c.fresh).2 }.storeFrame parent
      (back.absorb q ⟨degree, told.2⟩)) place (parent :: below)
        (back.verdict q ⟨degree, told.2⟩)).Follows lawful start
      (j ++ .closed i.id id (a.endReport i f (parent :: below).length failure) ::
        c.deliveryEntries i f failure) place (parent :: below) := by
  have htop := TopFrame.of_closes hi hcloses
  have hentries : c.deliveryEntries i f failure = [.returned parent ⟨degree, told.2⟩] := by
    simp [deliveryEntries, hparent, hg, hdegree, htold]
  have hheard : Frame.Hears failure told.2 := htold ▸ g.hears_resume f degree failure c.fresh
  obtain ⟨frames, hr, rfl⟩ := hcloses
  obtain ⟨p, hplan, _⟩ := hwaits.plan
  obtain rfl := hq p hplan
  have hended := (h.endChild (r := ⟨degree, told.2⟩) htop hparent hr hg hplan
    hwaits.awaiting hdegree hheard hback).fresh (f.answer failure a.fresh).2
  rw [hentries]
  apply Chronicle.follows
  rw [← setStack_setStack _ place (id :: parent :: below)]
  exact hended

/-- The journal tells the course of a step. -/
theorem Chronicle.course {k : Journal} {progress : Progress}
    (h : Chronicle lawful start k none a) (hsound : a.Sound)
    (hlawful : lawful → a.actions.KeepsLog) (hcourse : Course a place i j stack progress) :
    progress.Follows lawful start (k ++ j) place stack := by
  -- An intention of a sound agent has its frames, so no rule applies that is for lost ones.
  induction hcourse with
  | lost hi hstack hnone => exact absurd hnone (hsound.find?_ne_none hi hstack)
  | @exhaust id below f _ htop hfailure =>
      obtain ⟨_, hready⟩ := hsound.ready htop
      obtain ⟨p, hplan, _⟩ := hready.plan
      obtain ⟨hbody, rfl⟩ := hfailure p hplan
      refine ⟨id, by rw [htop.stack]; rfl, ?_⟩
      rw [setStack_self (a := a.started id f) htop.intention, List.append_nil]
      exact h.exhaust htop hready.awaiting hplan hbody
  | run hruns hr hg =>
      exact h.settled hlawful hruns (hsound.ready hruns.toTopFrame).2.awaiting hr hg
  | suspend hruns houtcome hg =>
      exact h.suspended hruns (hsound.ready hruns.toTopFrame).2.awaiting houtcome hg
  | skip hbefore hnone _ =>
      obtain ⟨_, _, hr, _⟩ := (hsound.course hbefore).top
      simp [hnone] at hr
  | bare hbefore _ => exact (hsound.course hbefore).arranged.top.elim
  | endRoot hbefore hcloses hparent ih =>
      obtain ⟨_, hid, hdue⟩ := ih
      obtain rfl := Option.some.inj hid
      have hhead := ((hsound.course hbefore).of_closes hcloses).2
      rw [hparent] at hhead
      obtain rfl := List.head?_eq_none_iff.1 hhead.symm
      rw [← List.append_assoc]
      exact hdue.endIntention hbefore.intention_of_ends hcloses hparent
  | orphan hbefore hcloses hparent hnone _ =>
      obtain ⟨_, _, _, hg, _⟩ := (hsound.course hbefore).waits_of_closes hcloses hparent
      simp [hnone] at hg
  | endChild hbefore hcloses hparent hg hq hdegree htold hback ih =>
      obtain ⟨_, hid, hdue⟩ := ih
      obtain rfl := Option.some.inj hid
      obtain ⟨g', lower, rfl, hg', _, hwaits, _⟩ :=
        (hsound.course hbefore).waits_of_closes hcloses hparent
      obtain rfl := Option.some.inj (hg.symm.trans hg')
      rw [← List.append_assoc]
      exact hdue.tell hbefore.intention_of_ends hcloses hparent hg hq hwaits hdegree
        htold hback

theorem Chronicle.step (h : Chronicle lawful start j none a) (hsound : a.Sound)
    (hlawful : lawful → a.actions.KeepsLog) (place : Nat) :
    Chronicle lawful start (j ++ a.stepEntries place) none (a.step place) := by
  obtain ⟨hstep, hentries⟩ | ⟨i, rest, hcourse⟩ := a.step_cases place
  · rw [hstep, hentries, List.append_nil]
    exact h
  · exact h.course hsound hlawful hcourse

/-! ### Ticks and operations -/

theorem Chronicle.handle {t : Trigger} {rest : List Trigger} (h : Chronicle lawful start j none a)
    (hpending : a.pending = t :: rest) :
    Chronicle lawful start (j ++ { a with pending := rest }.handlingEntries t) none
      ({ a with pending := rest }.handle t) := by
  simp only [handlingEntries, Agent.handle]
  cases hchoose : { a with pending := rest }.choose t with
  | some chosen =>
      obtain ⟨p, hplan⟩ := select?_plan (choose_eq_some hchoose).2
      exact h.begin hpending rfl hplan
  | none =>
      by_cases hgoal : t.kind.isGoal = true
      · simp only [hgoal, if_true]
        exact h.unmet hpending hgoal
      · simp only [hgoal]
        exact h.pass hpending (by simpa using hgoal)

/-- A sleep that is over ends, and another one may get shorter. -/
theorem Chronicle.sleepThrough (h : Chronicle lawful start j none a) :
    Chronicle lawful start (j ++ a.wakingEntries) none a.sleepThrough.2 := by
  have hsleep (sleep : Option Sleep) : Chronicle lawful start j none { a with sleep } :=
    h.quiet a.cycle a.fresh sleep a.terminated a.hearing a.snapshot
  unfold Agent.sleepThrough wakingEntries
  match hasleep : a.sleep with
  | none => simpa using h
  | some ⟨none, terms⟩ => simpa using h
  | some ⟨some 0, terms⟩ =>
      have hraised := (hsleep none).raiseAll .waking (by simp) (wakeupTriggers terms)
      simpa [Agent.wakeUp, hasleep] using hraised
  | some ⟨some (n + 1), terms⟩ => simpa using hsleep (some ⟨some n, terms⟩)

theorem Chronicle.work (h : Chronicle lawful start j none a) (hsound : a.Sound)
    (hlawful : lawful → a.actions.KeepsLog) :
    Chronicle lawful start (j ++ a.workEntries) none a.work.2 := by
  obtain ⟨sleep, pending, heq⟩ := a.sleepThrough_eq
  have hawake := h.sleepThrough
  have hsound' : a.sleepThrough.2.Sound := by
    rw [heq]
    exact hsound.congr rfl rfl rfl rfl
  have hlawful' : lawful → a.sleepThrough.2.actions.KeepsLog := by
    rw [heq]
    exact hlawful
  simp only [workEntries, Agent.work]
  rw [← List.append_assoc]
  split
  · simpa using hawake
  · cases hpending : a.sleepThrough.2.pending with
    | cons t rest => exact hawake.handle hpending
    | nil =>
        cases a.sleepThrough.2.runnable? with
        | none => simpa using hawake
        | some place => exact hawake.step hsound' hlawful' place

theorem Chronicle.tick (h : Chronicle lawful start j none a) (hsound : a.Sound)
    (hlawful : lawful → a.actions.KeepsLog) :
    Chronicle lawful start (j ++ a.tickEntries) none a.tick.2 := by
  simp only [tickEntries, Agent.tick]
  split
  · simpa using h
  · have hcounted :=
      h.quiet (a.cycle + 1) a.fresh a.sleep a.terminated a.hearing a.snapshot
    have hworked := hcounted.collect.work (hsound.congr rfl rfl rfl rfl) hlawful
    have hcollected := hworked.collect
    rw [← List.append_assoc, ← List.append_assoc]
    exact hcollected.quiet _ _ _ _ _ _

theorem Chronicle.trigger (h : Chronicle lawful start j none a) (t : Trigger) :
    Chronicle lawful start (j ++ a.triggerEntries t) none (a.perform (.trigger t)) := by
  simp only [triggerEntries, Agent.perform]
  cases htrigger : a.trigger t with
  | error e => simpa using h
  | ok b =>
      obtain ⟨_, rfl⟩ := trigger_eq_ok htrigger
      exact (h.fresh _).raise _ (by simp)

theorem Chronicle.perform (h : Chronicle lawful start j none a) (hsound : a.Sound) (op : Operation)
    (hlawful : lawful → a.actions.KeepsLog ∧ op.KeepsLog) :
    Chronicle lawful start (j ++ a.entries op) none (a.perform op) := by
  cases op with
  | tick => exact h.tick hsound fun hl => (hlawful hl).1
  | trigger t => exact h.trigger t
  | achieve goal => exact h.trigger ⟨.addGoal, goal⟩
  | perceive change =>
      simp only [entries, List.append_nil]
      exact h.believe fun hl => (hlawful hl).2 a.beliefs
  | hear | fallAsleep | terminate =>
      simp only [entries, List.append_nil]
      exact h.quiet _ _ _ _ _ _
  | wakeUp terms =>
      simp only [entries, Agent.perform, Agent.wakeUp]
      cases a.sleep with
      | none => simpa using h
      | some sleep =>
          have hawake := h.quiet a.cycle a.fresh none a.terminated a.hearing a.snapshot
          exact hawake.raiseAll .waking (by simp) (wakeupTriggers (sleep.terms ++ terms))
  | drainReports => exact h.drain

/-- A run follows the rules. -/
theorem Chronicle.performAll (h : Chronicle lawful start j none a) (hsound : a.Sound)
    (operations : List Operation)
    (hlawful : lawful → a.actions.KeepsLog ∧ ∀ op ∈ operations, op.KeepsLog) :
    Chronicle lawful start (j ++ a.journal operations) none (a.performAll operations) := by
  induction operations generalizing j a with
  | nil => simpa [journal, Agent.performAll] using h
  | cons op operations ih =>
      have hop := h.perform hsound op fun hl =>
        ⟨(hlawful hl).1, (hlawful hl).2 op List.mem_cons_self⟩
      have hactions : (a.perform op).actions = a.actions :=
        hop.constants.2.2.trans h.constants.2.2.symm
      rw [journal, ← List.append_assoc]
      refine ih hop (hsound.perform op) fun hl => ⟨hactions ▸ (hlawful hl).1, fun op' hop' => ?_⟩
      exact (hlawful hl).2 op' (List.mem_cons_of_mem _ hop')

/-! ### Built agents -/

/-- The goals of a built agent are handed in one after the other. -/
theorem foldlM_achieve {goals : List Literal}
    (h : goals.foldlM (fun (a : Agent) goal => (a.achieve goal).mapError EngineError.validation) a =
      .ok b) : a.performAll (goals.map .achieve) = b := by
  induction goals generalizing a with
  | nil => simpa [pure, Except.pure, Agent.performAll] using h
  | cons goal goals ih =>
      rw [List.foldlM_cons] at h
      cases hgoal : a.achieve goal with
      | error e => simp [hgoal, bind, Except.bind, Except.mapError] at h
      | ok c =>
          have hrest := ih (a := c) (by simpa [hgoal, bind, Except.bind, Except.mapError] using h)
          simpa [Agent.performAll, Agent.perform, hgoal] using hrest

/-- The first beliefs of an agent are added one after the other. -/
theorem changes_first {literals : List Literal} {beliefs : BeliefBase}
    (h : literals.foldlM
      (fun (b : BeliefBase) l => ((b.add l).map (·.2)).mapError EngineError.validation)
      BeliefBase.empty = .ok beliefs) : BeliefBase.empty.Changes beliefs := by
  refine List.foldlM_induction (P := BeliefBase.empty.Changes) ?_ .refl h
  intro b l _ b' hb hadd
  have hadded := Except.mapError_eq_ok_iff.1 hadd
  cases hcall : b.add l with
  | error e => simp [hcall, Except.map] at hadded
  | ok added =>
      obtain rfl : added.2 = b' := by simpa [hcall, Except.map] using hadded
      have hstep := hb.call (.add l)
      simpa [BeliefBase.call, BeliefBase.settle, hcall] using hstep

/-- The journal of a longer run goes on where that of a shorter one ends. -/
theorem journal_concat {spec : AgentSpec} (h : spec.build = .ok a) (operations : List Operation)
    (op : Operation) :
    spec.journal (operations ++ [op]) =
      spec.journal operations ++ (a.performAll operations).entries op := by
  obtain ⟨_, beliefs, hbeliefs, hgoals⟩ := build_eq_ok h
  have hrun : (spec.blank beliefs).performAll (spec.goals.map .achieve ++ operations) =
      a.performAll operations := by
    rw [← foldlM_achieve hgoals]
    exact List.foldl_append
  simp only [AgentSpec.journal, hbeliefs]
  rw [← List.append_assoc, journal_append, hrun]
  simp [journal]

/-- A run of a built agent follows the rules from the blank agent on. -/
theorem chronicle_performAll (lawful : Prop) {spec : AgentSpec} (h : spec.build = .ok a)
    (operations : List Operation)
    (hlawful : lawful → spec.actions.KeepsLog ∧ ∀ op ∈ operations, op.KeepsLog) :
    ∃ beliefs, BeliefBase.empty.Changes beliefs ∧
      Chronicle lawful (spec.blank beliefs) (spec.journal operations) none
        (a.performAll operations) := by
  obtain ⟨hundefined, beliefs, hbeliefs, hgoals⟩ := build_eq_ok h
  refine ⟨beliefs, changes_first hbeliefs, ?_⟩
  have hstart : Chronicle lawful (spec.blank beliefs) [] none (spec.blank beliefs) := .start
  have hrun := hstart.performAll (sound_blank hundefined beliefs)
    (spec.goals.map .achieve ++ operations) ?_
  · simpa [AgentSpec.journal, hbeliefs, Agent.performAll, ← foldlM_achieve hgoals] using hrun
  · intro hl
    refine ⟨(hlawful hl).1, fun op hop => ?_⟩
    rcases List.mem_append.1 hop with hop | hop
    · obtain ⟨goal, _, rfl⟩ := List.mem_map.1 hop
      trivial
    · exact (hlawful hl).2 op hop

end Agent
end Deliberation
