import Deliberation.Proofs.Agent.Intentions
import Deliberation.Proofs.Agent.Links
import Deliberation.Proofs.Plan.Scope

/-!
The names in an agent, over a whole run.

As long as plain names come in from outside, all names in an agent are plain or were made up before,
and its frames are linked. An instruction brings in names of its plan and of the results of actions,
and a frame changes only while it is on top of its stack, where no frame has it as its parent.
-/

namespace Deliberation

variable {notes : Prop}

/-! ### Instructions -/

namespace Agent

variable {a b : Agent} {s : Substitution}

/-- What an action leaves behind that is called under some bindings: beliefs that the operations on
beliefs lead to, and results with plain names. -/
def Answers (notes : Prop) (a : Agent) (s : Substitution) (call : ActionCall) : Prop :=
  ∀ action, a.actions.find? call.name = some action →
    action.minimalArguments ≤ (a.actionContext s call).arguments.length →
    (action.run a.cycle (a.actionContext s call)).beliefs.Reached ∧
      ∀ t ∈ (action.run a.cycle (a.actionContext s call)).returns, t.Fits IsPlain notes

/-- What an instruction leaves behind: beliefs that the operations on beliefs lead to, and names
that are known. -/
structure Executes (notes : Prop) (a : Agent) (result : Executed) : Prop where
  fresh : a.fresh ≤ result.agent.fresh
  beliefs : result.agent.beliefs.Reached
  pending : ∀ t ∈ result.agent.pending,
    t ∈ a.pending ∨ t.literal.Fits (Known result.agent.fresh) notes
  bindings : result.bindings.Fits (Known result.agent.fresh) notes

/-- An instruction that makes up no names and raises no trigger. -/
theorem executes_of_fits {outcome : Except InstructionError Step} {beliefs : BeliefBase}
    (hb : beliefs.Reached) (hs : s.Fits (Known a.fresh) notes) :
    a.Executes notes ⟨outcome, s, { a with beliefs }⟩ :=
  ⟨Nat.le_refl _, hb, fun _ ht => Or.inl ht, hs⟩

theorem fits_of_unifyQuery {pattern found : Literal} {extended : Substitution}
    {rest : List (Literal × Substitution)} {n : Nat} (hb : a.beliefs.Reached)
    (hs : s.Fits (Known n) notes) (hpattern : pattern.Fits (Known n) notes)
    (h : a.beliefs.unifyQuery pattern s = (found, extended) :: rest) :
    extended.Fits (Known n) notes := by
  have hmem : (found, extended) ∈ a.beliefs.unifyQuery pattern s := by
    rw [h]
    exact List.mem_cons_self
  obtain ⟨hground, hunify⟩ := BeliefBase.mem_unifyQuery hb.allGround hmem
  exact hs.unifyLiterals hpattern (Literal.fits_of_isGround hground) hunify

theorem executes_add (hb : a.beliefs.Reached) (hs : s.Fits (Known a.fresh) notes)
    (pattern : Literal) : a.Executes notes (a.executeAdd s pattern) := by
  unfold executeAdd
  split
  · exact executes_of_fits hb hs
  · split
    · exact executes_of_fits hb hs
    · rename_i isNew beliefs hadd
      exact executes_of_fits (hb.add hadd) hs

theorem executes_remove (hb : a.beliefs.Reached) (hs : s.Fits (Known a.fresh) notes)
    {pattern : Literal} (hpattern : pattern.Fits (Known a.fresh) notes) :
    a.Executes notes (a.executeRemove s pattern) := by
  unfold executeRemove
  split
  · exact executes_of_fits hb hs
  · rename_i found extended rest hquery
    exact executes_of_fits (hb.remove found)
      (fits_of_unifyQuery hb hs (hs.applyLiteral hpattern) hquery)

theorem executes_update (hb : a.beliefs.Reached) (hs : s.Fits (Known a.fresh) notes)
    {old : Literal} (hold : old.Fits (Known a.fresh) notes) (new : Literal) :
    a.Executes notes (a.executeUpdate s old new) := by
  unfold executeUpdate
  split
  · exact executes_add hb hs new
  · rename_i previous extended rest hquery
    split
    · exact executes_of_fits hb hs
    · split
      · exact executes_of_fits hb hs
      · rename_i changed beliefs hupdate
        exact executes_of_fits (hb.update hupdate)
          (fits_of_unifyQuery hb hs (hs.applyLiteral hold) hquery)

theorem fits_bindReturns {returns : List (String × Term)} {n : Nat} (hs : s.Fits (Known n) notes)
    (hreturns : ∀ r ∈ returns, Known n r.1 ∧ r.2.Fits (Known n) notes) :
    (bindReturns returns s).2.Fits (Known n) notes := by
  induction returns generalizing s with
  | nil => exact hs
  | cons r rest ih =>
      obtain ⟨name, value⟩ := r
      obtain ⟨⟨hname, hvalue⟩, hrest⟩ := List.forall_mem_cons.1 hreturns
      simp only [bindReturns]
      split
      · exact hs
      · rename_i s' hunify
        exact ih (hs.unify (Term.fits_variable hname) hvalue hunify) hrest

theorem executes_action (hb : a.beliefs.Reached) (hs : s.Fits (Known a.fresh) notes)
    {call : ActionCall} (hcall : ∀ name ∈ call.returns, Known a.fresh name)
    (hanswers : a.Answers notes s call) : a.Executes notes (a.executeAction s call) := by
  unfold executeAction
  split
  · exact executes_of_fits hb hs
  · rename_i action haction
    simp only
    split
    · exact executes_of_fits hb hs
    · rename_i hcount
      obtain ⟨hbeliefs, hresults⟩ := hanswers action haction (Nat.not_lt.1 hcount)
      have hreturns : ∀ r ∈ call.returns.zip (action.run a.cycle (a.actionContext s call)).returns,
          Known a.fresh r.1 ∧ r.2.Fits (Known a.fresh) notes := by
        intro r hr
        have ⟨hname, hvalue⟩ := List.of_mem_zip hr
        exact ⟨hcall _ hname, (hresults _ hvalue).mono fun _ hx => hx.known _⟩
      have hbound := fits_bindReturns hs hreturns
      split
      · exact executes_of_fits hbeliefs hs
      · split
        · exact executes_of_fits hbeliefs hs
        · split
          · rename_i e s' heq
            rw [heq] at hbound
            exact executes_of_fits hbeliefs hbound
          · rename_i s' heq
            rw [heq] at hbound
            exact executes_of_fits hbeliefs hbound

theorem executes_achieve (hb : a.beliefs.Reached) (hs : s.Fits (Known a.fresh) notes)
    (pattern : Literal) : a.Executes notes (a.executeAchieve s pattern) := by
  have hle := (s.applyLiteral pattern).le_freshen a.fresh
  have hmono := hs.mono fun _ hx => hx.mono hle
  unfold executeAchieve
  simp only
  split <;> exact ⟨hle, hb, fun _ ht => Or.inl ht, hmono⟩

theorem executes_testGoal (hb : a.beliefs.Reached) (hs : s.Fits (Known a.fresh) notes)
    {pattern : Literal} (hpattern : pattern.Fits (Known a.fresh) notes) :
    a.Executes notes (a.executeTestGoal s pattern) := by
  have hle := (s.applyLiteral pattern).le_freshen a.fresh
  have hmono := hs.mono fun _ hx => hx.mono hle
  unfold executeTestGoal
  simp only
  split
  · rename_i found extended rest hquery
    exact executes_of_fits hb (fits_of_unifyQuery hb hs (hs.applyLiteral hpattern) hquery)
  · split <;> exact ⟨hle, hb, fun _ ht => Or.inl ht, hmono⟩

theorem executes_post (hb : a.beliefs.Reached) (hs : s.Fits (Known a.fresh) notes)
    {posted : Trigger} (hposted : posted.literal.Fits (Known a.fresh) notes) :
    a.Executes notes (a.executePost s posted) := by
  unfold executePost
  simp only
  split
  · exact executes_of_fits hb hs
  · rename_i l hl
    have happlied : l = s.applyLiteral posted.literal := by
      unfold Literal.grounded at hl
      repeat' split at hl
      all_goals simp_all
    have hfits : l.Fits (Known a.fresh) notes := happlied ▸ hs.applyLiteral hposted
    have hle := l.le_freshen a.fresh
    refine ⟨hle, hb, fun t ht => ?_, hs.mono fun _ hx => hx.mono hle⟩
    rcases List.mem_append.1 ht with ht | ht
    · exact Or.inl ht
    · obtain rfl := List.mem_singleton.1 ht
      exact Or.inr hfits.freshen

theorem executes_assign (hb : a.beliefs.Reached) (hs : s.Fits (Known a.fresh) notes)
    {name : String} (hname : Known a.fresh name) {e : Expression}
    (he : e.Fits (Known a.fresh) notes) : a.Executes notes (a.executeAssign s name e) := by
  obtain ⟨hbindings, hvalue⟩ := he.evaluate hs hb.allGround
  unfold executeAssign
  split
  · rename_i err s' heq
    rw [heq] at hbindings
    exact executes_of_fits hb hbindings
  · rename_i v s' heq
    rw [heq] at hbindings hvalue
    have hv := hvalue v rfl
    exact executes_of_fits hb (hbindings.assign hname hv.term hv.proper)

theorem executes_unary (hb : a.beliefs.Reached) (hs : s.Fits (Known a.fresh) notes)
    {name : String} (hname : Known a.fresh name) (op : Increment) :
    a.Executes notes (a.executeUnary s name op) := by
  unfold executeUnary
  split
  · exact executes_of_fits hb hs
  · exact executes_of_fits hb (hs.assign hname (Term.fits_of_isGround rfl) rfl)

theorem executes_test (hb : a.beliefs.Reached) (hs : s.Fits (Known a.fresh) notes)
    {e : Expression} (he : e.Fits (Known a.fresh) notes) :
    a.Executes notes (a.executeTest s e) := by
  have htruth := he.truth hs hb.allGround
  unfold executeTest
  split
  · rename_i err s' heq
    rw [heq] at htruth
    exact executes_of_fits hb htruth
  · rename_i degree s' heq
    rw [heq] at htruth
    split
    · exact executes_of_fits hb htruth
    · exact executes_of_fits hb htruth

/-- Whatever an instruction does, all names are known afterwards. -/
theorem executes (hb : a.beliefs.Reached) (hs : s.Fits (Known a.fresh) notes)
    {instruction : Instruction} (hi : instruction.Fits (Known a.fresh) notes)
    (hanswers : ∀ call, instruction = .action call → a.Answers notes s call) :
    a.Executes notes (a.execute s instruction) := by
  cases instruction with
  | addBelief pattern => exact executes_add hb hs pattern
  | removeBelief pattern => exact executes_remove hb hs hi
  | updateBelief old new => exact executes_update hb hs hi.1 new
  | achieve pattern => exact executes_achieve hb hs pattern
  | post posted => exact executes_post hb hs hi
  | testGoal pattern => exact executes_testGoal hb hs hi
  | assign name e => exact executes_assign hb hs hi.1 hi.2
  | unary name op => exact executes_unary hb hs hi op
  | test e => exact executes_test hb hs hi
  | action call => exact executes_action hb hs hi (hanswers call rfl)

end Agent

/-! ### Agents -/

theorem Frame.Fits.answer {f : Frame} {n : Nat} (h : f.Fits notes n)
    (failure : Option InstructionError) :
    n ≤ (f.answer failure n).2 ∧
      ∀ l, (f.answer failure n).1 = some l → l.Fits (Known (f.answer failure n).2) notes := by
  cases failure with
  | some e => exact ⟨Nat.le_refl _, by simp [Frame.answer]⟩
  | none =>
      refine ⟨f.instantiated.le_freshen n, fun l hl => ?_⟩
      obtain rfl := Option.some.inj hl
      exact h.instantiated.freshen

theorem Frame.Fits.resume {f : Frame} {n : Nat} {resolved : Option Literal} (h : f.Fits notes n)
    (hgoal : ∀ goal, f.awaiting = some goal → goal.Fits (Known n) notes)
    (hl : ∀ l, resolved = some l → l.Fits (Known n) notes) (degree : Float)
    (failure : Option InstructionError) : (f.resume degree failure resolved).1.Fits notes n := by
  refine ⟨?_, ?_⟩
  · simp only [Frame.resume]
    split
    · rename_i l goal hawaiting
      split
      · rename_i bindings hunify
        exact h.bindings.unifyLiterals (hgoal goal hawaiting) (hl l rfl) hunify
      · exact h.bindings
    · exact h.bindings
  · rw [f.resume_eq_running]
    exact h.trigger

namespace Agent

variable {a b c : Agent} {place : Nat} {i : Intention} {id parent : FrameId} {f g : Frame}
  {p : Plan} {stack below : List FrameId} {failure : Option InstructionError}
  {instruction : Instruction}

/-- All names in an agent are known, its beliefs stem from operations on beliefs, and its frames are
linked. -/
structure Scoped (notes : Prop) (a : Agent) : Prop where
  library : ∀ p ∈ a.library.plans, p.Fits IsPlain notes
  beliefs : a.beliefs.Reached
  pending : ∀ t ∈ a.pending, t.literal.Fits (Known a.fresh) notes
  roots : ∀ i ∈ a.intentions, i.root.literal.Fits (Known a.fresh) notes
  sleep : ∀ z, a.sleep = some z → ∀ t ∈ z.terms, t.Fits (Known a.fresh) notes
  frames : a.frames.Linked notes a.fresh

theorem Scoped.withFrames {frames : FrameArena} (h : a.Scoped notes)
    (hframes : frames.Linked notes a.fresh) : { a with frames }.Scoped notes :=
  ⟨h.library, h.beliefs, h.pending, h.roots, h.sleep, hframes⟩

theorem Scoped.withFresh {fresh : Nat} (h : a.Scoped notes) (hfresh : a.fresh ≤ fresh) :
    { a with fresh }.Scoped notes where
  library := h.library
  beliefs := h.beliefs
  pending t ht := (h.pending t ht).mono fun _ hx => hx.mono hfresh
  roots i hi := (h.roots i hi).mono fun _ hx => hx.mono hfresh
  sleep z hz t ht := (h.sleep z hz t ht).mono fun _ hx => hx.mono hfresh
  frames := h.frames.mono hfresh

theorem Scoped.enqueue (h : a.Scoped notes) {t : Trigger}
    (ht : t.literal.Fits (Known a.fresh) notes) : (a.enqueue t).Scoped notes :=
  ⟨h.library, h.beliefs, List.forall_mem_append.2 ⟨h.pending, List.forall_mem_singleton.2 ht⟩,
    h.roots, h.sleep, h.frames⟩

theorem Scoped.dropIntention (h : a.Scoped notes) (place : Nat) :
    (a.dropIntention place).Scoped notes :=
  ⟨h.library, h.beliefs, h.pending, fun i hi => h.roots i (List.mem_of_mem_eraseIdx hi), h.sleep,
    h.frames⟩

theorem Scoped.setStack (h : a.Scoped notes) (place : Nat) (stack : List FrameId) :
    (a.setStack place stack).Scoped notes := by
  refine ⟨h.library, h.beliefs, h.pending, fun i hi => ?_, h.sleep, h.frames⟩
  obtain ⟨k, hk, _, hroot⟩ := exists_of_mem_setStack hi
  exact hroot ▸ h.roots k hk

theorem Scoped.storeFrame (h : a.Scoped notes) (hold : a.frames.find? id = some f)
    (hchildless : a.frames.Childless id) (hfits : g.Fits notes a.fresh)
    (hparent : g.parent = f.parent) (htrigger : g.trigger = f.trigger) :
    (a.storeFrame id g).Scoped notes :=
  h.withFrames (h.frames.store hold hchildless hfits hparent htrigger)

/-- An instruction or a sub-goal of a frame came to something. -/
theorem Scoped.absorb (h : a.Scoped notes) (hold : a.frames.find? id = some f)
    (hchildless : a.frames.Childless id) (hfits : g.Fits notes a.fresh)
    (hparent : g.parent = f.parent) (htrigger : g.trigger = f.trigger) (place : Nat)
    (stack : List FrameId) (p : Plan) (r : Result) :
    (Progress.of (a.storeFrame id (g.absorb p r)) place stack (g.verdict p r)).agent.Scoped
      notes := by
  have hstored : (a.storeFrame id (g.absorb p r)).Scoped notes :=
    h.storeFrame hold hchildless ⟨hfits.bindings, hfits.trigger⟩ hparent htrigger
  exact Progress.agent_of (P := Scoped notes) hstored (hstored.setStack place stack) _

/-! ### Turns -/

theorem Scoped.started (h : a.Scoped notes) (hf : a.frames.find? id = some f)
    (hawaiting : f.awaiting = none) : (a.started id f).Scoped notes := by
  have hfits := h.frames.fits id f hf
  have hrunning : { f with state := .running }.Fits notes a.fresh := ⟨hfits.bindings, hfits.trigger⟩
  exact h.storeFrame hf (h.frames.childless hf hawaiting) hrunning rfl rfl

theorem Executes.scoped {instruction : Instruction} {s : Substitution} (h : a.Scoped notes)
    (he : a.Executes notes (a.execute s instruction)) :
    (a.execute s instruction).agent.Scoped notes := by
  obtain ⟨beliefs, pending, fresh, hagent⟩ := execute_agent a s instruction
  have hgrown := h.withFresh he.fresh
  have hpending := he.pending
  have hbeliefs := he.beliefs
  rw [hagent] at hgrown hpending hbeliefs ⊢
  refine ⟨h.library, hbeliefs, fun t ht => ?_, hgrown.roots, hgrown.sleep, hgrown.frames⟩
  rcases hpending t ht with hold | hnew
  · exact hgrown.pending t hold
  · exact hnew

theorem Scoped.select? {t : Trigger} {selection : Selection Float} (h : a.Scoped notes)
    (ht : t.literal.Fits (Known a.fresh) notes) (hselect : a.select? t = some selection) :
    selection.bindings.Fits (Known a.fresh) notes :=
  PlanLibrary.fits_select (fun p hp => (h.library p hp).mono fun _ hx => hx.known _) ht
    h.beliefs.allGround hselect

/-- A frame for a sub-goal is linked to the one that waits for it. -/
theorem Scoped.pushSubgoal {t : Trigger} {selection : Selection Float} {goal : Literal}
    (h : a.Scoped notes) (hvalid : a.frames.Valid) (hf : a.frames.find? id = some f)
    (hchildless : a.frames.Childless id) (ht : t.literal.Fits (Known a.fresh) notes)
    (hselection : selection.bindings.Fits (Known a.fresh) notes)
    (hserves : (Frame.start selection.plan t selection.bindings (some id)).Serves notes a.fresh f
      goal) (place : Nat) (stack : List FrameId) :
    (a.pushSubgoal place stack id t selection).Scoped notes := by
  refine (h.withFrames (h.frames.insert hvalid ⟨hselection, ht⟩ ?_)).setStack place _
  intro parent hparent
  obtain rfl := Option.some.inj hparent
  exact ⟨hchildless, f, goal, hf, hserves⟩

/-- Every action that is called in the turn of the intention at a place answers as it should. -/
def TurnAnswers (notes : Prop) (a : Agent) (place : Nat) : Prop :=
  ∀ s call, a.upcoming? place = some (s, .action call) → a.Answers notes s call

theorem Scoped.fits_instruction (h : a.Scoped notes)
    (hruns : a.Runs place i id below f p instruction) :
    instruction.Fits (Known a.fresh) notes := by
  have hplan := h.library p (List.mem_of_getElem? hruns.plan)
  exact (hplan.body instruction (List.mem_of_getElem? hruns.body)).mono fun _ hx => hx.known _

/-- A sub-goal is pursued under new names. -/
theorem Scoped.subgoal {goal : Literal} {t : Trigger} {selection : Selection Float}
    (h : a.Scoped notes) (hruns : a.Runs place i id below f p instruction)
    (houtcome : (a.executed id f instruction).outcome = .ok (.suspend goal t selection)) :
    goal.Fits (Known a.fresh) notes ∧ t.literal = (goal.freshen a.fresh).1 ∧
      (a.executed id f instruction).agent.fresh = (goal.freshen a.fresh).2 := by
  obtain ⟨pattern, kind, hwhich, hgoal, rfl, _, hagent, _⟩ := execute_suspend houtcome
  have hpattern : pattern.Fits (Known a.fresh) notes := by
    have hinstruction := h.fits_instruction hruns
    rcases hwhich with ⟨rfl, _⟩ | ⟨rfl, _⟩ <;> exact hinstruction
  refine ⟨hgoal ▸ (h.frames.fits id f hruns.frame).bindings.applyLiteral hpattern, rfl, ?_⟩
  rw [executed, hagent]
  rfl

/-- The frame on top of a stack ran an instruction. -/
theorem Scoped.executed (h : a.Scoped notes) (hruns : a.Runs place i id below f p instruction)
    (hawaiting : f.awaiting = none) (hanswers : a.TurnAnswers notes place) :
    (a.started id f).Executes notes (a.executed id f instruction) ∧
      (a.executed id f instruction).agent.Scoped notes := by
  have hstarted := h.started hruns.frame hawaiting
  have hbindings := (h.frames.fits id f hruns.frame).bindings
  have hexecutes : (a.started id f).Executes notes (a.executed id f instruction) := by
    refine executes hstarted.beliefs hbindings (h.fits_instruction hruns) ?_
    rintro call rfl
    exact hanswers f.bindings call hruns.upcoming?
  exact ⟨hexecutes, hexecutes.scoped hstarted⟩

/-- The frame that ran is still on top of its stack. -/
theorem Scoped.find?_executed (h : a.Scoped notes) (hruns : a.Runs place i id below f p instruction)
    (hawaiting : f.awaiting = none) :
    (a.executed id f instruction).agent.frames.find? id = some { f with state := .running } ∧
      (a.executed id f instruction).agent.frames.Childless id := by
  rw [frames_executed]
  exact ⟨FrameArena.find?_store hruns.frame,
    (h.frames.childless hruns.frame hawaiting).store hruns.frame rfl⟩

/-- The frame for a sub-goal is put on the stack. -/
theorem Scoped.suspend {goal : Literal} {t : Trigger} {selection : Selection Float}
    (h : a.Scoped notes) (hsound : a.Sound) (hruns : a.Runs place i id below f p instruction)
    (hanswers : a.TurnAnswers notes place)
    (houtcome : (a.executed id f instruction).outcome = .ok (.suspend goal t selection))
    (hg : g = { f with
      state := .suspended
      pc := f.pc + 1
      bindings := (a.executed id f instruction).bindings
      awaiting := some goal }) (stack : List FrameId) :
    (((a.executed id f instruction).agent.storeFrame id g).pushSubgoal place stack id t
      selection).Scoped notes := by
  have hawaiting := (hsound.ready hruns.toTopFrame).2.awaiting
  obtain ⟨hexecutes, hscoped⟩ := h.executed hruns hawaiting hanswers
  obtain ⟨hf, hchildless⟩ := h.find?_executed hruns hawaiting
  obtain ⟨hgoalFits, hliteral, hfresh⟩ := h.subgoal hruns houtcome
  obtain ⟨pattern, kind, _, hgoal, _, hbindings, hagent, hselect⟩ := execute_suspend houtcome
  have htFits : t.literal.Fits (Known (a.executed id f instruction).agent.fresh) notes := by
    rw [hfresh, hliteral]
    exact hgoalFits.freshen
  have hselection := hscoped.select? htFits (hagent ▸ hselect)
  have hserves : (Frame.start selection.plan t selection.bindings (some id)).Serves notes
      (a.executed id f instruction).agent.fresh g goal := by
    subst hg
    exact ⟨rfl, ⟨pattern, hgoal.trans (hbindings ▸ rfl)⟩, a.fresh, hexecutes.fresh, hgoalFits,
      hliteral⟩
  have hwaiting : g.Fits notes (a.executed id f instruction).agent.fresh := by
    subst hg
    exact ⟨hexecutes.bindings, (hscoped.frames.fits id _ hf).trigger⟩
  have hparent : g.parent = f.parent := hg ▸ rfl
  have htrigger : g.trigger = f.trigger := hg ▸ rfl
  exact (hscoped.storeFrame hf hchildless hwaiting hparent htrigger).pushSubgoal
    (hsound.valid_executed id f g instruction) (FrameArena.find?_store hf)
    (hchildless.store hf hparent) htFits hselection hserves place stack

/-- A frame that waits for nothing is taken off its stack. -/
theorem Scoped.closes {depth : Nat} (h : a.Scoped notes)
    (hcloses : a.Closes i id depth failure f c) (hawaiting : f.awaiting = none) :
    c.Scoped notes ∧ f.Fits notes c.fresh := by
  obtain ⟨frames, hr, rfl⟩ := hcloses
  have hf := (FrameArena.remove?_eq_some_iff.1 hr).1
  have hlinked := h.frames.remove (h.frames.childless hf hawaiting) hr
  exact ⟨⟨h.library, h.beliefs, h.pending, h.roots, h.sleep, hlinked⟩, h.frames.fits id f hf⟩

theorem Scoped.endIntention (h : a.Scoped notes)
    (hroot : i.root.literal.Fits (Known a.fresh) notes) (place : Nat)
    (failure : Option InstructionError) : (a.endIntention place i failure).Scoped notes := by
  unfold Agent.endIntention
  split
  · exact (h.dropIntention place).enqueue hroot
  · exact h.dropIntention place

/-- The frame that waits for one that is taken off has no other below it, and its goal is known. -/
theorem Scoped.waits_of_closes {depth : Nat} (h : a.Scoped notes)
    (hcloses : a.Closes i id depth failure f c) (hawaiting : f.awaiting = none)
    (hparent : f.parent = some parent) (hg : c.frames.find? parent = some g) :
    c.frames.Childless parent ∧
      ∀ goal, g.awaiting = some goal → goal.Fits (Known c.fresh) notes := by
  obtain ⟨frames, hr, rfl⟩ := hcloses
  have hf := (FrameArena.remove?_eq_some_iff.1 hr).1
  refine ⟨h.frames.childless_of_remove hr hparent, fun goal hgoal => ?_⟩
  obtain ⟨g', goal', hg', hserves⟩ := h.frames.serves id f parent hf hparent
  have hne : parent ≠ id := by
    rintro rfl
    exact h.frames.childless hf hawaiting _ f hf hparent
  rw [← FrameArena.find?_remove_of_ne hr hne] at hg'
  obtain rfl := Option.some.inj (hg.symm.trans hg')
  obtain rfl := Option.some.inj (hgoal.symm.trans hserves.awaiting)
  obtain ⟨k, hk, hfits, _⟩ := hserves.trigger
  exact hfits.mono fun _ hx => hx.mono hk

theorem Scoped.course {j : Journal} {progress : Progress} (h : a.Scoped notes) (hsound : a.Sound)
    (hanswers : a.TurnAnswers notes place) (hcourse : Course a place i j stack progress) :
    progress.agent.Scoped notes := by
  induction hcourse with
  | lost => exact h.dropIntention place
  | exhaust htop _ => exact h.started htop.frame (hsound.ready htop).2.awaiting
  | @run id _ f g p instruction r hruns _ hg =>
      have hawaiting := (hsound.ready hruns.toTopFrame).2.awaiting
      obtain ⟨hexecutes, hscoped⟩ := h.executed hruns hawaiting hanswers
      obtain ⟨hf, hchildless⟩ := h.find?_executed hruns hawaiting
      have hfits : g.Fits notes (a.executed id f instruction).agent.fresh := by
        subst hg
        exact ⟨hexecutes.bindings, (hscoped.frames.fits id _ hf).trigger⟩
      exact hscoped.absorb hf hchildless hfits (hg ▸ rfl) (hg ▸ rfl) place _ p r
  | suspend hruns houtcome hg => exact h.suspend hsound hruns hanswers houtcome hg _
  | skip _ _ ih => exact ih
  | bare _ ih => exact ih.dropIntention place
  | endRoot hbefore hcloses _ ih =>
      have hroot := ih.roots i (List.mem_of_getElem? hbefore.intention_of_ends)
      have hclosed := (ih.closes hcloses ((hsound.course hbefore).of_closes hcloses).1).1
      obtain ⟨_, _, rfl⟩ := hcloses
      exact hclosed.endIntention hroot place _
  | orphan hbefore hcloses _ _ ih =>
      obtain ⟨hclosed, hfits⟩ := ih.closes hcloses ((hsound.course hbefore).of_closes hcloses).1
      exact (hclosed.withFresh (hfits.answer _).1).dropIntention place
  | @endChild _ _ _ rest _ c f g back q degree _ failure hbefore hcloses hparent hg _ _ htold hback
      ih =>
      have hawaiting := ((hsound.course hbefore).of_closes hcloses).1
      obtain ⟨hclosed, hfits⟩ := ih.closes hcloses hawaiting
      obtain ⟨hchildless, hgoal⟩ := ih.waits_of_closes hcloses hawaiting hparent hg
      obtain ⟨hle, hanswer⟩ := hfits.answer failure
      have hfresh := hclosed.withFresh hle
      have hgfits := hfresh.frames.fits _ g hg
      have hresumed := hgfits.resume
        (fun goal hgoal' => (hgoal goal hgoal').mono fun _ hx => hx.mono hle) hanswer degree failure
      have hfits : back.Fits notes (f.answer failure c.fresh).2 := by
        subst htold hback
        exact ⟨hresumed.bindings, hgfits.trigger⟩
      exact hfresh.absorb hg hchildless hfits (hback ▸ rfl) (hback ▸ rfl) place rest q _

theorem Scoped.round (h : a.Scoped notes) (hsound : a.Sound)
    (hanswers : a.TurnAnswers notes place) (hround : Round a place i stack b failure) :
    b.Scoped notes := by
  obtain ⟨j, hcourse⟩ := hround.course
  exact h.course hsound hanswers hcourse

theorem Scoped.step (h : a.Scoped notes) (hsound : a.Sound) (hanswers : a.TurnAnswers notes place) :
    (a.step place).Scoped notes := by
  obtain ⟨hstep, _⟩ | ⟨i, rest, hcourse⟩ := a.step_cases place
  · rw [hstep]
    exact h
  · exact h.course hsound hanswers hcourse

/-! ### Ticks and operations -/

theorem Scoped.handle (h : a.Scoped notes) (hsound : a.Sound) {t : Trigger}
    (ht : t.literal.Fits (Known a.fresh) notes) : (a.handle t).Scoped notes := by
  unfold Agent.handle
  simp only
  split
  · rename_i t' selection hchoose
    obtain ⟨hliteral, hselect⟩ := choose_eq_some hchoose
    have ht' : t'.literal.Fits (Known a.fresh) notes := hliteral ▸ ht
    have hlinked := h.frames.insert hsound.serves.valid
      (g := .start selection.plan t' selection.bindings none)
      ⟨h.select? ht' hselect, ht'⟩ (by simp [Frame.start])
    exact ⟨h.library, h.beliefs, h.pending,
      List.forall_mem_append.2 ⟨h.roots, List.forall_mem_singleton.2 ht'⟩, h.sleep, hlinked⟩
  · split
    · exact ⟨h.library, h.beliefs, h.pending, h.roots, h.sleep, h.frames⟩
    · exact ⟨h.library, h.beliefs, h.pending, h.roots, h.sleep, h.frames⟩

theorem Scoped.collectBeliefEvents (h : a.Scoped notes) : a.collectBeliefEvents.Scoped notes := by
  refine ⟨h.library, h.beliefs.drainEvents, ?_, h.roots, h.sleep, h.frames⟩
  refine List.forall_mem_append.2 ⟨h.pending, fun t ht => ?_⟩
  obtain ⟨e, he, rfl⟩ := List.mem_map.1 ht
  exact Literal.fits_of_isGround (h.beliefs.allGround.events e he)

theorem fits_wakeupTriggers {K : String → Prop} {terms : List Term} {t : Trigger}
    (h : ∀ u ∈ terms, u.Fits K notes) (ht : t ∈ wakeupTriggers terms) :
    t.literal.Fits K notes := by
  unfold wakeupTriggers at ht
  split at ht
  · obtain rfl := List.mem_singleton.1 ht
    exact Literal.fits_of_isGround rfl
  · obtain ⟨u, hu, rfl⟩ := List.mem_map.1 ht
    have hfits := h u hu
    refine ⟨fun x hx => hfits.names x ?_, hfits.notes.imp_right fun hnil => ?_⟩
    · simpa [Literal.of, Term.allNames, Literal.allNames] using hx
    · simpa [Literal.of, Term.noteNames, Literal.noteNames] using hnil

theorem Scoped.wakeUp (h : a.Scoped notes) {terms : List Term}
    (hterms : ∀ t ∈ terms, t.Fits (Known a.fresh) notes) : (a.wakeUp terms).2.Scoped notes := by
  unfold Agent.wakeUp
  split
  · exact h
  · rename_i z hz
    have hall : ∀ t ∈ z.terms ++ terms, t.Fits (Known a.fresh) notes :=
      List.forall_mem_append.2 ⟨h.sleep z hz, hterms⟩
    refine ⟨h.library, h.beliefs, ?_, h.roots, by simp, h.frames⟩
    exact List.forall_mem_append.2 ⟨h.pending, fun t ht => fits_wakeupTriggers hall ht⟩

theorem Scoped.sleepThrough (h : a.Scoped notes) : a.sleepThrough.2.Scoped notes := by
  unfold Agent.sleepThrough
  split
  · exact h
  · rename_i z hz
    split
    · exact h
    · exact h.wakeUp (by simp)
    · refine ⟨h.library, h.beliefs, h.pending, h.roots, fun z' hz' => ?_, h.frames⟩
      obtain rfl := Option.some.inj hz'
      exact h.sleep z hz

theorem Scoped.awake (h : a.Scoped notes) : a.awake.Scoped notes := by
  have hcounted : { a with cycle := a.cycle + 1 }.Scoped notes :=
    ⟨h.library, h.beliefs, h.pending, h.roots, h.sleep, h.frames⟩
  exact hcounted.collectBeliefEvents.sleepThrough

theorem Scoped.conclude (h : a.Scoped notes) : a.conclude.Scoped notes := by
  have hcollected := h.collectBeliefEvents
  exact ⟨hcollected.library, hcollected.beliefs, hcollected.pending, hcollected.roots,
    hcollected.sleep, hcollected.frames⟩

/-- The action that the next tick calls, if it calls one, answers as it should. -/
def TickAnswers (notes : Prop) (a : Agent) : Prop :=
  ∀ place, a.awake.pending = [] → a.awake.runnable? = some place →
    a.awake.TurnAnswers notes place

theorem Scoped.tick (h : a.Scoped notes) (hsound : a.Sound) (hanswers : a.TickAnswers notes) :
    a.tick.2.Scoped notes := by
  obtain ⟨_, heq⟩ | heq | ⟨t, rest, hpending, heq⟩ | ⟨place, hpending, hplace, heq⟩ :=
    a.tick_cases
  · rw [heq]
    exact h
  · rw [heq]
    exact h.awake.conclude
  · rw [heq]
    have hawake := h.awake
    have hall := List.forall_mem_cons.1 (hpending ▸ hawake.pending)
    have hrest : { a.awake with pending := rest }.Scoped notes :=
      ⟨hawake.library, hawake.beliefs, hall.2, hawake.roots, hawake.sleep, hawake.frames⟩
    have hsound' : { a.awake with pending := rest }.Sound := hsound.awake.congr rfl rfl rfl rfl
    exact (hrest.handle hsound' hall.1).conclude
  · rw [heq]
    exact (h.awake.step hsound.awake (hanswers place hpending hplace)).conclude

theorem Scoped.trigger (h : a.Scoped notes) {t : Trigger} (ht : t.literal.Fits IsPlain notes)
    (hb : a.trigger t = .ok b) : b.Scoped notes := by
  obtain ⟨_, rfl⟩ := trigger_eq_ok hb
  have hknown : t.literal.Fits (Known a.fresh) notes := ht.mono fun _ hx => hx.known _
  exact (h.withFresh (t.literal.le_freshen a.fresh)).enqueue hknown.freshen

/-- Only plain names come in from outside, belief bases are changed through their operations, and
actions answer with plain names. -/
def Allows (notes : Prop) (a : Agent) : Operation → Prop
  | .tick => a.TickAnswers notes
  | .trigger t => t.literal.Fits IsPlain notes
  | .achieve goal => goal.Fits IsPlain notes
  | .perceive change => (change a.beliefs).Reached
  | .fallAsleep _ terms | .wakeUp terms => ∀ t ∈ terms, t.Fits IsPlain notes
  | .hear _ | .terminate | .drainReports => True

theorem Scoped.perform (h : a.Scoped notes) (hsound : a.Sound) {op : Operation}
    (hop : a.Allows notes op) : (a.perform op).Scoped notes := by
  cases op with
  | tick => exact h.tick hsound hop
  | trigger t =>
      simp only [Agent.perform]
      split
      · rename_i b hb
        exact h.trigger hop hb
      · exact h
  | achieve goal =>
      simp only [Agent.perform, achieve]
      split
      · rename_i b hb
        exact h.trigger (t := ⟨.addGoal, goal⟩) hop hb
      · exact h
  | perceive change => exact ⟨h.library, hop, h.pending, h.roots, h.sleep, h.frames⟩
  | fallAsleep cycles terms =>
      refine ⟨h.library, h.beliefs, h.pending, h.roots, fun z hz t ht => ?_, h.frames⟩
      obtain rfl := Option.some.inj hz
      exact (hop t ht).mono fun _ hx => hx.known _
  | wakeUp terms => exact h.wakeUp fun t ht => (hop t ht).mono fun _ hx => hx.known _
  | hear | terminate | drainReports =>
      exact ⟨h.library, h.beliefs, h.pending, h.roots, h.sleep, h.frames⟩

end Agent

/-! ### Runs -/

/-- The plans and the first goals of an agent have plain names. -/
structure AgentSpec.HasPlainNames (notes : Prop) (spec : AgentSpec) : Prop where
  plans : ∀ p ∈ spec.library.plans, p.Fits IsPlain notes
  goals : ∀ goal ∈ spec.goals, goal.Fits IsPlain notes

instance [Decidable notes] (spec : AgentSpec) : Decidable (spec.HasPlainNames notes) :=
  decidable_of_iff
    ((∀ p ∈ spec.library.plans, p.Fits IsPlain notes) ∧
      ∀ goal ∈ spec.goals, goal.Fits IsPlain notes)
    ⟨fun h => ⟨h.1, h.2⟩, fun h => ⟨h.plans, h.goals⟩⟩

namespace Agent

variable {a : Agent} {spec : AgentSpec}

theorem reached_build {beliefs : BeliefBase}
    (h : spec.beliefs.foldlM
      (fun (b : BeliefBase) l => ((b.add l).map (·.2)).mapError EngineError.validation)
      BeliefBase.empty = .ok beliefs) : beliefs.Reached := by
  refine List.foldlM_induction ?_ BeliefBase.Reached.empty h
  intro b l _ b' hb hadd
  rw [Except.mapError_eq_ok_iff] at hadd
  cases hl : b.add l with
  | error e => simp [hl, Except.map] at hadd
  | ok r =>
      obtain rfl : r.2 = b' := by simpa [hl, Except.map] using hadd
      exact hb.add hl

theorem reached_of_build (h : spec.build = .ok a) : a.beliefs.Reached := by
  obtain ⟨_, beliefs, hbeliefs, hgoals⟩ := build_eq_ok h
  refine List.foldlM_induction (P := fun b : Agent => b.beliefs.Reached) ?_
    (reached_build hbeliefs) hgoals
  intro b goal _ c hb hc
  obtain ⟨_, rfl⟩ := trigger_eq_ok (Except.mapError_eq_ok_iff.1 hc)
  exact hb

theorem scoped_build (hspec : spec.HasPlainNames notes) (h : spec.build = .ok a) :
    a.Scoped notes := by
  obtain ⟨_, beliefs, hbeliefs, hgoals⟩ := build_eq_ok h
  have hblank : (spec.blank beliefs).Scoped notes :=
    ⟨hspec.plans, reached_build hbeliefs, by simp [AgentSpec.blank], by simp [AgentSpec.blank],
      by simp [AgentSpec.blank], FrameArena.linked_empty⟩
  refine List.foldlM_induction ?_ hblank hgoals
  intro b goal hmem c hb hc
  exact hb.trigger (t := ⟨.addGoal, goal⟩) (hspec.goals goal hmem) (Except.mapError_eq_ok_iff.1 hc)

theorem scoped_performAll (hspec : spec.HasPlainNames notes) (h : spec.build = .ok a)
    {operations : List Operation} (hrun : a.Admits (Allows notes) operations) :
    (a.performAll operations).Sound ∧ (a.performAll operations).Scoped notes := by
  refine performAll_induction (P := fun a => a.Sound ∧ a.Scoped notes) ?_
    ⟨sound_build h, scoped_build hspec h⟩ hrun
  intro b op hb hop
  exact ⟨hb.1.perform op, hb.2.perform hb.1 hop⟩

end Agent
end Deliberation
