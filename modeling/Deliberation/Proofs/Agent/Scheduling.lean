import Mathlib.Logic.Basic
import Deliberation.Proofs.Agent.Queue
import Deliberation.Proofs.Agent.Sequence

/-!
Which trigger and which intention have their turn.

On every stack the frame on top can run, so the first intention, which is the oldest one, can always
go on. A tick takes the trigger at the front of the queue, or else runs one instruction of the
oldest intention; the other intentions and their frames stay as they are until it has ended.
-/

namespace Deliberation

namespace Entry

/-- The instruction that was run: its intention, its frame and its number. -/
@[simp] def ran? : Entry → Option (IntentionId × FrameId × Nat)
  | .ran n id number _ _ => some (n, id, number)
  | _ => none

end Entry

/-! ### What a step leaves alone -/

namespace FrameArena

/-- The frames off a stack are as they were. -/
def Untouched (frames : FrameArena) (stack : List FrameId) (frames' : FrameArena) : Prop :=
  ∀ id ∉ stack, ∀ f, frames.find? id = some f → frames'.find? id = some f

variable {frames frames' frames'' : FrameArena} {stack below : List FrameId} {id : FrameId}
  {f : Frame}

theorem Untouched.trans (h : frames.Untouched stack frames')
    (h' : frames'.Untouched stack frames'') : frames.Untouched stack frames'' :=
  fun id hid f hf => h' id hid f (h id hid f hf)

theorem untouched_modify (hid : id ∈ stack) (change : Frame → Frame) :
    frames.Untouched stack (frames.modify id change) := by
  intro other hother f hf
  rw [find?_modify_of_ne frames change, hf]
  rintro rfl
  exact hother hid

theorem untouched_remove (hid : id ∈ stack) (hr : frames.remove? id = some (f, frames')) :
    frames.Untouched stack frames' := by
  intro other hother g hg
  rw [find?_remove_of_ne hr, hg]
  rintro rfl
  exact hother hid

theorem Valid.untouched_insert (h : frames.Valid) (f : Frame) :
    frames.Untouched stack (frames.insert f).2 := by
  intro other _ g hg
  rw [h.find?_insert_of_ne f, hg]
  rintro rfl
  simp [h.find?_insert_name f] at hg

end FrameArena

namespace Agent

variable {a b c : Agent} {place : Nat} {i : Intention} {id : FrameId} {stack : List FrameId}
  {f : Frame} {failure : Option InstructionError} {j : Journal}

/-- What a step of the intention at a place leaves alone: the other intentions, and the frames off
its stack. The intention itself may have ended. -/
structure Spares (a : Agent) (place : Nat) (stack : List FrameId) (b : Agent) : Prop where
  others : b.intentions.eraseIdx place = a.intentions.eraseIdx place ∨
    b.intentions = a.intentions.eraseIdx place
  frames : a.frames.Untouched stack b.frames

theorem others_setStack (hintentions : b.intentions = a.intentions) (stack : List FrameId) :
    (b.setStack place stack).intentions.eraseIdx place = a.intentions.eraseIdx place := by
  have hdrop := congrArg Agent.intentions (b.dropIntention_setStack place stack)
  rw [← hintentions]
  exact hdrop

/-- A step notes the stack of its intention or removes it, and leaves the other intentions alone. -/
theorem Course.others (h : Course a place i j stack (.done b)) :
    b.intentions.eraseIdx place = a.intentions.eraseIdx place ∨
      b.intentions = a.intentions.eraseIdx place := by
  generalize hprogress : Progress.done b = progress at h
  cases h with
  | exhaust | skip => cases hprogress
  | lost =>
      cases hprogress
      exact Or.inr rfl
  | @run id _ f _ _ instruction =>
      rw [Progress.eq_of_of_eq_done hprogress.symm]
      refine Or.inl (others_setStack ?_ _)
      exact a.intentions_executed id f instruction
  | @suspend id _ f _ _ instruction =>
      cases hprogress
      refine Or.inl (others_setStack ?_ _)
      exact a.intentions_executed id f instruction
  | bare hbefore =>
      cases hprogress
      exact Or.inr (congrArg (List.eraseIdx · place) hbefore.intentions)
  | endRoot hbefore hcloses _ =>
      cases hprogress
      obtain ⟨_, _, rfl⟩ := hcloses
      rw [endIntention_eq]
      exact Or.inr (congrArg (List.eraseIdx · place) hbefore.intentions)
  | orphan hbefore hcloses _ _ =>
      cases hprogress
      obtain ⟨_, _, rfl⟩ := hcloses
      exact Or.inr (congrArg (List.eraseIdx · place) hbefore.intentions)
  | endChild hbefore hcloses _ _ _ _ _ _ =>
      rw [Progress.eq_of_of_eq_done hprogress.symm]
      obtain ⟨_, _, rfl⟩ := hcloses
      refine Or.inl (others_setStack ?_ _)
      exact hbefore.intentions

theorem Closes.untouched {depth : Nat} (h : a.Closes i id depth failure f c) (hid : id ∈ stack) :
    a.frames.Untouched stack c.frames := by
  obtain ⟨_, hr, rfl⟩ := h
  exact FrameArena.untouched_remove hid hr

/-- A step touches the frames of its own stack only. -/
theorem Sound.untouched {progress : Progress} (h : a.Sound)
    (hcourse : Course a place i j stack progress) :
    a.frames.Untouched i.stack progress.agent.frames := by
  have hran {id : FrameId} (hid : id ∈ i.stack) (f g : Frame) (instruction : Instruction) :
      a.frames.Untouched i.stack
        ((a.executed id f instruction).agent.storeFrame id g).frames := by
    rw [storeFrame, frames_executed]
    exact (FrameArena.untouched_modify hid _).trans (FrameArena.untouched_modify hid _)
  induction hcourse with
  | lost => exact fun _ _ _ hf => hf
  | exhaust htop _ => exact FrameArena.untouched_modify (htop.stack ▸ List.mem_cons_self) _
  | run hruns _ _ =>
      have hstored := hran (hruns.stack ▸ List.mem_cons_self)
      refine Progress.agent_of (P := fun b => a.frames.Untouched i.stack b.frames) ?_ ?_ _
      · exact hstored _ _ _
      · exact hstored _ _ _
  | @suspend id _ f g _ instruction _ t selection hruns _ _ =>
      have hvalid := h.valid_executed id f g instruction
      exact (hran (hruns.stack ▸ List.mem_cons_self) f g instruction).trans
        (hvalid.untouched_insert (.start selection.plan t selection.bindings (some id)))
  | skip _ _ ih => exact ih
  | bare _ ih => exact ih
  | endRoot hbefore hcloses _ ih =>
      rw [endIntention_eq]
      exact ih.trans (hcloses.untouched (hbefore.suffix.subset List.mem_cons_self))
  | orphan hbefore hcloses _ _ ih =>
      exact ih.trans (hcloses.untouched (hbefore.suffix.subset List.mem_cons_self))
  | endChild hbefore hcloses hparent _ _ _ _ _ ih =>
      have hclosed := ih.trans (hcloses.untouched (hbefore.suffix.subset List.mem_cons_self))
      -- The frame that waits is the next one on the stack.
      have hhead := ((h.course hbefore).of_closes hcloses).2
      have hmem := hbefore.suffix.subset
        (List.mem_cons_of_mem _ (List.mem_of_head? (hhead.symm.trans hparent)))
      have hstored (g : Frame) := hclosed.trans (FrameArena.untouched_modify hmem fun _ => g)
      refine Progress.agent_of (P := fun b => a.frames.Untouched i.stack b.frames) ?_ ?_ _
      · exact hstored _
      · exact hstored _

/-- A step of the intention at a place touches that intention and the frames of its stack only. -/
theorem Sound.spares_step (h : a.Sound) (hi : a.intentions[place]? = some i) :
    a.Spares place i.stack (a.step place) := by
  obtain ⟨id, below, _, _, hstack, _⟩ := h.top hi
  obtain ⟨rest, hcourse⟩ := course_step hi hstack
  exact ⟨hcourse.others, h.untouched hcourse⟩

/-! ### What a step notes in the journal -/

theorem ran_runEntries (a : Agent) (n : IntentionId) (id : FrameId) (f : Frame)
    (instruction : Instruction) :
    (a.runEntries n id f instruction).filterMap Entry.ran? = [(n, id, f.pc)] := by
  have hsubgoal : (a.subgoalEntries n id
      (a.execute f.bindings instruction).outcome).filterMap Entry.ran? = [] := by
    unfold subgoalEntries
    split <;> rfl
  simp [runEntries, List.filterMap_map, Function.comp_def, hsubgoal]

/-- A step runs the next instruction of the frame on top, if its plan has one, and no other. -/
theorem Sound.ran_stepEntries (h : a.Sound) (hi : a.intentions[place]? = some i) :
    ∃ id f p, i.stack.head? = some id ∧ a.frames.find? id = some f ∧
      a.library.find? f.plan = some p ∧
      (a.stepEntries place).filterMap Entry.ran? =
        p.body[f.pc]?.toList.map fun _ => (i.id, id, f.pc) := by
  obtain ⟨id, below, f, p, hstack, hf, _, _, hplan⟩ := h.top hi
  refine ⟨id, f, p, by rw [hstack]; rfl, hf, hplan, ?_⟩
  have hlibrary : (a.storeFrame id { f with state := .running }).library = a.library := rfl
  have hturn : (a.turnEntries place).filterMap Entry.ran? =
      p.body[f.pc]?.toList.map fun _ => (i.id, id, f.pc) := by
    simp only [turnEntries, hi, hstack, hf, hlibrary, hplan]
    cases p.body[f.pc]? with
    | none => rfl
    | some instruction => exact ran_runEntries _ i.id id { f with state := .running } instruction
  rw [stepEntries, List.filterMap_append, hturn]
  split
  · rw [List.filterMap_nil, List.append_nil]
  · rename_i b failure _
    have hends : ((b.intentions[place]?).elim [] fun i =>
        unwindEntries place i i.stack b failure).filterMap Entry.ran? = [] := by
      cases b.intentions[place]? with
      | none => rfl
      | some i =>
          exact filterMap_unwindEntries (fun _ _ => rfl) (fun _ _ _ => rfl) (fun _ _ => rfl) place i
            i.stack b failure
    rw [hends, List.append_nil]

/-! ### What a tick comes to -/

/-- Whether the agent sleeps through the next tick. -/
def asleep (a : Agent) : Bool :=
  a.sleep.any (·.remaining ≠ some 0)

/-- The goals of a sleep that ends in the next tick. -/
def awakening (a : Agent) : List Trigger :=
  match a.sleep with
  | some ⟨some 0, terms⟩ => wakeupTriggers terms
  | _ => []

theorem pending_awake (a : Agent) :
    a.awake.pending = a.pending ++ a.beliefs.events.map Trigger.ofEvent ++ a.awakening := by
  simp only [awake, sleepThrough, collectBeliefEvents, BeliefBase.drainEvents, awakening]
  cases a.sleep with
  | none => simp
  | some z =>
      obtain ⟨left, terms⟩ := z
      cases left with
      | none => simp
      | some n => cases n <;> simp [wakeUp]

theorem intentions_awake (a : Agent) : a.awake.intentions = a.intentions := by
  obtain ⟨beliefs, pending, cycle, sleep, heq⟩ := a.awake_eq
  rw [heq]

theorem frames_awake (a : Agent) : a.awake.frames = a.frames := by
  obtain ⟨beliefs, pending, cycle, sleep, heq⟩ := a.awake_eq
  rw [heq]

theorem library_awake (a : Agent) : a.awake.library = a.library := by
  obtain ⟨beliefs, pending, cycle, sleep, heq⟩ := a.awake_eq
  rw [heq]

/-- The first intention can go on. -/
theorem Sound.runnable?_cons (h : a.Sound) {younger : List Intention}
    (hi : a.intentions = i :: younger) : a.runnable? = some 0 := by
  have hplace : a.intentions[0]? = some i := by rw [hi]; rfl
  obtain ⟨id, below, f, p, hstack, hf, _, hready, _⟩ := h.top hplace
  have hisReady : f.isReady = true := by
    rcases hready.state with hstate | hstate <;> simp [Frame.isReady, hstate]
  simp [runnable?, hi, List.findIdx?_cons, hstack, hf, hisReady]

theorem runnable?_nil (hi : a.intentions = []) : a.runnable? = none := by
  simp [runnable?, hi]

theorem sleepThrough_collected (a : Agent) :
    { a with cycle := a.cycle + 1 }.collectBeliefEvents.sleepThrough = (a.asleep, a.awake) :=
  Prod.ext (sleepThrough_fst _) rfl

theorem tick_eq (hlive : a.terminated = false) :
    a.tick =
      if a.asleep then (.idle, a.awake.conclude)
      else
        match a.awake.pending, a.awake.runnable? with
        | t :: rest, _ => (.progressed, ({ a.awake with pending := rest }.handle t).conclude)
        | [], some place => (.progressed, (a.awake.step place).conclude)
        | [], none => (.idle, a.awake.conclude) := by
  rw [tick, if_neg (by simp [hlive]), work, sleepThrough_collected]
  cases a.asleep with
  | true => rfl
  | false =>
      cases hpending : a.awake.pending with
      | cons t rest =>
          simp only [Bool.false_eq_true, if_false, hpending]
          rfl
      | nil =>
          simp only [Bool.false_eq_true, if_false, hpending]
          cases a.awake.runnable? <;> rfl

/-- Only a step of an intention runs instructions. -/
theorem ran_tickEntries (hlive : a.terminated = false) :
    a.tickEntries.filterMap Entry.ran? =
      if a.asleep || !a.awake.pending.isEmpty then []
      else
        a.awake.runnable?.elim [] fun place =>
          (a.awake.stepEntries place).filterMap Entry.ran? := by
  have hwaking (b : Agent) : b.wakingEntries.filterMap Entry.ran? = [] := by
    unfold wakingEntries
    split
    · simp [List.filterMap_map, Function.comp_def]
    · rfl
  have hhandling (b : Agent) (t : Trigger) : (b.handlingEntries t).filterMap Entry.ran? = [] := by
    simp only [handlingEntries, List.filterMap_cons, Entry.ran?]
    split
    · rfl
    · split <;> rfl
  rw [tickEntries, if_neg (by simp [hlive]), List.filterMap_append, List.filterMap_append,
    filterMap_collectionEntries fun _ _ => rfl, filterMap_collectionEntries fun _ _ => rfl,
    List.nil_append, List.append_nil, workEntries, sleepThrough_collected, List.filterMap_append,
    hwaking, List.nil_append]
  cases a.asleep with
  | true => rfl
  | false =>
      cases hpending : a.awake.pending with
      | cons t rest => simpa [hpending] using hhandling _ t
      | nil =>
          simp only [Bool.false_eq_true, if_false]
          cases a.awake.runnable? <;> rfl

/-- An intention is still there, and its frames are as they were. -/
structure Leaves (a b : Agent) (i : Intention) : Prop where
  intention : i ∈ b.intentions
  frames : ∀ id ∈ i.stack, b.frames.find? id = a.frames.find? id

/-- A tick handles the trigger at the front of the queue. It runs no instruction, and all intentions
stay as they are. -/
structure HandlesOldest (a : Agent) (t : Trigger) (rest : List Trigger) : Prop where
  queue : a.awake.pending = t :: rest
  result : a.tick.2 = ({ a.awake with pending := rest }.handle t).conclude
  handled : a.tickEntries.filterMap Entry.handled? = [t]
  ran : a.tickEntries.filterMap Entry.ran? = []
  left : ∀ i ∈ a.intentions, a.Leaves a.tick.2 i

/-- A tick goes on with the intention that was started first. It handles no trigger, and it runs the
next instruction of the frame on top of that intention, if its plan has one, and no other
instruction. The younger intentions stay as they are. -/
structure AdvancesOldest (a : Agent) (i : Intention) (younger : List Intention) : Prop where
  queue : a.awake.pending = []
  intentions : a.intentions = i :: younger
  oldest : ∀ k ∈ younger, i.id.number < k.id.number
  result : a.tick.2 = (a.awake.step 0).conclude
  handled : a.tickEntries.filterMap Entry.handled? = []
  ran : ∃ id f p, i.stack.head? = some id ∧ a.frames.find? id = some f ∧
    a.library.find? f.plan = some p ∧
    a.tickEntries.filterMap Entry.ran? = p.body[f.pc]?.toList.map fun _ => (i.id, id, f.pc)
  left : ∀ k ∈ younger, a.Leaves a.tick.2 k

theorem Sound.leaves_handle (h : a.Sound) (t : Trigger) (hi : i ∈ a.intentions) :
    a.Leaves (a.handle t) i := by
  have hlive (id : FrameId) (hid : id ∈ i.stack) : ∃ f, a.frames.find? id = some f :=
    (h.serves.stacked i.stack (List.mem_map_of_mem hi)).live hid
  unfold Agent.handle
  simp only
  split
  · refine ⟨List.mem_append_left _ hi, fun id hid => ?_⟩
    obtain ⟨f, hf⟩ := hlive id hid
    rw [hf]
    have huntouched (g : Frame) : a.frames.Untouched [] (a.frames.insert g).2 :=
      h.serves.valid.untouched_insert g
    exact huntouched _ id List.not_mem_nil f hf
  · split <;> exact ⟨hi, fun _ _ => rfl⟩

/-- The frames of an intention do not stand on the stack of another one. -/
theorem Sound.notMem_stack (h : a.Sound) {younger : List Intention}
    (hi : a.intentions = i :: younger) {k : Intention} (hk : k ∈ younger) {id : FrameId}
    (hid : id ∈ k.stack) : id ∉ i.stack := by
  have hfirst : a.intentions[0]? = some i := by rw [hi]; rfl
  have hopens := h.opens hfirst
  have hother : k.stack ∈ (a.intentions.eraseIdx 0).map Intention.stack := by
    rw [hi]
    exact List.mem_map_of_mem hk
  exact fun hmem => hopens.arranged.notMem_others hmem hother hid

theorem Sound.leaves_step (h : a.Sound) {younger : List Intention}
    (hi : a.intentions = i :: younger) {k : Intention} (hk : k ∈ younger) :
    a.Leaves (a.step 0) k := by
  have hfirst : a.intentions[0]? = some i := by rw [hi]; rfl
  have hspares := h.spares_step hfirst
  have hmem : k ∈ a.intentions := by
    rw [hi]
    exact List.mem_cons_of_mem _ hk
  constructor
  · have hothers : a.intentions.eraseIdx 0 = younger := by rw [hi]; rfl
    rcases hspares.others with heq | heq
    · exact List.mem_of_mem_eraseIdx (heq ▸ hothers ▸ hk)
    · rw [heq, hothers]
      exact hk
  · intro id hid
    obtain ⟨f, hf⟩ := (h.serves.stacked k.stack (List.mem_map_of_mem hmem)).live hid
    rw [hf]
    exact hspares.frames id (h.notMem_stack hi hk hid) f hf

/-- What is left alone after the start of a tick and before its end is left alone in the tick. -/
theorem Leaves.conclude (h : a.awake.Leaves b i) : a.Leaves b.conclude i :=
  ⟨h.intention, fun id hid => (h.frames id hid).trans (congrArg (·.find? id) a.frames_awake)⟩

theorem Sound.handlesOldest (h : a.Sound) (hlive : a.terminated = false)
    (hasleep : a.asleep = false)
    {t : Trigger} {rest : List Trigger} (hpending : a.awake.pending = t :: rest) :
    a.tick.1 = .progressed ∧ a.HandlesOldest t rest := by
  have htick := a.tick_eq hlive
  simp only [hasleep, Bool.false_eq_true, if_false, hpending] at htick
  rw [htick]
  have hsound : { a.awake with pending := rest }.Sound := h.awake.congr rfl rfl rfl rfl
  refine ⟨rfl, hpending, by rw [htick], ?_, ?_, fun i hi => ?_⟩
  · have hdormant : a.dormant = false := by
      simpa [dormant, hlive, asleep] using hasleep
    rw [handled_tickEntries, hdormant, hpending]
    rfl
  · simp [ran_tickEntries hlive, hpending]
  · rw [htick]
    have hleaves := hsound.leaves_handle t (i := i) (a.intentions_awake ▸ hi)
    exact Leaves.conclude ⟨hleaves.intention, hleaves.frames⟩

theorem Sound.advancesOldest (h : a.Sound) (hlive : a.terminated = false)
    (hasleep : a.asleep = false) (hpending : a.awake.pending = []) {younger : List Intention}
    (hi : a.intentions = i :: younger) (holdest : ∀ k ∈ younger, i.id.number < k.id.number) :
    a.tick.1 = .progressed ∧ a.AdvancesOldest i younger := by
  have hi' : a.awake.intentions = i :: younger := a.intentions_awake.trans hi
  have hplace := h.awake.runnable?_cons hi'
  have htick := a.tick_eq hlive
  simp only [hasleep, Bool.false_eq_true, if_false, hpending, hplace] at htick
  rw [htick]
  refine ⟨rfl, hpending, hi, holdest, by rw [htick], ?_, ?_, fun k hk => ?_⟩
  · rw [handled_tickEntries, hpending]
    simp
  · have hfirst : a.awake.intentions[0]? = some i := by rw [hi']; rfl
    obtain ⟨id, f, p, hid, hf, hp, hran⟩ := h.awake.ran_stepEntries hfirst
    rw [frames_awake] at hf
    rw [library_awake] at hp
    exact ⟨id, f, p, hid, hf, hp,
      by simpa [ran_tickEntries hlive, hasleep, hpending, hplace] using hran⟩
  · rw [htick]
    exact (h.awake.leaves_step hi' hk).conclude

/-- How a tick goes: it is idle, or else it does one of two things. -/
theorem Sound.tick_alternatives (h : a.Sound) (hlive : a.terminated = false)
    (hordered : (a.intentions.map Intention.id).Pairwise (·.number < ·.number)) :
    (a.tick.1 = .idle ∧ (a.asleep = true ∨ a.awake.pending = [] ∧ a.intentions = []) ∧
        a.tickEntries.filterMap Entry.handled? = [] ∧ a.tickEntries.filterMap Entry.ran? = []) ∨
      (a.asleep = false ∧ a.tick.1 = .progressed ∧ ∃ t rest, a.HandlesOldest t rest) ∨
      a.asleep = false ∧ a.tick.1 = .progressed ∧ ∃ i younger, a.AdvancesOldest i younger := by
  have htick := a.tick_eq hlive
  have hhandled := a.handled_tickEntries
  have hdormant : a.dormant = a.asleep := by simp [dormant, hlive, asleep]
  cases hasleep : a.asleep with
  | true =>
      left
      rw [htick, hhandled, hdormant, ran_tickEntries hlive, hasleep]
      exact ⟨rfl, Or.inl rfl, rfl, rfl⟩
  | false =>
      cases hpending : a.awake.pending with
      | cons t rest =>
          obtain ⟨houtcome, hhandles⟩ := h.handlesOldest hlive hasleep hpending
          exact Or.inr (Or.inl ⟨rfl, houtcome, t, rest, hhandles⟩)
      | nil =>
          cases hi : a.intentions with
          | nil =>
              left
              have hplace : a.awake.runnable? = none :=
                runnable?_nil (a.intentions_awake.trans hi)
              rw [htick, hhandled, ran_tickEntries hlive, hasleep, hpending, hplace]
              simp
          | cons i younger =>
              rw [hi, List.map_cons, List.pairwise_cons] at hordered
              obtain ⟨houtcome, hadvances⟩ := h.advancesOldest hlive hasleep hpending hi
                fun k hk => hordered.1 k.id (List.mem_map_of_mem hk)
              exact Or.inr (Or.inr ⟨rfl, houtcome, i, younger, hadvances⟩)

/-- The instructions that an operation runs are of the oldest intention. -/
theorem Sound.ran_entries (h : a.Sound) (hlive : a.terminated = false)
    (hordered : (a.intentions.map Intention.id).Pairwise (·.number < ·.number)) (op : Operation)
    {r : IntentionId × FrameId × Nat} (hr : r ∈ (a.entries op).filterMap Entry.ran?)
    {k : Intention} (hk : k ∈ a.intentions) : r.1.number ≤ k.id.number := by
  have htrigger (t : Trigger) : (a.triggerEntries t).filterMap Entry.ran? = [] := by
    unfold triggerEntries
    split <;> rfl
  cases op with
  | tick =>
      simp only [entries] at hr
      obtain ⟨_, _, _, hran⟩ | ⟨_, _, t, rest, hhandles⟩ | ⟨_, _, i, younger, hadvances⟩ :=
        h.tick_alternatives hlive hordered
      · simp [hran] at hr
      · simp [hhandles.ran] at hr
      · obtain ⟨id, f, p, _, _, _, hran⟩ := hadvances.ran
        rw [hran] at hr
        obtain ⟨_, _, rfl⟩ := List.mem_map.1 hr
        rw [hadvances.intentions] at hk
        rcases List.mem_cons.1 hk with rfl | hk
        · exact Nat.le_refl _
        · exact Nat.le_of_lt (hadvances.oldest k hk)
  | trigger t => simp [entries, htrigger] at hr
  | achieve goal => simp [entries, htrigger] at hr
  | wakeUp terms => cases hsleep : a.sleep <;> simp [entries, hsleep] at hr
  | drainReports | perceive | hear | fallAsleep | terminate => simp [entries] at hr

theorem AdvancesOldest.not_handlesOldest {younger : List Intention}
    (h : a.AdvancesOldest i younger) {t : Trigger} {rest : List Trigger} :
    ¬ a.HandlesOldest t rest := by
  intro hhandles
  have hqueue := h.queue.symm.trans hhandles.queue
  simp at hqueue

/-! ### Runs -/

/-- How an agent that is not terminated picks what it does next:
* the first of its intentions can go on;
* a tick is idle if the agent sleeps through it, or if nothing waits in the queue, no belief
changed, no sleep ends and there is no intention, and then nothing is handled or run;
* any other tick either handles the oldest trigger or goes on with the oldest intention;
* the counter of a frame moves with each of its instructions that is run;
* whatever is done to the agent, no instruction is run of an intention that is younger than
another. -/
structure ServesOldest (a : Agent) : Prop where
  runnable : a.intentions ≠ [] → a.runnable? = some 0
  idle_iff : a.tick.1 = .idle ↔ a.asleep = true ∨
    a.pending ++ a.beliefs.events.map Trigger.ofEvent ++ a.awakening = [] ∧ a.intentions = []
  idle : a.tick.1 = .idle → a.tickEntries.filterMap Entry.handled? = [] ∧
    a.tickEntries.filterMap Entry.ran? = []
  busy : a.tick.1 ≠ .idle → a.tick.1 = .progressed ∧
    Xor (∃ t rest, a.HandlesOldest t rest) (∃ i younger, a.AdvancesOldest i younger)
  counters : ∀ id f g, a.frames.find? id = some f → a.tick.2.frames.find? id = some g →
    g.pc = f.pc + (Journal.numbersOf a.tickEntries id).length
  oldest : ∀ op, ∀ r ∈ (a.entries op).filterMap Entry.ran?, ∀ k ∈ a.intentions,
    r.1.number ≤ k.id.number

/-- The counters of the frames are those that the journals before and after a tick tell. -/
theorem counters_tick {spec : AgentSpec} (h : spec.build = .ok a) (operations : List Operation)
    (hf : (a.performAll operations).frames.find? id = some f)
    (hg : (a.performAll operations).tick.2.frames.find? id = some g) :
    g.pc = f.pc + (Journal.numbersOf (a.performAll operations).tickEntries id).length := by
  obtain ⟨beliefs, _, hrun⟩ := chronicle_performAll False h operations False.elim
  obtain ⟨beliefs', _, hlater⟩ := chronicle_performAll False h (operations ++ [.tick]) False.elim
  have hbefore := ((hrun.tells (blank_blank spec beliefs)).frame id f hf).numbers
  have hperformed : a.performAll (operations ++ [.tick]) = (a.performAll operations).tick.2 := by
    simp [performAll, perform]
  rw [hperformed] at hlater
  have hafter := ((hlater.tells (blank_blank spec beliefs')).frame id g hg).numbers
  rw [journal_concat h, Journal.numbersOf_append, hbefore] at hafter
  have hlength := congrArg List.length hafter
  rw [List.length_append, List.length_range, List.length_range] at hlength
  exact hlength.symm

theorem performAll_serves_oldest {spec : AgentSpec} (h : spec.build = .ok a)
    (operations : List Operation) (hlive : (a.performAll operations).terminated = false) :
    (a.performAll operations).ServesOldest := by
  have hsound := sound_performAll h operations
  obtain ⟨beliefs, _, hrun⟩ := chronicle_performAll False h operations False.elim
  have hordered := (hrun.ordered (blank_blank spec beliefs)).increasing
  have halternatives := hsound.tick_alternatives hlive hordered
  constructor
  case runnable =>
    intro hne
    obtain ⟨i, younger, hi⟩ := List.exists_cons_of_ne_nil hne
    exact hsound.runnable?_cons hi
  case idle_iff =>
    rw [← pending_awake]
    obtain ⟨hidle, hwhy, _⟩ | ⟨hasleep, hbusy, t, rest, hhandles⟩ |
      ⟨hasleep, hbusy, i, younger, hadvances⟩ := halternatives
    · simp [hidle, hwhy]
    · simp [hbusy, hasleep, hhandles.queue]
    · simp [hbusy, hasleep, hadvances.intentions]
  case idle =>
    intro hidle
    obtain ⟨_, _, hnothing⟩ | ⟨_, hbusy, _⟩ | ⟨_, hbusy, _⟩ := halternatives
    · exact hnothing
    · simp [hbusy] at hidle
    · simp [hbusy] at hidle
  case busy =>
    intro hbusy
    obtain ⟨hidle, _⟩ | ⟨_, hprogressed, hhandles⟩ | ⟨_, hprogressed, hadvances⟩ := halternatives
    · exact absurd hidle hbusy
    · refine ⟨hprogressed, Or.inl ⟨hhandles, ?_⟩⟩
      rintro ⟨i, younger, hadvances⟩
      obtain ⟨t, rest, hhandles⟩ := hhandles
      exact hadvances.not_handlesOldest hhandles
    · refine ⟨hprogressed, Or.inr ⟨hadvances, ?_⟩⟩
      rintro ⟨t, rest, hhandles⟩
      obtain ⟨i, younger, hadvances⟩ := hadvances
      exact hadvances.not_handlesOldest hhandles
  case counters => exact fun id f g hf hg => counters_tick h operations hf hg
  case oldest => exact fun op r hr k hk => hsound.ran_entries hlive hordered op hr hk

/-- Two intentions, and nothing in the queue: the next tick goes on with the one that was started
first. -/
theorem performAll_serves_oldest_nestedGoals :
    ∃ a, nestedGoals.build = .ok a ∧
      (a.performAll [.achieve (.atom "outer"), .tick, .tick]).terminated = false ∧
      (a.performAll [.achieve (.atom "outer"), .tick, .tick]).intentions.map (·.id.number) =
        [0, 1] ∧
      (a.performAll [.achieve (.atom "outer"), .tick, .tick]).runnable? = some 0 ∧
      ∃ i younger,
        (a.performAll [.achieve (.atom "outer"), .tick, .tick]).AdvancesOldest i younger := by
  have hbuild : nestedGoals.build = .ok _ := rfl
  have hserves := performAll_serves_oldest hbuild [.achieve (.atom "outer"), .tick, .tick]
    (by decide +kernel)
  refine ⟨_, hbuild, by decide +kernel, by decide +kernel, hserves.runnable ?_, ?_⟩
  · exact List.ne_nil_of_length_pos (by decide +kernel)
  · obtain ⟨_, ⟨⟨t, rest, hhandles⟩, _⟩ | ⟨hadvances, _⟩⟩ := hserves.busy (by decide +kernel)
    · have hqueue := congrArg List.length hhandles.queue
      exact absurd hqueue (by rw [List.length_cons]; exact Nat.ne_of_lt (Nat.succ_pos _))
    · exact hadvances

end Agent
end Deliberation
