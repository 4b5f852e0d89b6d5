import Deliberation.Proofs.Agent.Chronicle
import Deliberation.Proofs.Agent.Subgoals

/-!
The variables of goals.

A literal that an agent is given or comes to pursue has its free variables renamed, or has none, and
keeps the new names. Goals of waking up are the exception: the terms that an agent is to be reminded
of are raised as they are.
-/

namespace Deliberation

/-- A literal with new names for its free variables, all of them made up by one call, which left the
number of made-up names at `n` at most. -/
def Literal.Renamed (n : Nat) (l : Literal) : Prop :=
  ∃ (source : Literal) (m : Nat), l = (source.freshen m).1 ∧ (source.freshen m).2 ≤ n ∧
    ∀ x ∈ l.freeNames, x ∈ source.generated m

/-- The goal that reminds a waking agent of a term. -/
def Literal.reminder (u : Term) : Literal :=
  .of wakeupGoal [u]

/-- A literal that was renamed, or reminds of one of some terms. -/
def Literal.Stems (terms : List Term) (n : Nat) (l : Literal) : Prop :=
  l.Renamed n ∨ ∃ u ∈ terms, l = .reminder u

namespace Literal

variable {l : Literal} {m n : Nat} {x : String} {notes : Prop} {u : Term} {terms : List Term}

theorem Renamed.mono (h : l.Renamed m) (hmn : m ≤ n) : l.Renamed n := by
  obtain ⟨source, k, heq, hk, hnames⟩ := h
  exact ⟨source, k, heq, hk.trans hmn, hnames⟩

theorem Fits.renamed (h : l.Fits (Known n) notes) : (l.freshen n).1.Renamed (l.freshen n).2 := by
  refine ⟨l, n, rfl, Nat.le_refl _, fun x hx => ?_⟩
  have hknown (y : String) (hy : y ∈ l.names) : Known n y := h.names y (l.names_subset hy)
  exact mem_generated_of_mem_names hknown (mem_freeNames.1 hx)

theorem renamed_of_freeNames_eq_nil (h : l.freeNames = []) : l.Renamed n := by
  refine ⟨l, 0, (freshen_of_names_eq_nil h).symm, ?_, by simp [h]⟩
  simp [freshen_snd, h]

theorem renamed_of_isGround (h : l.isGround = true) : l.Renamed n := by
  refine renamed_of_freeNames_eq_nil (List.eq_nil_iff_forall_not_mem.2 fun x hx => ?_)
  have hall := l.names_subset (mem_freeNames.1 hx)
  simp [allNames_of_isGround.2 l h] at hall

theorem Renamed.not_isPlain (h : l.Renamed n) (hx : x ∈ l.freeNames) : ¬ IsPlain x := by
  obtain ⟨source, m, _, _, hnames⟩ := h
  obtain ⟨y, k, _, _, rfl⟩ := mem_generated (hnames x hx)
  exact not_isPlain_freshName y k

theorem freeNames_reminder (u : Term) : (reminder u).freeNames = u.freeNames := by
  simp [reminder, Literal.of, Literal.freeNames, Literal.names, Term.freeNames]

theorem isPlain_of_mem_reminder (hu : u.Fits IsPlain notes) (hx : x ∈ (reminder u).freeNames) :
    IsPlain x := by
  rw [freeNames_reminder, Term.freeNames, List.mem_eraseDups] at hx
  exact hu.names x (u.names_subset hx)

theorem Stems.mono (h : l.Stems terms m) (hmn : m ≤ n) : l.Stems terms n :=
  h.imp_left fun hl => hl.mono hmn

end Literal

namespace Agent

variable {a b c : Agent} {place n : Nat} {i : Intention} {id : FrameId} {below stack : List FrameId}
  {f g : Frame} {p : Plan} {instruction : Instruction} {t : Trigger} {terms : List Term}

/-- What an agent pursues: the literals of the triggers in its queue, of those that its frames were
started for, and of those at the root of its intentions. -/
inductive Pursues (a : Agent) : Literal → Prop
  | pending {t : Trigger} : t ∈ a.pending → Pursues a t.literal
  | frame {id : FrameId} {f : Frame} : a.frames.find? id = some f → Pursues a f.trigger.literal
  | root {i : Intention} : i ∈ a.intentions → Pursues a i.root.literal

theorem beliefs_handle (a : Agent) (t : Trigger) : (a.handle t).beliefs = a.beliefs := by
  obtain ⟨frames, intentions, reports, heq⟩ := a.handle_eq t
  rw [heq]

/-- All that an agent pursues was renamed or reminds of one of the terms, and so it will be when the
agent wakes up; at least `n` names were made up. -/
structure Tidy (terms : List Term) (n : Nat) (a : Agent) : Prop where
  fresh : n ≤ a.fresh
  pending : ∀ t ∈ a.pending, t.literal.Stems terms a.fresh
  frames : ∀ id f, a.frames.find? id = some f → f.trigger.literal.Stems terms a.fresh
  roots : ∀ i ∈ a.intentions, i.root.literal.Stems terms a.fresh
  sleep : ∀ z, a.sleep = some z → ∀ u ∈ z.terms, u ∈ terms

namespace Tidy

theorem stems (h : a.Tidy terms n) {l : Literal} (hl : a.Pursues l) : l.Stems terms a.fresh := by
  cases hl with
  | pending ht => exact h.pending _ ht
  | frame hf => exact h.frames _ _ hf
  | root hi => exact h.roots _ hi

/-! ### Small changes -/

theorem withFresh (h : a.Tidy terms n) {fresh : Nat} (hfresh : a.fresh ≤ fresh) :
    { a with fresh }.Tidy terms n where
  fresh := h.fresh.trans hfresh
  pending t ht := (h.pending t ht).mono hfresh
  frames id f hf := (h.frames id f hf).mono hfresh
  roots i hi := (h.roots i hi).mono hfresh
  sleep := h.sleep

theorem raise (h : a.Tidy terms n) (ts : List Trigger)
    (hts : ∀ t ∈ ts, t.literal.Stems terms a.fresh) :
    { a with pending := a.pending ++ ts }.Tidy terms n :=
  ⟨h.fresh, List.forall_mem_append.2 ⟨h.pending, hts⟩, h.frames, h.roots, h.sleep⟩

theorem enqueue (h : a.Tidy terms n) (ht : t.literal.Stems terms a.fresh) :
    (a.enqueue t).Tidy terms n :=
  h.raise [_] (List.forall_mem_singleton.2 ht)

theorem dropIntention (h : a.Tidy terms n) (place : Nat) : (a.dropIntention place).Tidy terms n :=
  ⟨h.fresh, h.pending, h.frames, fun i hi => h.roots i (List.mem_of_mem_eraseIdx hi), h.sleep⟩

theorem setStack (h : a.Tidy terms n) (place : Nat) (stack : List FrameId) :
    (a.setStack place stack).Tidy terms n := by
  refine ⟨h.fresh, h.pending, h.frames, fun i hi => ?_, h.sleep⟩
  obtain ⟨k, hk, _, hroot⟩ := exists_of_mem_setStack hi
  exact hroot ▸ h.roots k hk

theorem storeFrame (h : a.Tidy terms n) (hf : a.frames.find? id = some f)
    (htrigger : g.trigger = f.trigger) : (a.storeFrame id g).Tidy terms n := by
  refine ⟨h.fresh, h.pending, fun other k hk => ?_, h.roots, h.sleep⟩
  rcases FrameArena.find?_store_cases hk with ⟨_, rfl⟩ | ⟨_, hold⟩
  · exact htrigger ▸ h.frames id f hf
  · exact h.frames other k hold

theorem closes (h : a.Tidy terms n) {depth : Nat} {failure : Option InstructionError}
    (hcloses : a.Closes i id depth failure f c) : c.Tidy terms n := by
  obtain ⟨frames, hr, rfl⟩ := hcloses
  exact ⟨h.fresh, h.pending,
    fun other g hg => h.frames other g (FrameArena.find?_of_remove hr hg).2, h.roots, h.sleep⟩

theorem insert (h : a.Tidy terms n) (hvalid : a.frames.Valid)
    (hg : g.trigger.literal.Stems terms a.fresh) :
    { a with frames := (a.frames.insert g).2 }.Tidy terms n := by
  refine ⟨h.fresh, h.pending, fun other f hf => ?_, h.roots, h.sleep⟩
  rcases FrameArena.find?_insert_cases hvalid hf with ⟨_, rfl⟩ | ⟨_, hold⟩
  · exact hg
  · exact h.frames other f hold

/-! ### Steps -/

/-- An instruction or a sub-goal of a frame came to something. -/
theorem absorb (h : a.Tidy terms n) (hf : a.frames.find? id = some f)
    (htrigger : g.trigger = f.trigger) (place : Nat) (stack : List FrameId) (p : Plan)
    (r : Result) :
    (Progress.of (a.storeFrame id (g.absorb p r)) place stack (g.verdict p r)).agent.Tidy terms
      n := by
  have hstored : (a.storeFrame id (g.absorb p r)).Tidy terms n := h.storeFrame hf htrigger
  exact Progress.agent_of (P := Tidy terms n) hstored (hstored.setStack place stack) _

/-- What a failed intention was started for is given up under the names that it has. -/
theorem endIntention (h : a.Tidy terms n) (hroot : i.root.literal.Stems terms a.fresh) (place : Nat)
    (failure : Option InstructionError) : (a.endIntention place i failure).Tidy terms n := by
  unfold Agent.endIntention
  split
  · exact (h.dropIntention place).enqueue hroot
  · exact h.dropIntention place

theorem answer (h : a.Tidy terms n) (f : Frame) (failure : Option InstructionError) :
    { a with fresh := (f.answer failure a.fresh).2 }.Tidy terms n := by
  refine h.withFresh ?_
  cases failure with
  | some e => exact Nat.le_refl _
  | none => exact f.instantiated.le_freshen a.fresh

theorem executePost (h : a.Tidy terms n) {s : Substitution} {posted : Trigger}
    (hs : s.Fits (Known a.fresh) True) (hposted : posted.literal.Fits (Known a.fresh) True) :
    (a.executePost s posted).agent.Tidy terms n := by
  unfold Agent.executePost
  simp only
  split
  · exact h
  · rename_i l hl
    have hliteral : l = s.applyLiteral posted.literal := by
      unfold Literal.grounded at hl
      repeat' split at hl
      all_goals simp_all
    have hfits : l.Fits (Known a.fresh) True := hliteral ▸ hs.applyLiteral hposted
    exact (h.withFresh (l.le_freshen a.fresh)).enqueue (Or.inl hfits.renamed)

/-- An instruction renames what it posts. -/
theorem execute (h : a.Tidy terms n) {s : Substitution} {instruction : Instruction}
    (hs : s.Fits (Known a.fresh) True) (hi : instruction.Fits (Known a.fresh) True)
    (hfresh : a.fresh ≤ (a.execute s instruction).agent.fresh) :
    (a.execute s instruction).agent.Tidy terms n := by
  have hother (hnone : a.posted s instruction = []) :
      (a.execute s instruction).agent.Tidy terms n := by
    obtain ⟨beliefs, fresh, hagent, _⟩ := a.execute_affects s instruction
    rw [hnone, List.append_nil] at hagent
    rw [hagent] at hfresh ⊢
    have hgrown := h.withFresh hfresh
    exact ⟨hgrown.fresh, hgrown.pending, hgrown.frames, hgrown.roots, hgrown.sleep⟩
  cases instruction with
  | post posted => exact h.executePost hs hi
  | _ => exact hother rfl

theorem executed (h : a.Tidy terms n) (hscoped : a.Scoped True)
    (hruns : a.Runs place i id below f p instruction) (hawaiting : f.awaiting = none)
    (hanswers : a.TurnAnswers True place) :
    (a.executed id f instruction).agent.Tidy terms n := by
  have hstarted : (a.started id f).Tidy terms n := h.storeFrame hruns.frame rfl
  exact hstarted.execute (hscoped.frames.fits id f hruns.frame).bindings
    (hscoped.fits_instruction hruns) (hscoped.executed hruns hawaiting hanswers).1.fresh

/-- The sub-goal that a frame comes to wait for is renamed for the plan that is started for it. -/
theorem suspend (h : a.Tidy terms n) (hscoped : a.Scoped True) (hsound : a.Sound)
    (hruns : a.Runs place i id below f p instruction) (hanswers : a.TurnAnswers True place)
    {goal : Literal} {selection : Selection Float}
    (houtcome : (a.executed id f instruction).outcome = .ok (.suspend goal t selection))
    (htrigger : g.trigger = f.trigger) (stack : List FrameId) :
    (((a.executed id f instruction).agent.storeFrame id g).pushSubgoal place stack id t
      selection).Tidy terms n := by
  have hawaiting := (hsound.ready hruns.toTopFrame).2.awaiting
  have hf := (hscoped.find?_executed hruns hawaiting).1
  have hstored := (h.executed hscoped hruns hawaiting hanswers).storeFrame hf htrigger
  obtain ⟨hgoal, hliteral, hfresh⟩ := hscoped.subgoal hruns houtcome
  refine (hstored.insert (hsound.valid_executed id f g instruction) ?_).setStack place _
  exact Or.inl (hliteral ▸ hfresh ▸ hgoal.renamed)

theorem course (h : a.Tidy terms n) (hscoped : a.Scoped True) (hsound : a.Sound)
    (hanswers : a.TurnAnswers True place) {j : Journal} {progress : Progress}
    (hcourse : Course a place i j stack progress) : progress.agent.Tidy terms n := by
  induction hcourse with
  | lost => exact h.dropIntention place
  | exhaust htop _ => exact h.storeFrame htop.frame rfl
  | run hruns _ hg =>
      have hawaiting := (hsound.ready hruns.toTopFrame).2.awaiting
      have hf := (hscoped.find?_executed hruns hawaiting).1
      exact (h.executed hscoped hruns hawaiting hanswers).absorb hf (hg ▸ rfl) place _ _ _
  | suspend hruns houtcome hg =>
      exact h.suspend hscoped hsound hruns hanswers houtcome (hg ▸ rfl) _
  | skip _ _ ih => exact ih
  | bare _ ih => exact ih.dropIntention place
  | endRoot hbefore hcloses _ ih =>
      have hroot := ih.roots i (List.mem_of_getElem? hbefore.intention_of_ends)
      have hclosed := ih.closes hcloses
      obtain ⟨_, _, rfl⟩ := hcloses
      exact hclosed.endIntention hroot place _
  | orphan _ hcloses _ _ ih => exact ((ih.closes hcloses).answer _ _).dropIntention place
  | endChild _ hcloses _ hg _ _ _ hback ih =>
      exact ((ih.closes hcloses).answer _ _).absorb hg (hback ▸ rfl) place _ _ _

theorem step (h : a.Tidy terms n) (hscoped : a.Scoped True) (hsound : a.Sound)
    (hanswers : a.TurnAnswers True place) : (a.step place).Tidy terms n := by
  obtain ⟨hstep, _⟩ | ⟨i, rest, hcourse⟩ := a.step_cases place
  · rw [hstep]
    exact h
  · exact h.course hscoped hsound hanswers hcourse

/-! ### Ticks and operations -/

theorem handle (h : a.Tidy terms n) (hvalid : a.frames.Valid)
    (ht : t.literal.Stems terms a.fresh) : (a.handle t).Tidy terms n := by
  unfold Agent.handle
  simp only
  split
  · rename_i t' selection hchoose
    have ht' : t'.literal.Stems terms a.fresh := (choose_eq_some hchoose).1.symm ▸ ht
    have hinserted := h.insert (g := .start selection.plan t' selection.bindings none) hvalid ht'
    exact ⟨h.fresh, h.pending, hinserted.frames,
      List.forall_mem_append.2 ⟨h.roots, List.forall_mem_singleton.2 ht'⟩, h.sleep⟩
  · split
    · exact ⟨h.fresh, h.pending, h.frames, h.roots, h.sleep⟩
    · exact ⟨h.fresh, h.pending, h.frames, h.roots, h.sleep⟩

theorem collectBeliefEvents (h : a.Tidy terms n) (hbeliefs : a.beliefs.Reached) :
    a.collectBeliefEvents.Tidy terms n := by
  have hraised := h.raise (a.beliefs.events.map Trigger.ofEvent) fun t ht => ?_
  · exact ⟨hraised.fresh, hraised.pending, hraised.frames, hraised.roots, hraised.sleep⟩
  · obtain ⟨e, he, rfl⟩ := List.mem_map.1 ht
    exact Or.inl (Literal.renamed_of_isGround (hbeliefs.allGround.events e he))

/-- Who is woken is reminded of the terms of the sleep and of those that come with the waking. -/
theorem wakeUp (h : a.Tidy terms n) {further : List Term} (hfurther : ∀ u ∈ further, u ∈ terms) :
    (a.wakeUp further).2.Tidy terms n := by
  unfold Agent.wakeUp
  split
  · exact h
  · rename_i z hz
    have hall : ∀ u ∈ z.terms ++ further, u ∈ terms :=
      List.forall_mem_append.2 ⟨h.sleep z hz, hfurther⟩
    have hraised := h.raise (wakeupTriggers (z.terms ++ further)) fun t ht => ?_
    · exact ⟨hraised.fresh, hraised.pending, hraised.frames, hraised.roots, by simp⟩
    · unfold wakeupTriggers at ht
      split at ht
      · obtain rfl := List.mem_singleton.1 ht
        exact Or.inl (Literal.renamed_of_isGround rfl)
      · obtain ⟨u, hu, rfl⟩ := List.mem_map.1 ht
        exact Or.inr ⟨u, hall u hu, rfl⟩

theorem sleepThrough (h : a.Tidy terms n) : a.sleepThrough.2.Tidy terms n := by
  unfold Agent.sleepThrough
  split
  · exact h
  · rename_i z hz
    split
    · exact h
    · exact h.wakeUp (by simp)
    · refine ⟨h.fresh, h.pending, h.frames, h.roots, fun z' hz' => ?_⟩
      obtain rfl := Option.some.inj hz'
      exact h.sleep z hz

theorem awake (h : a.Tidy terms n) (hbeliefs : a.beliefs.Reached) : a.awake.Tidy terms n := by
  have hcounted : { a with cycle := a.cycle + 1 }.Tidy terms n :=
    ⟨h.fresh, h.pending, h.frames, h.roots, h.sleep⟩
  exact (hcounted.collectBeliefEvents hbeliefs).sleepThrough

theorem conclude (h : a.Tidy terms n) (hbeliefs : a.beliefs.Reached) : a.conclude.Tidy terms n := by
  have hcollected := h.collectBeliefEvents hbeliefs
  exact ⟨hcollected.fresh, hcollected.pending, hcollected.frames, hcollected.roots,
    hcollected.sleep⟩

theorem tick (h : a.Tidy terms n) (hscoped : a.Scoped True) (hsound : a.Sound)
    (hanswers : a.TickAnswers True) : a.tick.2.Tidy terms n := by
  have hawake := h.awake hscoped.beliefs
  obtain ⟨_, heq⟩ | heq | ⟨t, rest, hpending, heq⟩ | ⟨place, hpending, hplace, heq⟩ :=
    a.tick_cases
  · rw [heq]
    exact h
  · rw [heq]
    exact hawake.conclude hscoped.awake.beliefs
  · rw [heq]
    have hall := List.forall_mem_cons.1 (hpending ▸ hawake.pending)
    have hrest : { a.awake with pending := rest }.Tidy terms n :=
      ⟨hawake.fresh, hall.2, hawake.frames, hawake.roots, hawake.sleep⟩
    refine (hrest.handle hsound.awake.serves.valid hall.1).conclude ?_
    rw [beliefs_handle]
    exact hscoped.awake.beliefs
  · rw [heq]
    have hanswers' := hanswers place hpending hplace
    exact (hawake.step hscoped.awake hsound.awake hanswers').conclude
      (hscoped.awake.step hsound.awake hanswers').beliefs

theorem trigger (h : a.Tidy terms n) (ht : t.literal.Fits IsPlain True)
    (hb : a.trigger t = .ok b) : b.Tidy terms n := by
  obtain ⟨_, rfl⟩ := trigger_eq_ok hb
  have hknown : t.literal.Fits (Known a.fresh) True := ht.mono fun _ hx => hx.known _
  exact (h.withFresh (t.literal.le_freshen a.fresh)).enqueue (Or.inl hknown.renamed)

end Tidy
end Agent

/-- The terms that an operation asks to be reminded of. -/
def Operation.reminders : Operation → List Term
  | .fallAsleep _ terms | .wakeUp terms => terms
  | _ => []

namespace Agent

variable {a : Agent} {spec : AgentSpec} {operations : List Operation} {terms : List Term} {n : Nat}
  {l : Literal} {x : String}

theorem Tidy.perform (h : a.Tidy terms n) (hscoped : a.Scoped True) (hsound : a.Sound)
    {op : Operation} (hop : a.Allows True op) (hterms : ∀ u ∈ op.reminders, u ∈ terms) :
    (a.perform op).Tidy terms n := by
  cases op with
  | tick => exact h.tick hscoped hsound hop
  | trigger t =>
      simp only [Agent.perform]
      split
      · rename_i b hb
        exact h.trigger hop hb
      · exact h
  | achieve goal =>
      simp only [Agent.perform, achieve]
      split
      · rename_i b hb
        exact h.trigger (t := ⟨.addGoal, goal⟩) hop hb
      · exact h
  | fallAsleep cycles reminders =>
      refine ⟨h.fresh, h.pending, h.frames, h.roots, fun z hz u hu => ?_⟩
      obtain rfl := Option.some.inj hz
      exact hterms u hu
  | wakeUp reminders => exact h.wakeUp hterms
  | perceive | hear | terminate | drainReports =>
      exact ⟨h.fresh, h.pending, h.frames, h.roots, h.sleep⟩

theorem Tidy.performAll (h : a.Tidy terms n) (hscoped : a.Scoped True) (hsound : a.Sound)
    (hrun : a.Admits (Allows True) operations)
    (hterms : ∀ op ∈ operations, ∀ u ∈ op.reminders, u ∈ terms) :
    (a.performAll operations).Tidy terms n := by
  induction operations generalizing a with
  | nil => exact h
  | cons op rest ih =>
      obtain ⟨hop, hrest⟩ := List.forall_mem_cons.1 hterms
      exact ih (h.perform hscoped hsound hrun.1 hop) (hscoped.perform hsound hrun.1)
        (hsound.perform op) hrun.2 hrest

theorem tidy_build (hspec : spec.HasPlainNames True) (h : spec.build = .ok a) (terms : List Term) :
    a.Tidy terms 0 := by
  obtain ⟨_, beliefs, _, hgoals⟩ := build_eq_ok h
  have hblank : (spec.blank beliefs).Tidy terms 0 := by
    constructor <;> simp [AgentSpec.blank, FrameArena.empty, FrameArena.find?]
  refine List.foldlM_induction ?_ hblank hgoals
  intro b goal hmem c hb hc
  exact hb.trigger (t := ⟨.addGoal, goal⟩) (hspec.goals goal hmem) (Except.mapError_eq_ok_iff.1 hc)

theorem fits_reminders (hrun : a.Admits (Allows True) operations) :
    ∀ u ∈ operations.flatMap Operation.reminders, u.Fits IsPlain True := by
  induction operations generalizing a with
  | nil => simp
  | cons op rest ih =>
      rw [List.flatMap_cons, List.forall_mem_append]
      refine ⟨fun u hu => ?_, ih hrun.2⟩
      cases op with
      | fallAsleep cycles reminders => exact hrun.1 u hu
      | wakeUp reminders => exact hrun.1 u hu
      | _ => simp [Operation.reminders] at hu

/-- If plain names come in from outside, all that an agent pursues has names that it made up, unless
it reminds of a term with variables. A name that was made up stands nowhere in the plans; one in a
reminder is the name that came in. -/
theorem pursued_renamed_iff (hspec : spec.HasPlainNames True) (hbuild : spec.build = .ok a)
    (hrun : a.Admits (Allows True) operations) (hl : (a.performAll operations).Pursues l) :
    (l.Renamed (a.performAll operations).fresh ↔
        ∀ u ∈ operations.flatMap Operation.reminders, l = .reminder u → u.freeNames = []) ∧
      (l.Renamed (a.performAll operations).fresh → ∀ x ∈ l.freeNames,
        ¬ IsPlain x ∧ ∀ p ∈ spec.library.plans, p.Fits (· ≠ x) True) ∧
      (¬ l.Renamed (a.performAll operations).fresh → ∀ x ∈ l.freeNames, IsPlain x) := by
  have htidy := (tidy_build hspec hbuild (operations.flatMap Operation.reminders)).performAll
    (scoped_build hspec hbuild) (sound_build hbuild) hrun
    fun op hop u hu => List.mem_flatMap.2 ⟨op, hop, hu⟩
  have hplain := fits_reminders hrun
  have hstems := htidy.stems hl
  refine ⟨⟨fun hrenamed u hu hreminder => ?_, fun hbare => ?_⟩, fun hrenamed x hx => ?_,
    fun hnot => ?_⟩
  · subst hreminder
    refine List.eq_nil_iff_forall_not_mem.2 fun x hx => ?_
    rw [← Literal.freeNames_reminder] at hx
    exact hrenamed.not_isPlain hx (Literal.isPlain_of_mem_reminder (hplain u hu) hx)
  · rcases hstems with hrenamed | ⟨u, hu, rfl⟩
    · exact hrenamed
    · apply Literal.renamed_of_freeNames_eq_nil
      rw [Literal.freeNames_reminder, hbare u hu rfl]
  · have hmadeUp := hrenamed.not_isPlain hx
    refine ⟨hmadeUp, fun p hp => (hspec.plans p hp).mono fun y hy heq => ?_⟩
    exact hmadeUp (heq ▸ hy)
  · obtain ⟨u, hu, rfl⟩ := hstems.resolve_left hnot
    exact fun x hx => Literal.isPlain_of_mem_reminder (hplain u hu) hx

/-- An agent with a plan for reminders of pairs that begin with `a`. -/
def pairReminder : AgentSpec where
  id := ⟨1⟩
  config := .default
  library := .ofPlans
    [⟨⟨.addGoal, .of "wakeup" [.sequence [.atom "a", .variable "X"]]⟩, none,
      [.addBelief (.of "got" [.variable "X"])], false⟩]
  actions := .empty
  scorer := weightScorer
  hearing := none
  beliefs := []
  goals := []

/-- A pair with the variable that the plan uses. -/
def pair : Term :=
  .sequence [.variable "X", .atom "b"]

/-- The pair is asked for as a goal and as something to be reminded of. -/
def pairAsked : List Operation :=
  [.achieve (.reminder pair), .fallAsleep (some 0) [pair], .tick]

/-- The goal was renamed and finds the plan. The reminder was not: its variable is that of the plan,
and no plan is found for it. -/
theorem pursued_renamed_iff_pairReminder :
    ∃ (a : Agent) (root : Literal), pairReminder.build = .ok a ∧
      a.Admits (Allows True) pairAsked ∧
      (a.performAll pairAsked).Pursues root ∧ root.render = "wakeup([X#1, b])" ∧
      root.Renamed (a.performAll pairAsked).fresh ∧
      (a.performAll pairAsked).Pursues (.reminder pair) ∧
      ¬ (Literal.reminder pair).Renamed (a.performAll pairAsked).fresh ∧
      (∃ p ∈ pairReminder.library.plans, ¬ p.Fits (· ≠ "X") True) ∧
      (a.performAll (pairAsked ++ [.tick])).reports.map (fun r => (r.trigger.render, r.plan)) =
        [("+!wakeup([X, b])", none)] := by
  have hspec : pairReminder.HasPlainNames True := by decide +kernel
  obtain ⟨a, hbuild, hactions, hwaiting, ⟨i, hi, hroot⟩, hreports⟩ :
      ∃ a, pairReminder.build = .ok a ∧
        (a.performAll (pairAsked.take 2)).awake.actions.isEmpty = true ∧
        (a.performAll pairAsked).pending = [⟨.addGoal, .reminder pair⟩] ∧
        (∃ i ∈ (a.performAll pairAsked).intentions, i.root.literal.render = "wakeup([X#1, b])") ∧
        (a.performAll (pairAsked ++ [.tick])).reports.map (fun r => (r.trigger.render, r.plan)) =
          [("+!wakeup([X, b])", none)] :=
    ⟨_, rfl, by decide +kernel, rfl, by decide +kernel, by decide +kernel⟩
  have hgoal : (Literal.reminder pair).Fits IsPlain True := by decide +kernel
  have hterms : ∀ u ∈ [pair], u.Fits IsPlain True := by decide +kernel
  have hrun : a.Admits (Allows True) pairAsked :=
    ⟨hgoal, hterms, tickAnswers_of_isEmpty hactions, trivial⟩
  have hpursued : (a.performAll pairAsked).Pursues (.reminder pair) :=
    .pending (t := ⟨.addGoal, .reminder pair⟩) (by simp [hwaiting])
  refine ⟨a, i.root.literal, hbuild, hrun, .root hi, hroot, ?_, hpursued, fun hrenamed => ?_,
    by decide +kernel, hreports⟩
  · refine (pursued_renamed_iff hspec hbuild hrun (.root hi)).1.2 fun u hu hreminder => ?_
    obtain rfl : u = pair := by simpa [pairAsked, Operation.reminders] using hu
    rw [hreminder] at hroot
    exact absurd hroot (by decide +kernel)
  · have hnone := (pursued_renamed_iff hspec hbuild hrun hpursued).1.1 hrenamed pair
      (by simp [pairAsked, Operation.reminders]) rfl
    exact absurd hnone (by decide +kernel)

end Agent
end Deliberation
