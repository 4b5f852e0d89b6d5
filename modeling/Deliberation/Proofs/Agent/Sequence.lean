import Deliberation.Proofs.Agent.Ledger
import Deliberation.Proofs.Agent.Links

/-!
The order in which frames run their instructions.

Every frame runs the instructions of its plan one after the other, and only while it stands on top
of its stack. What an instruction came to is known at once, or for a sub-goal when the frame for it
ends. A plan stops at its first failure or, if it goes on after failures, ends with the first one of
them.
-/

namespace Deliberation

/-! ### How frames end -/

/-- How a frame ends whose instructions came to these results: without a failure, if all
instructions were run and none failed; with the failure of the last one that was run; or, if the
plan goes on after failures, with the first failure of all. -/
structure Plan.Concludes (p : Plan) (results : List Result) (failure : Option InstructionError) :
    Prop where
  succeeds_iff : failure = none ↔
    results.length = p.body.length ∧ ∀ r ∈ results, r.failure = none
  stopped : p.atomic = false → ∀ e, failure = some e →
    ∃ passed last, results = passed ++ [last] ∧ (∀ r ∈ passed, r.failure = none) ∧
      last.failure = some e
  wentOn : p.atomic = true → ∀ e, failure = some e →
    results.length = p.body.length ∧ results.findSome? Result.failure = some e

/-- What a frame knows about its results before it ends. -/
structure Plan.Underway (p : Plan) (results : List Result) (failure : Option InstructionError) :
    Prop where
  noted : failure = results.findSome? Result.failure
  unharmed : p.atomic = false → ∀ r ∈ results, r.failure = none

namespace Plan.Underway

variable {p : Plan} {results : List Result} {r : Result} {failure : Option InstructionError}

theorem concludes (h : p.Underway results failure) (hall : results.length = p.body.length) :
    p.Concludes results failure := by
  have hnone : failure = none ↔ ∀ r ∈ results, r.failure = none := by
    rw [h.noted, List.findSome?_eq_none_iff]
  refine ⟨?_, fun hp e he => ?_, fun _ e he => ⟨hall, h.noted ▸ he⟩⟩
  · rw [hnone]
    exact ⟨fun hr => ⟨hall, hr⟩, And.right⟩
  · rw [hnone.2 (h.unharmed hp)] at he
    simp at he

/-- A plan that does not go on after failures stops at this one. -/
theorem concludes_stop (h : p.Underway results failure) (hp : p.atomic = false)
    {e : InstructionError} (hr : r.failure = some e) : p.Concludes (results ++ [r]) (some e) := by
  refine ⟨?_, fun _ e' he => ?_, fun hp' => ?_⟩
  · simp [hr]
  · exact ⟨results, r, rfl, h.unharmed hp, hr.trans he⟩
  · simp [hp] at hp'

theorem absorb {g : Frame} (h : p.Underway results g.failure)
    (hr : p.atomic = false → r.failure = none) :
    p.Underway (results ++ [r]) (g.absorb p r).failure := by
  have hone : [r].findSome? Result.failure = r.failure := by cases h : r.failure <;> simp [h]
  refine ⟨?_, fun hp r' hr' => ?_⟩
  · rw [List.findSome?_append, hone, ← h.noted]
    cases hp : p.atomic with
    | true => simp [Frame.absorb, hp]
    | false => simp [Frame.absorb, hp, hr hp]
  · rcases List.mem_append.1 hr' with hr' | hr'
    · exact h.unharmed hp r' hr'
    · rw [List.mem_singleton.1 hr']
      exact hr hp

/-- Whether a frame ends after an instruction, and how. -/
theorem verdict {g : Frame} (h : p.Underway results g.failure) (hpc : g.pc ≤ p.body.length)
    (hlength : (results ++ [r]).length = g.pc) :
    (g.verdict p r = none → p.Underway (results ++ [r]) (g.absorb p r).failure) ∧
      ∀ failure, g.verdict p r = some failure → p.Concludes (results ++ [r]) failure := by
  have hgoOn (hr : p.atomic = false → r.failure = none)
      (hverdict : g.verdict p r =
        if g.pc < p.body.length then none else some (g.absorb p r).failure) :
      (g.verdict p r = none → p.Underway (results ++ [r]) (g.absorb p r).failure) ∧
        ∀ failure, g.verdict p r = some failure → p.Concludes (results ++ [r]) failure := by
    refine ⟨fun _ => h.absorb hr, fun failure hends => ?_⟩
    rw [hverdict] at hends
    split at hends
    · simp at hends
    · rename_i hlast
      obtain rfl := Option.some.inj hends
      exact (h.absorb hr).concludes (by omega)
  cases hr : r.failure with
  | none => exact hgoOn (fun _ => hr) (by simp [Frame.verdict, hr])
  | some e =>
      cases hp : p.atomic with
      | true => exact hgoOn (by simp [hp]) (by simp [Frame.verdict, hr, hp])
      | false =>
          refine ⟨by simp [Frame.verdict, hr, hp], fun failure hends => ?_⟩
          obtain rfl : some e = failure := by simpa [Frame.verdict, hr, hp] using hends
          exact h.concludes_stop hp hr

end Plan.Underway

/-! ### What the journal tells about a frame -/

/-- A stored frame is as the journal tells: it was opened for its plan, it ran the instructions up
to its counter, and it noted what they came to. -/
structure Frame.Recorded (library : PlanLibrary) (j : Journal) (due : Option Due) (id : FrameId)
    (f : Frame) : Prop where
  opened : ∃ n f₀, Entry.opened n id f₀ ∈ j ∧ f₀.plan = f.plan ∧ f₀.trigger = f.trigger ∧
    f₀.parent = f.parent
  numbers : j.numbersOf id = List.range f.pc
  degrees : (j.resultsOf id).map Result.degree = f.degrees
  awaiting : f.degrees.length + f.awaiting.toList.length = f.pc
  plan : ∃ p, library.find? f.plan = some p ∧ f.pc ≤ p.body.length ∧
    (∀ failure, due = some (id, failure) →
      f.awaiting = none ∧ p.Concludes (j.resultsOf id) failure) ∧
    ((∀ failure, due ≠ some (id, failure)) → p.Underway (j.resultsOf id) f.failure)

namespace Frame.Recorded

variable {library : PlanLibrary} {j k : Journal} {due due' : Option Due} {id : FrameId} {f : Frame}

/-- What happens to other frames does not matter. -/
theorem append (h : f.Recorded library j due id) (hnumbers : k.numbersOf id = [])
    (hresults : k.resultsOf id = [])
    (hdue : ∀ failure, due' = some (id, failure) ↔ due = some (id, failure)) :
    f.Recorded library (j ++ k) due' id := by
  obtain ⟨n, f₀, hf₀, hsame⟩ := h.opened
  have hresults' : (j ++ k).resultsOf id = j.resultsOf id := by simp [hresults]
  refine ⟨⟨n, f₀, List.mem_append_left _ hf₀, hsame⟩, by simpa [hnumbers] using h.numbers,
    hresults' ▸ h.degrees, h.awaiting, ?_⟩
  obtain ⟨p, hp, hpc, hconcludes, hunderway⟩ := h.plan
  refine ⟨p, hp, hpc, fun failure hends => ?_, fun hends => ?_⟩
  · exact hresults' ▸ hconcludes failure ((hdue failure).1 hends)
  · exact hresults' ▸ hunderway fun failure heq => hends failure ((hdue failure).2 heq)

theorem id_opened (h : f.Recorded library j due id) : id ∈ j.filterMap Entry.opened? := by
  obtain ⟨n, f₀, hf₀, _⟩ := h.opened
  exact List.mem_filterMap.2 ⟨_, hf₀, rfl⟩

theorem length_results (h : f.Recorded library j due id) :
    (j.resultsOf id).length = f.degrees.length := by
  rw [← h.degrees, List.length_map]

theorem underway {p : Plan} (h : f.Recorded library j none id)
    (hplan : library.find? f.plan = some p) :
    f.pc ≤ p.body.length ∧ p.Underway (j.resultsOf id) f.failure := by
  obtain ⟨p', hp', hpc, _, hunderway⟩ := h.plan
  rw [hplan] at hp'
  obtain rfl := Option.some.inj hp'
  exact ⟨hpc, hunderway (by simp)⟩

theorem concludes {failure : Option InstructionError}
    (h : f.Recorded library j (some (id, failure)) id) :
    (j.resultsOf id).length = f.pc ∧
      ∃ p, library.find? f.plan = some p ∧ p.Concludes (j.resultsOf id) failure := by
  obtain ⟨p, hp, _, hconcludes, _⟩ := h.plan
  obtain ⟨hawaiting, hends⟩ := hconcludes failure rfl
  have hlength := h.awaiting
  rw [hawaiting, ← h.length_results] at hlength
  exact ⟨hlength, p, hp, hends⟩

/-- A frame takes in what an instruction came to, and ends or goes on. -/
theorem absorb {g : Frame} {p : Plan} {r : Result}
    (hopened : ∃ n f₀, Entry.opened n id f₀ ∈ j ∧ f₀.plan = g.plan ∧ f₀.trigger = g.trigger ∧
      f₀.parent = g.parent)
    (hnumbers : (j ++ k).numbersOf id = List.range g.pc)
    (hresults : (j ++ k).resultsOf id = j.resultsOf id ++ [r])
    (hdegrees : (j.resultsOf id).map Result.degree = g.degrees) (hawaiting : g.awaiting = none)
    (hlength : g.degrees.length + 1 = g.pc) (hplan : library.find? g.plan = some p)
    (hpc : g.pc ≤ p.body.length) (hunderway : p.Underway (j.resultsOf id) g.failure) :
    (g.absorb p r).Recorded library (j ++ k) ((g.verdict p r).map (id, ·)) id := by
  obtain ⟨n, f₀, hf₀, hsame⟩ := hopened
  have hcount : (j.resultsOf id ++ [r]).length = g.pc := by
    rw [List.length_append, ← List.length_map Result.degree, hdegrees]
    exact hlength
  have hverdict := hunderway.verdict hpc hcount
  refine ⟨⟨n, f₀, List.mem_append_left _ hf₀, hsame⟩, hnumbers, ?_, ?_,
    p, hplan, hpc, fun failure hends => ?_, fun hends => ?_⟩
  · rw [hresults, List.map_append, hdegrees]
    rfl
  · simpa [Frame.absorb, hawaiting] using hlength
  · obtain ⟨failure', hfailure, heq⟩ := Option.map_eq_some_iff.1 hends
    cases heq
    exact ⟨hawaiting, hresults ▸ hverdict.2 failure hfailure⟩
  · rw [hresults]
    refine hverdict.1 (Option.eq_none_iff_forall_ne_some.2 fun failure hfailure => ?_)
    exact hends failure (by simp [hfailure])

section Turn

variable {p : Plan} {n : IntentionId} {instruction : Instruction} {s : Substitution}

theorem length_degrees (h : f.Recorded library j due id) (hawaiting : f.awaiting = none) :
    f.degrees.length = f.pc := by
  have hlength := h.awaiting
  rwa [hawaiting] at hlength

/-- A frame without instructions left ends as its results tell. -/
theorem exhaust (h : f.Recorded library j none id) (hawaiting : f.awaiting = none)
    (hplan : library.find? f.plan = some p) (hbody : p.body[f.pc]? = none) :
    Frame.Recorded library j (some (id, f.failure)) id { f with state := .running } := by
  obtain ⟨hpc, hunderway⟩ := h.underway hplan
  have hall : (j.resultsOf id).length = p.body.length := by
    rw [h.length_results, h.length_degrees hawaiting]
    exact Nat.le_antisymm hpc (List.getElem?_eq_none_iff.1 hbody)
  refine ⟨h.opened, h.numbers, h.degrees, h.awaiting, p, hplan, hpc, fun failure hends => ?_,
    fun hends => absurd rfl (hends f.failure)⟩
  cases hends
  exact ⟨hawaiting, hunderway.concludes hall⟩

/-- An instruction was run, and it is known what it came to. -/
theorem run {outcome : Except InstructionError Step} {r : Result} {g : Frame}
    (h : f.Recorded library j none id) (hawaiting : f.awaiting = none)
    (hplan : library.find? f.plan = some p) (hbody : p.body[f.pc]? = some instruction)
    (hr : Result.of? outcome = some r)
    (hg : g = { f with state := .running, pc := f.pc + 1, bindings := s }) :
    (g.absorb p r).Recorded library (j ++ [.ran n id f.pc instruction outcome])
      ((g.verdict p r).map (id, ·)) id := by
  subst hg
  refine .absorb h.opened ?_ ?_ h.degrees hawaiting (congrArg (· + 1) (h.length_degrees hawaiting))
    hplan (List.getElem?_eq_some_iff.1 hbody).1 (h.underway hplan).2
  · simp [h.numbers, List.range_succ]
  · simp [hr]

/-- An instruction was run, but what it came to is not known before the frame for its sub-goal
ends. -/
theorem suspend {goal : Literal} {g : Frame} (h : f.Recorded library j none id)
    (hawaiting : f.awaiting = none) (hplan : library.find? f.plan = some p)
    (hbody : p.body[f.pc]? = some instruction) (t : Trigger) (selection : Selection Float)
    (hg : g = { f with
      state := .suspended
      pc := f.pc + 1
      bindings := s
      awaiting := some goal }) :
    g.Recorded library (j ++ [.ran n id f.pc instruction (.ok (.suspend goal t selection))]) none
      id := by
  obtain ⟨n₀, f₀, hf₀, hsame⟩ := h.opened
  subst hg
  refine ⟨⟨n₀, f₀, List.mem_append_left _ hf₀, hsame⟩, ?_, ?_,
    congrArg (· + 1) (h.length_degrees hawaiting), p, hplan, (List.getElem?_eq_some_iff.1 hbody).1,
    by simp, fun _ => ?_⟩
  · simp [h.numbers, List.range_succ]
  · simpa [Result.of?] using h.degrees
  · simpa [Result.of?] using (h.underway hplan).2

/-- The frame for a sub-goal ended, and so it is known what the instruction came to. -/
theorem returned {r : Result} {g : Frame} (h : f.Recorded library j none id)
    (hawaiting : f.awaiting.isSome) (hplan : library.find? f.plan = some p)
    (hg : g = { f with state := .running, awaiting := none, bindings := s }) :
    (g.absorb p r).Recorded library (j ++ [.returned id r]) ((g.verdict p r).map (id, ·)) id := by
  obtain ⟨goal, hgoal⟩ := Option.isSome_iff_exists.1 hawaiting
  have hlength := h.awaiting
  rw [hgoal] at hlength
  obtain ⟨hpc, hunderway⟩ := h.underway hplan
  subst hg
  refine .absorb h.opened ?_ ?_ h.degrees rfl hlength hplan hpc hunderway
  · simpa using h.numbers
  · simp

end Turn
end Frame.Recorded

/-- All stored frames are as the journal tells, and it tells nothing of frames that were not
opened. -/
structure Journal.Tells (library : PlanLibrary) (j : Journal) (due : Option Due)
    (frames : FrameArena) : Prop where
  frame : ∀ id f, frames.find? id = some f → f.Recorded library j due id
  unopened : ∀ id ∉ j.filterMap Entry.opened?, j.numbersOf id = [] ∧ j.resultsOf id = []

namespace Journal.Tells

variable {library : PlanLibrary} {j k : Journal} {due due' : Option Due} {frames : FrameArena}
  {id : FrameId} {f g : Frame}

/-- Entries that are not about frames change nothing. -/
theorem append (h : j.Tells library due frames)
    (hk : ∀ id, k.numbersOf id = [] ∧ k.resultsOf id = [])
    (hopened : k.filterMap Entry.opened? = []) :
    (j ++ k).Tells library due frames where
  frame id f hf := (h.frame id f hf).append (hk id).1 (hk id).2 fun _ => Iff.rfl
  unopened id hid := by
    have hid' : id ∉ j.filterMap Entry.opened? := by simpa [hopened] using hid
    simp [h.unopened id hid', hk id]

/-- A frame is stored when something happened to it. -/
theorem store (h : j.Tells library due frames) (hf : frames.find? id = some f)
    (hg : g.Recorded library (j ++ k) due' id)
    (hk : ∀ other ≠ id, k.numbersOf other = [] ∧ k.resultsOf other = [])
    (hopened : k.filterMap Entry.opened? = [])
    (hdue : ∀ other ≠ id, ∀ failure, due' = some (other, failure) ↔ due = some (other, failure)) :
    (j ++ k).Tells library due' (frames.modify id fun _ => g) where
  frame other f' hf' := by
    rcases FrameArena.find?_store_cases hf' with ⟨rfl, rfl⟩ | ⟨hne, hf'⟩
    · exact hg
    · exact (h.frame other f' hf').append (hk other hne).1 (hk other hne).2 (hdue other hne)
  unopened other hother := by
    have hother' : other ∉ j.filterMap Entry.opened? := by simpa [hopened] using hother
    have hne : other ≠ id := by
      rintro rfl
      exact hother' (h.frame other f hf).id_opened
    simp [h.unopened other hother', hk other hne]

/-- A new frame is stored. -/
theorem insert (h : j.Tells library due frames) (hvalid : frames.Valid)
    (hg : g.Recorded library (j ++ k) due (frames.insert g).1)
    (hk : ∀ id, k.numbersOf id = [] ∧ k.resultsOf id = []) :
    (j ++ k).Tells library due (frames.insert g).2 where
  frame id f hf := by
    rcases FrameArena.find?_insert_cases hvalid hf with ⟨rfl, rfl⟩ | ⟨_, hf⟩
    · exact hg
    · exact (h.frame id f hf).append (hk id).1 (hk id).2 fun _ => Iff.rfl
  unopened id hid := by
    rw [List.filterMap_append, List.mem_append, not_or] at hid
    simp [h.unopened id hid.1, hk id]

/-- A frame that was due is removed. -/
theorem remove {frames' : FrameArena} {failure : Option InstructionError}
    (h : j.Tells library (some (id, failure)) frames)
    (hr : frames.remove? id = some (f, frames'))
    (hk : ∀ id, k.numbersOf id = [] ∧ k.resultsOf id = [])
    (hopened : k.filterMap Entry.opened? = []) :
    (j ++ k).Tells library none frames' where
  frame other g hg := by
    obtain ⟨hne, hg⟩ := FrameArena.find?_of_remove hr hg
    refine (h.frame other g hg).append (hk other).1 (hk other).2 fun failure => ?_
    simp [hne.symm]
  unopened id hid := by
    have hid' : id ∉ j.filterMap Entry.opened? := by simpa [hopened] using hid
    simp [h.unopened id hid', hk id]

/-- A frame that was just opened. -/
theorem recorded_start {n : IntentionId} {p : Plan} (h : j.Tells library due frames)
    (hid : id ∉ j.filterMap Entry.opened?) (hdue : ∀ failure, due ≠ some (id, failure))
    {plan : PlanId} {t : Trigger} {s : Substitution} {parent : Option FrameId}
    (hplan : library.find? plan = some p) (hg : g = .start plan t s parent)
    (hk : k.numbersOf id = [] ∧ k.resultsOf id = []) (hopened : Entry.opened n id g ∈ k) :
    g.Recorded library (j ++ k) due id := by
  subst hg
  have hresults : (j ++ k).resultsOf id = [] := by simp [h.unopened id hid, hk]
  refine ⟨⟨n, _, List.mem_append_right _ hopened, rfl, rfl, rfl⟩, ?_, ?_, rfl,
    p, hplan, Nat.zero_le _, fun failure hends => absurd hends (hdue failure), fun _ => ?_⟩
  · simp [h.unopened id hid, hk, Frame.start]
  · rw [hresults]
    rfl
  · rw [hresults]
    exact ⟨rfl, by simp⟩

end Journal.Tells

namespace Agent

variable {a start : Agent} {lawful : Prop} {j : Journal} {due : Option Due}

theorem Chronicle.tells (h : Chronicle lawful start j due a) (hstart : start.Blank) :
    j.Tells start.library due a.frames := by
  induction h with
  | start =>
      rw [hstart.frames]
      exact ⟨by simp [FrameArena.find?, FrameArena.empty], fun _ _ => ⟨rfl, rfl⟩⟩
  | quiet _ _ _ _ _ _ _ ih | believe _ _ ih => exact ih
  | collect _ ih =>
      refine ih.append (fun id => ⟨?_, ?_⟩) ?_ <;>
        exact filterMap_collectionEntries (fun _ _ => rfl) _
  | raise _ _ _ ih | pass _ _ _ ih | unmet _ _ _ ih | drain _ ih =>
      exact ih.append (fun _ => ⟨rfl, rfl⟩) rfl
  | @begin j a t rest f chosen p h _ hf hplan ih =>
      have hplan' : start.library.find? chosen.2.plan = some p := h.constants.2.1 ▸ hplan
      exact ih.insert (h.names hstart).1
        (ih.recorded_start (n := ⟨a.nextIntention⟩) (h.name_notMem hstart f) (by simp) hplan' hf
          ⟨rfl, rfl⟩ (by simp))
        fun _ => ⟨rfl, rfl⟩
  | @exhaust j a place i id below f p h htop hawaiting hplan hbody ih =>
      have hplan' : start.library.find? f.plan = some p := h.constants.2.1 ▸ hplan
      have hended := (ih.frame id f htop.frame).exhaust hawaiting hplan' hbody
      rw [← j.append_nil] at hended ⊢
      exact ih.store htop.frame hended (fun _ _ => ⟨rfl, rfl⟩) rfl fun other hne failure => by
        simp [hne.symm]
  | @run j a place i id below f g p instruction outcome r s h htop hawaiting hplan hbody hr hg ih =>
      have hplan' : start.library.find? f.plan = some p := h.constants.2.1 ▸ hplan
      have hran := (ih.frame id f htop.frame).run (n := i.id) hawaiting hplan' hbody hr hg
      refine ih.store htop.frame hran (fun other hne => ?_) rfl fun other hne failure => ?_
      · simp [hne.symm]
      · simp [hne.symm]
  | @suspend j a place i id below f g child p q instruction goal t selection s h htop hawaiting
      hplan hbody _ hq hg hchild ih =>
      have hplan' : start.library.find? f.plan = some p := h.constants.2.1 ▸ hplan
      have hq' : start.library.find? selection.plan = some q := h.constants.2.1 ▸ hq
      have hwaits :=
        (ih.frame id f htop.frame).suspend (n := i.id) hawaiting hplan' hbody t selection hg
      have hstored := ih.store htop.frame hwaits (fun other hne => by simp [hne.symm]) rfl
        fun _ _ _ => Iff.rfl
      have hvalid : (a.frames.modify id fun _ => g).Valid := (h.names hstart).1.modify _ _
      have hname := h.name_notMem hstart child
      rw [← a.frames.insert_modify_name id fun _ => g] at hname ⊢
      rw [List.append_cons]
      subst hchild
      refine hstored.insert hvalid (hstored.recorded_start (n := i.id) ?_ (by simp) hq' rfl
        ⟨rfl, rfl⟩ (by simp)) fun _ => ⟨rfl, rfl⟩
      simpa [List.filterMap_cons] using hname
  | endRoot h _ _ hr ih => exact ih.remove hr (fun _ => ⟨rfl, rfl⟩) rfl
  | @endChild j a place i id parent below f g back q frames failure r s h htop hparent hr hg hq
      hawaiting hdegree hhears hback ih =>
      have hq' : start.library.find? g.plan = some q := h.constants.2.1 ▸ hq
      have hclosed :=
        ih.remove (k := [.closed i.id id (a.endReport i f (below.length + 1) failure)]) hr
          (fun _ => ⟨rfl, rfl⟩) rfl
      have hreturned := (hclosed.frame parent g hg).returned (r := r) hawaiting hq' hback
      rw [List.append_cons]
      refine hclosed.store hg hreturned (fun other hne => ?_) rfl fun other hne failure => ?_
      · simp [hne.symm]
      · simp [hne.symm]

/-- The frame on top of a stack was opened for its intention. -/
theorem Chronicle.opened_top {place : Nat} {i : Intention} {id : FrameId} {below : List FrameId}
    {f : Frame} (h : Chronicle lawful start j due a) (hstart : start.Blank)
    (htop : a.TopFrame place i id below f) :
    ∃ f₀, Entry.opened i.id id f₀ ∈ j ∧ f₀.plan = f.plan ∧ f₀.trigger = f.trigger ∧
      f₀.parent = f.parent := by
  have hid : id ∈ i.stack := htop.stack ▸ List.mem_cons_self
  obtain ⟨f₁, hf₁⟩ := h.registered hstart i (List.mem_of_getElem? htop.intention) id hid
  obtain ⟨n, f₀, hf₀, hsame⟩ := ((h.tells hstart).frame id f htop.frame).opened
  obtain ⟨rfl, rfl⟩ := Journal.opened_unique (h.opened_nodup hstart) hf₀ hf₁
  exact ⟨f₀, hf₀, hsame⟩

theorem Chronicle.stackOf_top {place : Nat} {i : Intention} {id : FrameId} {below : List FrameId}
    {f : Frame} (h : Chronicle lawful start j due a) (hstart : start.Blank)
    (htop : a.TopFrame place i id below f) : j.stackOf i.id = id :: below :=
  ((h.shown hstart).live i (List.mem_of_getElem? htop.intention)).trans htop.stack

end Agent

/-! ### The order of instructions -/

/-- An entry about frames is in order after those before it:
* a frame gets a new name and is opened for the frame on top of its stack;
* only the frame on top runs instructions, each after those before it in the plan and after it is
known what they came to; if its plan does not go on after failures, none of them failed;
* a frame ends as its results say, and its report has their aggregated degree;
* right after the end of a frame its parent, which was waiting, takes it as the result of its last
  instruction. -/
def Journal.InOrder (library : PlanLibrary) (aggregation : Aggregation) (before : Journal) :
    Entry → Prop
  | .opened n id f =>
    id ∉ before.filterMap Entry.opened? ∧ f.parent = (before.stackOf n).head?
  | .ran n id number instruction outcome =>
    ∃ f p, Entry.opened n id f ∈ before ∧ library.find? f.plan = some p ∧
      p.body[number]? = some instruction ∧ (before.stackOf n).head? = some id ∧
      before.numbersOf id = List.range number ∧ (before.resultsOf id).length = number ∧
      (p.atomic = false → ∀ r ∈ before.resultsOf id, r.failure = none) ∧
      (Result.of? outcome = none →
        ∃ pattern, instruction = .achieve pattern ∨ instruction = .testGoal pattern)
  | .closed n id r =>
    ∃ f p, Entry.opened n id f ∈ before ∧ library.find? f.plan = some p ∧
      (before.stackOf n).head? = some id ∧
      before.numbersOf id = List.range (before.resultsOf id).length ∧
      p.Concludes (before.resultsOf id) r.error ∧
      r.state = (if r.error.isNone then .succeeded else .failed) ∧
      r.degree = aggregation.aggregate ((before.resultsOf id).map Result.degree)
  | .returned id result =>
    ∃ n child r f, before.getLast? = some (.closed n child r) ∧ Entry.opened n child f ∈ before ∧
      f.parent = some id ∧ (before.stackOf n).head? = some id ∧
      (before.resultsOf id).length + 1 = (before.numbersOf id).length ∧
      result.degree = r.degree ∧ Frame.Hears r.error result.failure
  | _ => True

namespace Agent

variable {a start : Agent} {lawful : Prop} {j : Journal} {due : Option Due}

section

variable {place : Nat} {i : Intention} {id : FrameId} {below : List FrameId} {f : Frame} {p : Plan}

theorem Chronicle.ran_inOrder {instruction : Instruction} {outcome : Except InstructionError Step}
    (h : Chronicle lawful start j none a) (hstart : start.Blank)
    (htop : a.TopFrame place i id below f) (hawaiting : f.awaiting = none)
    (hplan : a.library.find? f.plan = some p) (hbody : p.body[f.pc]? = some instruction)
    (hsubgoal : Result.of? outcome = none →
      ∃ pattern, instruction = .achieve pattern ∨ instruction = .testGoal pattern) :
    Journal.InOrder start.library start.config.aggregation j
      (.ran i.id id f.pc instruction outcome) := by
  obtain ⟨f₀, hf₀, hsame, _⟩ := h.opened_top hstart htop
  have hplan' : start.library.find? f.plan = some p := h.constants.2.1 ▸ hplan
  have hrec := (h.tells hstart).frame id f htop.frame
  have hlength := hrec.awaiting
  rw [hawaiting, ← hrec.length_results] at hlength
  refine ⟨f₀, p, hf₀, hsame ▸ hplan', hbody, ?_, hrec.numbers, hlength,
    (hrec.underway hplan').2.unharmed, hsubgoal⟩
  rw [h.stackOf_top hstart htop]
  rfl

theorem Chronicle.closed_inOrder {failure : Option InstructionError}
    (h : Chronicle lawful start j (some (id, failure)) a) (hstart : start.Blank)
    (htop : a.TopFrame place i id below f) (depth : Nat) :
    Journal.InOrder start.library start.config.aggregation j
      (.closed i.id id (a.endReport i f depth failure)) := by
  obtain ⟨f₀, hf₀, hsame, _⟩ := h.opened_top hstart htop
  have hrec := (h.tells hstart).frame id f htop.frame
  obtain ⟨hlength, p, hplan, hconcludes⟩ := hrec.concludes
  refine ⟨f₀, p, hf₀, hsame ▸ hplan, ?_, hlength ▸ hrec.numbers, hconcludes, rfl, ?_⟩
  · rw [h.stackOf_top hstart htop]
    rfl
  · rw [hrec.degrees, ← h.constants.1]
    rfl

end

theorem Chronicle.inOrder (h : Chronicle lawful start j due a) (hstart : start.Blank) :
    j.Every (Journal.InOrder start.library start.config.aggregation) := by
  induction h with
  | start => exact Journal.every_nil
  | quiet _ _ _ _ _ _ _ ih | believe _ _ ih | exhaust _ _ _ _ _ ih => exact ih
  | collect _ ih =>
      refine ih.append fun e he before => ?_
      obtain ⟨_, _, rfl⟩ := List.mem_map.1 he
      trivial
  | raise _ _ _ ih | pass _ _ _ ih | drain _ ih => exact Journal.every_concat_iff.2 ⟨ih, trivial⟩
  | unmet _ _ _ ih => exact Journal.every_pair_iff.2 ⟨ih, trivial, trivial⟩
  | @begin j a t rest f chosen p h _ hf _ ih =>
      have hnew := (h.ordered hstart).notMem_next
      refine Journal.every_pair_iff.2 ⟨ih, trivial, ?_, ?_⟩
      · simpa [List.filterMap_cons] using h.name_notMem hstart f
      · simp [Journal.stackOf_append, (h.shown hstart).ended _ hnew, hf, Frame.start]
  | run h htop hawaiting hplan hbody hr _ ih =>
      refine Journal.every_concat_iff.2 ⟨ih, h.ran_inOrder hstart htop hawaiting hplan hbody ?_⟩
      simp [hr]
  | suspend h htop hawaiting hplan hbody hsubgoal _ _ hchild ih =>
      refine Journal.every_pair_iff.2
        ⟨ih, h.ran_inOrder hstart htop hawaiting hplan hbody fun _ => hsubgoal, ?_, ?_⟩
      · simpa [List.filterMap_cons] using h.name_notMem hstart _
      · simp [Journal.stackOf_append, h.stackOf_top hstart htop, hchild, Frame.start]
  | endRoot h htop _ _ ih =>
      exact Journal.every_concat_iff.2 ⟨ih, h.closed_inOrder hstart htop 0⟩
  | @endChild j a place i id parent below f g back q frames failure r s h htop hparent hr hg _
      hawaiting hdegree hhears _ ih =>
      refine Journal.every_pair_iff.2 ⟨ih, h.closed_inOrder hstart htop (below.length + 1), ?_⟩
      obtain ⟨f₀, hf₀, _, _, hparent₀⟩ := h.opened_top hstart htop
      have hrec := (h.tells hstart).frame parent g (FrameArena.find?_of_remove hr hg).2
      obtain ⟨goal, hgoal⟩ := Option.isSome_iff_exists.1 hawaiting
      have hlength := hrec.awaiting
      rw [hgoal, ← hrec.length_results] at hlength
      refine ⟨i.id, id, a.endReport i f (below.length + 1) failure, f₀, by simp, by simp [hf₀],
        hparent₀.trans hparent, ?_, ?_, hdegree, hhears⟩
      · simp [Journal.stackOf_append, h.stackOf_top hstart htop]
      · simpa [hrec.numbers] using hlength

/-- In every run frames execute the instructions of their plans in order and end as these came out.
What the journal tells of that is what the agent stores and reports: the frames that did not end
yet, with the number of their next instruction and the degrees so far, the stacks that they stand
on, and the last reports that nobody took. -/
theorem performAll_frames_in_order {spec : AgentSpec} (h : spec.build = .ok a)
    (operations : List Operation) :
    (spec.journal operations).Every
        (Journal.InOrder spec.library spec.config.aggregation) ∧
      (spec.journal operations).Tells spec.library none (a.performAll operations).frames ∧
      (spec.journal operations).Shows (a.performAll operations).intentions ∧
      (a.performAll operations).reports =
        (spec.journal operations).undrained.rtake spec.config.reportCapacity := by
  obtain ⟨beliefs, _, hrun⟩ := chronicle_performAll False h operations False.elim
  have hstart := blank_blank spec beliefs
  exact ⟨hrun.inOrder hstart, hrun.tells hstart, hrun.shown hstart,
    hrun.reported hstart (reportCapacity_pos h)⟩

/-- The frame of a sub-goal fails, and then the one that pursued it. -/
theorem performAll_frames_in_order_nestedGoals :
    ∃ a, nestedGoals.build = .ok a ∧
      (nestedGoals.journal [.tick, .tick, .tick]).filterMap Entry.opened? = [⟨0, 0⟩, ⟨1, 0⟩] ∧
      (nestedGoals.journal [.tick, .tick, .tick]).filterMap Entry.closed? = [⟨1, 0⟩, ⟨0, 0⟩] ∧
      (nestedGoals.journal [.tick, .tick, .tick]).Every
        (Journal.InOrder nestedGoals.library nestedGoals.config.aggregation) ∧
      (a.performAll [.tick, .tick, .tick]).reports.length = 2 := by
  have hbuild : nestedGoals.build = .ok _ := rfl
  refine ⟨_, hbuild, ?_, ?_, (performAll_frames_in_order hbuild _).1, ?_⟩
  · decide +kernel
  · decide +kernel
  · decide +kernel

end Agent
end Deliberation
