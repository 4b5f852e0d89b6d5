import Mathlib.Data.List.DropRight
import Deliberation.Proofs.Agent.Chronicle

/-!
What the journal tells about the frames, the intentions and the reports of an agent.

A frame that is opened gets a name that no frame had before. The frames that were opened are those
that were closed and those that stand on the stacks of the intentions, each of them once. The stack
of an intention is what the journal says, and the intentions are numbered in the order in which they
started. The reports that wait are the last ones that the journal tells of.
-/

namespace Deliberation

/-! ### Stacks in the journal -/

/-- The stacks of some intentions are those that a journal tells, and it tells of no others. -/
structure Journal.Shows (j : Journal) (intentions : List Intention) : Prop where
  live : ∀ i ∈ intentions, j.stackOf i.id = i.stack
  ended : ∀ n ∉ intentions.map Intention.id, j.stackOf n = []

namespace Journal.Shows

variable {j j' : Journal} {intentions others : List Intention} {i : Intention}
  {stack : List FrameId}

theorem perm (h : j.Shows intentions) (hperm : intentions.Perm others) : j.Shows others where
  live i hi := h.live i (hperm.mem_iff.2 hi)
  ended n hn := h.ended n fun hmem => hn ((hperm.map _).mem_iff.1 hmem)

theorem congr (h : j.Shows intentions) (hsame : ∀ n, j'.stackOf n = j.stackOf n) :
    j'.Shows intentions where
  live i hi := (hsame i.id).trans (h.live i hi)
  ended n hn := (hsame n).trans (h.ended n hn)

/-- An intention that the journal did not tell of is shown from now on. -/
theorem add (h : j.Shows others) (hi : i.id ∉ others.map Intention.id)
    (hsame : ∀ n ≠ i.id, j'.stackOf n = j.stackOf n) (hself : j'.stackOf i.id = i.stack) :
    j'.Shows (i :: others) where
  live k hk := by
    rcases List.mem_cons.1 hk with rfl | hk
    · exact hself
    · have hne : k.id ≠ i.id := fun heq => hi (heq ▸ List.mem_map_of_mem hk)
      exact (hsame k.id hne).trans (h.live k hk)
  ended n hn := by
    rw [List.map_cons, List.mem_cons, not_or] at hn
    exact (hsame n hn.1).trans (h.ended n hn.2)

/-- An intention without frames need not be shown. -/
theorem drop (h : j.Shows (i :: others)) (hi : i.id ∉ others.map Intention.id)
    (hsame : ∀ n ≠ i.id, j'.stackOf n = j.stackOf n) (hself : j'.stackOf i.id = []) :
    j'.Shows others where
  live k hk := by
    have hne : k.id ≠ i.id := fun heq => hi (heq ▸ List.mem_map_of_mem hk)
    exact (hsame k.id hne).trans (h.live k (List.mem_cons_of_mem _ hk))
  ended n hn := by
    by_cases hne : n = i.id
    · rw [hne, hself]
    · refine (hsame n hne).trans (h.ended n ?_)
      rw [List.map_cons, List.mem_cons, not_or]
      exact ⟨hne, hn⟩

theorem restack (h : j.Shows (i :: others)) (hi : i.id ∉ others.map Intention.id)
    (hsame : ∀ n ≠ i.id, j'.stackOf n = j.stackOf n) (hself : j'.stackOf i.id = stack) :
    j'.Shows ({ i with stack } :: others) where
  live k hk := by
    rcases List.mem_cons.1 hk with rfl | hk
    · exact hself
    · have hne : k.id ≠ i.id := fun heq => hi (heq ▸ List.mem_map_of_mem hk)
      exact (hsame k.id hne).trans (h.live k (List.mem_cons_of_mem _ hk))
  ended n hn := by
    have hne : n ≠ i.id := by
      rintro rfl
      exact hn List.mem_cons_self
    exact (hsame n hne).trans (h.ended n hn)

end Journal.Shows

/-- If no name was given twice, there is one frame for each name. -/
theorem Journal.opened_unique {j : Journal} {n m : IntentionId} {id : FrameId} {f g : Frame}
    (h : (j.filterMap Entry.opened?).Nodup) (hf : Entry.opened n id f ∈ j)
    (hg : Entry.opened m id g ∈ j) : n = m ∧ f = g := by
  induction j with
  | nil => simp at hf
  | cons e j ih =>
      have hlater {n : IntentionId} {f : Frame} (hf : Entry.opened n id f ∈ j) :
          id ∈ j.filterMap Entry.opened? := List.mem_filterMap.2 ⟨_, hf, rfl⟩
      have hrest : (j.filterMap Entry.opened?).Nodup :=
        h.sublist ((List.sublist_cons_self e j).filterMap _)
      rcases List.mem_cons.1 hf with rfl | hfj
      · rcases List.mem_cons.1 hg with heq | hgj
        · cases heq
          exact ⟨rfl, rfl⟩
        · exact absurd (hlater hgj) (List.nodup_cons.1 h).1
      · rcases List.mem_cons.1 hg with rfl | hgj
        · exact absurd (hlater hfj) (List.nodup_cons.1 h).1
        · exact ih hrest hfj hgj

/-- Numbers of intentions in the order in which they were given, before the next one. -/
structure IntentionId.Numbered (next : Nat) (ns : List IntentionId) : Prop where
  increasing : ns.Pairwise (·.number < ·.number)
  below : ∀ n ∈ ns, n.number < next

namespace IntentionId.Numbered

variable {next : Nat} {ns ms : List IntentionId}

theorem add (h : Numbered next ns) : Numbered (next + 1) (ns ++ [⟨next⟩]) := by
  refine ⟨List.pairwise_append.2 ⟨h.increasing, by simp, fun m hm n hn => ?_⟩, fun n hn => ?_⟩
  · rw [List.mem_singleton.1 hn]
    exact h.below m hm
  · rcases List.mem_append.1 hn with hn | hn
    · exact Nat.lt_succ_of_lt (h.below n hn)
    · rw [List.mem_singleton.1 hn]
      exact Nat.lt_succ_self _

theorem skip (h : Numbered next ns) : Numbered (next + 1) ns :=
  ⟨h.increasing, fun n hn => Nat.lt_succ_of_lt (h.below n hn)⟩

theorem sublist (h : Numbered next ns) (hsub : ms.Sublist ns) : Numbered next ms :=
  ⟨h.increasing.sublist hsub, fun n hn => h.below n (hsub.subset hn)⟩

theorem notMem_next (h : Numbered next ns) : (⟨next⟩ : IntentionId) ∉ ns :=
  fun hmem => Nat.lt_irrefl _ (h.below _ hmem)

theorem nodup (h : Numbered next ns) : ns.Nodup :=
  h.increasing.imp fun hlt heq => by simp [heq] at hlt

end IntentionId.Numbered

namespace Agent

variable {a b start : Agent} {place : Nat} {i : Intention} {id : FrameId} {stack : List FrameId}
  {lawful : Prop} {j : Journal} {due : Option Due}

/-- An agent to which nothing happened yet. -/
structure Blank (a : Agent) : Prop where
  pending : a.pending = []
  frames : a.frames = .empty
  intentions : a.intentions = []
  nextIntention : a.nextIntention = 0
  statistics : a.statistics = List.replicate a.library.size .zero
  reports : a.reports = []

theorem blank_blank (spec : AgentSpec) (beliefs : BeliefBase) : (spec.blank beliefs).Blank :=
  ⟨rfl, rfl, rfl, rfl, rfl, rfl⟩

/-! ### The intention at a place among the others -/

theorem intentions_perm (hi : a.intentions[place]? = some i) :
    a.intentions.Perm (i :: a.intentions.eraseIdx place) := by
  obtain ⟨hlt, hget⟩ := List.getElem?_eq_some_iff.1 hi
  rw [← hget]
  exact (List.getElem_cons_eraseIdx_perm hlt).symm

theorem setStack_perm (hi : a.intentions[place]? = some i) (stack : List FrameId) :
    (a.setStack place stack).intentions.Perm
      ({ i with stack } :: a.intentions.eraseIdx place) := by
  have hperm := intentions_perm (getElem?_setStack hi stack)
  have hothers := congrArg Agent.intentions (a.dropIntention_setStack place stack)
  simp only [dropIntention] at hothers
  rwa [hothers] at hperm

theorem TopFrame.flatMap_stack {below : List FrameId} {f : Frame}
    (h : a.TopFrame place i id below f) :
    (a.intentions.flatMap Intention.stack).Perm
      (id :: (below ++ (a.intentions.eraseIdx place).flatMap Intention.stack)) := by
  have hperm := (intentions_perm h.intention).flatMap_right Intention.stack
  rwa [List.flatMap_cons, h.stack, List.cons_append] at hperm

theorem flatMap_stack_setStack (hi : a.intentions[place]? = some i) (stack : List FrameId) :
    ((a.setStack place stack).intentions.flatMap Intention.stack).Perm
      (stack ++ (a.intentions.eraseIdx place).flatMap Intention.stack) :=
  (setStack_perm hi stack).flatMap_right Intention.stack

theorem intentions_pushSubgoal {g child : Frame} {t : Trigger} {selection : Selection Float}
    (hchild : child = .start selection.plan t selection.bindings (some id)) :
    ((a.storeFrame id g).pushSubgoal place stack id t selection).intentions =
      (a.setStack place ((a.frames.insert child).1 :: stack)).intentions := by
  rw [hchild, ← a.frames.insert_modify_name id fun _ => g]
  rfl

theorem map_id_setStack (a : Agent) (place : Nat) (stack : List FrameId) :
    (a.setStack place stack).intentions.map Intention.id = a.intentions.map Intention.id := by
  simp only [setStack]
  apply List.ext_getElem?
  intro n
  rw [List.getElem?_map, List.getElem?_map, List.getElem?_modify]
  by_cases hn : place = n
  · simp [hn, Function.comp_def]
  · simp [hn]

theorem shows_setStack {k : Journal} (h : j.Shows a.intentions)
    (hi : a.intentions[place]? = some i)
    (hothers : i.id ∉ (a.intentions.eraseIdx place).map Intention.id)
    (hsame : ∀ n ≠ i.id, k.stackOf n = j.stackOf n) (hself : k.stackOf i.id = stack) :
    k.Shows (a.setStack place stack).intentions :=
  ((h.perm (intentions_perm hi)).restack hothers hsame hself).perm (setStack_perm hi stack).symm

/-! ### Names of frames -/

namespace Chronicle

/-- Every name that was given is still marked as used. -/
theorem names (h : Chronicle lawful start j due a) (hstart : start.Blank) :
    a.frames.Valid ∧ ∀ id ∈ j.filterMap Entry.opened?, a.frames.Used id := by
  induction h with
  | start =>
      rw [hstart.frames]
      exact ⟨FrameArena.valid_empty, by simp⟩
  | quiet _ _ _ _ _ _ _ ih | believe _ _ ih => exact ih
  | collect _ ih =>
      rw [List.filterMap_append, filterMap_collectionEntries (fun _ _ => rfl), List.append_nil]
      exact ih
  | raise _ _ _ ih | pass _ _ _ ih | unmet _ _ _ ih | drain _ ih =>
      simp only [List.filterMap_append, List.filterMap_cons, List.filterMap_nil, Entry.opened?,
        List.append_nil]
      exact ih
  | @begin _ a _ _ f _ _ _ _ _ _ ih =>
      refine ⟨ih.1.insert f, fun id hid => ?_⟩
      simp only [List.filterMap_append, List.filterMap_cons, List.filterMap_nil, Entry.opened?,
        List.mem_append, List.mem_singleton] at hid
      rcases hid with hid | rfl
      · exact (ih.2 id hid).insert ih.1 f
      · exact ih.1.used_insert_self f
  | exhaust _ _ _ _ _ ih =>
      exact ⟨ih.1.modify _ _, fun id hid => (ih.2 id hid).modify _ _⟩
  | run _ _ _ _ _ _ _ ih =>
      refine ⟨ih.1.modify _ _, fun id hid => (ih.2 id ?_).modify _ _⟩
      simpa [List.filterMap_cons] using hid
  | @suspend _ a _ _ parent _ _ g child _ _ _ _ _ _ _ _ _ _ _ _ _ _ _ hchild ih =>
      have hvalid : (a.frames.modify parent fun _ => g).Valid := ih.1.modify _ _
      subst hchild
      refine ⟨hvalid.insert _, fun id hid => ?_⟩
      simp only [List.filterMap_append, List.filterMap_cons, List.filterMap_nil, Entry.opened?,
        List.mem_append, List.mem_singleton] at hid
      rcases hid with hid | rfl
      · exact ((ih.2 id hid).modify _ _).insert hvalid _
      · rw [← a.frames.insert_modify_name parent fun _ => g]
        exact hvalid.used_insert_self _
  | endRoot _ _ _ hr ih =>
      refine ⟨ih.1.remove hr, fun id hid => (ih.2 id ?_).remove hr⟩
      simpa [List.filterMap_cons] using hid
  | endChild _ _ _ hr _ _ _ _ _ _ ih =>
      refine ⟨(ih.1.remove hr).modify _ _, fun id hid => ((ih.2 id ?_).remove hr).modify _ _⟩
      simpa [List.filterMap_cons] using hid

/-- The next frame gets a name that no frame had. -/
theorem name_notMem (h : Chronicle lawful start j due a) (hstart : start.Blank) (f : Frame) :
    (a.frames.insert f).1 ∉ j.filterMap Entry.opened? := by
  obtain ⟨hvalid, hused⟩ := h.names hstart
  exact fun hmem => hvalid.not_used_insert_name f (hused _ hmem)

/-- No name is given twice. -/
theorem opened_nodup (h : Chronicle lawful start j due a) (hstart : start.Blank) :
    (j.filterMap Entry.opened?).Nodup := by
  induction h with
  | start => exact List.nodup_nil
  | quiet _ _ _ _ _ _ _ ih | believe _ _ ih | exhaust _ _ _ _ _ ih => exact ih
  | collect _ ih =>
      rw [List.filterMap_append, filterMap_collectionEntries (fun _ _ => rfl), List.append_nil]
      exact ih
  | begin h _ _ _ ih | suspend h _ _ _ _ _ _ _ _ ih =>
      simp only [List.filterMap_append, List.filterMap_cons, List.filterMap_nil, Entry.opened?]
      rw [(List.perm_append_singleton _ _).nodup_iff, List.nodup_cons]
      exact ⟨h.name_notMem hstart _, ih⟩
  | raise _ _ _ ih | pass _ _ _ ih | unmet _ _ _ ih | drain _ ih | run _ _ _ _ _ _ _ ih
  | endRoot _ _ _ _ ih | endChild _ _ _ _ _ _ _ _ _ _ ih =>
      simpa only [List.filterMap_append, List.filterMap_cons, List.filterMap_nil, Entry.opened?,
        List.append_nil] using ih

/-- The frames that were opened were closed or stand on the stacks. -/
theorem shares (h : Chronicle lawful start j due a) (hstart : start.Blank) :
    (j.filterMap Entry.opened?).Perm
      (j.filterMap Entry.closed? ++ a.intentions.flatMap Intention.stack) := by
  induction h with
  | start => simp [hstart.intentions]
  | quiet _ _ _ _ _ _ _ ih | believe _ _ ih | exhaust _ _ _ _ _ ih => exact ih
  | collect _ ih =>
      rw [List.filterMap_append, List.filterMap_append,
        filterMap_collectionEntries (fun _ _ => rfl), filterMap_collectionEntries (fun _ _ => rfl),
        List.append_nil, List.append_nil]
      exact ih
  | raise _ _ _ ih | pass _ _ _ ih | unmet _ _ _ ih | drain _ ih | run _ _ _ _ _ _ _ ih =>
      simp only [List.filterMap_append, List.filterMap_cons, List.filterMap_nil, Entry.opened?,
        Entry.closed?, List.append_nil]
      exact ih
  | begin _ _ _ _ ih =>
      simp only [List.filterMap_append, List.filterMap_cons, List.filterMap_nil, Entry.opened?,
        Entry.closed?, List.append_nil, List.flatMap_append, List.flatMap_cons, List.flatMap_nil]
      rw [← List.append_assoc]
      exact ih.append_right _
  | @suspend j a place i id below f _ child _ _ _ _ _ _ _ _ htop _ _ _ _ _ _ hchild ih =>
      rw [intentions_pushSubgoal hchild]
      simp only [List.filterMap_append, List.filterMap_cons, List.filterMap_nil, Entry.opened?,
        Entry.closed?, List.append_nil]
      have hafter := flatMap_stack_setStack htop.intention
        ((a.frames.insert child).1 :: id :: below)
      have hpushed := (htop.flatMap_stack.cons (a.frames.insert child).1).trans hafter.symm
      refine (List.perm_append_singleton _ _).trans ((ih.cons _).trans ?_)
      exact List.perm_middle.symm.trans (hpushed.append_left _)
  | @endRoot j a place i id f _ _ _ htop _ _ ih =>
      simp only [List.filterMap_append, List.filterMap_cons, List.filterMap_nil, Entry.opened?,
        Entry.closed?, List.append_nil, List.append_assoc]
      exact ih.trans (htop.flatMap_stack.append_left _)
  | @endChild j a place i id parent below _ _ _ _ _ _ _ _ _ htop _ _ _ _ _ _ _ _ ih =>
      simp only [List.filterMap_append, List.filterMap_cons, List.filterMap_nil, Entry.opened?,
        Entry.closed?, List.append_nil, List.append_assoc]
      have hafter := flatMap_stack_setStack htop.intention (parent :: below)
      refine ih.trans (.append_left _ ?_)
      exact htop.flatMap_stack.trans (hafter.symm.cons id)

/-- The live intentions are listed in the order in which they started. -/
theorem ordered (h : Chronicle lawful start j due a) (hstart : start.Blank) :
    IntentionId.Numbered a.nextIntention (a.intentions.map Intention.id) := by
  induction h with
  | start =>
      rw [hstart.intentions]
      exact ⟨.nil, by simp⟩
  | quiet _ _ _ _ _ _ _ ih | believe _ _ ih | collect _ ih | raise _ _ _ ih | drain _ ih => exact ih
  | exhaust _ _ _ _ _ ih | run _ _ _ _ _ _ _ ih => exact ih
  | pass _ _ _ ih | unmet _ _ _ ih => exact ih.skip
  | begin _ _ _ _ ih =>
      rw [List.map_append]
      exact ih.add
  | suspend _ _ _ _ _ _ _ _ hchild ih =>
      rw [intentions_pushSubgoal hchild, map_id_setStack]
      exact ih
  | endRoot _ _ _ _ ih => exact ih.sublist ((List.eraseIdx_sublist _ _).map _)
  | endChild _ _ _ _ _ _ _ _ _ _ ih =>
      rw [map_id_setStack]
      exact ih

theorem id_notMem_others (h : Chronicle lawful start j due a) (hstart : start.Blank)
    (hi : a.intentions[place]? = some i) :
    i.id ∉ (a.intentions.eraseIdx place).map Intention.id := by
  have hnodup := (h.ordered hstart).nodup
  rw [((intentions_perm hi).map Intention.id).nodup_iff, List.map_cons, List.nodup_cons] at hnodup
  exact hnodup.1

/-- The stacks of the intentions are those that the journal tells. -/
theorem shown (h : Chronicle lawful start j due a) (hstart : start.Blank) :
    j.Shows a.intentions := by
  induction h with
  | start =>
      rw [hstart.intentions]
      exact ⟨by simp, fun _ _ => rfl⟩
  | quiet _ _ _ _ _ _ _ ih | believe _ _ ih | exhaust _ _ _ _ _ ih => exact ih
  | collect _ ih =>
      refine ih.congr fun n => ?_
      rw [Journal.stackOf_append, foldl_collectionEntries fun _ _ _ => rfl]
  | raise _ _ _ ih | pass _ _ _ ih | unmet _ _ _ ih | drain _ ih | run _ _ _ _ _ _ _ ih =>
      exact ih.congr fun n => Journal.stackOf_append
  | @begin j a t rest f chosen p h _ _ _ ih =>
      have hnew := (h.ordered hstart).notMem_next
      refine (ih.add (i := ⟨⟨a.nextIntention⟩, chosen.1, [(a.frames.insert f).1]⟩) hnew ?_ ?_).perm
        (List.perm_append_singleton _ _).symm
      · intro n hn
        simp [Journal.stackOf_append, hn.symm]
      · simp [Journal.stackOf_append, ih.ended _ hnew]
  | suspend h htop _ _ _ _ _ _ hchild ih =>
      rw [intentions_pushSubgoal hchild]
      refine shows_setStack ih htop.intention (h.id_notMem_others hstart htop.intention) ?_ ?_
      · intro n hn
        simp [Journal.stackOf_append, hn.symm]
      · have hself := ih.live _ (List.mem_of_getElem? htop.intention)
        simp [Journal.stackOf_append, hself, htop.stack]
  | endRoot h htop _ _ ih =>
      have hothers := h.id_notMem_others hstart htop.intention
      refine (ih.perm (intentions_perm htop.intention)).drop hothers ?_ ?_
      · intro n hn
        simp [Journal.stackOf_append, hn.symm]
      · have hself := ih.live _ (List.mem_of_getElem? htop.intention)
        simp [Journal.stackOf_append, hself, htop.stack]
  | endChild h htop _ _ _ _ _ _ _ _ ih =>
      refine shows_setStack ih htop.intention (h.id_notMem_others hstart htop.intention) ?_ ?_
      · intro n hn
        simp [Journal.stackOf_append, hn.symm]
      · have hself := ih.live _ (List.mem_of_getElem? htop.intention)
        simp [Journal.stackOf_append, hself, htop.stack]

/-- The frames on the stack of an intention were opened for it. -/
theorem registered (h : Chronicle lawful start j due a) (hstart : start.Blank) :
    ∀ i ∈ a.intentions, ∀ id ∈ i.stack, ∃ f, Entry.opened i.id id f ∈ j := by
  have hmore {j : Journal} {a : Agent}
      (ih : ∀ i ∈ a.intentions, ∀ id ∈ i.stack, ∃ f, Entry.opened i.id id f ∈ j) (k : Journal) :
      ∀ i ∈ a.intentions, ∀ id ∈ i.stack, ∃ f, Entry.opened i.id id f ∈ j ++ k :=
    fun i hi id hid => (ih i hi id hid).imp fun _ => List.mem_append_left k
  induction h with
  | start => simp [hstart.intentions]
  | quiet _ _ _ _ _ _ _ ih | believe _ _ ih | exhaust _ _ _ _ _ ih => exact ih
  | collect _ ih | raise _ _ _ ih | pass _ _ _ ih | unmet _ _ _ ih | drain _ ih
  | run _ _ _ _ _ _ _ ih => exact hmore ih _
  | @begin _ _ _ _ f _ _ _ _ _ _ ih =>
      intro i hi id hid
      rcases List.mem_append.1 hi with hi | hi
      · exact hmore ih _ i hi id hid
      · obtain rfl := List.mem_singleton.1 hi
        obtain rfl := List.mem_singleton.1 hid
        exact ⟨f, by simp⟩
  | @suspend _ a _ _ _ _ _ _ child _ _ _ _ _ _ _ _ htop _ _ _ _ _ _ hchild ih =>
      rw [intentions_pushSubgoal hchild]
      intro i hi id hid
      rcases List.mem_cons.1 ((setStack_perm htop.intention _).mem_iff.1 hi) with rfl | hi
      · rcases List.mem_cons.1 hid with rfl | hid
        · exact ⟨child, by simp⟩
        · exact hmore ih _ _ (List.mem_of_getElem? htop.intention) id (htop.stack ▸ hid)
      · exact hmore ih _ i (List.mem_of_mem_eraseIdx hi) id hid
  | endRoot _ _ _ _ ih =>
      intro i hi id hid
      exact hmore ih _ i (List.mem_of_mem_eraseIdx hi) id hid
  | endChild _ htop _ _ _ _ _ _ _ _ ih =>
      intro i hi id hid
      rcases List.mem_cons.1 ((setStack_perm htop.intention _).mem_iff.1 hi) with rfl | hi
      · exact hmore ih _ _ (List.mem_of_getElem? htop.intention) id
          (htop.stack ▸ List.mem_cons_of_mem _ hid)
      · exact hmore ih _ i (List.mem_of_mem_eraseIdx hi) id hid

end Chronicle

/-! ### Reports -/

/-- Of reports that are added to the last ones of a list the last ones are kept. -/
theorem reports_addReport {reports : List Report} (hcapacity : 0 < a.config.reportCapacity)
    (h : a.reports = reports.rtake a.config.reportCapacity) (r : Report) :
    (a.addReport r).reports = (reports ++ [r]).rtake a.config.reportCapacity := by
  obtain ⟨n, hn⟩ := Nat.exists_eq_succ_of_ne_zero (Nat.pos_iff_ne_zero.1 hcapacity)
  rw [addReport, h, hn, List.rtake_concat_succ]
  simp only [List.rtake, List.drop_drop, List.length_drop]
  congr 2
  omega

theorem Chronicle.reported (h : Chronicle lawful start j due a) (hstart : start.Blank)
    (hcapacity : 0 < start.config.reportCapacity) :
    a.reports = j.undrained.rtake start.config.reportCapacity := by
  have hadd {j : Journal} {a : Agent} (hconfig : a.config = start.config)
      (ih : a.reports = j.undrained.rtake start.config.reportCapacity) (r : Report) :
      (a.addReport r).reports = (j.undrained ++ [r]).rtake start.config.reportCapacity := by
    rw [← hconfig] at ih hcapacity ⊢
    exact reports_addReport hcapacity ih r
  induction h with
  | start => simp [hstart.reports, Journal.undrained]
  | quiet _ _ _ _ _ _ _ ih | believe _ _ ih | exhaust _ _ _ _ _ ih => exact ih
  | collect _ ih =>
      rw [Journal.undrained_append, foldl_collectionEntries fun _ _ _ => List.append_nil _]
      exact ih
  | raise _ _ _ ih | pass _ _ _ ih | begin _ _ _ _ ih | run _ _ _ _ _ _ _ ih
  | suspend _ _ _ _ _ _ _ _ _ ih =>
      simp only [Journal.undrained_append, List.foldl_cons, List.foldl_nil, Entry.leave,
        Entry.report?, Option.toList_none, List.append_nil]
      exact ih
  | unmet h _ _ ih =>
      simp only [Journal.undrained_append, List.foldl_cons, List.foldl_nil, Entry.leave,
        Entry.report?, Option.toList_none, Option.toList_some, List.append_nil]
      exact hadd h.constants.1 ih _
  | endRoot h _ _ _ ih | endChild h _ _ _ _ _ _ _ _ _ ih =>
      simp only [Journal.undrained_append, List.foldl_cons, List.foldl_nil, Entry.leave,
        Entry.report?, Option.toList_none, Option.toList_some, List.append_nil]
      exact hadd h.constants.1 ih _
  | drain _ _ => simp [Journal.undrained_append, drainReports]

/-- A built agent keeps some reports. -/
theorem reportCapacity_pos {spec : AgentSpec} (h : spec.build = .ok a) :
    0 < spec.config.reportCapacity := by
  refine Nat.pos_iff_ne_zero.2 fun hzero => ?_
  have hinvalid : ∃ e, spec.config.validate = .error e := by
    rw [AgentConfig.validate, if_pos hzero]
    split
    · exact ⟨_, rfl⟩
    · split <;> exact ⟨_, rfl⟩
  obtain ⟨e, he⟩ := hinvalid
  simp [AgentSpec.build, he, Except.mapError, bind, Except.bind] at h

end Agent
end Deliberation
