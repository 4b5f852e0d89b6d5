import Mathlib.Data.List.Nodup
import Deliberation.Proofs.Agent.Course
import Deliberation.Society.Scheduler

/-!
Rounds of ticks.

Residents are told apart by their sources in every run of a scheduler. A tick touches the resident
at its place and what is published from its source, so an ensemble in which the agents at some
places were ticked once is determined by the set of these places, and a round by the ensemble that
it starts from.
-/

namespace Deliberation

/-! ### The name of an agent -/

namespace Agent

/-- An agent keeps its name when it is ticked. -/
theorem id_tick (a : Agent) : a.tick.2.id = a.id := by
  obtain ⟨_, _, _, _, hawake⟩ := a.awake_eq
  have hid : a.awake.id = a.id := by rw [hawake]
  obtain ⟨_, heq⟩ | heq | ⟨t, rest, _, heq⟩ | ⟨place, _, _, heq⟩ := a.tick_cases
  · rw [heq]
  · rw [heq]
    exact hid
  · obtain ⟨_, _, _, hhandle⟩ := { a.awake with pending := rest }.handle_eq t
    rw [heq, hhandle]
    exact hid
  · obtain ⟨_, _, _, _, _, _, _, hstep⟩ := a.awake.step_touches place
    rw [heq, hstep]
    exact hid

end Agent

/-! ### Residents and their sources -/

namespace Ensemble

variable {e f g : Ensemble} {place : Nat} {places : List Nat} {r : Resident}

def sources (e : Ensemble) : List Nat :=
  e.residents.map (·.source)

/-- The residents have different sources, which were all given out. -/
structure TellsApart (e : Ensemble) : Prop where
  nodup : e.sources.Nodup
  below : ∀ n ∈ e.sources, n < e.arrivals

/-- Nobody arrived; some may have left. -/
structure NoneArrived (e f : Ensemble) : Prop where
  sources : f.sources.Sublist e.sources
  arrivals : f.arrivals = e.arrivals

theorem NoneArrived.refl (e : Ensemble) : e.NoneArrived e :=
  ⟨.refl _, rfl⟩

theorem NoneArrived.trans (h : e.NoneArrived f) (hnext : f.NoneArrived g) : e.NoneArrived g :=
  ⟨hnext.sources.trans h.sources, hnext.arrivals.trans h.arrivals⟩

theorem TellsApart.of_noneArrived (h : e.TellsApart) (hnone : e.NoneArrived f) : f.TellsApart where
  nodup := h.nodup.sublist hnone.sources
  below n hn := hnone.arrivals ▸ h.below n (hnone.sources.subset hn)

theorem noneArrived_setPopulation (e : Ensemble) (p : Population Float) :
    e.NoneArrived (e.setPopulation p) := by
  have hsources : (e.setPopulation p).sources = e.sources := by
    simp [sources, setPopulation, Function.comp_def]
  exact ⟨hsources ▸ .refl _, rfl⟩

theorem noneArrived_revise {β : Type} (e : Ensemble)
    (change : Population Float → β × Population Float) : e.NoneArrived (e.revise change).2 := by
  unfold revise
  split
  · exact .refl e
  · exact noneArrived_setPopulation e _

theorem noneArrived_joinAll (e : Ensemble) : e.NoneArrived e.joinAll := by
  have hall (residents : List Resident) (f : Ensemble) (h : e.NoneArrived f) :
      e.NoneArrived (residents.foldl (fun e r => (e.join r).2) f) := by
    induction residents generalizing f with
    | nil => exact h
    | cons r rest ih => exact ih _ (h.trans (noneArrived_revise f _))
  exact hall e.residents e (.refl e)

theorem noneArrived_attach (e : Ensemble) (p : Population Float) : e.NoneArrived (e.attach p) := by
  have hjoined := noneArrived_joinAll
    { e with population := some p, generation := e.generation + 1 }
  exact ⟨hjoined.sources, hjoined.arrivals⟩

theorem noneArrived_dismiss {id : AgentId} {a : Agent} (h : e.dismiss id = some (a, f)) :
    e.NoneArrived f := by
  unfold dismiss at h
  split at h
  · simp at h
  · rename_i place _
    split at h
    · simp at h
    · obtain ⟨_, rfl⟩ := Prod.mk.inj (Option.some.inj h)
      have hleft : e.NoneArrived { e with residents := e.residents.eraseIdx place } :=
        ⟨(List.eraseIdx_sublist _ _).map _, rfl⟩
      exact hleft.trans (noneArrived_revise _ _)

theorem actAt_eq_some {β : Type} (hr : e.residents[place]? = some r) (action : Agent → β × Agent) :
    e.actAt place action = some ((action r.agent).1, { e with
      residents := e.residents.set place { r with agent := (action r.agent).2 }
      population := e.population.map (·.publish r.source (action r.agent).2.snapshot) }) := by
  rw [actAt, hr]

theorem noneArrived_actAt {β : Type} {action : Agent → β × Agent} {result : β}
    (h : e.actAt place action = some (result, f)) : e.NoneArrived f := by
  unfold actAt at h
  split at h
  · simp at h
  · rename_i r hr
    obtain ⟨_, rfl⟩ := Prod.mk.inj (Option.some.inj h)
    obtain ⟨hlt, rfl⟩ := List.getElem?_eq_some_iff.1 hr
    have hlt' : place < e.sources.length := by simpa [sources] using hlt
    have hsource : e.residents[place].source = e.sources[place] := by simp [sources]
    constructor
    · unfold sources
      rw [List.map_set]
      exact (hsource ▸ List.set_getElem_self hlt') ▸ List.Sublist.refl e.sources
    · rfl

theorem noneArrived_act {β : Type} {id : AgentId} {action : Agent → β × Agent} {result : β}
    (h : e.act id action = some (result, f)) : e.NoneArrived f := by
  unfold act at h
  split at h
  · simp at h
  · exact noneArrived_actAt h

theorem noneArrived_tickEach (e : Ensemble) (order : List Nat) :
    e.NoneArrived (e.tickEach order).2 := by
  induction order generalizing e with
  | nil => exact .refl e
  | cons place rest ih =>
      unfold tickEach
      split
      · exact ih e
      · rename_i htick
        exact (noneArrived_actAt htick).trans (ih _)

theorem TellsApart.enroll (h : e.TellsApart) (a : Agent) : (e.enroll a).TellsApart := by
  have harrived : (e.arrive a).TellsApart := by
    have hsources : (e.arrive a).sources = e.sources ++ [e.arrivals] := by
      simp [arrive, sources]
    constructor
    · rw [hsources, List.nodup_append]
      refine ⟨h.nodup, List.nodup_singleton _, ?_⟩
      intro n hn m hm
      rw [List.mem_singleton.1 hm]
      exact (h.below n hn).ne
    · intro n hn
      rw [hsources, List.mem_append, List.mem_singleton] at hn
      obtain hn | rfl := hn
      · exact (h.below n hn).trans (Nat.lt_succ_self _)
      · exact Nat.lt_succ_self _
  exact harrived.of_noneArrived (noneArrived_revise _ _)

/-! ### Ticks at different places -/

/-- What is published from a source when the agents at some places are ticked once. -/
def news? (e : Ensemble) (places : List Nat) (source : Nat) : Option Snapshot :=
  (e.residents.zipIdx.find? fun (r, place) => r.source = source ∧ place ∈ places).map
    fun (r, _) => r.agent.tick.2.snapshot

/-- The ensemble after the agents at some places were ticked once. -/
def tickedAt (e : Ensemble) (places : List Nat) : Ensemble :=
  { e with
    residents := e.residents.mapIdx fun place r =>
      if place ∈ places then { r with agent := r.agent.tick.2 } else r
    population := e.population.map fun p => { p with
      members := p.members.map fun m =>
        { m with snapshot := (e.news? places m.source).getD m.snapshot } } }

/-- What comes back from the tick of the agent at a place. -/
def reply? (e : Ensemble) (place : Nat) : Option Reply :=
  e.residents[place]?.map fun r => ⟨place, r.agent.id, r.agent.tick.1⟩

/-- How the ticks of all agents go. -/
def outcomes (e : Ensemble) : List (AgentId × TickOutcome) :=
  e.residents.map fun r => (r.agent.id, r.agent.tick.1)

theorem tickedAt_nil (e : Ensemble) : e.tickedAt [] = e := by
  have hnews (source : Nat) : e.news? [] source = none := by simp [news?]
  have hresidents : e.residents.mapIdx (fun _ r => r) = e.residents :=
    List.ext_getElem? fun place => by simp
  simp [tickedAt, hnews, hresidents]

/-- Neither the order of the places nor how often one is listed makes a difference. -/
theorem tickedAt_congr {places' : List Nat} (h : ∀ place, place ∈ places ↔ place ∈ places') :
    e.tickedAt places = e.tickedAt places' := by
  unfold tickedAt news?
  simp only [h]

theorem residents_tickedAt (hnew : place ∉ places) :
    (e.tickedAt places).residents[place]? = e.residents[place]? := by
  simp [tickedAt, hnew]

theorem TellsApart.eq_of_source (h : e.TellsApart) {place' : Nat} {r' : Resident}
    (hr : e.residents[place]? = some r) (hr' : e.residents[place']? = some r')
    (hsource : r.source = r'.source) : place = place' := by
  have hlt : place < e.sources.length := by
    simpa [sources] using (List.getElem?_eq_some_iff.1 hr).1
  refine (List.getElem?_inj hlt h.nodup).1 ?_
  rw [sources, List.getElem?_map, List.getElem?_map, hr, hr', Option.map_some, Option.map_some,
    hsource]

theorem TellsApart.news?_eq_some_iff (h : e.TellsApart) {source : Nat} {snapshot : Snapshot} :
    e.news? places source = some snapshot ↔ ∃ place ∈ places, ∃ r,
      e.residents[place]? = some r ∧ r.source = source ∧ r.agent.tick.2.snapshot = snapshot := by
  unfold news?
  constructor
  · intro hnews
    obtain ⟨⟨r, place⟩, hfind, hsnapshot⟩ := Option.map_eq_some_iff.1 hnews
    have hfound := List.find?_some hfind
    simp only [decide_eq_true_eq] at hfound
    have hr := List.mem_zipIdx_iff_getElem?.1 (List.mem_of_find?_eq_some hfind)
    exact ⟨place, hfound.2, r, hr, hfound.1, hsnapshot⟩
  · rintro ⟨place, hplace, r, hr, hsource, hsnapshot⟩
    have hsome : (e.residents.zipIdx.find? fun (r, place) =>
        r.source = source ∧ place ∈ places).isSome := by
      refine List.find?_isSome.2 ⟨(r, place), List.mem_zipIdx_iff_getElem?.2 hr, ?_⟩
      simpa using ⟨hsource, hplace⟩
    obtain ⟨⟨r', place'⟩, hfind⟩ := Option.isSome_iff_exists.1 hsome
    have hfound := List.find?_some hfind
    simp only [decide_eq_true_eq] at hfound
    have hr' := List.mem_zipIdx_iff_getElem?.1 (List.mem_of_find?_eq_some hfind)
    -- The search stops at the first resident with the source, and there is no other one.
    obtain rfl := h.eq_of_source hr hr' (hsource.trans hfound.1.symm)
    obtain rfl := Option.some.inj (hr.symm.trans hr')
    rw [hfind, ← hsnapshot]
    rfl

theorem TellsApart.news?_cons (h : e.TellsApart) (hr : e.residents[place]? = some r)
    (source : Nat) : e.news? (place :: places) source =
      if r.source = source then some r.agent.tick.2.snapshot else e.news? places source := by
  split
  · rename_i hsource
    exact h.news?_eq_some_iff.2 ⟨place, List.mem_cons_self, r, hr, hsource, rfl⟩
  · rename_i hsource
    refine Option.ext fun snapshot => ?_
    rw [h.news?_eq_some_iff, h.news?_eq_some_iff]
    constructor
    · rintro ⟨place', hplace, r', hr', hsource', hsnapshot⟩
      obtain rfl | hplace := List.mem_cons.1 hplace
      · obtain rfl := Option.some.inj (hr.symm.trans hr')
        exact absurd hsource' hsource
      · exact ⟨place', hplace, r', hr', hsource', hsnapshot⟩
    · rintro ⟨place', hplace, hrest⟩
      exact ⟨place', List.mem_cons_of_mem _ hplace, hrest⟩

/-- When the agent at one more place is given the state after its tick, the place joins those that
were ticked. -/
theorem TellsApart.actAt_tickedAt (h : e.TellsApart) {β : Type} {action : Agent → β × Agent}
    (hr : e.residents[place]? = some r) (hnew : place ∉ places)
    (haction : (action r.agent).2 = r.agent.tick.2) :
    (e.tickedAt places).actAt place action =
      some ((action r.agent).1, e.tickedAt (place :: places)) := by
  have hresidents : (e.tickedAt places).residents.set place { r with agent := r.agent.tick.2 } =
      (e.tickedAt (place :: places)).residents := by
    refine List.ext_getElem? fun place' => ?_
    by_cases hplace : place = place'
    · subst hplace
      obtain ⟨hlt, rfl⟩ := List.getElem?_eq_some_iff.1 hr
      simp [tickedAt, hlt]
    · simp [tickedAt, hplace, Ne.symm hplace]
  have hpopulation : (e.tickedAt places).population.map
      (fun p => p.publish r.source r.agent.tick.2.snapshot) =
      (e.tickedAt (place :: places)).population := by
    simp only [tickedAt, Option.map_map]
    congr 1
    funext p
    simp only [Function.comp_apply, Population.publish, List.map_map]
    congr 2
    funext m
    simp only [Function.comp_apply, h.news?_cons hr, @eq_comm _ r.source]
    split <;> rfl
  rw [actAt_eq_some ((residents_tickedAt hnew).trans hr) action, haction, hresidents, hpopulation]
  rfl

theorem TellsApart.tickAt_tickedAt (h : e.TellsApart) (hr : e.residents[place]? = some r)
    (hnew : place ∉ places) : (e.tickedAt places).tickAt place =
      some (⟨place, r.agent.id, r.agent.tick.1⟩, e.tickedAt (place :: places)) := by
  refine (h.actAt_tickedAt hr hnew ?_).trans ?_
  · rfl
  · simp only [Agent.id_tick]

/-- Ticks at different places, one after another. -/
theorem TellsApart.tickEach_tickedAt (h : e.TellsApart) {order : List Nat}
    (hnodup : order.Nodup) (hnew : ∀ place ∈ order, place ∉ places)
    (hplaces : ∀ place ∈ order, place < e.size) :
    (e.tickedAt places).tickEach order =
      (order.filterMap e.reply?, e.tickedAt (order ++ places)) := by
  induction order generalizing places with
  | nil => rfl
  | cons place rest ih =>
      obtain ⟨hout, hrest⟩ := List.nodup_cons.1 hnodup
      obtain ⟨r, hr⟩ : ∃ r, e.residents[place]? = some r :=
        ⟨_, List.getElem?_eq_getElem (hplaces place List.mem_cons_self)⟩
      have hnew' : ∀ place' ∈ rest, place' ∉ place :: places := by
        intro place' hplace hmem
        obtain rfl | hmem := List.mem_cons.1 hmem
        · exact hout hplace
        · exact hnew place' (List.mem_cons_of_mem _ hplace) hmem
      have hnext := ih hrest hnew' fun place' hplace =>
        hplaces place' (List.mem_cons_of_mem _ hplace)
      have hsame : e.tickedAt (rest ++ place :: places) = e.tickedAt (place :: rest ++ places) :=
        tickedAt_congr fun place' => by simp [or_left_comm]
      unfold tickEach
      rw [h.tickAt_tickedAt hr (hnew place List.mem_cons_self)]
      simp only
      rw [hnext, hsame]
      simp [reply?, hr]

theorem place_of_reply? {reply : Reply} (h : e.reply? place = some reply) :
    reply.place = place := by
  obtain ⟨r, _, rfl⟩ := Option.map_eq_some_iff.1 h
  rfl

theorem map_place_filterMap_reply? {order : List Nat} (h : ∀ place ∈ order, place < e.size) :
    (order.filterMap e.reply?).map (·.place) = order := by
  induction order with
  | nil => rfl
  | cons place rest ih =>
      obtain ⟨hplace, hrest⟩ := List.forall_mem_cons.1 h
      have hr : e.residents[place]? = some e.residents[place] := List.getElem?_eq_getElem hplace
      rw [List.filterMap_cons_some (by rw [reply?, hr]; rfl), List.map_cons, ih hrest]

theorem filterMap_residents (e : Ensemble) :
    (List.range e.size).filterMap (e.residents[·]?) = e.residents := by
  unfold size
  induction e.residents using List.reverseRecOn with
  | nil => rfl
  | append_singleton residents r ih =>
      have hbefore : ∀ place ∈ List.range residents.length,
          (residents ++ [r])[place]? = residents[place]? := fun place hplace =>
        List.getElem?_append_left (List.mem_range.1 hplace)
      rw [List.length_append, List.length_singleton, List.range_succ, List.filterMap_append,
        List.filterMap_congr hbefore, ih]
      simp

end Ensemble

namespace Scheduler

/-- The replies to the ticks of all agents, in whatever order they come, are filed by place. -/
theorem collect_eq {e : Ensemble} {replies : List Reply}
    (hplaces : (replies.map (·.place)).Perm (List.range e.size))
    (hreplies : ∀ reply ∈ replies, e.reply? reply.place = some reply) :
    collect e.size replies = e.outcomes := by
  have hfound : ∀ place ∈ List.range e.size,
      ((replies.find? fun r => r.place = place).map fun r => (r.agent, r.outcome)) =
        e.residents[place]?.map fun r => (r.agent.id, r.agent.tick.1) := by
    intro place hplace
    obtain ⟨reply, hmem, hat⟩ := List.mem_map.1 (hplaces.mem_iff.2 hplace)
    have hsome : (replies.find? fun r => r.place = place).isSome :=
      List.find?_isSome.2 ⟨reply, hmem, by simpa using hat⟩
    obtain ⟨reply', hfind⟩ := Option.isSome_iff_exists.1 hsome
    have hat' : reply'.place = place := by simpa using List.find?_some hfind
    have hreply := hreplies reply' (List.mem_of_find?_eq_some hfind)
    rw [hat', Ensemble.reply?] at hreply
    obtain ⟨r, hr, rfl⟩ := Option.map_eq_some_iff.1 hreply
    rw [hfind, hr]
    rfl
  unfold collect Ensemble.outcomes
  rw [List.filterMap_congr hfound, ← List.map_filterMap, Ensemble.filterMap_residents]

/-- Ends a round. -/
def closeRound (s : Scheduler) (outcomes : List (AgentId × TickOutcome)) (ensemble : Ensemble) :
    RoundReport × Scheduler :=
  let (verdict, ensemble) :=
    if s.config.recomputeEachRound then ensemble.revise Population.refresh else (none, ensemble)
  ({ round := s.round + 1, outcomes, verdict }, { s with ensemble, round := s.round + 1 })

theorem runRoundIn_eq (order : List Nat) (s : Scheduler) :
    s.runRoundIn order = s.closeRound (collect s.ensemble.size (s.ensemble.tickEach order).1)
      (s.ensemble.tickEach order).2 := rfl

/-- A round in any order of the places ticks every agent once. -/
theorem runRoundIn_perm {s : Scheduler} (h : s.ensemble.TellsApart) {order : List Nat}
    (horder : order.Perm (List.range s.ensemble.size)) : s.runRoundIn order =
      s.closeRound s.ensemble.outcomes (s.ensemble.tickedAt (List.range s.ensemble.size)) := by
  have hlt : ∀ place ∈ order, place < s.ensemble.size := fun place hplace =>
    List.mem_range.1 (horder.mem_iff.1 hplace)
  have hticks : (s.ensemble.tickedAt []).tickEach order = _ :=
    h.tickEach_tickedAt (horder.nodup_iff.2 List.nodup_range) (fun _ _ => List.not_mem_nil) hlt
  rw [Ensemble.tickedAt_nil, List.append_nil] at hticks
  rw [runRoundIn_eq, hticks]
  congr 1
  · refine collect_eq ?_ ?_
    · rw [Ensemble.map_place_filterMap_reply? hlt]
      exact horder
    · intro reply hreply
      obtain ⟨place, _, hat⟩ := List.mem_filterMap.1 hreply
      rw [Ensemble.place_of_reply? hat, hat]
  · exact Ensemble.tickedAt_congr fun place => horder.mem_iff

end Scheduler

/-! ### What happens to a scheduler -/

/-- What can be asked of a scheduler. -/
inductive SchedulerOperation where
  | attach (p : Population Float)
  | enroll (a : Agent)
  | dismiss (id : AgentId)
  /-- Something is done to the first agent with a name. -/
  | act (id : AgentId) (change : Agent → Agent)
  | submit (id : AgentId)
  | round

namespace Scheduler

/-- A scheduler after an operation; one that is refused changes nothing. -/
def perform (s : Scheduler) : SchedulerOperation → Scheduler
  | .attach p => { s with ensemble := s.ensemble.attach p }
  | .enroll a => { s with ensemble := s.ensemble.enroll a }
  | .dismiss id =>
    match s.ensemble.dismiss id with
    | some (_, ensemble) => { s with ensemble }
    | none => s
  | .act id change =>
    match s.ensemble.act id fun a => ((), change a) with
    | some (_, ensemble) => { s with ensemble }
    | none => s
  | .submit id =>
    match s.submit id with
    | .ok (_, s) => s
    | .error _ => s
  | .round => s.runRound.2

def performAll (s : Scheduler) (operations : List SchedulerOperation) : Scheduler :=
  operations.foldl perform s

theorem noneArrived_submit {s s' : Scheduler} {id : AgentId} {outcome : TickOutcome}
    (h : s.submit id = .ok (outcome, s')) : s.ensemble.NoneArrived s'.ensemble := by
  unfold submit at h
  split at h
  · rename_i htick
    obtain rfl := Except.ok.inj h
    obtain ⟨⟨_, ensemble⟩, hact, heq⟩ := Option.map_eq_some_iff.1 htick
    obtain ⟨_, rfl⟩ := Prod.mk.inj heq
    exact Ensemble.noneArrived_act hact
  · simp at h

theorem noneArrived_closeRound (s : Scheduler) (outcomes : List (AgentId × TickOutcome))
    (e : Ensemble) : e.NoneArrived (s.closeRound outcomes e).2.ensemble := by
  unfold closeRound
  split_ifs
  · exact Ensemble.noneArrived_revise e Population.refresh
  · exact .refl e

theorem noneArrived_runRound (s : Scheduler) : s.ensemble.NoneArrived s.runRound.2.ensemble :=
  (Ensemble.noneArrived_tickEach s.ensemble _).trans (noneArrived_closeRound s _ _)

theorem tellsApart_perform {s : Scheduler} (h : s.ensemble.TellsApart)
    (operation : SchedulerOperation) : (s.perform operation).ensemble.TellsApart := by
  unfold perform
  cases operation with
  | attach p => exact h.of_noneArrived (Ensemble.noneArrived_attach s.ensemble p)
  | enroll a => exact h.enroll a
  | dismiss id =>
      simp only
      split
      · rename_i hdismiss
        exact h.of_noneArrived (Ensemble.noneArrived_dismiss hdismiss)
      · exact h
  | act id change =>
      simp only
      split
      · rename_i hact
        exact h.of_noneArrived (Ensemble.noneArrived_act hact)
      · exact h
  | submit id =>
      simp only
      split
      · rename_i hsubmit
        exact h.of_noneArrived (noneArrived_submit hsubmit)
      · exact h
  | round => exact h.of_noneArrived (noneArrived_runRound s)

/-- Residents are told apart whatever happens to a scheduler. -/
theorem tellsApart_performAll (config : SchedulerConfig) (operations : List SchedulerOperation) :
    ((start config).performAll operations).ensemble.TellsApart := by
  have hall (s : Scheduler) (h : s.ensemble.TellsApart) :
      (s.performAll operations).ensemble.TellsApart := by
    induction operations generalizing s with
    | nil => exact h
    | cons operation rest ih => exact ih _ (tellsApart_perform h operation)
  exact hall (start config) ⟨List.nodup_nil, fun _ hn => absurd hn List.not_mem_nil⟩

end Scheduler
end Deliberation
