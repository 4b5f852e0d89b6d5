import Mathlib.Algebra.BigOperators.Group.List.Basic
import Mathlib.Algebra.GroupWithZero.Nat
import Deliberation.Proofs.Agent.Intentions
import Deliberation.Proofs.Society.Round

/-!
Rounds by several workers at a time.

The ticks of a round go through a queue to the workers, which send the replies to a mailbox. The
agents are shared: a worker reads the agent at a place when it begins the tick, and puts it back
when the tick is done, while others do the same at other places. Whatever the order of all these
steps, a round comes to its end, and it ends as if one agent were ticked after another.
-/

namespace Deliberation

/-- What a worker has at hand. -/
inductive Job where
  | taken (place : Nat)
  /-- The agent was read and is ticked. -/
  | ticking (place : Nat) (outcome : TickOutcome) (agent : Agent)
  /-- The agent was put back. -/
  | ticked (reply : Reply)

namespace Job

def place : Job → Nat
  | .taken place => place
  | .ticking place _ _ => place
  | .ticked reply => reply.place

def reply? : Job → Option Reply
  | .ticked reply => some reply
  | .taken _ | .ticking _ _ _ => none

/-- How many steps are left until the reply is received. -/
def work : Job → Nat
  | .taken _ => 4
  | .ticking _ _ _ => 3
  | .ticked _ => 2

theorem place_of_reply? {job : Job} {reply : Reply} (h : job.reply? = some reply) :
    job.place = reply.place := by
  cases job <;> simp_all [reply?, place]

end Job

/-- A round that is going on. -/
structure Shift where
  ensemble : Ensemble
  /-- The places whose ticks were not asked for yet. -/
  unsent : List Nat
  queue : List Nat
  /-- What the busy workers have at hand. -/
  jobs : List Job
  mailbox : List Reply
  received : List Reply

namespace Shift

def start (e : Ensemble) : Shift :=
  ⟨e, List.range e.size, [], [], [], []⟩

/-- A step of the round or of one of the workers. The ticks are asked for one after another, each
when there is room in the queue; then the replies are received. -/
inductive Step (c : SchedulerConfig) (t : Shift) : Shift → Prop where
  | submit {place : Nat} {rest : List Nat} (hunsent : t.unsent = place :: rest)
      (hroom : t.queue.length < c.waitingRoom) :
      Step c t { t with unsent := rest, queue := t.queue ++ [place] }
  | take {place : Nat} {rest : List Nat} (hqueue : t.queue = place :: rest)
      (hfree : t.jobs.length < max c.workers 1) :
      Step c t { t with queue := rest, jobs := .taken place :: t.jobs }
  | read {place : Nat} {others : List Job} {r : Resident}
      (hjobs : t.jobs.Perm (.taken place :: others)) (hr : t.ensemble.residents[place]? = some r) :
      Step c t { t with jobs := .ticking place r.agent.tick.1 r.agent.tick.2 :: others }
  | store {place : Nat} {outcome : TickOutcome} {a : Agent} {others : List Job}
      {ensemble : Ensemble}
      (hjobs : t.jobs.Perm (.ticking place outcome a :: others))
      (hstore : t.ensemble.actAt place (fun _ => ((), a)) = some ((), ensemble)) :
      Step c t { t with ensemble, jobs := .ticked ⟨place, a.id, outcome⟩ :: others }
  | send {reply : Reply} {others : List Job} (hjobs : t.jobs.Perm (.ticked reply :: others))
      (hroom : t.mailbox.length < max t.ensemble.size 1) :
      Step c t { t with jobs := others, mailbox := t.mailbox ++ [reply] }
  | receive {reply : Reply} {rest : List Reply} (hunsent : t.unsent = [])
      (hmailbox : t.mailbox = reply :: rest) :
      Step c t { t with mailbox := rest, received := t.received ++ [reply] }

/-- A number of steps. -/
inductive Run (c : SchedulerConfig) (t : Shift) : Nat → Shift → Prop where
  | refl : Run c t 0 t
  | tail {k : Nat} {u v : Shift} (hrun : Run c t k u) (hstep : u.Step c v) : Run c t (k + 1) v

variable {c : SchedulerConfig} {e : Ensemble} {t u : Shift} {k : Nat}

/-- The replies of the ticks that are done. -/
def replies (t : Shift) : List Reply :=
  t.jobs.filterMap Job.reply? ++ (t.mailbox ++ t.received)

/-- The places of all ticks. -/
def places (t : Shift) : List Nat :=
  t.jobs.map Job.place ++ ((t.mailbox ++ t.received).map Reply.place ++ (t.queue ++ t.unsent))

/-- How many steps are left. -/
def work (t : Shift) : Nat :=
  (t.jobs.map Job.work).sum + t.mailbox.length + 5 * t.queue.length + 6 * t.unsent.length

/-! ### What a step keeps -/

/-- A round that began with an ensemble: each place is somewhere on its way, and the ticks that are
done or worked on are ticks of the agents that were there in the beginning. -/
structure Faithful (e : Ensemble) (t : Shift) : Prop where
  places : t.places.Perm (List.range e.size)
  ensemble : t.ensemble = e.tickedAt (t.replies.map Reply.place)
  replies : ∀ reply ∈ t.replies, e.reply? reply.place = some reply
  ticking : ∀ place outcome a, Job.ticking place outcome a ∈ t.jobs →
    ∃ r, e.residents[place]? = some r ∧ r.agent.tick = (outcome, a)

theorem faithful_start (e : Ensemble) : (start e).Faithful e where
  places := .refl _
  ensemble := e.tickedAt_nil.symm
  replies _ h := absurd h List.not_mem_nil
  ticking _ _ _ h := absurd h List.not_mem_nil

/-- The place of a tick that is not done is not among those of the replies. -/
theorem Faithful.notMem_replies (h : t.Faithful e) {job : Job} {others : List Job}
    (hjobs : t.jobs.Perm (job :: others)) (hjob : job.reply? = none) :
    job.place ∉ t.replies.map Reply.place := by
  have hplaces : t.places.Perm (job.place :: (others.map Job.place ++
      ((t.mailbox ++ t.received).map Reply.place ++ (t.queue ++ t.unsent)))) :=
    (hjobs.map Job.place).append_right _
  have hnodup := (hplaces.symm.trans h.places).nodup_iff.2 List.nodup_range
  have hreplies : t.replies.Perm (others.filterMap Job.reply? ++ (t.mailbox ++ t.received)) := by
    have hdone := hjobs.filterMap Job.reply?
    rw [List.filterMap_cons_none hjob] at hdone
    exact hdone.append_right _
  intro hmem
  obtain ⟨reply, hreply, hplace⟩ := List.mem_map.1 hmem
  refine (List.nodup_cons.1 hnodup).1 (List.mem_append.2 ?_)
  obtain hdone | hsent := List.mem_append.1 (hreplies.mem_iff.1 hreply)
  · obtain ⟨other, hother, hdone⟩ := List.mem_filterMap.1 hdone
    exact Or.inl (List.mem_map.2 ⟨other, hother, (Job.place_of_reply? hdone).trans hplace⟩)
  · exact Or.inr (List.mem_append_left _ (List.mem_map.2 ⟨reply, hsent, hplace⟩))

/-- A step that puts no agent back. -/
theorem Faithful.of_perm (h : t.Faithful e) (hensemble : u.ensemble = t.ensemble)
    (hplaces : u.places.Perm t.places) (hreplies : u.replies.Perm t.replies)
    (hticking : ∀ place outcome a, Job.ticking place outcome a ∈ u.jobs →
      ∃ r, e.residents[place]? = some r ∧ r.agent.tick = (outcome, a)) : u.Faithful e where
  places := hplaces.trans h.places
  ensemble := by
    rw [hensemble, h.ensemble]
    exact Ensemble.tickedAt_congr fun place => (hreplies.map Reply.place).mem_iff.symm
  replies reply hreply := h.replies reply (hreplies.mem_iff.1 hreply)
  ticking := hticking

theorem Faithful.read (h : t.Faithful e) {place : Nat} {others : List Job} {r : Resident}
    (hjobs : t.jobs.Perm (.taken place :: others)) (hr : t.ensemble.residents[place]? = some r) :
    { t with jobs := .ticking place r.agent.tick.1 r.agent.tick.2 :: others }.Faithful e := by
  have hnew : place ∉ t.replies.map Reply.place := h.notMem_replies hjobs rfl
  rw [h.ensemble, Ensemble.residents_tickedAt hnew] at hr
  refine h.of_perm rfl ((hjobs.map Job.place).symm.append_right _)
    ((hjobs.filterMap Job.reply?).symm.append_right _) fun place' outcome a hmem => ?_
  obtain hnow | hmem := List.mem_cons.1 hmem
  · obtain ⟨rfl, rfl, rfl⟩ := Job.ticking.inj hnow
    exact ⟨r, hr, rfl⟩
  · exact h.ticking place' outcome a (hjobs.mem_iff.2 (List.mem_cons_of_mem _ hmem))

theorem Faithful.store (h : t.Faithful e) (hapart : e.TellsApart) {place : Nat}
    {outcome : TickOutcome} {a : Agent} {others : List Job} {ensemble : Ensemble}
    (hjobs : t.jobs.Perm (.ticking place outcome a :: others))
    (hstore : t.ensemble.actAt place (fun _ => ((), a)) = some ((), ensemble)) :
    { t with ensemble, jobs := .ticked ⟨place, a.id, outcome⟩ :: others }.Faithful e := by
  have hnew : place ∉ t.replies.map Reply.place := h.notMem_replies hjobs rfl
  obtain ⟨r, hr, htick⟩ := h.ticking place outcome a (hjobs.mem_iff.2 List.mem_cons_self)
  have hreply : e.reply? place = some ⟨place, a.id, outcome⟩ := by
    have hid : a.id = r.agent.id := by rw [← Agent.id_tick r.agent, htick]
    rw [Ensemble.reply?, hr, Option.map_some, htick, hid]
  have hdone : t.replies.Perm (others.filterMap Job.reply? ++ (t.mailbox ++ t.received)) :=
    (hjobs.filterMap Job.reply?).append_right _
  -- Since the agent was read nobody else was at its place, so nothing is lost when it is put back.
  rw [h.ensemble, hapart.actAt_tickedAt hr hnew (by rw [htick])] at hstore
  obtain ⟨_, rfl⟩ := Prod.mk.inj (Option.some.inj hstore)
  constructor
  · exact ((hjobs.map Job.place).symm.append_right _).trans h.places
  · exact Ensemble.tickedAt_congr fun place' => ((hdone.map Reply.place).cons place).mem_iff
  · intro reply hmem
    obtain rfl | hmem := List.mem_cons.1 hmem
    · exact hreply
    · exact h.replies reply (hdone.mem_iff.2 hmem)
  · intro place' outcome' a' hmem
    have hmem : Job.ticking place' outcome' a' ∈ others := by simpa using hmem
    exact h.ticking place' outcome' a' (hjobs.mem_iff.2 (List.mem_cons_of_mem _ hmem))

theorem Faithful.send (h : t.Faithful e) {reply : Reply} {others : List Job}
    (hjobs : t.jobs.Perm (.ticked reply :: others)) :
    { t with jobs := others, mailbox := t.mailbox ++ [reply] }.Faithful e := by
  have hsent : (t.mailbox ++ [reply] ++ t.received).Perm (reply :: (t.mailbox ++ t.received)) := by
    simp
  refine h.of_perm rfl ?_ ?_ fun place outcome a hmem =>
    h.ticking place outcome a (hjobs.mem_iff.2 (List.mem_cons_of_mem _ hmem))
  · exact ((((hsent.map _).append_right _).append_left _).trans List.perm_middle).trans
      ((hjobs.map Job.place).symm.append_right _)
  · exact ((hsent.append_left _).trans List.perm_middle).trans
      ((hjobs.filterMap Job.reply?).symm.append_right _)

theorem Faithful.step (h : t.Faithful e) (hapart : e.TellsApart) (hstep : t.Step c u) :
    u.Faithful e := by
  cases hstep with
  | submit hunsent hroom =>
      refine h.of_perm rfl ?_ (.refl _) h.ticking
      simp [Shift.places, hunsent]
  | @take place rest hqueue hfree =>
      refine h.of_perm rfl ?_ (.refl _) fun place outcome a hmem =>
        h.ticking place outcome a (by simpa using hmem)
      have hmiddle : ((t.jobs.map Job.place ++ (t.mailbox ++ t.received).map Reply.place) ++
          place :: (rest ++ t.unsent)).Perm _ := List.perm_middle
      simpa [Shift.places, hqueue, Job.place] using hmiddle.symm
  | read hjobs hr => exact h.read hjobs hr
  | store hjobs hstore => exact h.store hapart hjobs hstore
  | send hjobs hroom => exact h.send hjobs
  | @receive reply rest hunsent hmailbox =>
      have hreceived : (rest ++ (t.received ++ [reply])).Perm (t.mailbox ++ t.received) := by
        rw [hmailbox, ← List.append_assoc]
        exact List.perm_append_singleton _ _
      exact h.of_perm rfl (((hreceived.map _).append_right _).append_left _)
        (hreceived.append_left _) h.ticking

theorem Faithful.run (h : t.Faithful e) (hapart : e.TellsApart) (hrun : Run c t k u) :
    u.Faithful e := by
  induction hrun with
  | refl => exact h
  | tail _ hstep ih => exact ih.step hapart hstep

/-! ### How far a round gets -/

theorem work_step (hstep : t.Step c u) : t.work = u.work + 1 := by
  have hwork {job : Job} {others : List Job} (hjobs : t.jobs.Perm (job :: others)) :
      (t.jobs.map Job.work).sum = job.work + (others.map Job.work).sum :=
    (hjobs.map Job.work).sum_eq
  cases hstep with
  | submit hunsent hroom =>
      simp only [work, hunsent, List.length_append, List.length_cons, List.length_nil]
      omega
  | take hqueue hfree =>
      simp only [work, hqueue, List.map_cons, List.sum_cons, List.length_cons, Job.work]
      omega
  | read hjobs hr =>
      simp only [work, hwork hjobs, List.map_cons, List.sum_cons, Job.work]
      omega
  | store hjobs hstore =>
      simp only [work, hwork hjobs, List.map_cons, List.sum_cons, Job.work]
      omega
  | send hjobs hroom =>
      simp only [work, hwork hjobs, List.length_append, List.length_cons, List.length_nil, Job.work]
      omega
  | receive hunsent hmailbox =>
      simp only [work, hmailbox, List.length_cons]
      omega

theorem work_run (hrun : Run c t k u) : t.work = u.work + k := by
  induction hrun with
  | refl => rfl
  | tail _ hstep ih =>
      rw [ih, work_step hstep]
      omega

theorem work_start (e : Ensemble) : (start e).work = 6 * e.size := by
  simp [work, start]

theorem Faithful.size (h : t.Faithful e) : t.ensemble.size = e.size := by
  rw [h.ensemble]
  simp [Ensemble.tickedAt, Ensemble.size]

theorem Faithful.length (h : t.Faithful e) : t.jobs.length + t.mailbox.length +
    t.received.length + t.queue.length + t.unsent.length = e.size := by
  have hlength := h.places.length_eq
  simp only [Shift.places, List.length_append, List.length_map, List.length_range] at hlength
  omega

/-- The agent at a place whose tick was asked for is there. -/
theorem Faithful.resident (h : t.Faithful e) {job : Job} {others : List Job}
    (hjobs : t.jobs = job :: others) : ∃ r, t.ensemble.residents[job.place]? = some r := by
  have hmem : job.place ∈ t.places := by
    simp [Shift.places, hjobs]
  have hlt : job.place < t.ensemble.size := by
    rw [h.size]
    exact List.mem_range.1 (h.places.mem_iff.1 hmem)
  exact ⟨_, List.getElem?_eq_getElem hlt⟩

/-- As long as a reply is missing, some step can be taken. -/
theorem Faithful.exists_step (h : t.Faithful e) (hmissing : t.received.length < e.size)
    (c : SchedulerConfig) : ∃ u, t.Step c u := by
  have hlength := h.length
  match hjobs : t.jobs with
  | job :: others =>
      obtain ⟨r, hr⟩ := h.resident hjobs
      cases job with
      | taken place => exact ⟨_, .read (.of_eq hjobs) hr⟩
      | ticking place outcome a =>
          have hstore : t.ensemble.actAt place (fun _ => ((), a)) = some ((), _) :=
            Ensemble.actAt_eq_some hr _
          exact ⟨_, .store (.of_eq hjobs) hstore⟩
      | ticked reply =>
          -- The mailbox has room for all replies, and this one is not in it.
          refine ⟨_, .send (.of_eq hjobs) ?_⟩
          rw [hjobs, List.length_cons] at hlength
          rw [h.size]
          omega
  | [] =>
      match hqueue : t.queue, hunsent : t.unsent, hmailbox : t.mailbox with
      | place :: rest, _, _ => exact ⟨_, .take hqueue (by rw [hjobs]; simp)⟩
      | [], place :: rest, _ =>
          exact ⟨_, .submit hunsent (by rw [hqueue]; simp [SchedulerConfig.waitingRoom])⟩
      | [], [], reply :: rest => exact ⟨_, .receive hunsent hmailbox⟩
      | [], [], [] =>
          simp only [hjobs, hqueue, hunsent, hmailbox, List.length_nil] at hlength
          omega

/-- When no reply is missing, every agent was ticked, and the replies are filed by place. -/
theorem Faithful.ended (h : t.Faithful e) (hall : t.received.length = e.size) :
    t.ensemble = e.tickedAt (List.range e.size) ∧
      Scheduler.collect e.size t.received = e.outcomes := by
  have hlength := h.length
  have hjobs : t.jobs = [] := List.eq_nil_of_length_eq_zero (by omega)
  have hmailbox : t.mailbox = [] := List.eq_nil_of_length_eq_zero (by omega)
  have hqueue : t.queue = [] := List.eq_nil_of_length_eq_zero (by omega)
  have hunsent : t.unsent = [] := List.eq_nil_of_length_eq_zero (by omega)
  have hreplies : t.replies = t.received := by simp [Shift.replies, hjobs, hmailbox]
  have hplaces : (t.received.map Reply.place).Perm (List.range e.size) := by
    simpa [Shift.places, hjobs, hmailbox, hqueue, hunsent] using h.places
  constructor
  · rw [h.ensemble, hreplies]
    exact Ensemble.tickedAt_congr fun place => hplaces.mem_iff
  · exact Scheduler.collect_eq hplaces (hreplies ▸ h.replies)

/-- Both agents are read before one is put back, and the reply of the second one comes first. -/
theorem exists_run_pair (r₀ r₁ : Resident) (arrivals : Nat) (population : Option (Population Float))
    (generation : Nat) :
    ∃ t, (start ⟨[r₀, r₁], arrivals, population, generation⟩).Run .default 12 t ∧
      t.received.map Reply.place = [1, 0] := by
  generalize he : (⟨[r₀, r₁], arrivals, population, generation⟩ : Ensemble) = e
  have hr₀ : e.residents[0]? = some r₀ := he ▸ rfl
  have hr₁ : e.residents[1]? = some r₁ := he ▸ rfl
  have hstart : start e = ⟨e, [0, 1], [], [], [], []⟩ := he ▸ rfl
  have hroom (n : Nat) : 0 < max n 1 := by omega
  have hsecond : 1 < SchedulerConfig.default.waitingRoom := by decide
  have hfree : 1 < max SchedulerConfig.default.workers 1 := by decide
  have hqueued : (start e).Run .default 2 ⟨e, [], [0, 1], [], [], []⟩ := by
    rw [hstart]
    exact (Run.refl.tail (.submit rfl (hroom _))).tail (.submit rfl hsecond)
  have htaken := (hqueued.tail (.take rfl (hroom _))).tail (.take rfl hfree)
  have hread := (htaken.tail (.read (.refl _) hr₁)).tail (.read (.swap _ _ _) hr₀)
  have hstored := hread.tail (.store (.swap _ _ _) (Ensemble.actAt_eq_some hr₁ _))
  have hreceived := (hstored.tail (.send (.refl _) (hroom _))).tail (.receive rfl rfl)
  have hstored' := hreceived.tail (.store (.refl _) (Ensemble.actAt_eq_some (by simpa using hr₀) _))
  have hreceived' := (hstored'.tail (.send (.refl _) (hroom _))).tail (.receive rfl rfl)
  exact ⟨_, hreceived', rfl⟩

end Shift

namespace Scheduler

/-- A round does not depend on the order in which things are done, one after another or by several
workers at a time. -/
structure OrderFree (s : Scheduler) : Prop where
  /-- Every agent is ticked once, before the scores are brought up to date. -/
  ticks : s.runRound =
    s.closeRound s.ensemble.outcomes (s.ensemble.tickedAt (List.range s.ensemble.size))
  /-- The ticks may be done in any order. -/
  order : ∀ order : List Nat, order.Perm (List.range s.ensemble.size) →
    s.runRoundIn order = s.runRound
  /-- The workers do not go on forever. -/
  bounded : ∀ k t, (Shift.start s.ensemble).Run s.config k t → k ≤ 6 * s.ensemble.size
  /-- They do not get stuck before all replies were received. -/
  unstuck : ∀ k t, (Shift.start s.ensemble).Run s.config k t →
    t.received.length < s.ensemble.size → ∃ u, t.Step s.config u
  /-- When all replies were received, in whatever order, the round ends as if one agent were ticked
  after another. -/
  result : ∀ k t, (Shift.start s.ensemble).Run s.config k t →
    t.received.length = s.ensemble.size →
    s.closeRound (collect s.ensemble.size t.received) t.ensemble = s.runRound

/-- In every state that a scheduler can get into, a round ticks every agent once and comes to the
same report and the same agents, whatever the order of the steps. -/
theorem performAll_orderFree (config : SchedulerConfig) (operations : List SchedulerOperation) :
    ((start config).performAll operations).OrderFree := by
  have hapart := tellsApart_performAll config operations
  generalize (start config).performAll operations = s at hapart
  have hticks : s.runRound = _ := runRoundIn_perm hapart (.refl _)
  have hfaithful {k : Nat} {t : Shift} (hrun : (Shift.start s.ensemble).Run s.config k t) :
      t.Faithful s.ensemble := (Shift.faithful_start _).run hapart hrun
  constructor
  · exact hticks
  · intro order horder
    rw [hticks, runRoundIn_perm hapart horder]
  · intro k t hrun
    rw [← Shift.work_start, Shift.work_run hrun]
    exact Nat.le_add_left k _
  · intro k t hrun hmissing
    exact (hfaithful hrun).exists_step hmissing s.config
  · intro k t hrun hall
    obtain ⟨hensemble, houtcomes⟩ := (hfaithful hrun).ended hall
    rw [hticks, hensemble, houtcomes]

/-- An agent with a goal, and one that is done with it. -/
def household : List SchedulerOperation :=
  match Agent.nestedGoals.build with
  | .ok a => [.enroll a, .enroll (a.performAll [.tick, .tick, .tick, .tick])]
  | .error _ => []

theorem performAll_orderFree_household :
    ∃ t, (Shift.start ((start .default).performAll household).ensemble).Run .default 12 t ∧
      t.received.map Reply.place = [1, 0] ∧
      ((start .default).performAll household).closeRound (collect 2 t.received) t.ensemble =
        ((start .default).performAll household).runRound ∧
      ((start .default).performAll household).runRound.1.outcomes.map (·.2) =
        [.progressed, .idle] := by
  obtain ⟨t, hrun, hplaces⟩ : ∃ t,
      (Shift.start ((start .default).performAll household).ensemble).Run .default 12 t ∧
        t.received.map Reply.place = [1, 0] := Shift.exists_run_pair _ _ _ _ _
  have hall : t.received.length = 2 := by simpa using congrArg List.length hplaces
  exact ⟨t, hrun, hplaces, (performAll_orderFree .default household).result 12 t hrun hall,
    by decide +kernel⟩

end Scheduler
end Deliberation
