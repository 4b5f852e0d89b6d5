import Deliberation.Proofs.Society.Outcomes
import Deliberation.Proofs.Society.Refresh
import Mathlib.Data.List.Nodup

/-!
Standings along a run.

A recompute scores some members and leaves the others out; these keep the value that they had.
Nothing else touches a standing. So whoever keeps a board of standings by the answers alone, from
the first one on, has on it those of the members and no others.
-/

namespace Deliberation

variable {α : Type}

namespace Population

variable {p : Population α} {m : Member α} {id : AgentId} {s : Standing α}

/-! ### Members by name -/

/-- No two members have one name. -/
def Distinct (p : Population α) : Prop :=
  (p.members.map (·.id)).Nodup

theorem standing?_eq_none_iff : p.standing? id = none ↔ p.contains id = false := by
  simp [standing?, contains]

theorem standing_eq_ok_iff : p.standing id = .ok s ↔ p.standing? id = some s := by
  rw [standing]
  cases p.standing? id <;> simp

/-- The standing of an agent can be asked for exactly if it is a member. -/
theorem standing_ok_iff (p : Population α) (id : AgentId) :
    (∃ s, p.standing id = .ok s) ↔ p.contains id = true := by
  simp only [standing_eq_ok_iff, ← Option.isSome_iff_exists, Option.isSome_iff_ne_none, ne_eq,
    standing?_eq_none_iff, Bool.not_eq_false]

theorem Distinct.find?_eq (h : p.Distinct) (hm : m ∈ p.members) :
    p.members.find? (fun other => other.id = m.id) = some m := by
  cases hfind : p.members.find? fun other => other.id = m.id with
  | none =>
      have hnot := List.find?_eq_none.1 hfind m hm
      simp at hnot
  | some other =>
      have hid : other.id = m.id := by simpa using List.find?_some hfind
      exact congrArg some
        (List.inj_on_of_nodup_map h (List.mem_of_find?_eq_some hfind) hm hid)

theorem Distinct.standing?_eq (h : p.Distinct) (hm : m ∈ p.members) :
    p.standing? m.id = some m.standing := by
  rw [standing?, h.find?_eq hm, Option.map_some]

theorem Distinct.standing?_eq_some_iff (h : p.Distinct) :
    p.standing? id = some s ↔ ∃ m ∈ p.members, m.id = id ∧ m.standing = s := by
  constructor
  · intro hs
    obtain ⟨m, hfind, hstanding⟩ := Option.map_eq_some_iff.1 hs
    exact ⟨m, List.mem_of_find?_eq_some hfind, by simpa using List.find?_some hfind, hstanding⟩
  · rintro ⟨m, hm, rfl, rfl⟩
    exact h.standing?_eq hm

/-! ### What a recompute does to standings -/

variable [Scalar α] {score : Option α} {x : α}

theorem map_id_zip_results (p : Population α) :
    (p.members.zip p.results).map (·.1.id) = p.members.map (·.id) := by
  have hfst : (p.members.zip p.results).map (·.1) = p.members :=
    List.map_fst_zip p.length_results.ge
  conv_rhs => rw [← hfst, List.map_map]
  rfl

theorem map_id_recompute (p : Population α) :
    p.recompute.2.members.map (·.id) = p.members.map (·.id) := by
  rw [members_recompute, List.map_map, ← map_id_zip_results]
  rfl

theorem contains_recompute (p : Population α) (id : AgentId) :
    p.recompute.2.contains id = p.contains id := by
  have hmem (q : Population α) : q.contains id = true ↔ id ∈ q.members.map (·.id) := by
    simp [contains]
  rw [Bool.eq_iff_iff, hmem, hmem, map_id_recompute]

theorem Distinct.recompute (h : p.Distinct) : p.recompute.2.Distinct := by
  rw [Distinct, map_id_recompute]
  exact h

/-- The outcome for a member is its standing afterwards. -/
theorem Distinct.standing?_recompute (h : p.Distinct) (hm : (m, score) ∈ p.members.zip p.results) :
    p.recompute.2.standing? m.id = some (settle m score).standing := by
  refine h.recompute.standing?_eq_some_iff.2 ⟨settle m score, ?_, rfl, rfl⟩
  rw [members_recompute]
  exact List.mem_map.2 ⟨(m, score), hm, rfl⟩

theorem mem_scores_iff :
    (id, x) ∈ p.recompute.1.scores ↔
      ∃ m, (m, some x) ∈ p.members.zip p.results ∧ m.id = id := by
  simp only [scores_recompute, List.mem_filterMap, Option.map_eq_some_iff, Prod.mk.injEq,
    Prod.exists]
  constructor
  · rintro ⟨m, _, hm, x, rfl, rfl, rfl⟩
    exact ⟨m, hm, rfl⟩
  · rintro ⟨m, hm, rfl⟩
    exact ⟨m, some x, hm, x, rfl, rfl, rfl⟩

theorem mem_stale_iff :
    id ∈ p.recompute.1.stale ↔ ∃ m, (m, none) ∈ p.members.zip p.results ∧ m.id = id := by
  simp only [stale_recompute, List.mem_filterMap, Prod.exists]
  constructor
  · rintro ⟨m, score, hm, hid⟩
    cases score with
    | none => exact ⟨m, hm, Option.some.inj hid⟩
    | some x => simp at hid
  · rintro ⟨m, hm, rfl⟩
    exact ⟨m, none, hm, rfl⟩

omit [Scalar α] in
/-- Every entry is among those with an outcome or among those without one. -/
theorem perm_divided (entries : List (Member α × Option α)) :
    ((entries.filterMap fun entry => entry.2.map (entry.1.id, ·)).map (·.1) ++
      entries.filterMap fun entry => if entry.2.isNone then some entry.1.id else none).Perm
        (entries.map (·.1.id)) := by
  induction entries with
  | nil => exact .nil
  | cons entry rest ih =>
      obtain ⟨m, score⟩ := entry
      cases score with
      | none => exact List.perm_middle.trans (ih.cons m.id)
      | some x => exact ih.cons m.id

/-- What a recompute says of the members, and their standings before and after it. -/
structure Settles (p : Population α) (v : Verdict α) (q : Population α) : Prop where
  /-- Every member is scored or left out, and nobody else is. -/
  divided : (v.scores.map (·.1) ++ v.stale).Perm (p.members.map (·.id))
  /-- No member is both. -/
  either : ∀ id, p.contains id = true → Xor (∃ x, (id, x) ∈ v.scores) (id ∈ v.stale)
  /-- Nobody comes or goes. -/
  members : ∀ id, q.contains id = p.contains id
  scored : ∀ id x, (id, x) ∈ v.scores → q.standing id = .ok ⟨x, false, true⟩
  /-- Who is left out keeps its value. -/
  stale : ∀ id ∈ v.stale,
    ∃ s, p.standing id = .ok s ∧ q.standing id = .ok { s with stale := true }

theorem Distinct.settles (h : p.Distinct) : p.Settles p.recompute.1 p.recompute.2 := by
  have hdivided : (p.recompute.1.scores.map (·.1) ++ p.recompute.1.stale).Perm
      (p.members.map (·.id)) := by
    rw [scores_recompute, stale_recompute, ← map_id_zip_results]
    exact perm_divided _
  refine ⟨hdivided, fun id hid => ?_, p.contains_recompute, fun id x hx => ?_, fun id hid => ?_⟩
  · have hapart := List.nodup_append.1 (hdivided.nodup_iff.2 h)
    have hmem : id ∈ p.recompute.1.scores.map (·.1) ++ p.recompute.1.stale := by
      rw [hdivided.mem_iff]
      simpa [contains] using hid
    have hscored : (∃ x, (id, x) ∈ p.recompute.1.scores) ↔
        id ∈ p.recompute.1.scores.map (·.1) := by simp
    rw [hscored]
    rcases List.mem_append.1 hmem with hscore | hstale
    · exact .inl ⟨hscore, fun hstale => hapart.2.2 id hscore id hstale rfl⟩
    · exact .inr ⟨hstale, fun hscore => hapart.2.2 id hscore id hstale rfl⟩
  · obtain ⟨m, hm, rfl⟩ := mem_scores_iff.1 hx
    exact standing_eq_ok_iff.2 (h.standing?_recompute hm)
  · obtain ⟨m, hm, rfl⟩ := mem_stale_iff.1 hid
    refine ⟨m.standing, ?_, standing_eq_ok_iff.2 (h.standing?_recompute hm)⟩
    exact standing_eq_ok_iff.2 (h.standing?_eq (List.of_mem_zip hm).1)

/-! ### What other operations do to standings -/

theorem Distinct.add (h : p.Distinct) (id : AgentId) (source : Nat) (snapshot : Snapshot) :
    (p.add id source snapshot).2.Distinct := by
  rw [Population.add]
  cases hid : p.contains id with
  | true => exact h
  | false =>
      have hnew : id ∉ p.members.map (·.id) := by simpa [contains] using hid
      have hnodup := List.nodup_cons.2 ⟨hnew, h⟩
      simpa [Distinct] using hnodup.perm (List.perm_append_singleton id _).symm

theorem Distinct.perform (h : p.Distinct) (op : PopulationOperation) : (p.perform op).Distinct := by
  cases op with
  | add id source snapshot => exact h.add id source snapshot
  | remove id => exact h.sublist (List.filter_sublist.map _)
  | publish source snapshot =>
      have hids : (p.publish source snapshot).members.map (·.id) = p.members.map (·.id) := by
        simp only [publish, List.map_map]
        refine List.map_congr_left fun m _ => ?_
        simp only [Function.comp_apply]
        split <;> rfl
      rw [Population.perform, Distinct, hids]
      exact h
  | recompute => exact h.recompute
  | refresh =>
      cases hlooks : p.looks .refresh with
      | true =>
          rw [Population.perform, refresh_of_looks hlooks]
          exact h.recompute
      | false =>
          obtain ⟨v, _, hrefresh⟩ := refresh_of_not_looks hlooks
          rw [Population.perform, hrefresh]
          exact h

theorem Distinct.performAll (h : p.Distinct) (operations : List PopulationOperation) :
    (p.performAll operations).Distinct :=
  operations.foldlRecOn Population.perform h fun _ hq op _ => hq.perform op

theorem Distinct.start {config : ConsistencyConfig α} {observe : Snapshot → List Literal}
    {metric : Metric α} (h : Population.start config observe metric = .ok p) : p.Distinct := by
  cases eq_of_start h
  exact List.nodup_nil

/-- Who joins has no score yet. -/
theorem standing?_add (p : Population α) (id other : AgentId) (source : Nat) (snapshot : Snapshot) :
    (p.add id source snapshot).2.standing? other =
      if (p.add id source snapshot).1 = true ∧ other = id then some .pending
      else p.standing? other := by
  rw [add]
  cases hid : p.contains id with
  | true => simp
  | false =>
      have hnone : p.standing? id = none := standing?_eq_none_iff.2 hid
      by_cases hother : other = id
      · subst hother
        simp only [standing?, Option.map_eq_none_iff] at hnone
        simp [standing?, hnone]
      · simp [standing?, hother, Ne.symm hother]

omit [Scalar α] in
/-- Who leaves has no standing any more. -/
theorem standing?_remove (p : Population α) (id other : AgentId) :
    (p.remove id).2.standing? other = if other = id then none else p.standing? other := by
  simp only [remove, standing?, List.find?_filter]
  by_cases hother : other = id
  · subst hother
    simp
  · have hsame (m : Member α) :
        decide (decide (m.id ≠ id) = true ∧ decide (m.id = other) = true) =
          decide (m.id = other) := by
      by_cases hm : m.id = other
      · simp [hm, hother]
      · simp [hm]
    simp only [hsame, hother, ↓reduceIte]

omit [Scalar α] in
theorem standing?_publish (p : Population α) (source : Nat) (snapshot : Snapshot) (id : AgentId) :
    (p.publish source snapshot).standing? id = p.standing? id := by
  have hsame (m : Member α) :
      (if m.source = source then { m with snapshot } else m).id = m.id ∧
        (if m.source = source then { m with snapshot } else m).standing = m.standing := by
    split <;> exact ⟨rfl, rfl⟩
  simp only [publish, standing?, List.find?_map, Function.comp_def, hsame, Option.map_map]

/-- An operation that does not look at the members changes no standing of one that stays. -/
theorem standing_of_not_looks {op : PopulationOperation} (hlooks : p.looks op = false)
    (hs : p.standing id = .ok s) (hstays : (p.perform op).contains id = true) :
    (p.perform op).standing id = .ok s := by
  rw [standing_eq_ok_iff] at hs ⊢
  cases op with
  | add joining source snapshot =>
      have hadd := standing?_add p joining id source snapshot
      rw [perform, hadd, if_neg, hs]
      rintro ⟨hadded, rfl⟩
      have hmember := standing?_eq_none_iff.not.1 (by simp [hs] : p.standing? id ≠ none)
      simp [add, hmember] at hadded
  | remove leaving =>
      have hremove := standing?_remove p leaving id
      rw [perform, hremove, if_neg, hs]
      rintro rfl
      simp [perform, remove, contains] at hstays
  | publish source snapshot => exact (p.standing?_publish source snapshot id).trans hs
  | recompute => simp [looks] at hlooks
  | refresh =>
      obtain ⟨v, _, hrefresh⟩ := refresh_of_not_looks hlooks
      rw [perform, hrefresh]
      exact hs

/-! ### A board of standings -/

end Population

/-- Standings by name. -/
abbrev Board (α : Type) := AgentId → Option (Standing α)

namespace Board

def set (b : Board α) (id : AgentId) (s : Standing α) : Board α :=
  fun other => if other = id then some s else b other

def erase (b : Board α) (id : AgentId) : Board α :=
  fun other => if other = id then none else b other

/-- Writes a verdict on the board: first the scores, then who was left out. -/
def post [Scalar α] (b : Board α) (v : Verdict α) : Board α :=
  v.stale.foldl (fun b id => b.set id { (b id).getD .pending with stale := true })
    (v.scores.foldl (fun b score => b.set score.1 ⟨score.2, false, true⟩) b)

/-- What becomes of the board by an operation and its answer. -/
def hear [Scalar α] (b : Board α) (p : Population α) : PopulationOperation → Board α
  | .add id source snapshot => if (p.add id source snapshot).1 then b.set id .pending else b
  | .remove id => b.erase id
  | .publish _ _ => b
  | .recompute => b.post p.recompute.1
  | .refresh => if p.looks .refresh then b.post p.refresh.1 else b

/-- The board after a run. -/
def hearAll [Scalar α] (b : Board α) (p : Population α) : List PopulationOperation → Board α
  | [] => b
  | op :: rest => (b.hear p op).hearAll (p.perform op) rest

theorem foldl_set_of_notMem {scores : List (AgentId × α)} {id : AgentId}
    (hid : id ∉ scores.map (·.1)) (b : Board α) :
    scores.foldl (fun b score => b.set score.1 ⟨score.2, false, true⟩) b id = b id := by
  induction scores generalizing b with
  | nil => rfl
  | cons score rest ih =>
      simp only [List.map_cons, List.mem_cons, not_or] at hid
      rw [List.foldl_cons, ih hid.2, set, if_neg hid.1]

theorem foldl_set_of_mem {scores : List (AgentId × α)} {id : AgentId} {x : α}
    (honce : (scores.map (·.1)).Nodup) (hx : (id, x) ∈ scores) (b : Board α) :
    scores.foldl (fun b score => b.set score.1 ⟨score.2, false, true⟩) b id =
      some ⟨x, false, true⟩ := by
  induction scores generalizing b with
  | nil => simp at hx
  | cons score rest ih =>
      rw [List.map_cons, List.nodup_cons] at honce
      rw [List.foldl_cons]
      rcases List.mem_cons.1 hx with rfl | hx
      · rw [foldl_set_of_notMem honce.1, set, if_pos rfl]
      · exact ih honce.2 hx _

variable [Scalar α]

theorem foldl_mark_of_notMem {stale : List AgentId} {id : AgentId} (hid : id ∉ stale)
    (b : Board α) :
    stale.foldl (fun b id => b.set id { (b id).getD .pending with stale := true }) b id = b id := by
  induction stale generalizing b with
  | nil => rfl
  | cons first rest ih =>
      simp only [List.mem_cons, not_or] at hid
      rw [List.foldl_cons, ih hid.2, set, if_neg hid.1]

theorem foldl_mark_of_mem {stale : List AgentId} {id : AgentId} (honce : stale.Nodup)
    (hid : id ∈ stale) {b : Board α} {s : Standing α} (hs : b id = some s) :
    stale.foldl (fun b id => b.set id { (b id).getD .pending with stale := true }) b id =
      some { s with stale := true } := by
  induction stale generalizing b with
  | nil => simp at hid
  | cons first rest ih =>
      rw [List.nodup_cons] at honce
      rw [List.foldl_cons]
      rcases List.mem_cons.1 hid with rfl | hrest
      · rw [foldl_mark_of_notMem honce.1, set, if_pos rfl, hs]
        rfl
      · have hne : id ≠ first := fun heq => honce.1 (heq ▸ hrest)
        exact ih honce.2 hrest (by rw [set, if_neg hne, hs])

end Board

namespace Population

variable {p : Population α} [Scalar α]

/-- A board with the standings of the members has them again when a verdict was written on it. -/
theorem Distinct.post_recompute (h : p.Distinct) :
    Board.post p.standing? p.recompute.1 = p.recompute.2.standing? := by
  have hsettles := h.settles
  have hnodup := List.nodup_append.1 (hsettles.divided.nodup_iff.2 h)
  funext id
  cases hid : p.contains id with
  | false =>
      have hnot : id ∉ p.recompute.1.scores.map (·.1) ++ p.recompute.1.stale := by
        rw [hsettles.divided.mem_iff]
        simpa [contains] using hid
      rw [List.mem_append, not_or] at hnot
      have hafter : p.recompute.2.standing? id = none := by
        rw [standing?_eq_none_iff, contains_recompute, hid]
      rw [Board.post, Board.foldl_mark_of_notMem hnot.2, Board.foldl_set_of_notMem hnot.1,
        standing?_eq_none_iff.2 hid, hafter]
  | true =>
      rcases hsettles.either id hid with ⟨⟨x, hx⟩, hfresh⟩ | ⟨hstale, hnone⟩
      · rw [Board.post, Board.foldl_mark_of_notMem hfresh, Board.foldl_set_of_mem hnodup.1 hx,
          standing_eq_ok_iff.1 (hsettles.scored id x hx)]
      · obtain ⟨s, hs, hafter⟩ := hsettles.stale id hstale
        have hscore : id ∉ p.recompute.1.scores.map (·.1) := by simpa using hnone
        have hbefore := Board.foldl_set_of_notMem hscore p.standing?
        rw [standing_eq_ok_iff.1 hs] at hbefore
        rw [Board.post, Board.foldl_mark_of_mem hnodup.2.1 hstale hbefore,
          standing_eq_ok_iff.1 hafter]

theorem Distinct.hear (h : p.Distinct) (op : PopulationOperation) :
    Board.hear p.standing? p op = (p.perform op).standing? := by
  cases op with
  | add id source snapshot =>
      funext other
      rw [Board.hear, Population.perform, standing?_add]
      cases (p.add id source snapshot).1 with
      | true => simp [Board.set]
      | false => simp
  | remove id =>
      funext other
      rw [Population.perform, standing?_remove]
      rfl
  | publish source snapshot =>
      funext id
      exact (p.standing?_publish source snapshot id).symm
  | recompute => exact h.post_recompute
  | refresh =>
      rw [Board.hear, Population.perform]
      cases hlooks : p.looks .refresh with
      | true =>
          rw [refresh_of_looks hlooks]
          exact h.post_recompute
      | false =>
          obtain ⟨v, _, hrefresh⟩ := refresh_of_not_looks hlooks
          rw [hrefresh]
          rfl

theorem Distinct.hearAll (h : p.Distinct) (operations : List PopulationOperation) :
    Board.hearAll p.standing? p operations = (p.performAll operations).standing? := by
  induction operations generalizing p with
  | nil => rfl
  | cons op rest ih =>
      rw [Board.hearAll, h.hear op]
      exact ih (h.perform op)

/-- A member that never had a score has the value zero. -/
def ZeroUntilScored (p : Population α) : Prop :=
  ∀ m ∈ p.members, m.standing.computed = false → m.standing.value = 0

theorem ZeroUntilScored.recompute (h : p.ZeroUntilScored) : p.recompute.2.ZeroUntilScored := by
  intro m hm
  rw [members_recompute] at hm
  obtain ⟨⟨before, score⟩, hentry, rfl⟩ := List.mem_map.1 hm
  cases score with
  | none => exact h before (List.of_mem_zip hentry).1
  | some x => simp [settle]

theorem ZeroUntilScored.perform (h : p.ZeroUntilScored) (op : PopulationOperation) :
    (p.perform op).ZeroUntilScored := by
  cases op with
  | add id source snapshot =>
      simp only [Population.perform, add]
      split
      · exact h
      · intro m hm
        rcases List.mem_append.1 hm with hm | hm
        · exact h m hm
        · cases List.mem_singleton.1 hm
          exact fun _ => rfl
  | remove id => exact fun m hm => h m (List.mem_filter.1 hm).1
  | publish source snapshot =>
      intro m hm
      obtain ⟨before, hbefore, rfl⟩ := List.mem_map.1 hm
      split <;> exact h before hbefore
  | recompute => exact h.recompute
  | refresh =>
      cases hlooks : p.looks .refresh with
      | true =>
          rw [Population.perform, refresh_of_looks hlooks]
          exact h.recompute
      | false =>
          obtain ⟨v, _, hrefresh⟩ := refresh_of_not_looks hlooks
          rw [Population.perform, hrefresh]
          exact h

theorem ZeroUntilScored.performAll (h : p.ZeroUntilScored)
    (operations : List PopulationOperation) : (p.performAll operations).ZeroUntilScored :=
  operations.foldlRecOn Population.perform h fun _ hq op _ => hq.perform op

/-- After any run: no two members have one name, and the members are those whose standing can be
asked for. A recompute scores every member or leaves it out; a score becomes the standing, and who
is left out keeps the value it had, which is zero if there was none. What does not look at the
members changes no standing of one that stays. And a board that was kept by the answers alone has
the standings of the members, and no others. -/
theorem standings_follow_verdicts {config : ConsistencyConfig α} {observe : Snapshot → List Literal}
    {metric : Metric α} {first : Population α} (hstart : start config observe metric = .ok first)
    (operations : List PopulationOperation) :
    let p := first.performAll operations
    p.Distinct ∧
      (∀ id, (∃ s, p.standing id = .ok s) ↔ p.contains id = true) ∧
      p.Settles p.recompute.1 p.recompute.2 ∧
      (∀ id s, p.standing id = .ok s → s.computed = false → s.value = 0) ∧
      (p.looks .refresh = true → p.refresh = p.recompute) ∧
      (∀ op, p.looks op = false → ∀ id s, p.standing id = .ok s →
        (p.perform op).contains id = true → (p.perform op).standing id = .ok s) ∧
      Board.hearAll (fun _ => none) first operations = p.standing? := by
  intro p
  have hfirst : first.Distinct := .start hstart
  have hdistinct : p.Distinct := hfirst.performAll operations
  have hempty : first.ZeroUntilScored := by simp [ZeroUntilScored, eq_of_start hstart]
  have hboard : (fun _ => none) = first.standing? := by
    rw [eq_of_start hstart]
    rfl
  refine ⟨hdistinct, p.standing_ok_iff, hdistinct.settles, fun id s hs => ?_, refresh_of_looks,
    fun op hlooks id s hs hstays => standing_of_not_looks hlooks hs hstays, ?_⟩
  · obtain ⟨m, hm, _, rfl⟩ := hdistinct.standing?_eq_some_iff.1 (standing_eq_ok_iff.1 hs)
    exact hempty.performAll operations m hm
  · rw [hboard]
    exact hfirst.hearAll operations

/-- A metric that has nothing to say of an agent that shows nothing. -/
def wary : Metric α :=
  ⟨"wary", fun left right =>
    if left.isEmpty || right.isEmpty then .error (.metricFailed "wary" "nothing to compare")
    else .ok (Distance.symmetric left right)⟩

/-- Three agents that nobody has looked at yet are scored, and then the third shows nothing any
more. -/
def withdrawal : List PopulationOperation :=
  [.add (.ofNat 1) 1 (lamp (.atom "on")), .add (.ofNat 2) 2 (lamp (.atom "off")),
    .add (.ofNat 3) 3 (lamp (.atom "on")), .recompute, .publish 3 ⟨.ofNat 3, "watcher", 2, [], []⟩]

/-- The agent that shows nothing is left out and keeps the score that it had; a fourth agent has no
standing. -/
theorem standings_follow_verdicts_withdrawal :
    let first : Population ℚ :=
      ⟨⟨.fixPoint 1, 1 / 1000⟩, Observation.all.view, wary, [], .empty, 0, true, none⟩
    let p := first.performAll withdrawal
    p.recompute.1.stale = [.ofNat 3] ∧
      (∃ s, p.standing (.ofNat 3) = .ok s ∧ s.stale = false ∧
        p.recompute.2.standing (.ofNat 3) = .ok { s with stale := true }) ∧
      ¬ ∃ s, p.standing (.ofNat 4) = .ok s := by
  intro first p
  have hepsilon : (0 : ℚ) < 1 / 1000 ∧ (1 / 1000 : ℚ) < 1 := by norm_num
  have hconfig : first.config.validate = .ok () := if_pos hepsilon
  have hstart : start first.config first.observe first.metric = .ok first := start_eq hconfig _ _
  obtain ⟨_, hknown, hsettles, _⟩ := standings_follow_verdicts hstart withdrawal
  have hstale : p.recompute.1.stale = [.ofNat 3] := by decide +kernel
  have hfresh : (p.standing? (.ofNat 3)).map (·.stale) = some false := by decide +kernel
  refine ⟨hstale, ?_, ?_⟩
  · obtain ⟨s, hs, hafter⟩ := hsettles.stale (.ofNat 3) (by simp [hstale, p])
    refine ⟨s, hs, ?_, hafter⟩
    rw [standing_eq_ok_iff.1 hs] at hfresh
    exact Option.some.inj hfresh
  · rw [hknown]
    decide +kernel

end Population
end Deliberation
