import Deliberation.Proofs.Society.Accord
import Deliberation.Proofs.Society.Blame
import Deliberation.Proofs.Society.Comparison
import Deliberation.Proofs.Society.Standings

/-!
Scores do not depend on the order of joining.

What a recompute makes of a member is said in terms of names: who is left out, and the ranking of
the others. Both are the same in any other order of the names, as long as the metric does not tell
its two sides apart. So members of which the same is seen come to the same outcome, and if the same
is seen of all they share the scores equally.
-/

namespace Deliberation
namespace Population

variable {α : Type} [Scalar α] {ι : Type} [DecidableEq ι]

/-! ### Outcomes by names -/

section Names

variable {metric : Metric α} {names : List ι} {state : ι → List Literal}

/-- The distance that two names have in a ranking. -/
def distanceOf (metric : Metric α) (state : ι → List Literal) (a b : ι) : α :=
  if b = a then 0 else (distance? metric (state a) (state b)).getD 0

/-- Whether two names cannot be compared. -/
def failsOn (metric : Metric α) (state : ι → List Literal) (a b : ι) : Bool :=
  (distance? metric (state a) (state b)).isNone

omit [DecidableEq ι] in
theorem failsOn_comm (hsymm : metric.IsSymmetric) (a b : ι) :
    failsOn metric state a b = failsOn metric state b a := by
  rw [failsOn, failsOn, distance?_comm hsymm]

omit [DecidableEq ι] in
theorem failsAs (metric : Metric α) (state : ι → List Literal) (names : List ι) :
    Ranking.FailsAs names (failsOn metric state)
      (failedPairs (upperRows metric (names.map state))) where
  nodup := nodup_failedPairs _
  mem_iff i j := by
    rw [mem_failedPairs_upperRows_iff]
    simp only [List.getElem?_map, Option.map_eq_some_iff, failsOn, Option.isNone_iff_eq_none]
    constructor
    · rintro ⟨hlt, _, _, ⟨a, ha, rfl⟩, ⟨b, hb, rfl⟩, hnone⟩
      exact ⟨hlt, a, b, ha, hb, hnone⟩
    · rintro ⟨hlt, a, b, ha, hb, hnone⟩
      exact ⟨hlt, _, _, ⟨a, ha, rfl⟩, ⟨b, hb, rfl⟩, hnone⟩

variable [Inhabited ι]

/-- The name at a place. -/
def nameAt (names : List ι) (i : Nat) : ι :=
  names[i]?.getD default

omit [DecidableEq ι] in
theorem map_nameAt_range (names : List ι) :
    (List.range names.length).map (nameAt names) = names := by
  refine List.ext_getElem (by simp) fun i _ hi => ?_
  simp [nameAt, hi]

omit [DecidableEq ι] in
theorem getElem?_eq_nameAt {i : Nat} (hi : i < names.length) :
    names[i]? = some (nameAt names i) := by
  simp [nameAt, hi]

omit [DecidableEq ι] in
theorem freshPlaces_map (names : List ι) (out : ι → Bool) :
    freshPlaces (names.map out) =
      (List.range names.length).filter fun i => !out (nameAt names i) := by
  rw [freshPlaces, List.length_map]
  refine List.filter_congr fun i hi => ?_
  rw [List.getElem?_map, getElem?_eq_nameAt (List.mem_range.1 hi), Option.map_some]
  cases out (nameAt names i) <;> rfl

omit [DecidableEq ι] in
/-- The names at the places that are not left out. -/
theorem map_nameAt_freshPlaces (names : List ι) (out : ι → Bool) :
    (freshPlaces (names.map out)).map (nameAt names) = names.filter fun a => !out a := by
  conv_rhs => rw [← map_nameAt_range names, List.filter_map]
  rw [freshPlaces_map]
  rfl

/-- The entry for two places is the distance of their names. -/
theorem entry_getD (hsymm : metric.IsSymmetric) (hnodup : names.Nodup) {i j : Nat}
    (hi : i < names.length) (hj : j < names.length) :
    (entry (upperRows metric (names.map state)) i j).getD 0 =
      distanceOf metric state (nameAt names i) (nameAt names j) := by
  have hname : nameAt names j = nameAt names i ↔ j = i := by
    rw [← Option.some_inj, ← getElem?_eq_nameAt hi, ← getElem?_eq_nameAt hj]
    exact List.getElem?_inj hj hnodup
  rcases eq_or_ne j i with rfl | hne
  · rw [entry, distanceOf, if_pos rfl, if_pos rfl, Option.getD_some]
  · have hleft : (names.map state)[i]? = some (state (nameAt names i)) := by
      rw [List.getElem?_map, getElem?_eq_nameAt hi, Option.map_some]
    have hright : (names.map state)[j]? = some (state (nameAt names j)) := by
      rw [List.getElem?_map, getElem?_eq_nameAt hj, Option.map_some]
    rw [entry_upperRows hsymm hne.symm hleft hright, distanceOf, if_neg (mt hname.1 hne)]

/-- Whoever is left out has no outcome, and the others have the scores of a ranking of their
names. -/
theorem outcomes_eq (hsymm : metric.IsSymmetric) (hnodup : names.Nodup)
    {config : ConsistencyConfig α} {out : ι → Bool} {score : ι → α}
    (hout : Ranking.blame names.length (failedPairs (upperRows metric (names.map state))) =
      names.map out)
    (hscore : Ranking.scores config
        (Reordering.table (names.filter fun a => !out a) (distanceOf metric state)) =
      (names.filter fun a => !out a).map score) :
    outcomes config metric (names.map state) =
      names.map fun a => if out a then none else some (score a) := by
  -- The ranking is by places; each place that is left is read as its name.
  let fresh := freshPlaces (names.map out)
  have hfresh : ∀ i, i ∈ fresh ↔ i < names.length ∧ out (nameAt names i) = false := by
    intro i
    rw [show fresh = _ from freshPlaces_map names out, List.mem_filter, List.mem_range,
      Bool.not_eq_true']
  have hlt : ∀ i ∈ fresh, i < names.length := fun i hi => ((hfresh i).1 hi).1
  have hmatrix : (fresh.map fun i => fresh.map fun j =>
      (entry (upperRows metric (names.map state)) i j).getD 0) =
        Reordering.table (names.filter fun a => !out a) (distanceOf metric state) := by
    rw [← map_nameAt_freshPlaces, Reordering.table, List.map_map]
    refine List.map_congr_left fun i hi => ?_
    rw [Function.comp_apply, List.map_map]
    exact List.map_congr_left fun j hj => entry_getD hsymm hnodup (hlt i hi) (hlt j hj)
  have hplaced : placedScores config metric (names.map state) =
      fresh.map fun i => (i, score (nameAt names i)) := by
    rw [placedScores, List.length_map, hout]
    change fresh.zip (Ranking.scores config (fresh.map fun i => fresh.map fun j =>
      (entry (upperRows metric (names.map state)) i j).getD 0)) = _
    rw [hmatrix, hscore, ← map_nameAt_freshPlaces, List.map_map]
    exact List.map_prod_left_eq_zip.symm
  rw [outcomes, hplaced, List.length_map]
  conv_rhs => rw [← map_nameAt_range names, List.map_map]
  refine List.map_congr_left fun i hi => ?_
  rw [List.lookup_map_self]
  cases hgone : out (nameAt names i) <;> simp [hfresh, hgone, List.mem_range.1 hi]

/-! ### Another order of the names -/

variable [Std.Commutative (α := α) (· + ·)] [Std.Associative (α := α) (· + ·)]

/-- Each name comes to the same outcome in both orders. -/
theorem outcomes_matches (hsymm : metric.IsSymmetric) (config : ConsistencyConfig α)
    (r : Reordering ι) (state : ι → List Literal) :
    r.Matches (outcomes config metric (r.before.map state))
      (outcomes config metric (r.after.map state)) := by
  obtain ⟨out, hout, hout'⟩ := Ranking.blame_matches (failsOn_comm hsymm)
    (failsAs metric state r.before) (failsAs metric state r.after)
  let kept := r.filter fun a => !out a
  obtain ⟨score, hscore, hscore'⟩ :=
    Ranking.scores_matches (r := kept) ⟨distanceOf metric state, rfl, rfl⟩ config
  exact ⟨_, outcomes_eq hsymm r.nodup hout hscore, outcomes_eq hsymm r.nodup_after hout' hscore'⟩

/-- Names of which the same is seen come to the same outcome: nothing is different if they change
places. -/
theorem outcome_eq_of_state_eq (hsymm : metric.IsSymmetric) (hnodup : names.Nodup)
    {config : ConsistencyConfig α} {outcome : ι → Option α}
    (houtcome : outcomes config metric (names.map state) = names.map outcome) {a b : ι}
    (ha : a ∈ names) (hb : b ∈ names) (hstate : state a = state b) : outcome a = outcome b := by
  have hsame : state ∘ Equiv.swap a b = state := by
    funext x
    rw [Function.comp_apply, Equiv.swap_apply_def]
    split
    · rename_i hx
      rw [hx, hstate]
    · split
      · rename_i hx
        rw [hx, hstate]
      · rfl
  obtain ⟨value, hbefore, hafter⟩ :=
    outcomes_matches hsymm config (Reordering.swap hnodup ha hb) state
  have hbefore : outcomes config metric (names.map state) = names.map value := hbefore
  have hafter : outcomes config metric ((names.map (Equiv.swap a b)).map state) =
      (names.map (Equiv.swap a b)).map value := hafter
  rw [List.map_map, List.map_map, hsame, houtcome] at hafter
  have hswapped := List.map_inj_left.1 hafter a ha
  have hvalue := List.map_inj_left.1 (houtcome.symm.trans hbefore) b hb
  rw [hswapped, Function.comp_apply, Equiv.swap_apply_left, hvalue]

end Names

/-! ### Members of a population -/

/-- Who has joined, and with which snapshot. -/
def roster (p : Population α) : List (AgentId × Snapshot) :=
  p.members.map fun m => (m.id, m.snapshot)

/-- The names of the members, in the order of joining. -/
def names (p : Population α) : List AgentId :=
  p.members.map (·.id)

/-- What is seen of a member, by its name. -/
def seen (p : Population α) (id : AgentId) : List Literal :=
  ((p.members.find? fun m => m.id = id).map fun m => p.observe m.snapshot).getD []

section Members

variable {p q : Population α} {outcome : AgentId → Option α}

omit [Scalar α] in
theorem names_perm (hroster : q.roster.Perm p.roster) : q.names.Perm p.names := by
  have hfst : ∀ any : Population α, any.roster.map (·.1) = any.names := fun _ => List.map_map
  rw [← hfst q, ← hfst p]
  exact hroster.map _

omit [Scalar α] in
theorem Distinct.seen_eq (h : p.Distinct) {m : Member α} (hm : m ∈ p.members) :
    p.seen m.id = p.observe m.snapshot := by
  rw [seen, h.find?_eq hm]
  rfl

omit [Scalar α] in
theorem Distinct.states_eq (h : p.Distinct) : p.states = p.names.map p.seen := by
  rw [states, names, List.map_map]
  exact List.map_congr_left fun m hm => (h.seen_eq hm).symm

omit [Scalar α] in
/-- What is seen of the members does not depend on their order. -/
theorem Distinct.states_eq_of_perm (h : p.Distinct) (hsettings : p.SameSettings q)
    (hroster : q.roster.Perm p.roster) : q.states = q.names.map p.seen := by
  rw [states, names, List.map_map]
  refine List.map_congr_left fun m hm => ?_
  have hmem : (m.id, m.snapshot) ∈ p.roster :=
    hroster.mem_iff.1 (List.mem_map_of_mem (f := fun m => (m.id, m.snapshot)) hm)
  obtain ⟨twin, htwin, heq⟩ := List.mem_map.1 hmem
  obtain ⟨hid, hsnapshot⟩ := Prod.mk.inj heq
  rw [Function.comp_apply, ← hid, h.seen_eq htwin, hsnapshot, hsettings.observe]

theorem zip_results_eq (h : p.results = p.names.map outcome) :
    p.members.zip p.results = p.members.map fun m => (m, outcome m.id) := by
  rw [h, names, List.map_map]
  exact List.map_prod_left_eq_zip.symm

theorem scores_eq (h : p.results = p.names.map outcome) :
    p.recompute.1.scores = p.names.filterMap fun id => (outcome id).map (id, ·) := by
  rw [scores_recompute, zip_results_eq h, names, List.filterMap_map, List.filterMap_map]
  rfl

theorem stale_eq (h : p.results = p.names.map outcome) :
    p.recompute.1.stale = p.names.filter fun id => (outcome id).isNone := by
  rw [stale_recompute, zip_results_eq h, names, List.filterMap_map, ← List.filterMap_eq_filter,
    List.filterMap_map]
  rfl

variable [Std.Commutative (α := α) (· + ·)] [Std.Associative (α := α) (· + ·)]

/-- The same members in another order come to the same outcomes. -/
theorem Distinct.exists_outcome (h : p.Distinct) (hsymm : p.metric.IsSymmetric)
    (hsettings : p.SameSettings q) (hroster : q.roster.Perm p.roster) :
    ∃ outcome : AgentId → Option α,
      p.results = p.names.map outcome ∧ q.results = q.names.map outcome := by
  obtain ⟨outcome, hbefore, hafter⟩ := outcomes_matches hsymm p.config
    ⟨p.names, q.names, h, (names_perm hroster).symm⟩ p.seen
  refine ⟨outcome, ?_, ?_⟩
  · rw [results, h.states_eq]
    exact hbefore
  · rw [results, h.states_eq_of_perm hsettings hroster, ← hsettings.config, ← hsettings.metric]
    exact hafter

theorem Distinct.recompute_perm (h : p.Distinct) (hsymm : p.metric.IsSymmetric)
    (hsettings : p.SameSettings q) (hroster : q.roster.Perm p.roster) :
    q.recompute.1.stale.Perm p.recompute.1.stale ∧
      q.recompute.1.scores.Perm p.recompute.1.scores := by
  have hnames := names_perm hroster
  obtain ⟨outcome, hresults, hresults'⟩ := h.exists_outcome hsymm hsettings hroster
  rw [stale_eq hresults', scores_eq hresults', stale_eq hresults, scores_eq hresults]
  exact ⟨hnames.filter _, hnames.filterMap _⟩

/-- Members of which the same is seen are both left out or have the same score. -/
theorem Distinct.recompute_twins (h : p.Distinct) (hsymm : p.metric.IsSymmetric) {m twin : Member α}
    (hm : m ∈ p.members) (htwin : twin ∈ p.members)
    (hseen : p.observe m.snapshot = p.observe twin.snapshot) :
    (m.id ∈ p.recompute.1.stale ∧ twin.id ∈ p.recompute.1.stale) ∨
      ∃ x, (m.id, x) ∈ p.recompute.1.scores ∧ (twin.id, x) ∈ p.recompute.1.scores := by
  obtain ⟨outcome, hresults, _⟩ := h.exists_outcome hsymm (.refl p) (.refl _)
  have hid : m.id ∈ p.names := List.mem_map_of_mem hm
  have hid' : twin.id ∈ p.names := List.mem_map_of_mem htwin
  have houtcome : outcomes p.config p.metric (p.names.map p.seen) = p.names.map outcome := by
    rw [← h.states_eq]
    exact hresults
  have hstate : p.seen m.id = p.seen twin.id := by rw [h.seen_eq hm, h.seen_eq htwin, hseen]
  have hsame := outcome_eq_of_state_eq hsymm h houtcome hid hid' hstate
  rw [stale_eq hresults, scores_eq hresults]
  cases hscore : outcome twin.id with
  | none =>
      rw [hscore] at hsame
      exact Or.inl ⟨List.mem_filter.2 ⟨hid, by rw [hsame]; rfl⟩,
        List.mem_filter.2 ⟨hid', by rw [hscore]; rfl⟩⟩
  | some x =>
      rw [hscore] at hsame
      exact Or.inr ⟨x, List.mem_filterMap.2 ⟨m.id, hid, by rw [hsame]; rfl⟩,
        List.mem_filterMap.2 ⟨twin.id, hid', by rw [hscore]; rfl⟩⟩

end Members

/-! ### Members that are all alike -/

section Alike

open Extended

variable {K : Type} [Field K] [LinearOrder K] [IsStrictOrderedRing K]
  {metric : Metric (Extended K)} {config : ConsistencyConfig (Extended K)}

omit [IsStrictOrderedRing K] in
/-- A distance is a number and not below zero. -/
theorem exists_distance (metric : Metric (Extended K)) (left right : List Literal) :
    ∃ d : K, 0 ≤ d ∧ (distance? metric left right).getD 0 = number d := by
  rw [distance?]
  split
  · rename_i x hx
    -- What is no proper number counts as a failure, and a distance below zero as zero.
    rcases x with x | negative | _
    · rcases lt_or_ge x 0 with hneg | hpos
      · refine ⟨0, le_rfl, ?_⟩
        exact if_pos (number_lt.2 hneg)
      · refine ⟨x, hpos, ?_⟩
        exact if_neg fun h => hpos.not_gt (number_lt.1 h)
    · exact ⟨0, le_rfl, rfl⟩
    · exact ⟨0, le_rfl, rfl⟩
  · exact ⟨0, le_rfl, rfl⟩

/-- If the same is seen of all, and two of that kind can be compared, all have the same score. -/
theorem outcomes_of_alike (hsymm : metric.IsSymmetric) (hconfig : config.validate = .ok ())
    {names : List ι} (hnodup : names.Nodup) [Inhabited ι] (state : List Literal)
    (hcomparable : 2 ≤ names.length → (distance? metric state state).isSome = true) :
    outcomes config metric (names.map fun _ => state) =
      names.map fun _ => some (number (1 / (names.length : K))) := by
  have hnone : failedPairs (upperRows metric (names.map fun _ => state)) = [] := by
    have hfails := failsAs metric (fun _ : ι => state) names
    refine (hfails.eq_nil_iff hnodup (failsOn_comm hsymm)).2 fun a ha b hb hne => ?_
    have hpair : [a, b].Nodup := by simpa using hne.symm
    have htwo : 2 ≤ names.length := hpair.length_le_of_subset (by simp [ha, hb])
    rw [failsOn, Option.isNone_eq_false_iff]
    exact hcomparable htwo
  have hout : Ranking.blame names.length
      (failedPairs (upperRows metric (names.map fun _ => state))) = names.map fun _ => false := by
    rw [hnone]
    refine List.ext_getElem (by simp [Ranking.blame]) fun i _ _ => ?_
    simp [Ranking.blame, Ranking.blameWithin]
  have hkept : (names.filter fun _ => !false) = names := List.filter_eq_self.2 fun _ _ => rfl
  have hscore : Ranking.scores config (Reordering.table (names.filter fun _ => !false)
      (distanceOf metric fun _ => state)) =
        (names.filter fun _ => !false).map fun _ => number (1 / (names.length : K)) := by
    obtain ⟨d, hd, hdistance⟩ := exists_distance metric state state
    have hvalue : distanceOf metric (fun _ : ι => state) =
        fun a b => if b = a then 0 else number d := by
      funext a b
      rw [distanceOf, hdistance]
    rw [hkept, hvalue]
    exact Ranking.scores_contrast hnodup hconfig hd
  exact outcomes_eq hsymm hnodup hout hscore

variable {p : Population (Extended K)}

/-- A population of which the same is seen everywhere scores equally. -/
theorem Distinct.recompute_of_alike (h : p.Distinct) (hsymm : p.metric.IsSymmetric)
    (hconfig : p.config.validate = .ok ()) {state : List Literal}
    (hstate : ∀ m ∈ p.members, p.observe m.snapshot = state)
    (hcomparable : 2 ≤ p.members.length → (distance? p.metric state state).isSome = true) :
    p.recompute.1.stale = [] ∧
      p.recompute.1.scores =
        p.members.map (fun m => (m.id, number (1 / (p.members.length : K)))) ∧
      p.recompute.1.statistics.variance = 0 := by
  have hnames : p.names.Nodup := h
  have hlength : p.names.length = p.members.length := List.length_map _
  have hstates : p.states = p.names.map fun _ => state := by
    rw [states, names, List.map_map]
    exact List.map_congr_left hstate
  have hresults : p.results = p.names.map fun _ => some (number (1 / (p.members.length : K))) := by
    rw [results, hstates, outcomes_of_alike hsymm hconfig hnames state
      (hlength.symm ▸ hcomparable), hlength]
  have hscores : p.recompute.1.scores =
      p.members.map fun m => (m.id, number (1 / (p.members.length : K))) := by
    rw [scores_eq hresults, names, List.filterMap_map, ← List.filterMap_eq_map]
    rfl
  refine ⟨?_, hscores, ?_⟩
  · rw [stale_eq hresults]
    exact List.filter_eq_nil_iff.2 fun _ _ => Bool.false_ne_true
  · have hvalues : p.recompute.1.scores.map (·.2) =
        List.replicate p.members.length (number (1 / (p.members.length : K))) := by
      rw [hscores, List.map_map]
      exact List.map_const' ..
    have hstatistics : p.recompute.1.statistics = .ofList (p.recompute.1.scores.map (·.2)) := rfl
    rw [hstatistics, hvalues, RunningStatistics.variance_const]

end Alike

/-! ### Any order of joining -/

section Runs

open Extended

variable {K : Type} [Field K] [LinearOrder K] [IsStrictOrderedRing K]

theorem validate_of_start {config : ConsistencyConfig α} {observe : Snapshot → List Literal}
    {metric : Metric α} {p : Population α} (h : start config observe metric = .ok p) :
    config.validate = .ok () := by
  cases hconfig : config.validate with
  | error e => simp [start, hconfig, bind, Except.bind] at h
  | ok u => rfl

/-- Let two runs end with the same agents and snapshots, in whatever order. A recompute leaves the
same agents out and gives the others the same scores. In particular two agents of which the same is
seen are both left out or have the same score. And if the same is seen of all, and the metric can
compare it with itself, each of `n` agents has the score `1 / n`, and the scores have no
variance. -/
theorem recompute_orderFree {config : ConsistencyConfig (Extended K)}
    {observe : Snapshot → List Literal} {metric : Metric (Extended K)}
    {first : Population (Extended K)} (hstart : start config observe metric = .ok first)
    (hsymm : metric.IsSymmetric) (operations : List PopulationOperation) :
    let p := first.performAll operations
    let verdict := p.recompute.1
    (∀ others, (first.performAll others).roster.Perm p.roster →
      (first.performAll others).recompute.1.stale.Perm verdict.stale ∧
        (first.performAll others).recompute.1.scores.Perm verdict.scores) ∧
    (∀ m ∈ p.members, ∀ twin ∈ p.members, observe m.snapshot = observe twin.snapshot →
      (m.id ∈ verdict.stale ∧ twin.id ∈ verdict.stale) ∨
        ∃ x, (m.id, x) ∈ verdict.scores ∧ (twin.id, x) ∈ verdict.scores) ∧
    ∀ state, (∀ m ∈ p.members, observe m.snapshot = state) →
      (2 ≤ p.members.length → ∃ d : K, metric.distance state state = .ok (.number d)) →
      verdict.stale = [] ∧
        verdict.scores = p.members.map (fun m => (m.id, .number (1 / (p.members.length : K)))) ∧
        verdict.statistics.variance = 0 := by
  intro p verdict
  have hfirst := eq_of_start hstart
  have hsettings : first.SameSettings p := first.sameSettings_performAll operations
  have hobserve : p.observe = observe := by rw [← hsettings.observe, hfirst]
  have hmetric : p.metric = metric := by rw [← hsettings.metric, hfirst]
  have hconfig : p.config.validate = .ok () := by
    rw [← hsettings.config, hfirst]
    exact validate_of_start hstart
  have hdistinct : p.Distinct := (Distinct.start hstart).performAll operations
  have hsymm : p.metric.IsSymmetric := hmetric ▸ hsymm
  refine ⟨fun others hroster => ?_, fun m hm twin htwin hseen => ?_, fun state hstate hnumber => ?_⟩
  · have hsame : p.SameSettings (first.performAll others) := by
      have hothers := first.sameSettings_performAll others
      exact ⟨hsettings.config.symm.trans hothers.config,
        hsettings.observe.symm.trans hothers.observe, hsettings.metric.symm.trans hothers.metric⟩
    exact hdistinct.recompute_perm hsymm hsame hroster
  · rw [← hobserve] at hseen
    exact hdistinct.recompute_twins hsymm hm htwin hseen
  · rw [← hobserve] at hstate
    refine hdistinct.recompute_of_alike hsymm hconfig hstate fun htwo => ?_
    obtain ⟨d, hd⟩ := hnumber htwo
    rw [hmetric, distance?, hd]
    rfl

theorem isSymmetric_wary : (wary : Metric α).IsSymmetric := by
  intro left right
  simp only [wary, Bool.or_comm left.isEmpty, Distance.symmetric, Distance.differenceCount,
    Nat.add_comm (Distance.missing left right).length]

/-- Four agents of which two see the lamp on, one sees it off and one shows nothing. -/
def watchers : List PopulationOperation :=
  [.add (.ofNat 1) 1 (lamp (.atom "on")), .add (.ofNat 2) 2 (lamp (.atom "off")),
    .add (.ofNat 3) 3 (lamp (.atom "on")), .add (.ofNat 4) 4 ⟨.ofNat 4, "watcher", 1, [], []⟩]

/-- If the watchers join in another order then the same one is left out, and the scores are the
same; those who see the same have the same score. -/
theorem recompute_orderFree_watchers :
    let first : Population (Extended ℚ) :=
      ⟨⟨.fixPoint 2, .number (1 / 1000)⟩, Observation.all.view, wary, [], .empty, 0, true, none⟩
    let verdict := (first.performAll watchers).recompute.1
    let reversed := (first.performAll watchers.reverse).recompute.1
    verdict.stale = [.ofNat 4] ∧ reversed.stale.Perm verdict.stale ∧
      reversed.scores.Perm verdict.scores ∧
      ∃ x, (AgentId.ofNat 1, x) ∈ verdict.scores ∧ (AgentId.ofNat 3, x) ∈ verdict.scores := by
  intro first verdict reversed
  have hepsilon : (0 : Extended ℚ) < .number (1 / 1000) ∧ (.number (1 / 1000) : Extended ℚ) < 1 :=
    ⟨number_lt.2 (by norm_num), number_lt.2 (by norm_num)⟩
  have hconfig : first.config.validate = .ok () := if_pos hepsilon
  have hstart : start first.config first.observe first.metric = .ok first := start_eq hconfig _ _
  obtain ⟨horder, htwins, _⟩ := recompute_orderFree hstart isSymmetric_wary watchers
  have hstale : verdict.stale = [.ofNat 4] := by decide +kernel
  have hroster : (first.performAll watchers.reverse).roster.Perm
      (first.performAll watchers).roster :=
    List.reverse_perm (first.performAll watchers).roster
  obtain ⟨hsameStale, hsameScores⟩ := horder watchers.reverse hroster
  refine ⟨hstale, hsameStale, hsameScores, ?_⟩
  rcases htwins _ (.head _) _ (.tail _ (.tail _ (.head _))) rfl with ⟨hfirst, _⟩ | hscores
  · rw [hstale] at hfirst
    exact absurd hfirst (by decide)
  · exact hscores

end Runs

end Population
end Deliberation
