import Deliberation.Proofs.Society.Order

/-!
Who is left out covers the failed pairs, and no more.

Turn after turn those go that take part in the most failed pairs, until no failed pair is left. So
one of each failed pair goes, and nobody goes who takes part in none. Any two that stay were
compared, and a ranking is made of nothing but what the metric said of them.
-/

namespace Deliberation
namespace Ranking

variable {n : Nat} {failed : List (Nat × Nat)} {out : List Nat} {a i : Nat}

/-! ### Turns until no pair is left -/

/-- From some failed pairs on, these places go until no failed pair is left. -/
inductive Turns (n : Nat) : List (Nat × Nat) → List Nat → Prop where
  | rest : Turns n [] []
  | turn {failed : List (Nat × Nat)} {out : List Nat} :
      failed ≠ [] → Turns n (remaining (worst n failed) failed) out →
        Turns n failed (worst n failed ++ out)

/-- As many turns as there are failed pairs reach the end. -/
theorem turns_blameWithin (hlt : ∀ pair ∈ failed, pair.1 < n) {turns : Nat}
    (hturns : failed.length ≤ turns) : Turns n failed (blameWithin n turns failed) := by
  induction turns generalizing failed with
  | zero =>
      obtain rfl := List.eq_nil_of_length_eq_zero (Nat.le_zero.1 hturns)
      exact .rest
  | succ t ih =>
      rcases eq_or_ne failed [] with rfl | hne
      · exact .rest
      · have hless := length_remaining_lt hne hlt
        rw [blameWithin_succ hne]
        exact .turn hne (ih (fun pair hpair => hlt pair (List.mem_of_mem_filter hpair)) (by omega))

theorem tally_pos_of_mem_worst (hlt : ∀ pair ∈ failed, pair.1 < n) (hne : failed ≠ [])
    (hi : i ∈ worst n failed) : 0 < tally failed i := by
  obtain ⟨pair, hpair⟩ := List.exists_mem_of_ne_nil failed hne
  obtain ⟨j, hj, hpos⟩ := exists_worst hpair (hlt pair hpair)
  -- All of the worst have the same tally.
  simp only [worst_eq, List.mem_filter, beq_iff_eq] at hi hj
  rwa [hi.2, ← hj.2]

namespace Turns

/-- One of each failed pair goes. -/
theorem covers (h : Turns n failed out) {pair : Nat × Nat} (hpair : pair ∈ failed) :
    pair.1 ∈ out ∨ pair.2 ∈ out := by
  induction h with
  | rest => simp at hpair
  | @turn failed out hne _ ih =>
      by_cases hleft : pair ∈ remaining (worst n failed) failed
      · exact (ih hleft).imp (List.mem_append_right _) (List.mem_append_right _)
      · have hgone : pair.1 ∈ worst n failed ∨ pair.2 ∈ worst n failed := by
          simp only [remaining, List.mem_filter, hpair, true_and, Bool.and_eq_true,
            Bool.not_eq_true', List.contains_eq_mem, decide_eq_false_iff_not] at hleft
          tauto
        exact hgone.imp (List.mem_append_left _) (List.mem_append_left _)

/-- Nobody goes who takes part in no failed pair. -/
theorem exists_pair (h : Turns n failed out) (hlt : ∀ pair ∈ failed, pair.1 < n)
    (hi : i ∈ out) : ∃ pair ∈ failed, pair.1 = i ∨ pair.2 = i := by
  induction h with
  | rest => simp at hi
  | @turn failed out hne _ ih =>
      rcases List.mem_append.1 hi with hworst | hlater
      · exact tally_pos_iff.1 (tally_pos_of_mem_worst hlt hne hworst)
      · obtain ⟨pair, hpair, hend⟩ :=
          ih (fun pair hpair => hlt pair (List.mem_of_mem_filter hpair)) hlater
        exact ⟨pair, List.mem_of_mem_filter hpair, hend⟩

end Turns

/-! ### One that takes part in every failed pair -/

/-- Of two different places, a place is at most one; so it counts once for each pair that it is
in. -/
theorem tally_eq_countP (hpairs : ∀ pair ∈ failed, pair.1 < pair.2) (i : Nat) :
    tally failed i = failed.countP fun pair => pair.1 == i || pair.2 == i := by
  induction failed with
  | nil => rfl
  | cons pair rest ih =>
      obtain ⟨hpair, hrest⟩ := List.forall_mem_cons.1 hpairs
      have hrest := ih hrest
      simp only [tally, List.countP_cons, Bool.or_eq_true, beq_iff_eq] at hrest ⊢
      split_ifs <;> omega

theorem tally_le_length (hpairs : ∀ pair ∈ failed, pair.1 < pair.2) (i : Nat) :
    tally failed i ≤ failed.length := by
  rw [tally_eq_countP hpairs]
  exact List.countP_le_length

theorem tally_eq_length_iff (hpairs : ∀ pair ∈ failed, pair.1 < pair.2) :
    tally failed i = failed.length ↔ ∀ pair ∈ failed, pair.1 = i ∨ pair.2 = i := by
  simp [tally_eq_countP hpairs, List.countP_eq_length]

section Common

variable (hpairs : ∀ pair ∈ failed, pair.1 < pair.2 ∧ pair.2 < n)
  (ha : ∀ pair ∈ failed, pair.1 = a ∨ pair.2 = a)
  (hdiffer : ∃ pair ∈ failed, ∃ other ∈ failed, pair ≠ other)

include hpairs ha hdiffer

/-- Whoever is in every pair is alone in that, since there are different pairs. -/
theorem eq_of_common (hi : ∀ pair ∈ failed, pair.1 = i ∨ pair.2 = i) : i = a := by
  obtain ⟨⟨k, l⟩, hpair, ⟨k', l'⟩, hother, hne⟩ := hdiffer
  have hlt := hpairs _ hpair
  have hlt' := hpairs _ hother
  have hends := ha _ hpair
  have hends' := ha _ hother
  have hother' := hi _ hother
  have hpair' := hi _ hpair
  simp only [ne_eq, Prod.mk.injEq] at *
  omega

theorem lt_of_common : a < n := by
  obtain ⟨pair, hpair, _⟩ := hdiffer
  have hbounds := hpairs pair hpair
  have hend := ha pair hpair
  omega

/-- No place is in more pairs than there are, and the common one is in all of them. -/
theorem foldl_max_of_common :
    ((List.range n).map (tally failed)).foldl max 0 = failed.length := by
  have hordered : ∀ pair ∈ failed, pair.1 < pair.2 := fun pair hpair => (hpairs pair hpair).1
  have hmem : failed.length ∈ (List.range n).map (tally failed) :=
    List.mem_map.2 ⟨a, List.mem_range.2 (lt_of_common hpairs ha hdiffer),
      (tally_eq_length_iff hordered).2 ha⟩
  rw [List.foldl_max_zero]
  refine le_antisymm ?_ (List.le_max?_getD_of_mem hmem)
  obtain ⟨most, hmost⟩ := Option.isSome_iff_exists.1 (List.isSome_max?_of_mem hmem)
  obtain ⟨j, _, rfl⟩ := List.mem_map.1 (List.max?_mem hmost)
  rw [hmost, Option.getD_some]
  exact tally_le_length hordered j

theorem mem_worst_of_common : i ∈ worst n failed ↔ i = a := by
  have hordered : ∀ pair ∈ failed, pair.1 < pair.2 := fun pair hpair => (hpairs pair hpair).1
  rw [worst_eq, List.mem_filter, List.mem_range, beq_iff_eq,
    foldl_max_of_common hpairs ha hdiffer, tally_eq_length_iff hordered]
  constructor
  · rintro ⟨_, hi⟩
    exact eq_of_common hpairs ha hdiffer hi
  · rintro rfl
    exact ⟨lt_of_common hpairs ha hdiffer, ha⟩

theorem Turns.mem_iff_of_common (h : Turns n failed out) : i ∈ out ↔ i = a := by
  cases h with
  | rest => simp at hdiffer
  | @turn _ out hne hlater =>
      have hworst (i : Nat) : i ∈ worst n failed ↔ i = a := mem_worst_of_common hpairs ha hdiffer
      -- The common one goes first, and all pairs with it.
      have hnone : remaining (worst n failed) failed = [] := by
        refine List.filter_eq_nil_iff.2 fun pair hpair => ?_
        have hend := ha pair hpair
        simp only [List.contains_eq_mem, hworst]
        rcases hend with rfl | rfl <;> simp
      rw [hnone] at hlater
      cases hlater with
      | rest => rw [List.append_nil, hworst]
      | turn hne' _ => exact absurd rfl hne'

end Common

/-! ### Places that are left out -/

/-- A place is left out for the failed pairs. -/
def IsStale (n : Nat) (failed : List (Nat × Nat)) (i : Nat) : Prop :=
  (blame n failed)[i]? = some true

theorem isStale_iff :
    IsStale n failed i ↔ i < n ∧ i ∈ blameWithin n failed.length failed := by
  by_cases hi : i < n <;> simp [IsStale, blame, hi]

theorem fst_lt (hpairs : ∀ pair ∈ failed, pair.1 < pair.2 ∧ pair.2 < n) :
    ∀ pair ∈ failed, pair.1 < n :=
  fun pair hpair => (hpairs pair hpair).1.trans (hpairs pair hpair).2

theorem turns_of_lt (hpairs : ∀ pair ∈ failed, pair.1 < pair.2 ∧ pair.2 < n) :
    Turns n failed (blameWithin n failed.length failed) :=
  turns_blameWithin (fst_lt hpairs) (Nat.le_refl _)

theorem isStale_or_isStale (hpairs : ∀ pair ∈ failed, pair.1 < pair.2 ∧ pair.2 < n)
    {pair : Nat × Nat} (hpair : pair ∈ failed) :
    IsStale n failed pair.1 ∨ IsStale n failed pair.2 := by
  have hcovers := (turns_of_lt hpairs).covers hpair
  exact hcovers.imp (fun h => isStale_iff.2 ⟨fst_lt hpairs pair hpair, h⟩)
    fun h => isStale_iff.2 ⟨(hpairs pair hpair).2, h⟩

end Ranking

/-! ### What a ranking is made of -/

namespace Population

variable {α : Type} [Scalar α] {metric : Metric α} {states : List (List Literal)}
  {left right : List Literal} {i j : Nat}

theorem distance?_eq_some_iff {x : α} :
    distance? metric left right = some x ↔
      ∃ d, metric.distance left right = .ok d ∧ Scalar.isFinite d = true ∧
        Scalar.larger d 0 = x := by
  rw [distance?]
  cases metric.distance left right <;> simp

theorem failedPairs_lt (metric : Metric α) (states : List (List Literal)) :
    ∀ pair ∈ failedPairs (upperRows metric states), pair.1 < pair.2 ∧ pair.2 < states.length := by
  rintro ⟨i, j⟩ hpair
  obtain ⟨hlt, _, _, _, hj, _⟩ := mem_failedPairs_upperRows_iff.1 hpair
  exact ⟨hlt, (List.getElem?_eq_some_iff.1 hj).1⟩

/-- The places that are ranked. -/
def rankedPlaces (metric : Metric α) (states : List (List Literal)) : List Nat :=
  freshPlaces (Ranking.blame states.length (failedPairs (upperRows metric states)))

/-- The distances that a ranking is made of. -/
def rankedDistances (metric : Metric α) (states : List (List Literal)) : List (List α) :=
  (rankedPlaces metric states).map fun i => (rankedPlaces metric states).map fun j =>
    (entry (upperRows metric states) i j).getD 0

theorem placedScores_eq (config : ConsistencyConfig α) (metric : Metric α)
    (states : List (List Literal)) :
    placedScores config metric states =
      (rankedPlaces metric states).zip (Ranking.scores config (rankedDistances metric states)) :=
  rfl

theorem mem_rankedPlaces_iff :
    i ∈ rankedPlaces metric states ↔ i < states.length ∧
      ¬ Ranking.IsStale states.length (failedPairs (upperRows metric states)) i := by
  by_cases hi : i < states.length <;> simp [rankedPlaces, freshPlaces, Ranking.IsStale,
    Ranking.blame, hi]

theorem pairwise_rankedPlaces (metric : Metric α) (states : List (List Literal)) :
    (rankedPlaces metric states).Pairwise (· < ·) :=
  List.pairwise_lt_range.filter _

/-- Two states that are ranked were compared. -/
theorem distance?_ne_none (hlt : i < j) (hi : i ∈ rankedPlaces metric states)
    (hj : j ∈ rankedPlaces metric states) (hleft : states[i]? = some left)
    (hright : states[j]? = some right) : distance? metric left right ≠ none := by
  intro hnone
  have hfailed : (i, j) ∈ failedPairs (upperRows metric states) :=
    mem_failedPairs_upperRows_iff.2 ⟨hlt, left, right, hleft, hright, hnone⟩
  rcases Ranking.isStale_or_isStale (failedPairs_lt metric states) hfailed with hstale | hstale
  · exact (mem_rankedPlaces_iff.1 hi).2 hstale
  · exact (mem_rankedPlaces_iff.1 hj).2 hstale

/-- A square of distances has for each two states what the metric gave when it compared the earlier
one with the later one: a proper number, and zero in the place of one below zero. -/
structure Measured (metric : Metric α) (states : List (List Literal)) (matrix : List (List α)) :
    Prop where
  rows : matrix.length = states.length
  columns : ∀ row ∈ matrix, row.length = states.length
  cell : ∀ (i j : Nat) (left right : List Literal), i < j →
    states[i]? = some left → states[j]? = some right →
    ∃ d, metric.distance left right = .ok d ∧ Scalar.isFinite d = true ∧
      (matrix[i]?.bind fun row => row[j]?) = some (Scalar.larger d 0) ∧
      (matrix[j]?.bind fun row => row[i]?) = some (Scalar.larger d 0)

/-- What stands at some places of a list. -/
def itemsAt {β : Type} (items : List β) (places : List Nat) : List β :=
  places.filterMap fun i => items[i]?

theorem map_some_itemsAt {β : Type} {items : List β} {places : List Nat}
    (h : ∀ i ∈ places, i < items.length) :
    (itemsAt items places).map some = places.map fun i => items[i]? := by
  rw [itemsAt, List.map_filterMap]
  rw [← List.filterMap_eq_map]
  refine List.filterMap_congr fun i hi => ?_
  simp [List.getElem?_eq_getElem (h i hi)]

theorem length_itemsAt {β : Type} {items : List β} {places : List Nat}
    (h : ∀ i ∈ places, i < items.length) : (itemsAt items places).length = places.length := by
  simpa using congrArg List.length (map_some_itemsAt h)

theorem getElem?_itemsAt {β : Type} {items : List β} {places : List Nat}
    (h : ∀ i ∈ places, i < items.length) {k : Nat} {x : β}
    (hx : (itemsAt items places)[k]? = some x) :
    ∃ i, places[k]? = some i ∧ items[i]? = some x := by
  have hplace := congrArg (·[k]?) (map_some_itemsAt h)
  simpa [hx, eq_comm] using hplace

/-- The distances of a ranking are all measured. -/
theorem measured_rankedDistances (metric : Metric α) (states : List (List Literal)) :
    Measured metric (itemsAt states (rankedPlaces metric states))
      (rankedDistances metric states) := by
  have hplaces : ∀ i ∈ rankedPlaces metric states, i < states.length :=
    fun i hi => (mem_rankedPlaces_iff.1 hi).1
  have hlength := length_itemsAt hplaces
  refine ⟨by simp [rankedDistances, hlength], ?_, fun k l left right hkl hleft hright => ?_⟩
  · simp [rankedDistances, hlength]
  · obtain ⟨i, hi, hleft⟩ := getElem?_itemsAt hplaces hleft
    obtain ⟨j, hj, hright⟩ := getElem?_itemsAt hplaces hright
    have hij : i < j := by
      obtain ⟨hk, rfl⟩ := List.getElem?_eq_some_iff.1 hi
      obtain ⟨hl, rfl⟩ := List.getElem?_eq_some_iff.1 hj
      exact List.pairwise_iff_getElem.1 (pairwise_rankedPlaces metric states) k l hk hl hkl
    obtain ⟨x, hx⟩ := Option.ne_none_iff_exists'.1 (distance?_ne_none hij (List.mem_of_getElem? hi)
      (List.mem_of_getElem? hj) hleft hright)
    obtain ⟨d, hd, hfinite, rfl⟩ := distance?_eq_some_iff.1 hx
    have hentry : entry (upperRows metric states) i j = some (Scalar.larger d 0) := by
      rw [entry_of_lt hij hleft hright, hx]
    refine ⟨d, hd, hfinite, ?_, ?_⟩
    · simp [rankedDistances, hi, hj, hentry]
    · simp [rankedDistances, hi, hj, entry_comm _ j i, hentry]

theorem itemsAt_map {β γ : Type} (f : β → γ) (items : List β) (places : List Nat) :
    itemsAt (items.map f) places = (itemsAt items places).map f := by
  simp [itemsAt, List.map_filterMap]

theorem zip_itemsAt {β γ δ : Type} {items : List β} {places : List Nat}
    (h : ∀ i ∈ places, i < items.length) (name : β → γ) (values : List δ) :
    (places.zip values).filterMap (fun place => items[place.1]?.map fun x => (name x, place.2)) =
      ((itemsAt items places).map name).zip values := by
  induction places generalizing values with
  | nil => rfl
  | cons i rest ih =>
      obtain ⟨hi, hrest⟩ := List.forall_mem_cons.1 h
      cases values with
      | nil => simp
      | cons value values =>
          have hitems : itemsAt items (i :: rest) = items[i] :: itemsAt items rest :=
            List.filterMap_cons_some (List.getElem?_eq_getElem hi)
          rw [hitems, List.map_cons, List.zip_cons_cons, List.zip_cons_cons, ← ih hrest,
            List.filterMap_cons_some (by rw [List.getElem?_eq_getElem hi, Option.map_some])]

variable (p : Population α)

/-- The members that a recompute ranks. -/
def ranked : List (Member α) :=
  itemsAt p.members (rankedPlaces p.metric p.states)

theorem scores_eq_zip :
    p.recompute.1.scores =
      (p.ranked.map (·.id)).zip (Ranking.scores p.config (rankedDistances p.metric p.states)) := by
  have hplaces : ∀ i ∈ rankedPlaces p.metric p.states, i < p.members.length := by
    intro i hi
    rw [← length_states]
    exact (mem_rankedPlaces_iff.1 hi).1
  rw [scores_of_placed, placedScores_eq]
  exact zip_itemsAt hplaces (·.id) _

theorem measured_ranked :
    Measured p.metric (p.ranked.map fun m => p.observe m.snapshot)
      (rankedDistances p.metric p.states) := by
  have hmeasured := measured_rankedDistances p.metric p.states
  have hstates : itemsAt p.states (rankedPlaces p.metric p.states) =
      p.ranked.map fun m => p.observe m.snapshot := itemsAt_map _ _ _
  rwa [hstates] at hmeasured

/-- Whatever pairs of `n` places failed, the turns come to an end, and those are left out who went
in them. One of each failed pair is left out, and whoever is left out is in a failed pair. If one
place is in all of them, and not all are the same pair, it is the only one. So a recompute ranks its
members by what the metric said of each two of them, and by nothing that it could not say. -/
theorem failures_covered (n : Nat) (failed : List (Nat × Nat))
    (hpairs : ∀ pair ∈ failed, pair.1 < pair.2 ∧ pair.2 < n) (p : Population α) :
    (∃ out, Ranking.Turns n failed out ∧
      Ranking.blame n failed = (List.range n).map out.contains) ∧
    (∀ pair ∈ failed, Ranking.IsStale n failed pair.1 ∨ Ranking.IsStale n failed pair.2) ∧
    (∀ i, Ranking.IsStale n failed i → ∃ pair ∈ failed, pair.1 = i ∨ pair.2 = i) ∧
    (∀ a, (∀ pair ∈ failed, pair.1 = a ∨ pair.2 = a) →
      (∃ pair ∈ failed, ∃ other ∈ failed, pair ≠ other) →
        ∀ i, Ranking.IsStale n failed i ↔ i = a) ∧
    p.recompute.1.scores =
      (p.ranked.map (·.id)).zip (Ranking.scores p.config (rankedDistances p.metric p.states)) ∧
    Measured p.metric (p.ranked.map fun m => p.observe m.snapshot)
      (rankedDistances p.metric p.states) := by
  have hturns := Ranking.turns_of_lt hpairs
  refine ⟨⟨_, hturns, rfl⟩, fun pair hpair => Ranking.isStale_or_isStale hpairs hpair,
    fun i hi => ?_, fun a ha hdiffer i => ?_, p.scores_eq_zip, p.measured_ranked⟩
  · exact hturns.exists_pair (Ranking.fst_lt hpairs) (Ranking.isStale_iff.1 hi).2
  · have hout := Ranking.Turns.mem_iff_of_common hpairs ha hdiffer hturns (i := i)
    have hlt : a < n := Ranking.lt_of_common hpairs ha hdiffer
    rw [Ranking.isStale_iff, hout]
    constructor
    · exact And.right
    · rintro rfl
      exact ⟨hlt, rfl⟩

/-- The watcher that shows nothing is in all the pairs that fail. It is left out alone, and the
others are ranked by the distances between them. -/
theorem failures_covered_watchers :
    let p : Population ℚ := performAll
      ⟨⟨.fixPoint 2, 1 / 1000⟩, Observation.all.view, wary, [], .empty, 0, true, none⟩ watchers
    let failed := failedPairs (upperRows p.metric p.states)
    failed = [(0, 3), (1, 3), (2, 3)] ∧ (∀ i, Ranking.IsStale 4 failed i ↔ i = 3) ∧
      rankedDistances p.metric p.states = [[0, 2, 0], [2, 0, 2], [0, 2, 0]] ∧
      Measured p.metric (p.ranked.map fun m => p.observe m.snapshot)
        (rankedDistances p.metric p.states) := by
  intro p failed
  have hfailed : failed = [(0, 3), (1, 3), (2, 3)] := by decide +kernel
  have hcovered := failures_covered 4 failed (by rw [hfailed]; decide) p
  obtain ⟨_, _, _, hcommon, _, hmeasured⟩ := hcovered
  refine ⟨hfailed, hcommon 3 ?_ ?_, by decide +kernel, hmeasured⟩
  · rw [hfailed]
    decide
  · rw [hfailed]
    decide

end Population
end Deliberation
