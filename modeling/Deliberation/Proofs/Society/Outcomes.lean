import Deliberation.Proofs.Society.Run

/-!
What a recompute makes of each member.

A ranking has a score for each row of its matrix, so every member that is not left out gets one. A
recompute thus comes to one outcome for each member, in the order of joining: a score, or none for a
member that is left out. The verdict and the members after it are read off the outcomes.
-/

namespace Deliberation

variable {α : Type} [Scalar α]

/-! ### A score for each row -/

namespace Ranking

variable {matrix : List (List α)} {current : List α}

/-- Each row is as long as there are rows. -/
def Square (matrix : List (List α)) : Prop :=
  ∀ row ∈ matrix, row.length = matrix.length

theorem length_normalize (values : List α) : (normalize values).length = values.length := by
  rw [normalize]
  split <;> exact List.length_map _

theorem square_transitions (h : Square matrix) (epsilon : α) :
    Square (transitions epsilon matrix) := by
  have hlength : (transitions epsilon matrix).length = matrix.length := by simp [transitions]
  intro row hrow
  obtain ⟨place, hplace, rfl⟩ := List.mem_map.1 hrow
  rw [hlength, List.length_set, length_normalize, List.length_set]
  exact h _ (List.fst_mem_of_mem_zipIdx hplace)

theorem length_advance (h : Square matrix) (hcurrent : current.length = matrix.length) :
    (advance matrix current).length = matrix.length := by
  have hrows : ∀ entry ∈ current.zip matrix, entry.2.length = matrix.length :=
    fun entry hentry => h _ (List.of_mem_zip hentry).2
  rw [advance, length_normalize]
  refine List.foldlRecOn (motive := fun next : List α => next.length = matrix.length) _ _ ?_
    fun next hnext entry hentry => ?_
  · rw [List.length_map, hcurrent]
  · rw [List.length_zipWith, hnext, hrows entry hentry, Nat.min_self]

theorem walk_succ (matrix : List (List α)) (tolerance : Option α) (steps : Nat) (current : List α) :
    walk matrix tolerance (steps + 1) current =
      if tolerance.any fun t => decide (change (advance matrix current) current < t) then
        advance matrix current
      else walk matrix tolerance steps (advance matrix current) := by
  cases tolerance <;> rfl

theorem length_walk (h : Square matrix) (tolerance : Option α) (steps : Nat)
    (hcurrent : current.length = matrix.length) :
    (walk matrix tolerance steps current).length = matrix.length := by
  induction steps generalizing current with
  | zero => exact hcurrent
  | succ n ih =>
      have hnext := length_advance h hcurrent
      rw [walk_succ]
      split
      · exact hnext
      · exact ih hnext

theorem length_stationary (h : Square matrix) (algorithm : Algorithm α) :
    (stationary algorithm matrix).length = matrix.length := by
  cases algorithm with
  | fixPoint iterations => exact length_walk h _ _ (List.length_map _)
  | converge tolerance maxIterations => exact length_walk h _ _ (List.length_map _)

/-- The share of time that each agent gets; none if all agree. -/
def shares (config : ConsistencyConfig α) (matrix : List (List α)) : List α :=
  if agrees matrix then matrix.map fun _ => 0
  else stationary config.algorithm (transitions config.epsilon matrix)

theorem scores_of_two_le (config : ConsistencyConfig α) (h : 2 ≤ matrix.length) :
    scores config matrix = normalize ((shares config matrix).map (1 - ·)) := by
  rcases matrix with _ | ⟨first, _ | ⟨second, rest⟩⟩
  · simp at h
  · simp at h
  · rfl

theorem length_shares (config : ConsistencyConfig α) (h : Square matrix) :
    (shares config matrix).length = matrix.length := by
  rw [shares]
  split
  · exact List.length_map _
  · rw [length_stationary (square_transitions h _)]
    simp [transitions]

theorem length_scores (config : ConsistencyConfig α) (h : Square matrix) :
    (scores config matrix).length = matrix.length := by
  rcases Nat.lt_or_ge matrix.length 2 with hfew | hmany
  · rcases matrix with _ | ⟨first, _ | ⟨second, rest⟩⟩
    · rfl
    · rfl
    · simp only [List.length_cons] at hfew
      omega
  · rw [scores_of_two_le config hmany, length_normalize, List.length_map, length_shares config h]

end Ranking

/-! ### An outcome for each member -/

namespace Population

/-- The scores of the states that are not left out, each with its place. -/
def placedScores (config : ConsistencyConfig α) (metric : Metric α)
    (states : List (List Literal)) : List (Nat × α) :=
  let rows := upperRows metric states
  scorePlaces config rows (Ranking.blame states.length (failedPairs rows))

/-- The score of each state, or none if it is left out. -/
def outcomes (config : ConsistencyConfig α) (metric : Metric α) (states : List (List Literal)) :
    List (Option α) :=
  (List.range states.length).map fun i => (placedScores config metric states).lookup i

/-- The places that are not left out. -/
def freshPlaces (stale : List Bool) : List Nat :=
  (List.range stale.length).filter fun i => stale[i]? == some false

/-- The places that are not left out are those with a score. -/
theorem map_fst_scorePlaces (config : ConsistencyConfig α) (rows : List (List (Option α)))
    (stale : List Bool) : (scorePlaces config rows stale).map (·.1) = freshPlaces stale := by
  rw [scorePlaces, List.map_fst_zip]
  · rfl
  · rw [Ranking.length_scores]
    · simp
    · intro row hrow
      obtain ⟨i, _, rfl⟩ := List.mem_map.1 hrow
      simp

/-- Those without a score are those that are left out. -/
theorem isNone_lookup_scorePlaces (config : ConsistencyConfig α) (rows : List (List (Option α)))
    (stale : List Bool) :
    (List.range stale.length).map (fun i => ((scorePlaces config rows stale).lookup i).isNone) =
      stale := by
  refine List.ext_getElem (by simp) fun i _ hi => ?_
  rw [List.getElem_map, List.getElem_range, Bool.eq_iff_iff, Option.isNone_iff_eq_none,
    List.lookup_eq_none_iff_notMem, map_fst_scorePlaces]
  simp [freshPlaces, hi]

theorem isNone_outcomes (config : ConsistencyConfig α) (metric : Metric α)
    (states : List (List Literal)) :
    (outcomes config metric states).map Option.isNone =
      Ranking.blame states.length (failedPairs (upperRows metric states)) := by
  have hstale := isNone_lookup_scorePlaces config (upperRows metric states)
    (Ranking.blame states.length (failedPairs (upperRows metric states)))
  have hlength : (Ranking.blame states.length (failedPairs (upperRows metric states))).length =
      states.length := by simp [Ranking.blame]
  rw [hlength] at hstale
  rw [outcomes, List.map_map]
  exact hstale

/-- What is seen of the members. -/
def states (p : Population α) : List (List Literal) :=
  p.members.map fun m => p.observe m.snapshot

/-- The outcomes of a recompute. -/
def results (p : Population α) : List (Option α) :=
  outcomes p.config p.metric p.states

variable (p : Population α)

omit [Scalar α] in
theorem length_states : p.states.length = p.members.length :=
  List.length_map _

theorem length_results : p.results.length = p.members.length := by
  simp [results, outcomes, length_states]

theorem zip_results :
    p.members.zip p.results = p.members.zipIdx.map fun place =>
      (place.1, (placedScores p.config p.metric p.states).lookup place.2) := by
  rw [results, outcomes, length_states, List.zip_map_right, List.zipIdx_eq_zip_range',
    List.range_eq_range']
  rfl

/-- Each member is settled with its outcome. -/
theorem members_recompute :
    p.recompute.2.members = (p.members.zip p.results).map fun entry => settle entry.1 entry.2 := by
  rw [zip_results, List.map_map, recompute, placedScores, length_states]
  rfl

theorem scores_of_placed :
    p.recompute.1.scores = (placedScores p.config p.metric p.states).filterMap
      fun place => p.members[place.1]?.map fun m => (m.id, place.2) := by
  rw [placedScores, length_states]
  rfl

/-- The scores are the outcomes of those that have one. -/
theorem scores_recompute :
    p.recompute.1.scores =
      (p.members.zip p.results).filterMap fun entry => entry.2.map (entry.1.id, ·) := by
  have hplaces : ((placedScores p.config p.metric p.states).map (·.1)).Sublist
      (List.range p.members.length) := by
    rw [placedScores, map_fst_scorePlaces, freshPlaces, Ranking.blame, List.length_map,
      List.length_range, length_states]
    exact List.filter_sublist
  rw [scores_of_placed, zip_results, List.filterMap_map, List.filterMap_zipIdx,
    ← List.filterMap_lookup List.nodup_range hplaces, List.filterMap_filterMap]
  refine List.filterMap_congr fun i _ => ?_
  rw [List.filterMap_lookup List.nodup_range hplaces]
  cases hscore : (placedScores p.config p.metric p.states).lookup i with
  | none => simp [hscore]
  | some value => cases hm : p.members[i]? <;> simp [hscore, hm]

/-- Those without an outcome are left out. -/
theorem stale_recompute :
    p.recompute.1.stale = (p.members.zip p.results).filterMap fun entry =>
      if entry.2.isNone then some entry.1.id else none := by
  have hstale : p.recompute.1.stale = (p.members.zip (p.results.map Option.isNone)).filterMap
      fun entry => if entry.2 then some entry.1.id else none := by
    rw [results, isNone_outcomes, length_states]
    rfl
  rw [hstale, List.zip_map_right, List.filterMap_map]
  rfl

end Population
end Deliberation
