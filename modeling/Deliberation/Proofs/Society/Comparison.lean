import Deliberation.Society.Population
import Mathlib.Data.List.Nodup

/-!
The comparison of each two states.

The rows of distances have one entry for each two places, the earlier one first. The failed pairs
are the places whose states cannot be compared, each pair once. If the metric does not tell its two
sides apart, the order of the places does not matter either.
-/

namespace Deliberation

variable {α : Type}

/-- The two sides of a comparison make no difference, not even to whether it fails. -/
def Metric.IsSymmetric (metric : Metric α) : Prop :=
  ∀ left right, (metric.distance left right).toOption = (metric.distance right left).toOption

namespace Population

variable [Scalar α] {metric : Metric α} {states : List (List Literal)} {i j : Nat}
  {left right : List Literal}

theorem distance?_eq (metric : Metric α) (left right : List Literal) :
    distance? metric left right = (metric.distance left right).toOption.bind fun d =>
      if Scalar.isFinite d then some (Scalar.larger d 0) else none := by
  rw [distance?]
  cases metric.distance left right <;> rfl

theorem distance?_comm (hsymm : metric.IsSymmetric) (left right : List Literal) :
    distance? metric left right = distance? metric right left := by
  rw [distance?_eq, distance?_eq, hsymm]

/-! ### Rows by places -/

theorem upperRows_getElem? (metric : Metric α) (states : List (List Literal)) (i : Nat) :
    (upperRows metric states)[i]? =
      states[i]?.map fun state => rowAfter metric state (states.drop (i + 1)) := by
  induction states generalizing i with
  | nil => rfl
  | cons state later ih =>
      cases i with
      | zero => rfl
      | succ k =>
          rw [upperRows, List.getElem?_cons_succ, ih, List.getElem?_cons_succ, List.drop_succ_cons]

/-- A cell of the rows is the distance of the states at two places. -/
theorem upperRows_cell_iff (metric : Metric α) {k : Nat} {d : Option α} :
    ((upperRows metric states)[i]?.bind fun row => row[k]?) = some d ↔
      ∃ left right, states[i]? = some left ∧ states[i + k + 1]? = some right ∧
        distance? metric left right = d := by
  have hplace : i + 1 + k = i + k + 1 := by omega
  rw [upperRows_getElem?]
  cases states[i]? with
  | none => simp
  | some left =>
      simp [rowAfter, List.getElem?_map, List.getElem?_drop, hplace]

theorem entry_comm (rows : List (List (Option α))) (i j : Nat) :
    entry rows i j = entry rows j i := by
  simp only [entry, eq_comm (a := i), Nat.min_comm i, Nat.max_comm i]

/-- The entry for two places is the distance of their states, the earlier one first. -/
theorem entry_of_lt (hlt : i < j) (hleft : states[i]? = some left)
    (hright : states[j]? = some right) :
    entry (upperRows metric states) i j = distance? metric left right := by
  have hplace : i + (j - i - 1) + 1 = j := by omega
  have hcell := (upperRows_cell_iff metric).2 ⟨left, right, hleft, hplace.symm ▸ hright, rfl⟩
  rw [entry, if_neg (Nat.ne_of_lt hlt), Nat.min_eq_left (Nat.le_of_lt hlt),
    Nat.max_eq_right (Nat.le_of_lt hlt), hcell, Option.join_some]

/-- The entry for two places is the distance of their states, whichever is the earlier one. -/
theorem entry_upperRows (hsymm : metric.IsSymmetric) (hne : i ≠ j)
    (hleft : states[i]? = some left) (hright : states[j]? = some right) :
    entry (upperRows metric states) i j = distance? metric left right := by
  rcases Nat.lt_or_gt_of_ne hne with hlt | hgt
  · exact entry_of_lt hlt hleft hright
  · rw [entry_comm, entry_of_lt hgt hright hleft, distance?_comm hsymm]

/-! ### Failed pairs -/

omit [Scalar α] in
theorem mem_failedPairs_iff {rows : List (List (Option α))} :
    (i, j) ∈ failedPairs rows ↔
      ∃ k, j = i + k + 1 ∧ (rows[i]?.bind fun row => row[k]?) = some none := by
  simp only [failedPairs, List.mem_flatMap, List.mem_filterMap, Prod.exists,
    List.mem_zipIdx_iff_getElem?, Option.ite_none_right_eq_some, Option.isNone_iff_eq_none,
    Option.some.injEq, Prod.mk.injEq, Option.bind_eq_some_iff]
  constructor
  · rintro ⟨row, _, hrow, d, k, hd, rfl, rfl, rfl⟩
    exact ⟨k, rfl, row, hrow, hd⟩
  · rintro ⟨k, rfl, row, hrow, hd⟩
    exact ⟨row, i, hrow, none, k, hd, rfl, rfl, rfl⟩

/-- A pair fails if its states cannot be compared. -/
theorem mem_failedPairs_upperRows_iff :
    (i, j) ∈ failedPairs (upperRows metric states) ↔ i < j ∧ ∃ left right,
      states[i]? = some left ∧ states[j]? = some right ∧ distance? metric left right = none := by
  rw [mem_failedPairs_iff]
  constructor
  · rintro ⟨k, rfl, hcell⟩
    exact ⟨by omega, (upperRows_cell_iff metric).1 hcell⟩
  · rintro ⟨hlt, hstates⟩
    obtain ⟨k, rfl⟩ := Nat.exists_eq_add_of_lt hlt
    exact ⟨k, rfl, (upperRows_cell_iff metric).2 hstates⟩

omit [Scalar α] in
/-- No pair is listed twice. -/
theorem nodup_failedPairs (rows : List (List (Option α))) : (failedPairs rows).Nodup := by
  have hplaces : (rows.zipIdx.map (·.2)).Nodup := by
    rw [List.zipIdx_map_snd]
    exact List.nodup_range'
  rw [failedPairs, List.nodup_flatMap]
  constructor
  · rintro ⟨row, i⟩ -
    have hcells : row.zipIdx.Nodup := by
      refine List.Nodup.of_map (·.2) ?_
      rw [List.zipIdx_map_snd]
      exact List.nodup_range'
    refine hcells.filterMap ?_
    rintro ⟨d, k⟩ ⟨d', k'⟩ pair hpair hpair'
    simp only [Option.mem_def, Option.ite_none_right_eq_some, Option.some.injEq,
      Option.isNone_iff_eq_none] at hpair hpair'
    obtain ⟨rfl, rfl⟩ := hpair
    obtain ⟨rfl, hpair'⟩ := hpair'
    have hk : k' + 1 = k + 1 := by simpa [Nat.add_assoc] using hpair'
    rw [Nat.succ.inj hk]
  · refine (List.pairwise_map.1 hplaces).imp ?_
    rintro ⟨row, i⟩ ⟨row', i'⟩ hne pair hpair hpair'
    simp only [List.mem_filterMap, Prod.exists, Option.ite_none_right_eq_some,
      Option.some.injEq] at hpair hpair'
    obtain ⟨_, _, _, _, rfl⟩ := hpair
    obtain ⟨_, _, _, _, hpair'⟩ := hpair'
    exact hne (Prod.mk.inj hpair').1.symm

end Population
end Deliberation
