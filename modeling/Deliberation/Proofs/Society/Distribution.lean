import Deliberation.Proofs.Number.Arithmetic
import Deliberation.Proofs.Society.Reordering
import Mathlib.Algebra.BigOperators.Field
import Mathlib.Algebra.BigOperators.Fin
import Mathlib.Algebra.Order.BigOperators.Group.Finset
import Mathlib.Tactic.NormNum

/-!
Scores are a distribution.

A list of numbers that are not below zero is scaled to parts of one, whatever the numbers are. So
the walk goes from one distribution to the next, and the scores are a distribution again. Nothing
but counts and sums that are not zero is ever divided by: every exact arithmetic gives the same
scores, whatever it makes of a quotient by zero.
-/

namespace Deliberation

section Maps

variable {β γ : Type}

def Algorithm.map (f : β → γ) : Algorithm β → Algorithm γ
  | .fixPoint iterations => .fixPoint iterations
  | .converge tolerance maxIterations => .converge (f tolerance) maxIterations

def ConsistencyConfig.map (f : β → γ) (config : ConsistencyConfig β) : ConsistencyConfig γ :=
  ⟨config.algorithm.map f, f config.epsilon⟩

/-- The number of steps that are not exceeded. -/
def Algorithm.limit : Algorithm β → Nat
  | .fixPoint iterations => iterations
  | .converge _ maxIterations => maxIterations

/-- The change at which the walk may end early. -/
def Algorithm.tolerance? : Algorithm β → Option β
  | .fixPoint _ => none
  | .converge tolerance _ => some tolerance

end Maps

namespace Ranking

open Reordering

variable {n : Nat} {K : Type} [Field K] [LinearOrder K]

/-! ### Vectors of numbers -/

section Scalars

variable {α : Type} [Scalar α] {number : K → α}

/-- The scalars that stand for the numbers of a vector. -/
def scalars (number : K → α) (v : Fin n → K) : List α :=
  (List.finRange n).map fun i => number (v i)

/-- The rows of scalars that stand for the numbers of a square. -/
def scalarTable (number : K → α) (d : Fin n → Fin n → K) : List (List α) :=
  table (List.finRange n) fun i j => number (d i j)

theorem sum_scalars (hexact : Scalar.ExactOn number) (v : Fin n → K) :
    Scalar.sum (scalars number v) = number (∑ i, v i) := by
  have hlist : scalars number v = ((List.finRange n).map v).map number := List.map_map.symm
  rw [hlist, hexact.sum, Fin.sum_univ_def]

theorem foldl_scalars (hexact : Scalar.ExactOn number) (v : Fin n → K) :
    (scalars number v).foldl (· + ·) 0 = number (∑ i, v i) := by
  have hlist : scalars number v = ((List.finRange n).map v).map number := List.map_map.symm
  rw [hlist, hexact.zero, hexact.foldl_add, zero_add, Fin.sum_univ_def]

theorem abs_scalars (hexact : Scalar.ExactOn number) (v : Fin n → K) :
    (scalars number v).map Scalar.abs = scalars number fun i => |v i| := by
  rw [scalars, List.map_map]
  exact List.map_congr_left fun i _ => hexact.abs (v i)

end Scalars

/-! ### Scaling -/

/-- Numbers that are not below zero and sum to one. -/
structure IsDistribution (v : Fin n → K) : Prop where
  nonneg : ∀ i, 0 ≤ v i
  sum_eq : ∑ i, v i = 1

/-- The numbers in the proportion of some others, or all equal if the others are zero. -/
def scaled (v : Fin n → K) : Fin n → K :=
  if 0 < ∑ i, v i then fun i => v i / ∑ j, v j else fun _ => 1 / n

variable [IsStrictOrderedRing K] {v : Fin n → K}

theorem isDistribution_equal (hn : 0 < n) : IsDistribution fun _ : Fin n => (1 : K) / n := by
  have hcount : (n : K) ≠ 0 := Nat.cast_ne_zero.2 hn.ne'
  refine ⟨fun _ => div_nonneg zero_le_one (Nat.cast_nonneg n), ?_⟩
  rw [Finset.sum_const, Finset.card_univ, Fintype.card_fin, nsmul_eq_mul, mul_one_div_cancel hcount]

theorem isDistribution_scaled (hn : 0 < n) (hv : ∀ i, 0 ≤ v i) : IsDistribution (scaled v) := by
  rw [scaled]
  split
  · rename_i hpos
    refine ⟨fun i => div_nonneg (hv i) hpos.le, ?_⟩
    rw [← Finset.sum_div, div_self hpos.ne']
  · exact isDistribution_equal hn

section Scalars

variable {α : Type} [Scalar α] {number : K → α}

/-- The only divisors are a sum that is not zero and the number of values there are. -/
theorem normalize_scalars (hexact : Scalar.ExactOn number) (hv : ∀ i, 0 ≤ v i) :
    normalize (scalars number v) = scalars number (scaled v) := by
  have habs : (fun i => |v i|) = v := funext fun i => abs_of_nonneg (hv i)
  have htotal : Scalar.sum ((scalars number v).map Scalar.abs) = number (∑ i, v i) := by
    rw [abs_scalars hexact, habs, sum_scalars hexact]
  simp only [normalize, htotal, hexact.zero, hexact.lt_iff, scaled]
  split
  · rename_i hpos
    rw [scalars, List.map_map]
    exact List.map_congr_left fun i _ => hexact.div _ _ hpos.ne'
  · rw [scalars, List.map_map, List.length_map, List.length_finRange]
    refine List.map_congr_left fun i _ => ?_
    have hcount : (n : K) ≠ 0 := Nat.cast_ne_zero.2 (Nat.ne_of_gt i.pos)
    rw [Function.comp_apply, hexact.ofCount, hexact.one, hexact.div _ _ hcount]

end Scalars

/-! ### The walk -/

/-- The chances of a step between places at these distances. -/
def chances (epsilon : K) (d : Fin n → Fin n → K) (i : Fin n) : Fin n → K :=
  Function.update (scaled (Function.update (d i) i 0)) i epsilon

/-- The distribution after a step. -/
def stepped (c : Fin n → Fin n → K) (v : Fin n → K) : Fin n → K :=
  scaled fun j => ∑ i, v i * c i j

/-- The distribution after some steps, from equal shares on. -/
def visits (c : Fin n → Fin n → K) : Nat → Fin n → K
  | 0 => fun _ => 1 / n
  | k + 1 => stepped c (visits c k)

variable {epsilon : K} {d c : Fin n → Fin n → K}

omit [IsStrictOrderedRing K] in
theorem update_nonneg (hv : ∀ i, 0 ≤ v i) {x : K} (hx : 0 ≤ x) (i j : Fin n) :
    0 ≤ Function.update v i x j := by
  rw [Function.update_apply]
  split
  · exact hx
  · exact hv j

theorem chances_nonneg (hd : ∀ i j, 0 ≤ d i j) (hepsilon : 0 ≤ epsilon) (i j : Fin n) :
    0 ≤ chances epsilon d i j :=
  update_nonneg (isDistribution_scaled i.pos (update_nonneg (hd i) le_rfl i)).nonneg hepsilon i j

theorem isDistribution_visits (hn : 0 < n) (hc : ∀ i j, 0 ≤ c i j) (k : Nat) :
    IsDistribution (visits c k) := by
  induction k with
  | zero => exact isDistribution_equal hn
  | succ k ih =>
      exact isDistribution_scaled hn fun j =>
        Finset.sum_nonneg fun i _ => mul_nonneg (ih.nonneg i) (hc i j)

section Scalars

variable {α : Type} [Scalar α] {number : K → α}

/-- The distributions that the walk comes to, from equal shares on. -/
def visited (matrix : List (List α)) : Nat → List α
  | 0 => matrix.map fun _ => 1 / Scalar.ofCount matrix.length
  | k + 1 => advance matrix (visited matrix k)

theorem transitions_scalarTable (hexact : Scalar.ExactOn number) (hd : ∀ i j, 0 ≤ d i j)
    (epsilon : K) :
    transitions (number epsilon) (scalarTable number d) =
      scalarTable number (chances epsilon d) := by
  have hrow : ∀ i ∈ List.finRange n,
      normalize ((List.finRange n).map (Function.update (fun j => number (d i j)) i 0)) =
        (List.finRange n).map fun j => number (scaled (Function.update (d i) i 0) j) := by
    intro i _
    have hupdate : Function.update (fun j => number (d i j)) i 0 =
        fun j => number (Function.update (d i) i 0 j) := by
      rw [hexact.zero]
      exact (Function.comp_update number (d i) i 0).symm
    rw [hupdate]
    exact normalize_scalars hexact (update_nonneg (hd i) le_rfl i)
  rw [scalarTable, transitions_table (List.nodup_finRange n) hrow]
  refine congrArg (table (List.finRange n)) (funext fun i => ?_)
  exact (Function.comp_update number _ i epsilon).symm

theorem advance_scalars (hexact : Scalar.ExactOn number) (hc : ∀ i j, 0 ≤ c i j)
    (hv : ∀ i, 0 ≤ v i) :
    advance (scalarTable number c) (scalars number v) = scalars number (stepped c v) := by
  have hcolumn (j : Fin n) :
      ((List.finRange n).map fun i => number (v i) * number (c i j)).foldl (· + ·) 0 =
        number (∑ i, v i * c i j) := by
    simp only [hexact.mul]
    exact foldl_scalars hexact fun i => v i * c i j
  rw [scalarTable, scalars, advance_table]
  simp only [hcolumn]
  exact normalize_scalars hexact fun j => Finset.sum_nonneg fun i _ => mul_nonneg (hv i) (hc i j)

theorem visited_scalarTable (hexact : Scalar.ExactOn number) (hn : 0 < n) (hc : ∀ i j, 0 ≤ c i j)
    (k : Nat) : visited (scalarTable number c) k = scalars number (visits c k) := by
  induction k with
  | zero =>
      have hcount : (n : K) ≠ 0 := Nat.cast_ne_zero.2 hn.ne'
      rw [visited, scalarTable, table, List.map_map, List.length_map, List.length_finRange,
        hexact.ofCount, hexact.one, hexact.div _ _ hcount]
      rfl
  | succ k ih =>
      rw [visited, ih]
      exact advance_scalars hexact hc (isDistribution_visits hn hc k).nonneg

omit [IsStrictOrderedRing K] in
theorem change_scalars (hexact : Scalar.ExactOn number) (v w : Fin n → K) :
    change (scalars number v) (scalars number w) = number (∑ i, |v i - w i|) := by
  rw [change, scalars, scalars, List.zipWith_map, List.zipWith_self]
  simp only [hexact.sub, hexact.abs]
  exact sum_scalars hexact fun i => |v i - w i|

theorem walk_visited_succ (matrix : List (List α)) (tolerance : Option α) (steps k : Nat) :
    walk matrix tolerance (steps + 1) (visited matrix k) =
      if tolerance.any fun t => decide (change (visited matrix (k + 1)) (visited matrix k) < t) then
        visited matrix (k + 1)
      else walk matrix tolerance steps (visited matrix (k + 1)) :=
  walk_succ matrix tolerance steps (visited matrix k)

theorem stationary_eq (algorithm : Algorithm α) (matrix : List (List α)) :
    stationary algorithm matrix =
      walk matrix algorithm.tolerance? algorithm.limit (visited matrix 0) := by
  cases algorithm <;> rfl

end Scalars

/-- The walk ends at one of the distributions that it comes to, in every exact arithmetic at the
same one. -/
theorem exists_walk (hn : 0 < n) (hc : ∀ i j, 0 ≤ c i j) (tolerance : Option K) (steps k : Nat) :
    ∃ j ≤ steps, ∀ (α : Type) [Scalar α] (number : K → α), Scalar.ExactOn number →
      walk (scalarTable number c) (tolerance.map number) steps (visited (scalarTable number c) k) =
        visited (scalarTable number c) (k + j) := by
  induction steps generalizing k with
  | zero => exact ⟨0, le_rfl, fun _ _ _ _ => rfl⟩
  | succ steps ih =>
      let settled : Bool :=
        tolerance.any fun t => decide (∑ i, |visits c (k + 1) i - visits c k i| < t)
      have hstep (α : Type) [Scalar α] (number : K → α) (hexact : Scalar.ExactOn number) :
          walk (scalarTable number c) (tolerance.map number) (steps + 1)
              (visited (scalarTable number c) k) =
            if settled then visited (scalarTable number c) (k + 1)
            else walk (scalarTable number c) (tolerance.map number) steps
              (visited (scalarTable number c) (k + 1)) := by
        have hchange : change (visited (scalarTable number c) (k + 1))
            (visited (scalarTable number c) k) =
              number (∑ i, |visits c (k + 1) i - visits c k i|) := by
          rw [visited_scalarTable hexact hn hc, visited_scalarTable hexact hn hc,
            change_scalars hexact]
        rw [walk_visited_succ]
        simp only [hchange, Option.any_map, hexact.lt_iff]
        rfl
      cases hsettled : settled with
      | true =>
          refine ⟨1, by omega, fun α _ number hexact => ?_⟩
          rw [hstep α number hexact, hsettled]
          rfl
      | false =>
          obtain ⟨j, hj, hwalk⟩ := ih (k + 1)
          refine ⟨j + 1, by omega, fun α _ number hexact => ?_⟩
          rw [hstep α number hexact, hsettled, Nat.add_comm j, ← Nat.add_assoc]
          exact hwalk α number hexact

theorem exists_stationary (hn : 0 < n) (hc : ∀ i j, 0 ≤ c i j) (algorithm : Algorithm K) :
    ∃ last ≤ algorithm.limit, ∀ (α : Type) [Scalar α] (number : K → α), Scalar.ExactOn number →
      stationary (algorithm.map number) (scalarTable number c) =
        visited (scalarTable number c) last := by
  obtain ⟨last, hlast, hwalk⟩ := exists_walk hn hc algorithm.tolerance? algorithm.limit 0
  refine ⟨last, hlast, fun α _ number hexact => ?_⟩
  have hlimit : (algorithm.map number).limit = algorithm.limit := by cases algorithm <;> rfl
  have htolerance : (algorithm.map number).tolerance? = algorithm.tolerance?.map number := by
    cases algorithm <;> rfl
  rw [stationary_eq, hlimit, htolerance, hwalk α number hexact, Nat.zero_add]

/-! ### The scores -/

omit [IsStrictOrderedRing K] in
theorem agrees_scalarTable {α : Type} [Scalar α] {number : K → α}
    (hexact : Scalar.ExactOn number) :
    agrees (scalarTable number d) = true ↔ ∀ i j, i ≠ j → d i j = 0 := by
  simp [scalarTable, agrees_table (List.nodup_finRange n), hexact.zero, hexact.beq_iff]

/-- The shares are a distribution, or all zero if all agree. -/
theorem exists_shares (hn : 0 < n) (hd : ∀ i j, 0 ≤ d i j) (config : ConsistencyConfig K)
    (hepsilon : 0 ≤ config.epsilon) :
    ∃ v : Fin n → K, (∀ i, 0 ≤ v i) ∧ ∑ i, v i ≤ 1 ∧
      ∀ (α : Type) [Scalar α] (number : K → α), Scalar.ExactOn number →
        shares (config.map number) (scalarTable number d) = scalars number v := by
  by_cases hagrees : ∀ i j, i ≠ j → d i j = 0
  · refine ⟨fun _ => 0, fun _ => le_rfl, by simp, fun α _ number hexact => ?_⟩
    rw [shares, if_pos ((agrees_scalarTable hexact).2 hagrees), hexact.zero]
    rw [scalarTable, table, List.map_map]
    rfl
  · have hc := chances_nonneg hd hepsilon
    obtain ⟨last, _, hstationary⟩ := exists_stationary hn hc config.algorithm
    have hvisits := isDistribution_visits hn hc last
    refine ⟨visits (chances config.epsilon d) last, hvisits.nonneg, hvisits.sum_eq.le,
      fun α _ number hexact => ?_⟩
    rw [shares, if_neg (mt (agrees_scalarTable hexact).1 hagrees), ConsistencyConfig.map,
      transitions_scalarTable hexact hd, hstationary α number hexact,
      visited_scalarTable hexact hn hc]

/-- What is left of one, scaled. With two places or more each is a part of at least all but one. -/
theorem inverted_le (hmany : 2 ≤ n) (hv : ∀ i, 0 ≤ v i) (hsum : ∑ i, v i ≤ 1) (i : Fin n) :
    scaled (fun i => 1 - v i) i ≤ 1 / ((n : K) - 1) := by
  have hothers : 0 < (n : K) - 1 := sub_pos.2 (Nat.one_lt_cast.2 hmany)
  have htotal : ∑ i, (1 - v i) = n - ∑ i, v i := by simp
  have hle : (n : K) - 1 ≤ ∑ i, (1 - v i) := by
    rw [htotal]
    exact sub_le_sub_left hsum _
  rw [scaled, if_pos (hothers.trans_le hle)]
  exact div_le_div₀ zero_le_one (sub_le_self 1 (hv i)) hothers hle

theorem exists_scores (hn : 0 < n) (hd : ∀ i j, 0 ≤ d i j) (config : ConsistencyConfig K)
    (hepsilon : 0 ≤ config.epsilon) :
    ∃ v : Fin n → K, IsDistribution v ∧ (2 ≤ n → ∀ i, v i ≤ 1 / ((n : K) - 1)) ∧
      ∀ (α : Type) [Scalar α] (number : K → α), Scalar.ExactOn number →
        scores (config.map number) (scalarTable number d) = scalars number v := by
  rcases Nat.lt_or_ge n 2 with hfew | hmany
  · obtain rfl : n = 1 := by omega
    refine ⟨fun _ => 1, ⟨fun _ => zero_le_one, by simp⟩, by omega, fun α _ number hexact => ?_⟩
    exact congrArg (fun x => [x]) hexact.one
  · obtain ⟨v, hnonneg, hsum, hshares⟩ := exists_shares hn hd config hepsilon
    have hrest (i : Fin n) : 0 ≤ 1 - v i := by
      rw [sub_nonneg]
      exact (Finset.single_le_sum (fun j _ => hnonneg j) (Finset.mem_univ i)).trans hsum
    refine ⟨scaled fun i => 1 - v i, isDistribution_scaled hn hrest,
      fun _ => inverted_le hmany hnonneg hsum, fun α _ number hexact => ?_⟩
    have hlength : 2 ≤ (scalarTable number d).length := by simpa [scalarTable, table] using hmany
    have hinverted : (scalars number v).map (1 - ·) = scalars number fun i => 1 - v i := by
      rw [scalars, List.map_map, hexact.one]
      exact List.map_congr_left fun i _ => hexact.sub 1 (v i)
    rw [scores_of_two_le _ hlength, hshares α number hexact, hinverted,
      normalize_scalars hexact hrest]

/-- For any distances between places that are not below zero, the scores are not below zero and sum
to one, and with two places or more none is above one divided by the number of the others. The walk
starts with a distribution, comes from one to the next, and ends at one of them. All of these
numbers are the same in every exact arithmetic, so none of them comes from a quotient by zero. -/
theorem scores_isDistribution (hn : 1 ≤ n) (distances : Fin n → Fin n → K)
    (hdistances : ∀ i j, 0 ≤ distances i j) (config : ConsistencyConfig K)
    (hepsilon : 0 ≤ config.epsilon) :
    ∃ (result : Fin n → K) (visit : Nat → Fin n → K) (last : Nat),
      IsDistribution result ∧ (2 ≤ n → ∀ i, result i ≤ 1 / ((n : K) - 1)) ∧
      (∀ k, IsDistribution (visit k)) ∧ last ≤ config.algorithm.limit ∧
      ∀ (α : Type) [Scalar α] (number : K → α), Scalar.ExactOn number →
        let matrix := scalarTable number distances
        let steps := transitions (number config.epsilon) matrix
        scores (config.map number) matrix = scalars number result ∧
          (∀ k, visited steps k = scalars number (visit k)) ∧
          stationary (config.algorithm.map number) steps = visited steps last := by
  have hc := chances_nonneg hdistances hepsilon
  obtain ⟨result, hresult, hbound, hscores⟩ := exists_scores hn hdistances config hepsilon
  obtain ⟨last, hlast, hstationary⟩ := exists_stationary hn hc config.algorithm
  refine ⟨result, visits (chances config.epsilon distances), last, hresult, hbound,
    isDistribution_visits hn hc, hlast, fun α _ number hexact => ?_⟩
  intro matrix steps
  have hsteps : steps = scalarTable number (chances config.epsilon distances) :=
    transitions_scalarTable hexact hdistances config.epsilon
  rw [hsteps]
  exact ⟨hscores α number hexact, visited_scalarTable hexact hn hc, hstationary α number hexact⟩

/-- Two that differ and a third that agrees with both: its row is zero throughout, and yet the
scores are a distribution, the same with infinities as without. -/
theorem scores_isDistribution_bystander :
    let distances : Fin 3 → Fin 3 → ℚ := fun i j => if i ≠ j ∧ i ≠ 2 ∧ j ≠ 2 then 1 else 0
    let config : ConsistencyConfig ℚ := ⟨.converge (1 / 100) 4, 1 / 1000⟩
    (∀ j, distances 2 j = 0) ∧ (∀ i j, 0 ≤ distances i j) ∧ 0 ≤ config.epsilon ∧
      ∃ result : Fin 3 → ℚ, IsDistribution result ∧ (∀ i, result i ≤ 1 / 2) ∧
        scores (config.map id) (scalarTable id distances) = scalars id result ∧
        scores (config.map Extended.number) (scalarTable .number distances) =
          scalars .number result := by
  intro distances config
  have hdistances : ∀ i j, 0 ≤ distances i j := by decide +kernel
  have hepsilon : 0 ≤ config.epsilon := by norm_num [config]
  obtain ⟨result, _, _, hresult, hbound, _, _, hexact⟩ :=
    scores_isDistribution (by decide) distances hdistances config hepsilon
  have hhalf : ∀ i, result i ≤ 1 / 2 := by
    intro i
    have hle := hbound (by decide) i
    norm_num at hle ⊢
    exact hle
  exact ⟨by decide +kernel, hdistances, hepsilon, result, hresult, hhalf,
    (hexact ℚ id exactOn_rational).1, (hexact (Extended ℚ) .number Extended.exactOn).1⟩

end Ranking
end Deliberation
