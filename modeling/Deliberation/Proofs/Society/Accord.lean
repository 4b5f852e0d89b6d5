import Deliberation.Proofs.Number.Arithmetic
import Deliberation.Proofs.Society.Reordering
import Mathlib.Tactic.FieldSimp
import Mathlib.Tactic.Positivity

/-!
Rankings of agents that are all alike.

If any two agents have the same distance then no agent stands out. The walk starts with equal shares
and never leaves them, and the scores are equal as well: one divided by the number of agents, in
exact arithmetic.
-/

namespace Deliberation

namespace Ranking

open Extended Reordering

variable {K : Type} [Field K] [LinearOrder K] [IsStrictOrderedRing K] {ι : Type} {names : List ι}

/-- Equal values are scaled to equal parts of one. -/
theorem normalize_const (hne : names ≠ []) {c : K} (hc : 0 ≤ c) :
    normalize (names.map fun _ => number c) =
      names.map fun _ => number (1 / (names.length : K)) := by
  have hlength : (0 : K) < names.length := Nat.cast_pos.2 (List.length_pos_iff.2 hne)
  have htotal : Scalar.sum ((names.map fun _ => number c).map Scalar.abs) =
      number ((names.length : K) * c) := by
    have habs : (names.map fun _ => number c).map Scalar.abs =
        (List.replicate names.length c).map number := by
      simp [abs_number, abs_of_nonneg hc]
    rw [habs, exactOn.sum, List.sum_replicate, nsmul_eq_mul]
  rw [normalize, htotal]
  split
  · rename_i hpos
    have hpos : 0 < (names.length : K) * c := number_lt.1 hpos
    have hc' : c ≠ 0 := by
      rintro rfl
      simp at hpos
    rw [List.map_map]
    refine List.map_congr_left fun a _ => ?_
    rw [Function.comp_apply, number_div _ hpos.ne']
    congr 1
    field_simp
  · rw [List.map_map, List.length_map, ofCount_eq, one_eq, number_div _ hlength.ne']
    rfl

/-- The row of a name whose distance to all others is the same. -/
theorem normalize_row [DecidableEq ι] (hnodup : names.Nodup) {a : ι} (ha : a ∈ names)
    (hmany : 2 ≤ names.length) {d : K} (hd : 0 < d) :
    normalize (names.map fun b => if b = a then 0 else number d) =
      names.map fun b =>
        if b = a then 0 else number (d / (((names.length - 1 : Nat) : K) * d)) := by
  have hothers : (0 : K) < ((names.length - 1 : Nat) : K) := Nat.cast_pos.2 (by omega)
  have htotal : Scalar.sum ((names.map fun b => if b = a then 0 else number d).map Scalar.abs) =
      number (((names.length - 1 : Nat) : K) * d) := by
    have hperm := (List.map_ite_perm hnodup ha 0 (number d)).map Scalar.abs
    have hlist : (0 :: List.replicate (names.length - 1) (number d)).map Scalar.abs =
        (0 :: List.replicate (names.length - 1) d).map number := by
      simp [zero_eq, abs_number, abs_of_pos hd]
    rw [sum_perm hperm, hlist, exactOn.sum, List.sum_cons, List.sum_replicate,
      nsmul_eq_mul, zero_add]
  have hpos : 0 < ((names.length - 1 : Nat) : K) * d := mul_pos hothers hd
  have htotalPos : (0 : Extended K) < number (((names.length - 1 : Nat) : K) * d) :=
    number_lt.2 hpos
  rw [normalize, htotal, if_pos htotalPos, List.map_map]
  refine List.map_congr_left fun b _ => ?_
  rw [Function.comp_apply]
  split
  · rw [zero_eq, number_div _ hpos.ne', zero_div]
  · rw [number_div _ hpos.ne']

/-- The square that has one value on the diagonal and another one elsewhere. -/
def contrast [DecidableEq ι] {β : Type} (names : List ι) (x y : β) : List (List β) :=
  table names fun a b => if b = a then x else y

theorem transitions_contrast [DecidableEq ι] (hnodup : names.Nodup) (hmany : 2 ≤ names.length)
    {d : K} (hd : 0 < d) (epsilon x : Extended K) :
    transitions epsilon (contrast names x (number d)) =
      contrast names epsilon (number (d / (((names.length - 1 : Nat) : K) * d))) := by
  have hupdate : ∀ (a : ι) (u v w : Extended K),
      Function.update (fun b => if b = a then u else v) a w = fun b => if b = a then w else v := by
    intro a u v w
    funext b
    rw [Function.update_apply]
    split <;> rfl
  have hrow : ∀ a ∈ names,
      normalize (names.map (Function.update (fun b => if b = a then x else number d) a 0)) =
        names.map fun b =>
          if b = a then 0 else number (d / (((names.length - 1 : Nat) : K) * d)) := by
    intro a ha
    rw [hupdate]
    exact normalize_row hnodup ha hmany hd
  rw [contrast, transitions_table hnodup hrow]
  simp only [hupdate]
  rfl

/-- Equal shares stay equal. -/
theorem advance_contrast [DecidableEq ι] (hnodup : names.Nodup) (hne : names ≠ []) {w e t : K}
    (hw : 0 ≤ w) (he : 0 ≤ e) (ht : 0 ≤ t) :
    advance (contrast names (number e) (number t)) (names.map fun _ => number w) =
      names.map fun _ => number (1 / (names.length : K)) := by
  have hcolumn : ∀ b ∈ names,
      (names.map fun a => number w * if b = a then number e else number t).foldl (· + ·) 0 =
        number (w * e + ((names.length - 1 : Nat) : K) * (w * t)) := by
    -- One share stays at the name and the others come from elsewhere, whichever name it is.
    intro b hb
    have hentries : (names.map fun a => number w * if b = a then number e else number t) =
        names.map fun a => if a = b then number (w * e) else number (w * t) := by
      refine List.map_congr_left fun a _ => ?_
      simp only [mul_ite, number_mul, eq_comm]
    have hlist : number (w * e) :: List.replicate (names.length - 1) (number (w * t)) =
        ((w * e) :: List.replicate (names.length - 1) (w * t)).map number := by simp
    rw [hentries, (List.map_ite_perm hnodup hb _ _).foldl_op_eq, hlist, zero_eq, exactOn.foldl_add,
      List.sum_cons, List.sum_replicate, nsmul_eq_mul, zero_add]
  rw [contrast, advance_table, List.map_congr_left hcolumn]
  exact normalize_const hne (by positivity)

theorem walk_contrast [DecidableEq ι] (hnodup : names.Nodup) (hne : names ≠ []) {e t : K}
    (he : 0 ≤ e) (ht : 0 ≤ t) (tolerance : Option (Extended K)) (steps : Nat) :
    walk (contrast names (number e) (number t)) tolerance steps
        (names.map fun _ => number (1 / (names.length : K))) =
      names.map fun _ => number (1 / (names.length : K)) := by
  have hnext := advance_contrast hnodup hne (w := 1 / (names.length : K)) (by positivity) he ht
  induction steps with
  | zero => rfl
  | succ n ih =>
      rw [walk_succ, hnext, ih, ite_self]

theorem stationary_contrast [DecidableEq ι] (hnodup : names.Nodup) (hne : names ≠ []) {e t : K}
    (he : 0 ≤ e) (ht : 0 ≤ t) (algorithm : Algorithm (Extended K)) :
    stationary algorithm (contrast names (number e) (number t)) =
      names.map fun _ => number (1 / (names.length : K)) := by
  have hlength : (names.length : K) ≠ 0 := by simpa using hne
  have hstart : (contrast names (number e) (number t)).map (fun _ =>
      (1 : Extended K) / Scalar.ofCount (contrast names (number e) (number t)).length) =
        names.map fun _ => number (1 / (names.length : K)) := by
    rw [contrast, table, List.map_map, List.length_map, ofCount_eq, one_eq, number_div _ hlength]
    rfl
  cases algorithm with
  | fixPoint iterations =>
      rw [stationary, hstart]
      exact walk_contrast hnodup hne he ht none iterations
  | converge tolerance maxIterations =>
      rw [stationary, hstart]
      exact walk_contrast hnodup hne he ht (some tolerance) maxIterations

omit [IsStrictOrderedRing K] in
/-- The chance of staying is a positive number. -/
theorem epsilon_of_validate {config : ConsistencyConfig (Extended K)}
    (hconfig : config.validate = .ok ()) : ∃ e : K, 0 < e ∧ config.epsilon = number e := by
  have hrange : 0 < config.epsilon ∧ config.epsilon < 1 := by
    by_contra hout
    rw [ConsistencyConfig.validate, if_neg hout] at hconfig
    simp at hconfig
  rcases hepsilon : config.epsilon with e | (_ | _) | _ <;> rw [hepsilon] at hrange
  · exact ⟨e, number_lt.1 hrange.1, rfl⟩
  · exact absurd hrange.2 Bool.false_ne_true
  · exact absurd hrange.1 Bool.false_ne_true
  · exact absurd hrange.1 Bool.false_ne_true

/-- If no two agents differ, or all do to the same degree, the shares are equal. -/
theorem shares_contrast [DecidableEq ι] (hnodup : names.Nodup) (hmany : 2 ≤ names.length)
    {config : ConsistencyConfig (Extended K)} (hconfig : config.validate = .ok ()) {d : K}
    (hd : 0 ≤ d) :
    ∃ c : K, c ≤ 1 ∧
      shares config (contrast names 0 (number d)) = names.map fun _ => number c := by
  have hne : names ≠ [] := List.ne_nil_of_length_pos (by omega)
  cases hagrees : agrees (contrast names 0 (number d)) with
  | true =>
      refine ⟨0, zero_le_one, ?_⟩
      rw [shares, if_pos hagrees, contrast, table, List.map_map]
      rfl
  | false =>
      -- At distance zero all would agree.
      have hpos : 0 < d := by
        refine lt_of_le_of_ne hd fun hzero => ?_
        have hall : agrees (contrast names 0 (number d)) = true := by
          refine (agrees_table hnodup _).2 fun a _ b _ hab => ?_
          rw [if_neg hab.symm, ← hzero]
          exact decide_eq_true rfl
        rw [hagrees] at hall
        exact Bool.false_ne_true hall
      obtain ⟨e, he, hepsilon⟩ := epsilon_of_validate hconfig
      refine ⟨1 / (names.length : K), ?_, ?_⟩
      · rw [div_le_one₀ (Nat.cast_pos.2 (by omega))]
        exact Nat.one_le_cast.2 (by omega)
      · rw [shares, hagrees, hepsilon, transitions_contrast hnodup hmany hpos]
        exact stationary_contrast hnodup hne he.le (by positivity) _

/-- Agents of which any two have the same distance have the same score. -/
theorem scores_contrast [DecidableEq ι] (hnodup : names.Nodup)
    {config : ConsistencyConfig (Extended K)} (hconfig : config.validate = .ok ()) {d : K}
    (hd : 0 ≤ d) :
    scores config (contrast names 0 (number d)) =
      names.map fun _ => number (1 / (names.length : K)) := by
  rcases Nat.lt_or_ge names.length 2 with hfew | hmany
  · rcases names with _ | ⟨a, _ | ⟨b, rest⟩⟩
    · rfl
    · simp [contrast, table, scores, one_eq]
    · simp only [List.length_cons] at hfew
      omega
  · have hne : names ≠ [] := List.ne_nil_of_length_pos (by omega)
    have hlength : 2 ≤ (contrast names 0 (number d)).length := by
      rwa [contrast, table, List.length_map]
    obtain ⟨c, hc, hshares⟩ := shares_contrast hnodup hmany hconfig hd
    have hrest : (names.map fun _ => number c).map (1 - ·) = names.map fun _ => number (1 - c) := by
      rw [List.map_map]
      exact List.map_congr_left fun _ _ => number_sub 1 c
    rw [scores_of_two_le config hlength, hshares, hrest]
    exact normalize_const hne (sub_nonneg.2 hc)

end Ranking

/-! ### Statistics of equal values -/

namespace RunningStatistics

open Extended

variable {K : Type} [Field K] [LinearOrder K] [IsStrictOrderedRing K]

/-- The mean is a value that none so far deviates from. -/
structure Steady (c : K) (s : RunningStatistics (Extended K)) : Prop where
  mean : s.mean = number c
  squares : s.squares = 0

theorem steady_add_empty (c : K) : (empty.add (number c)).Steady c := by
  have hmean : (empty.add (number c)).mean = number c := by
    have hone : (Scalar.ofCount 1 : Extended K) = number 1 := by simp [ofCount_eq]
    simp [add, empty, zero_eq, hone, number_sub, number_add, number_div]
  refine ⟨hmean, ?_⟩
  have hsquares : (empty.add (number c)).squares =
      0 + (number c - 0) * (number c - (empty.add (number c)).mean) := rfl
  rw [hsquares, hmean, zero_eq, number_sub, number_sub, number_mul, number_add]
  simp

theorem Steady.add {c : K} {s : RunningStatistics (Extended K)} (h : s.Steady c) :
    (s.add (number c)).Steady c := by
  have hcount : ((s.count + 1 : Nat) : K) ≠ 0 := Nat.cast_ne_zero.2 (Nat.succ_ne_zero _)
  have hmean : (s.add (number c)).mean = number c := by
    have hdef : (s.add (number c)).mean =
        s.mean + (number c - s.mean) / Scalar.ofCount (s.count + 1) := rfl
    rw [hdef, h.mean, number_sub, ofCount_eq, number_div _ hcount, number_add, sub_self, zero_div,
      add_zero]
  refine ⟨hmean, ?_⟩
  have hsquares : (s.add (number c)).squares =
      s.squares + (number c - s.mean) * (number c - (s.add (number c)).mean) := rfl
  rw [hsquares, hmean, h.mean, h.squares, zero_eq, number_sub, number_mul, number_add, sub_self,
    mul_zero, add_zero]

theorem Steady.addAll {c : K} {s : RunningStatistics (Extended K)} (h : s.Steady c) (n : Nat) :
    (s.addAll (List.replicate n (number c))).Steady c := by
  induction n generalizing s with
  | zero => exact h
  | succ n ih => exact ih h.add

theorem Steady.variance {c : K} {s : RunningStatistics (Extended K)} (h : s.Steady c) :
    s.variance = 0 := by
  rw [RunningStatistics.variance]
  split
  · rfl
  · have hcount : ((s.count - 1 : Nat) : K) ≠ 0 := Nat.cast_ne_zero.2 (by omega)
    rw [h.squares, zero_eq, ofCount_eq, number_div _ hcount, zero_div]
    exact ite_self _

/-- Equal values have no variance. -/
theorem variance_const (c : K) (n : Nat) :
    (ofList (List.replicate n (number c))).variance = 0 := by
  cases n with
  | zero => rfl
  | succ n => exact ((steady_add_empty c).addAll n).variance

end RunningStatistics
end Deliberation
