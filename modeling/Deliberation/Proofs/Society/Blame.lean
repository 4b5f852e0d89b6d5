import Deliberation.Proofs.Society.Reordering

/-!
Who is left out for the failed pairs.

In each turn those go that take part in the most failed pairs, so every turn does away with a pair
and the turns suffice. How often a name fails is counted over all names, so in any other order of
the names the same ones go, turn by turn.
-/

namespace Deliberation
namespace Ranking

variable {ι : Type}

/-! ### Turns -/

/-- In how many failed pairs a place takes part. -/
def tally (failed : List (Nat × Nat)) (i : Nat) : Nat :=
  failed.countP (fun pair => pair.1 == i) + failed.countP (fun pair => pair.2 == i)

theorem worst_eq (n : Nat) (failed : List (Nat × Nat)) :
    worst n failed = (List.range n).filter fun i =>
      tally failed i == ((List.range n).map (tally failed)).foldl max 0 := by
  rw [worst, List.foldl_map]
  rfl

theorem tally_pos_iff {failed : List (Nat × Nat)} {i : Nat} :
    0 < tally failed i ↔ ∃ pair ∈ failed, pair.1 = i ∨ pair.2 = i := by
  simp only [tally, Nat.add_pos_iff_pos_or_pos, List.countP_pos_iff, beq_iff_eq]
  constructor
  · rintro (⟨pair, hpair, hi⟩ | ⟨pair, hpair, hi⟩)
    · exact ⟨pair, hpair, Or.inl hi⟩
    · exact ⟨pair, hpair, Or.inr hi⟩
  · rintro ⟨pair, hpair, hi | hi⟩
    · exact Or.inl ⟨pair, hpair, hi⟩
    · exact Or.inr ⟨pair, hpair, hi⟩

/-- One of the worst takes part in a failed pair, if there is one. -/
theorem exists_worst {n : Nat} {failed : List (Nat × Nat)} {pair : Nat × Nat}
    (hpair : pair ∈ failed) (hlt : pair.1 < n) :
    ∃ i ∈ worst n failed, 0 < tally failed i := by
  have hcount : tally failed pair.1 ∈ (List.range n).map (tally failed) :=
    List.mem_map_of_mem (List.mem_range.2 hlt)
  have hle : tally failed pair.1 ≤ ((List.range n).map (tally failed)).foldl max 0 := by
    rw [List.foldl_max_zero]
    exact List.le_max?_getD_of_mem hcount
  have hpos : 0 < tally failed pair.1 := tally_pos_iff.2 ⟨pair, hpair, Or.inl rfl⟩
  obtain ⟨most, hmost⟩ := Option.isSome_iff_exists.1 (List.isSome_max?_of_mem hcount)
  obtain ⟨i, hi, htally⟩ := List.mem_map.1 (List.max?_mem hmost)
  rw [List.foldl_max_zero, hmost, Option.getD_some] at hle
  refine ⟨i, ?_, by omega⟩
  rw [worst_eq, List.mem_filter, List.foldl_max_zero, hmost, htally]
  exact ⟨hi, beq_self_eq_true most⟩

/-- The failed pairs that are left when some are out. -/
def remaining (out : List Nat) (failed : List (Nat × Nat)) : List (Nat × Nat) :=
  failed.filter fun pair => !out.contains pair.1 && !out.contains pair.2

theorem blameWithin_succ {failed : List (Nat × Nat)} (hne : failed ≠ []) (n turns : Nat) :
    blameWithin n (turns + 1) failed =
      worst n failed ++ blameWithin n turns (remaining (worst n failed) failed) := by
  rcases failed with _ | ⟨pair, rest⟩
  · exact absurd rfl hne
  · rfl

theorem blameWithin_nil (n turns : Nat) : blameWithin n turns [] = [] := by
  cases turns <;> rfl

theorem length_remaining_lt {n : Nat} {failed : List (Nat × Nat)} (hne : failed ≠ [])
    (hlt : ∀ pair ∈ failed, pair.1 < n) :
    (remaining (worst n failed) failed).length < failed.length := by
  obtain ⟨first, hfirst⟩ := List.exists_mem_of_ne_nil failed hne
  obtain ⟨i, hi, hpos⟩ := exists_worst hfirst (hlt first hfirst)
  obtain ⟨pair, hpair, hend⟩ := tally_pos_iff.1 hpos
  refine List.length_filter_lt_length_iff_exists.2 ⟨pair, hpair, ?_⟩
  rcases hend with rfl | rfl <;> simp [hi]

/-- More turns than there are failed pairs change nothing. -/
theorem blameWithin_of_le {n turns turns' : Nat} {failed : List (Nat × Nat)}
    (hlt : ∀ pair ∈ failed, pair.1 < n) (hturns : failed.length ≤ turns)
    (hturns' : failed.length ≤ turns') :
    blameWithin n turns failed = blameWithin n turns' failed := by
  induction turns generalizing turns' failed with
  | zero =>
      obtain rfl := List.eq_nil_of_length_eq_zero (Nat.le_zero.1 hturns)
      rw [blameWithin_nil, blameWithin_nil]
  | succ t ih =>
      rcases eq_or_ne failed [] with rfl | hne
      · rw [blameWithin_nil, blameWithin_nil]
      · obtain ⟨t', rfl⟩ : ∃ t', turns' = t' + 1 :=
          Nat.exists_eq_add_one.2 (Nat.lt_of_lt_of_le (List.length_pos_iff.2 hne) hturns')
        have hless := length_remaining_lt hne hlt
        have hkept : ∀ pair ∈ remaining (worst n failed) failed, pair.1 < n :=
          fun pair hpair => hlt pair (List.mem_of_mem_filter hpair)
        rw [blameWithin_succ hne, blameWithin_succ hne]
        exact congrArg (worst n failed ++ ·) (ih hkept (by omega) (by omega))

/-! ### Turns by names -/

/-- The failed pairs of places are those of two names that fail on each other. -/
structure FailsAs (names : List ι) (fails : ι → ι → Bool) (failed : List (Nat × Nat)) : Prop where
  nodup : failed.Nodup
  mem_iff : ∀ i j, (i, j) ∈ failed ↔
    i < j ∧ ∃ a b, names[i]? = some a ∧ names[j]? = some b ∧ fails a b = true

/-- On how many others a name fails. -/
def failures [DecidableEq ι] (names : List ι) (fails : ι → ι → Bool) (a : ι) : Nat :=
  names.countP fun b => decide (b ≠ a) && fails a b

/-- Whether a name fails on as many others as any name does. -/
def failsMost [DecidableEq ι] (names : List ι) (fails : ι → ι → Bool) (a : ι) : Bool :=
  failures names fails a == (names.map (failures names fails)).foldl max 0

variable {names : List ι} {fails : ι → ι → Bool} {failed : List (Nat × Nat)} {i : Nat} {a : ι}

/-- The places that a place fails on. -/
def partners (failed : List (Nat × Nat)) (i : Nat) : List Nat :=
  (failed.filter fun pair => pair.1 == i).map (·.2) ++
    (failed.filter fun pair => pair.2 == i).map (·.1)

theorem length_partners (failed : List (Nat × Nat)) (i : Nat) :
    (partners failed i).length = tally failed i := by
  simp [tally, partners, List.countP_eq_length_filter]

namespace FailsAs

theorem nodup_partners (h : FailsAs names fails failed) (i : Nat) : (partners failed i).Nodup := by
  refine List.nodup_append.2 ⟨?_, ?_, ?_⟩
  · refine List.Nodup.map_on ?_ (h.nodup.filter _)
    rintro ⟨k, j⟩ hleft ⟨k', j'⟩ hright heq
    simp only [List.mem_filter, beq_iff_eq] at hleft hright heq
    rw [hleft.2, hright.2, heq]
  · refine List.Nodup.map_on ?_ (h.nodup.filter _)
    rintro ⟨j, k⟩ hleft ⟨j', k'⟩ hright heq
    simp only [List.mem_filter, beq_iff_eq] at hleft hright heq
    rw [hleft.2, hright.2, heq]
  · -- A pair has the earlier place first, so no place stands on both sides of another.
    rintro j hleft _ hright rfl
    have hlt : i < j := ((h.mem_iff i j).1 (by simpa using hleft)).1
    have hgt : j < i := ((h.mem_iff j i).1 (by simpa using hright)).1
    omega

theorem mem_partners_iff (h : FailsAs names fails failed) (hnodup : names.Nodup)
    (hsymm : ∀ a b, fails a b = fails b a) (ha : names[i]? = some a) {j : Nat} :
    j ∈ partners failed i ↔ ∃ b, names[j]? = some b ∧ b ≠ a ∧ fails a b = true := by
  have hpairs : j ∈ partners failed i ↔ (i, j) ∈ failed ∨ (j, i) ∈ failed := by simp [partners]
  have hplaces : ∀ b, names[j]? = some b → (i = j ↔ b = a) := by
    intro b hb
    constructor
    · rintro rfl
      exact Option.some.inj (hb.symm.trans ha)
    · rintro rfl
      have hlt := (List.getElem?_eq_some_iff.1 ha).1
      exact (List.getElem?_inj hlt hnodup).1 (ha.trans hb.symm)
  rw [hpairs, h.mem_iff, h.mem_iff]
  constructor
  · rintro (⟨hlt, a', b, ha', hb, hfails⟩ | ⟨hlt, b, a', hb, ha', hfails⟩)
    · obtain rfl := Option.some.inj (ha.symm.trans ha')
      exact ⟨b, hb, fun heq => Nat.ne_of_lt hlt ((hplaces b hb).2 heq), hfails⟩
    · obtain rfl := Option.some.inj (ha.symm.trans ha')
      exact ⟨b, hb, fun heq => Nat.ne_of_gt hlt ((hplaces b hb).2 heq), hsymm b a ▸ hfails⟩
  · rintro ⟨b, hb, hne, hfails⟩
    rcases Nat.lt_trichotomy i j with hlt | heq | hgt
    · exact Or.inl ⟨hlt, a, b, ha, hb, hfails⟩
    · exact absurd ((hplaces b hb).1 heq) hne
    · exact Or.inr ⟨hgt, b, a, hb, ha, hsymm a b ▸ hfails⟩

/-- A place takes part in as many pairs as there are names that its name fails on. -/
theorem tally_eq [DecidableEq ι] (h : FailsAs names fails failed) (hnodup : names.Nodup)
    (hsymm : ∀ a b, fails a b = fails b a) (ha : names[i]? = some a) :
    tally failed i = failures names fails a := by
  let failedOn : ι → Bool := fun b => decide (b ≠ a) && fails a b
  have hperm : (partners failed i).Perm
      ((List.range names.length).filter fun j => names[j]?.any failedOn) := by
    refine (List.perm_ext_iff_of_nodup (h.nodup_partners i) (List.nodup_range.filter _)).2
      fun j => ?_
    rw [h.mem_partners_iff hnodup hsymm ha, List.mem_filter, List.mem_range, Option.any_eq_true]
    constructor
    · rintro ⟨b, hb, hfails⟩
      exact ⟨(List.getElem?_eq_some_iff.1 hb).1, b, hb, by simpa [failedOn] using hfails⟩
    · rintro ⟨_, b, hb, hfails⟩
      exact ⟨b, hb, by simpa [failedOn] using hfails⟩
  calc tally failed i
      = ((List.range names.length).filter fun j => names[j]?.any failedOn).length := by
        rw [← length_partners, hperm.length_eq]
    _ = ((List.range names.length).map fun j => names[j]?).countP fun b => b.any failedOn := by
        rw [List.countP_map, List.countP_eq_length_filter]
        rfl
    _ = failures names fails a := by
        rw [List.map_range_getElem?, List.countP_map]
        rfl

/-- The worst places are those of the names that fail most. -/
theorem contains_worst [DecidableEq ι] (h : FailsAs names fails failed) (hnodup : names.Nodup)
    (hsymm : ∀ a b, fails a b = fails b a) (ha : names[i]? = some a) :
    (worst names.length failed).contains i = failsMost names fails a := by
  have hcounts : (List.range names.length).map (tally failed) =
      names.map (failures names fails) := by
    refine List.ext_getElem (by simp) fun j hj _ => ?_
    have hlt : j < names.length := by simpa using hj
    simpa using h.tally_eq hnodup hsymm (List.getElem?_eq_getElem hlt)
  have hlt := (List.getElem?_eq_some_iff.1 ha).1
  rw [Bool.eq_iff_iff, List.contains_iff_mem, worst_eq, List.mem_filter, List.mem_range, hcounts,
    h.tally_eq hnodup hsymm ha, failsMost]
  simp [hlt]

/-- The pairs that are left are those of names that both stay. -/
theorem remaining (h : FailsAs names fails failed) {gone : ι → Bool} {out : List Nat}
    (hout : ∀ i a, names[i]? = some a → out.contains i = gone a) :
    FailsAs names (fun a b => fails a b && !gone a && !gone b) (Ranking.remaining out failed) where
  nodup := h.nodup.filter _
  mem_iff i j := by
    rw [Ranking.remaining, List.mem_filter, h.mem_iff]
    constructor
    · rintro ⟨⟨hlt, a, b, ha, hb, hfails⟩, hstay⟩
      rw [hout i a ha, hout j b hb] at hstay
      refine ⟨hlt, a, b, ha, hb, ?_⟩
      rw [Bool.and_assoc, hfails, hstay, Bool.and_self]
    · rintro ⟨hlt, a, b, ha, hb, hstay⟩
      rw [Bool.and_assoc, Bool.and_eq_true] at hstay
      refine ⟨⟨hlt, a, b, ha, hb, hstay.1⟩, ?_⟩
      rw [hout i a ha, hout j b hb]
      exact hstay.2

/-- No pair failed exactly if no name fails on another. -/
theorem eq_nil_iff (h : FailsAs names fails failed) (hnodup : names.Nodup)
    (hsymm : ∀ a b, fails a b = fails b a) :
    failed = [] ↔ ∀ a ∈ names, ∀ b ∈ names, b ≠ a → fails a b = false := by
  constructor
  · rintro rfl a ha b hb hne
    obtain ⟨i, hi⟩ := List.getElem?_of_mem ha
    obtain ⟨j, hj⟩ := List.getElem?_of_mem hb
    have hpartners := h.mem_partners_iff hnodup hsymm hi (j := j)
    simp only [partners, List.filter_nil, List.map_nil, List.append_nil, List.not_mem_nil,
      false_iff, not_exists] at hpartners
    simpa [hj, hne] using hpartners b
  · intro hnone
    refine List.eq_nil_iff_forall_not_mem.2 ?_
    rintro ⟨i, j⟩ hpair
    obtain ⟨_, a, _, ha, _⟩ := (h.mem_iff i j).1 hpair
    have hj : j ∈ partners failed i := by simp [partners, hpair]
    obtain ⟨b, hb, hne, hfails⟩ := (h.mem_partners_iff hnodup hsymm ha).1 hj
    rw [hnone a (List.mem_of_getElem? ha) b (List.mem_of_getElem? hb) hne] at hfails
    exact Bool.false_ne_true hfails

theorem fst_lt (h : FailsAs names fails failed) : ∀ pair ∈ failed, pair.1 < names.length := by
  rintro ⟨i, j⟩ hpair
  obtain ⟨_, a, _, ha, _⟩ := (h.mem_iff i j).1 hpair
  exact (List.getElem?_eq_some_iff.1 ha).1

end FailsAs

/-! ### Another order of the names -/

section Reordered

variable [DecidableEq ι] {r : Reordering ι} {failed' : List (Nat × Nat)}

theorem failsMost_reordered (fails : ι → ι → Bool) :
    failsMost r.after fails = failsMost r.before fails := by
  have hfailures : failures r.after fails = failures r.before fails := by
    funext a
    exact (r.perm.countP_eq _).symm
  funext a
  rw [failsMost, failsMost, hfailures, (r.perm.map (failures r.before fails)).foldl_op_eq]

omit [DecidableEq ι] in
theorem eq_nil_reordered (hsymm : ∀ a b, fails a b = fails b a)
    (h : FailsAs r.before fails failed) (h' : FailsAs r.after fails failed') :
    failed = [] ↔ failed' = [] := by
  rw [h.eq_nil_iff r.nodup hsymm, h'.eq_nil_iff r.nodup_after hsymm]
  simp only [r.perm.mem_iff]

/-- After as many turns the same names are out. -/
theorem blameWithin_matches (hsymm : ∀ a b, fails a b = fails b a)
    (h : FailsAs r.before fails failed) (h' : FailsAs r.after fails failed') (turns : Nat) :
    ∃ out : ι → Bool,
      (∀ i a, r.before[i]? = some a →
        (blameWithin r.before.length turns failed).contains i = out a) ∧
      ∀ i a, r.after[i]? = some a →
        (blameWithin r.after.length turns failed').contains i = out a := by
  induction turns generalizing fails failed failed' with
  | zero => exact ⟨fun _ => false, fun _ _ _ => rfl, fun _ _ _ => rfl⟩
  | succ t ih =>
      rcases eq_or_ne failed [] with hnil | hne
      · have hnil' := (eq_nil_reordered hsymm h h').1 hnil
        rw [hnil, hnil', blameWithin_nil, blameWithin_nil]
        exact ⟨fun _ => false, fun _ _ _ => rfl, fun _ _ _ => rfl⟩
      · have hne' : failed' ≠ [] := fun hnil' => hne ((eq_nil_reordered hsymm h h').2 hnil')
        -- Who goes in this turn is said by names, so the pairs that are left match again.
        let gone := failsMost r.before fails
        have hworst : ∀ i a, r.before[i]? = some a →
            (worst r.before.length failed).contains i = gone a :=
          fun i a ha => h.contains_worst r.nodup hsymm ha
        have hworst' : ∀ i a, r.after[i]? = some a →
            (worst r.after.length failed').contains i = gone a := by
          intro i a ha
          rw [h'.contains_worst r.nodup_after hsymm ha, failsMost_reordered]
        have hleft : ∀ a b,
            (fails a b && !gone a && !gone b) = (fails b a && !gone b && !gone a) := by
          intro a b
          rw [hsymm a b, Bool.and_right_comm]
        obtain ⟨out, hout, hout'⟩ := ih hleft (h.remaining hworst) (h'.remaining hworst')
        refine ⟨fun a => gone a || out a, fun i a ha => ?_, fun i a ha => ?_⟩
        · rw [blameWithin_succ hne, List.contains_append, hworst i a ha, hout i a ha]
        · rw [blameWithin_succ hne', List.contains_append, hworst' i a ha, hout' i a ha]

/-- The same names are left out in both orders. -/
theorem blame_matches (hsymm : ∀ a b, fails a b = fails b a)
    (h : FailsAs r.before fails failed) (h' : FailsAs r.after fails failed') :
    r.Matches (blame r.before.length failed) (blame r.after.length failed') := by
  -- The two lists of pairs allow for different numbers of turns; both may take all of them.
  have hturns : failed.length ≤ failed.length + failed'.length := Nat.le_add_right _ _
  have hturns' : failed'.length ≤ failed.length + failed'.length := Nat.le_add_left _ _
  obtain ⟨out, hout, hout'⟩ :=
    blameWithin_matches hsymm h h' (failed.length + failed'.length)
  rw [← blameWithin_of_le h.fst_lt (Nat.le_refl _) hturns] at hout
  rw [← blameWithin_of_le h'.fst_lt (Nat.le_refl _) hturns'] at hout'
  refine ⟨out, List.ext_getElem (by simp [blame]) fun i _ hi => ?_,
    List.ext_getElem (by simp [blame]) fun i _ hi => ?_⟩
  · have hlt : i < r.before.length := by simpa using hi
    simpa [blame] using hout i _ (List.getElem?_eq_getElem hlt)
  · have hlt : i < r.after.length := by simpa using hi
    simpa [blame] using hout' i _ (List.getElem?_eq_getElem hlt)

end Reordered
end Ranking
end Deliberation
