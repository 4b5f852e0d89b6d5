import Mathlib.Data.List.Forall2
import Mathlib.Data.List.Nodup
import Mathlib.Data.List.Perm.Basic
import Mathlib.Logic.Function.Basic

/-!
Lists, and folds that may fail.

What is needed about lists in several places and has nothing to do with agents: folds with an
invariant, lists that are paired off, tables by places, and what a list begins and ends with.
-/

theorem Except.mapError_eq_ok_iff {ε ε' α : Type} {f : ε → ε'} {result : Except ε α} {value : α} :
    result.mapError f = .ok value ↔ result = .ok value := by
  cases result with
  | error e => simp [Except.mapError]
  | ok v => simp [Except.mapError]

namespace List

variable {α β γ : Type}

/-- What holds at the start of a fold and is kept by its steps holds of the result, if there is
one. -/
theorem foldlM_induction {ε : Type} {P : α → Prop} {f : α → β → Except ε α} {xs : List β}
    (hstep : ∀ s, ∀ x ∈ xs, ∀ s', P s → f s x = .ok s' → P s') {s s' : α} (hs : P s)
    (h : xs.foldlM f s = .ok s') : P s' := by
  induction xs generalizing s with
  | nil =>
      obtain rfl : s = s' := by simpa [pure, Except.pure] using h
      exact hs
  | cons x rest ih =>
      rw [foldlM_cons] at h
      cases hx : f s x with
      | error e => simp [hx, bind, Except.bind] at h
      | ok s₁ =>
          refine ih (fun s y hy => hstep s y (mem_cons_of_mem _ hy))
            (hstep s x mem_cons_self s₁ hs hx) ?_
          simpa [hx, bind, Except.bind] using h

theorem foldl_max_zero (counts : List Nat) : counts.foldl max 0 = counts.max?.getD 0 := by
  rw [foldl_max, Nat.zero_max]

theorem min?_append_singleton [Min α] (xs : List α) (x : α) :
    (xs ++ [x]).min? = some ((xs.min?.map (min · x)).getD x) := by
  cases xs with
  | nil => rfl
  | cons y rest =>
      rw [cons_append, min?_cons', min?_cons', foldl_append]
      rfl

theorem max?_append_singleton [Max α] (xs : List α) (x : α) :
    (xs ++ [x]).max? = some ((xs.max?.map (max · x)).getD x) := by
  cases xs with
  | nil => rfl
  | cons y rest =>
      rw [cons_append, max?_cons', max?_cons', foldl_append]
      rfl

/-! ### Beginnings and ends -/

/-- What stands between a list and one that it begins also begins with it. -/
theorem isPrefix_of_between [LT α] {xs ys zs : List α} (hle : ¬ ys < xs) (hlt : ys < zs)
    (h : xs <+: zs) : xs <+: ys := by
  induction xs generalizing ys zs with
  | nil => exact nil_prefix
  | cons x xs ih =>
      obtain ⟨rest, rfl⟩ := h
      cases ys with
      | nil => exact absurd (nil_lt_cons x xs) hle
      | cons y ys =>
          rw [cons_lt_cons_iff, not_or, not_and] at hle
          rw [cons_append, cons_lt_cons_iff] at hlt
          -- a smaller first element would put `ys` before `xs`
          obtain ⟨rfl, hrest⟩ := hlt.resolve_left hle.1
          exact cons_prefix_cons.2 ⟨rfl, ih (hle.2 rfl) hrest (prefix_append xs rest)⟩

/-- What stands behind the last occurrence of an element is determined by the list. -/
theorem eq_of_append_cons_eq {a : α} {xs ys d e : List α} (hd : a ∉ d) (he : a ∉ e)
    (h : xs ++ a :: d = ys ++ a :: e) : d = e := by
  rcases append_eq_append_iff.1 h with ⟨c, _, hc⟩ | ⟨c, _, hc⟩
  · cases c with
    | nil => exact (cons.inj hc).2
    | cons b c =>
        obtain ⟨_, rfl⟩ := cons.inj hc
        simp at hd
  · cases c with
    | nil => exact (cons.inj hc).2.symm
    | cons b c =>
        obtain ⟨_, rfl⟩ := cons.inj hc
        simp at he

/-- Where nothing has a property after the first that lacks it, those before are all that have
it. -/
theorem takeWhile_eq_filter {P : β → Bool} {entries : List β}
    (h : entries.Pairwise fun a b => P b = true → P a = true) :
    entries.takeWhile P = entries.filter P := by
  induction entries with
  | nil => rfl
  | cons e rest ih =>
      rw [pairwise_cons] at h
      by_cases hP : P e = true
      · rw [takeWhile_cons_of_pos hP, filter_cons_of_pos hP, ih h.2]
      · rw [takeWhile_cons_of_neg hP, filter_cons_of_neg hP, eq_comm, filter_eq_nil_iff]
        exact fun e' he' hP' => hP (h.1 e' he' hP')

/-! ### Lists that are paired off -/

/-- If each of some things meets one of some others and no two meet the same, they can be paired
off. -/
theorem exists_partners {R : α → β → Prop} {xs : List α} {ys : List β}
    (hmeet : ∀ x ∈ xs, ∃ y ∈ ys, R x y)
    (hapart : xs.Pairwise fun x x' => ∀ y ∈ ys, R x y → ¬ R x' y) :
    ∃ partners rest, Forall₂ R xs partners ∧ (partners ++ rest).Perm ys := by
  induction xs generalizing ys with
  | nil => exact ⟨[], ys, .nil, .refl _⟩
  | cons x xs ih =>
      rw [forall_mem_cons] at hmeet
      rw [pairwise_cons] at hapart
      obtain ⟨y, hy, hxy⟩ := hmeet.1
      obtain ⟨before, after, rfl⟩ := append_of_mem hy
      -- the others find their partners among the rest
      have hothers : ∀ x' ∈ xs, ∃ y' ∈ before ++ after, R x' y' := by
        intro x' hx'
        obtain ⟨y', hy', hxy'⟩ := hmeet.2 x' hx'
        refine ⟨y', ?_, hxy'⟩
        rw [mem_append, mem_cons] at hy'
        rw [mem_append]
        rcases hy' with hy' | rfl | hy'
        · exact Or.inl hy'
        · exact absurd hxy' (hapart.1 x' hx' y' hy hxy)
        · exact Or.inr hy'
      have hsub : before ++ after ⊆ before ++ y :: after := by
        intro z hz
        rw [mem_append] at hz
        rw [mem_append, mem_cons]
        exact hz.imp id Or.inr
      obtain ⟨partners, rest, hpartners, hperm⟩ := ih hothers
        (hapart.2.imp fun hx z hz => hx z (hsub hz))
      exact ⟨y :: partners, rest, .cons hxy hpartners,
        (hperm.cons y).trans perm_middle.symm⟩

theorem length_le_of_partners {R : α → β → Prop} {xs : List α} {ys : List β}
    (hmeet : ∀ x ∈ xs, ∃ y ∈ ys, R x y)
    (hapart : xs.Pairwise fun x x' => ∀ y ∈ ys, R x y → ¬ R x' y) : xs.length ≤ ys.length := by
  obtain ⟨partners, rest, hpartners, hperm⟩ := exists_partners hmeet hapart
  rw [← hperm.length_eq, length_append, hpartners.length_eq]
  exact Nat.le_add_right _ _

theorem exists_partners_perm {R : α → β → Prop} {xs : List α} {ys : List β}
    (hmeet : ∀ x ∈ xs, ∃ y ∈ ys, R x y)
    (hapart : xs.Pairwise fun x x' => ∀ y ∈ ys, R x y → ¬ R x' y)
    (hlength : xs.length = ys.length) : ∃ partners, Forall₂ R xs partners ∧ partners.Perm ys := by
  obtain ⟨partners, rest, hpartners, hperm⟩ := exists_partners hmeet hapart
  have hrest : rest = [] := by
    have htotal := hperm.length_eq
    rw [length_append, ← hpartners.length_eq, hlength] at htotal
    exact eq_nil_of_length_eq_zero (by omega)
  rw [hrest, append_nil] at hperm
  exact ⟨partners, hpartners, hperm⟩

theorem exists_of_mem_partners {R : α → β → Prop} {xs : List α} {ys : List β}
    (h : Forall₂ R xs ys) {y : β} (hy : y ∈ ys) : ∃ x ∈ xs, R x y := by
  induction h with
  | nil => simp at hy
  | @cons x z xs ys hxz _ ih =>
      rcases mem_cons.1 hy with rfl | hy
      · exact ⟨x, mem_cons_self, hxz⟩
      · obtain ⟨x', hx', hxy⟩ := ih hy
        exact ⟨x', mem_cons_of_mem _ hx', hxy⟩

/-- Partners of things that are apart are apart. -/
theorem pairwise_partners {R : α → β → Prop} {S : α → α → Prop} {T : β → β → Prop}
    (hT : ∀ {x x' y y'}, R x y → R x' y' → S x x' → T y y') {xs : List α} {ys : List β}
    (h : Forall₂ R xs ys) (hxs : xs.Pairwise S) : ys.Pairwise T := by
  induction h with
  | nil => exact .nil
  | cons hxy hrest ih =>
      rw [pairwise_cons] at hxs
      refine .cons (fun y' hy' => ?_) (ih hxs.2)
      obtain ⟨x', hx', hxy'⟩ := exists_of_mem_partners hrest hy'
      exact hT hxy hxy' (hxs.1 x' hx')

/-- A list with one value for a name and another for all others. -/
theorem map_ite_perm [DecidableEq α] {names : List α} (hnodup : names.Nodup) {a : α}
    (ha : a ∈ names) (x y : β) :
    (names.map fun b => if b = a then x else y).Perm (x :: replicate (names.length - 1) y) := by
  have hothers : ∀ b ∈ names.erase a, (if b = a then x else y) = y :=
    fun b hb => if_neg fun heq => hnodup.not_mem_erase (heq ▸ hb)
  refine ((perm_cons_erase ha).map _).trans ?_
  rw [map_cons, if_pos rfl, map_congr_left hothers, map_const', length_erase_of_mem ha]

/-! ### Places and tables -/

theorem map_range_getElem? (names : List α) :
    (range names.length).map (fun i => names[i]?) = names.map some := by
  refine ext_getElem (by simp) fun i hi _ => ?_
  have hlt : i < names.length := by simpa using hi
  simp [getElem?_eq_getElem hlt]

/-- To set the value at a place is to set the value of the name at that place. -/
theorem set_map_update [DecidableEq α] {names : List α} (hnodup : names.Nodup) (value : α → β)
    {k : Nat} (hk : k < names.length) (x : β) :
    (names.map value).set k x = names.map (Function.update value names[k] x) := by
  refine ext_getElem (by simp) fun i hi _ => ?_
  have hlt : i < names.length := by simpa using hi
  rw [getElem_set, getElem_map, getElem_map, Function.update_apply]
  simp only [hnodup.getElem_inj_iff, eq_comm]

/-- To go through a list by places. -/
theorem filterMap_zipIdx (xs : List β) (f : β × Nat → Option γ) :
    xs.zipIdx.filterMap f = (range xs.length).filterMap fun i => xs[i]?.bind fun x => f (x, i) := by
  have hplaces : (range xs.length).map (fun i => (xs[i]?, i)) =
      xs.zipIdx.map fun place => (some place.1, place.2) := by
    refine ext_getElem (by simp) fun i hi _ => ?_
    have hlt : i < xs.length := by simpa using hi
    simp [getElem?_eq_getElem hlt]
  have hfilter := congrArg
    (filterMap fun place : Option β × Nat => place.1.bind fun x => f (x, place.2)) hplaces
  rw [filterMap_map, filterMap_map] at hfilter
  exact hfilter.symm

/-- A table that gives each of some places its value. -/
theorem lookup_map_self (places : List Nat) (value : Nat → β) (i : Nat) :
    (places.map fun k => (k, value k)).lookup i = if i ∈ places then some (value i) else none := by
  induction places with
  | nil => rfl
  | cons k rest ih =>
      rw [map_cons, lookup_cons, ih]
      rcases eq_or_ne i k with rfl | hne
      · simp
      · simp [beq_eq_false_iff_ne.2 hne, hne]

theorem lookup_eq_none_iff_notMem {placed : List (Nat × β)} {i : Nat} :
    placed.lookup i = none ↔ i ∉ placed.map (·.1) := by
  rw [lookup_eq_none_iff]
  constructor
  · intro h hi
    obtain ⟨entry, hentry, rfl⟩ := mem_map.1 hi
    simpa using h entry hentry
  · intro h entry hentry
    have hne : i ≠ entry.1 := fun hi => h (hi ▸ mem_map_of_mem hentry)
    simpa using hne

/-- A table whose keys are some of a list, in its order, is what looking all of them up gives. -/
theorem filterMap_lookup {placed : List (Nat × β)} {places : List Nat}
    (hplaces : places.Nodup) (h : (placed.map (·.1)).Sublist places) :
    places.filterMap (fun i => (placed.lookup i).map (i, ·)) = placed := by
  generalize hkeys : placed.map (·.1) = keys at h
  induction h generalizing placed with
  | slnil =>
      obtain rfl := map_eq_nil_iff.1 hkeys
      rfl
  | @cons keys places i hsub ih =>
      obtain ⟨hi, hplaces⟩ := nodup_cons.1 hplaces
      have hnone : placed.lookup i = none :=
        lookup_eq_none_iff_notMem.2 fun hmem => hi (hsub.subset (hkeys ▸ hmem))
      rw [filterMap_cons_none (by rw [hnone]; rfl)]
      exact ih hplaces hkeys
  | @cons_cons keys places i hsub ih =>
      obtain ⟨hi, hrest⟩ := nodup_cons.1 hplaces
      rcases placed with _ | ⟨⟨j, x⟩, rest⟩
      · simp at hkeys
      · obtain ⟨rfl, hrestKeys⟩ := cons.inj hkeys
        rw [filterMap_cons_some (by rw [lookup_cons_self]; rfl)]
        refine congrArg ((j, x) :: ·) (Eq.trans ?_ (ih hrest hrestKeys))
        refine filterMap_congr fun k hk => ?_
        have hne : (k == j) = false := by
          rw [beq_eq_false_iff_ne]
          exact fun hkj => hi (hkj ▸ hk)
        rw [lookup_cons, hne]

/-- If everything in a list has the key that the list stands under, then a choice by keys takes
whole lists. -/
theorem filter_flatMap_of_key {entries : List (α × List β)} {keyOf : β → α}
    (h : ∀ e ∈ entries, ∀ b ∈ e.2, keyOf b = e.1) (P : α → Bool) :
    (entries.flatMap (·.2)).filter (fun b => P (keyOf b)) =
      (entries.filter fun e => P e.1).flatMap (·.2) := by
  induction entries with
  | nil => rfl
  | cons e rest ih =>
      rw [forall_mem_cons] at h
      rw [flatMap_cons, filter_append, ih h.2, filter_cons]
      by_cases hP : P e.1 = true
      · have hall : e.2.filter (fun b => P (keyOf b)) = e.2 :=
          filter_eq_self.2 fun b hb => by rw [h.1 b hb, hP]
        rw [hall, if_pos hP, flatMap_cons]
      · have hnone : e.2.filter (fun b => P (keyOf b)) = [] :=
          filter_eq_nil_iff.2 fun b hb => by rwa [h.1 b hb]
        rw [hnone, if_neg hP, nil_append]

end List
