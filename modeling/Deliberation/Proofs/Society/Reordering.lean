import Deliberation.Proofs.Society.Outcomes
import Mathlib.Logic.Equiv.Basic

/-!
Rankings of the same names in two orders.

The matrix of a ranking has its rows and columns in one order of the agents. The scores of a ranking
are sums, quotients and comparisons of what belongs to one agent or to all of them, so that each
agent gets the same score in any other order. All that this takes of the arithmetic is that sums can
be reordered.
-/

namespace Deliberation

/-- Two orders of the same names. -/
structure Reordering (ι : Type) where
  before : List ι
  after : List ι
  nodup : before.Nodup
  perm : before.Perm after

namespace Reordering

variable {ι β : Type} (r : Reordering ι)

theorem nodup_after : r.after.Nodup :=
  r.perm.nodup_iff.1 r.nodup

theorem length_eq : r.before.length = r.after.length :=
  r.perm.length_eq

/-- The names that are kept, in both orders. -/
def filter (keep : ι → Bool) : Reordering ι where
  before := r.before.filter keep
  after := r.after.filter keep
  nodup := r.nodup.filter keep
  perm := r.perm.filter keep

/-- The order in which two of the names change places. -/
def swap [DecidableEq ι] {names : List ι} (hnodup : names.Nodup) {a b : ι} (ha : a ∈ names)
    (hb : b ∈ names) : Reordering ι where
  before := names
  after := names.map (Equiv.swap a b)
  nodup := hnodup
  perm := by
    have hswapped : (names.map (Equiv.swap a b)).Nodup := hnodup.map (Equiv.swap a b).injective
    refine (List.perm_ext_iff_of_nodup hnodup hswapped).2 fun x => ?_
    have hmem : ∀ y ∈ names, Equiv.swap a b y ∈ names := by
      intro y hy
      rw [Equiv.swap_apply_def]
      split
      · exact hb
      · split
        · exact ha
        · exact hy
    rw [List.mem_map]
    constructor
    · intro hx
      exact ⟨Equiv.swap a b x, hmem x hx, Equiv.swap_apply_self a b x⟩
    · rintro ⟨y, hy, rfl⟩
      exact hmem y hy

/-- Two lists have the same value for each name. -/
def Matches (xs ys : List β) : Prop :=
  ∃ value : ι → β, xs = r.before.map value ∧ ys = r.after.map value

/-- The square of the values for each two names. -/
def table (names : List ι) (value : ι → ι → β) : List (List β) :=
  names.map fun a => names.map (value a)

/-- Two squares have the same value for each two names. -/
def MatchesTable (matrix matrix' : List (List β)) : Prop :=
  ∃ value : ι → ι → β, matrix = table r.before value ∧ matrix' = table r.after value

variable {r}

theorem Matches.map {γ : Type} {xs ys : List β} (h : r.Matches xs ys) (f : β → γ) :
    r.Matches (xs.map f) (ys.map f) := by
  obtain ⟨value, rfl, rfl⟩ := h
  exact ⟨f ∘ value, List.map_map, List.map_map⟩

theorem Matches.zipWith {γ δ : Type} {xs ys : List β} {us vs : List γ} (h : r.Matches xs ys)
    (h' : r.Matches us vs) (f : β → γ → δ) :
    r.Matches (xs.zipWith f us) (ys.zipWith f vs) := by
  obtain ⟨value, rfl, rfl⟩ := h
  obtain ⟨value', rfl, rfl⟩ := h'
  refine ⟨fun a => f (value a) (value' a), ?_, ?_⟩ <;>
    rw [List.zipWith_map, List.zipWith_self]

theorem Matches.perm {xs ys : List β} (h : r.Matches xs ys) : xs.Perm ys := by
  obtain ⟨value, rfl, rfl⟩ := h
  exact r.perm.map value

theorem MatchesTable.length_eq {matrix matrix' : List (List β)}
    (h : r.MatchesTable matrix matrix') : matrix.length = matrix'.length := by
  obtain ⟨value, rfl, rfl⟩ := h
  simp only [table, List.length_map, r.length_eq]

/-- To go through the rows of a square by places is to go through the names. -/
theorem map_zipIdx_table {γ : Type} {names : List ι} {value : ι → ι → β}
    {f : List β × Nat → γ} {g : ι → γ}
    (h : ∀ k (hk : k < names.length), f (names.map (value names[k]), k) = g names[k]) :
    (table names value).zipIdx.map f = names.map g := by
  refine List.ext_getElem (by simp [table]) fun i hi _ => ?_
  have hlt : i < names.length := by simpa [table] using hi
  simpa [table] using h i hlt

end Reordering

namespace Ranking

open Reordering

variable {ι α : Type} [Scalar α] {r : Reordering ι}

/-- Whether all agree is a matter of the values for different names. -/
theorem agrees_table {names : List ι} (hnodup : names.Nodup) (value : ι → ι → α) :
    agrees (table names value) = true ↔
      ∀ a ∈ names, ∀ b ∈ names, a ≠ b → (value a b == 0) = true := by
  simp only [agrees, List.all_eq_true, Prod.forall, List.mem_zipIdx_iff_getElem?, table,
    List.getElem?_map, Option.map_eq_some_iff, Bool.or_eq_true, beq_iff_eq]
  constructor
  · intro h a ha b hb hne
    obtain ⟨i, hi⟩ := List.getElem?_of_mem ha
    obtain ⟨j, hj⟩ := List.getElem?_of_mem hb
    have hcell := h _ i ⟨a, hi, rfl⟩ (value a b) j
    rw [List.getElem?_map, hj] at hcell
    refine (hcell rfl).resolve_left ?_
    rintro rfl
    exact hne (Option.some.inj (hi.symm.trans hj))
  · rintro h row i ⟨a, hi, rfl⟩ d j hd
    obtain ⟨b, hj, rfl⟩ := Option.map_eq_some_iff.1 (List.getElem?_map ▸ hd)
    rcases eq_or_ne a b with rfl | hne
    · have hlt := (List.getElem?_eq_some_iff.1 hi).1
      exact Or.inl ((List.getElem?_inj hlt hnodup).1 (hi.trans hj.symm))
    · exact Or.inr (h a (List.mem_of_getElem? hi) b (List.mem_of_getElem? hj) hne)

theorem agrees_eq {matrix matrix' : List (List α)} (h : r.MatchesTable matrix matrix') :
    agrees matrix = agrees matrix' := by
  obtain ⟨value, rfl, rfl⟩ := h
  rw [Bool.eq_iff_iff, agrees_table r.nodup, agrees_table r.nodup_after]
  simp only [r.perm.mem_iff]

/-- The chances of a step, if the scaled rows are known. -/
theorem transitions_table [DecidableEq ι] {names : List ι} (hnodup : names.Nodup)
    {value chance : ι → ι → α}
    (hrow : ∀ a ∈ names,
      normalize (names.map (Function.update (value a) a 0)) = names.map (chance a))
    (epsilon : α) :
    transitions epsilon (table names value) =
      table names fun a => Function.update (chance a) a epsilon := by
  refine map_zipIdx_table fun k hk => ?_
  have hscaled := hrow names[k] (List.getElem_mem hk)
  simp only [List.set_map_update hnodup _ hk, hscaled]

/-- What arrives at a name in a step is a sum over all names. -/
theorem foldl_table (names sources : List ι) (weight : ι → α) (chance : ι → ι → α)
    (arrived : ι → α) :
    ((sources.map weight).zip (sources.map fun a => names.map (chance a))).foldl
        (fun next entry => next.zipWith (fun target p => target + entry.1 * p) entry.2)
        (names.map arrived) =
      names.map fun b =>
        (sources.map fun a => weight a * chance a b).foldl (· + ·) (arrived b) := by
  induction sources generalizing arrived with
  | nil => rfl
  | cons a rest ih =>
      simp only [List.map_cons, List.zip_cons_cons, List.foldl_cons]
      rw [List.zipWith_map, List.zipWith_self, ih]

theorem advance_table (names : List ι) (chance : ι → ι → α) (weight : ι → α) :
    advance (table names chance) (names.map weight) =
      normalize (names.map fun b =>
        (names.map fun a => weight a * chance a b).foldl (· + ·) 0) := by
  rw [advance, List.map_map]
  exact congrArg normalize (foldl_table names names weight chance fun _ => 0)

section Sums

variable [Std.Commutative (α := α) (· + ·)] [Std.Associative (α := α) (· + ·)]

theorem sum_perm {xs ys : List α} (h : xs.Perm ys) : Scalar.sum xs = Scalar.sum ys := by
  induction h with
  | nil => rfl
  | cons x h _ => exact h.foldl_op_eq
  | swap x y rest =>
      have hcomm : y + x = x + y := Std.Commutative.comm y x
      simp only [Scalar.sum, List.foldl_cons, hcomm]
  | trans _ _ ih ih' => exact ih.trans ih'

theorem normalize_matches {xs ys : List α} (h : r.Matches xs ys) :
    r.Matches (normalize xs) (normalize ys) := by
  have htotal : Scalar.sum (xs.map Scalar.abs) = Scalar.sum (ys.map Scalar.abs) :=
    sum_perm (h.perm.map _)
  simp only [normalize, htotal, h.perm.length_eq]
  split
  · exact h.map _
  · exact h.map _

theorem transitions_matches [DecidableEq ι] {matrix matrix' : List (List α)}
    (h : r.MatchesTable matrix matrix') (epsilon : α) :
    r.MatchesTable (transitions epsilon matrix) (transitions epsilon matrix') := by
  obtain ⟨value, rfl, rfl⟩ := h
  have hrow : ∀ a, r.Matches (normalize (r.before.map (Function.update (value a) a 0)))
      (normalize (r.after.map (Function.update (value a) a 0))) :=
    fun a => normalize_matches ⟨_, rfl, rfl⟩
  choose chance hbefore hafter using hrow
  exact ⟨fun a => Function.update (chance a) a epsilon,
    transitions_table r.nodup (fun a _ => hbefore a) epsilon,
    transitions_table r.nodup_after (fun a _ => hafter a) epsilon⟩

theorem advance_matches {matrix matrix' : List (List α)} {current current' : List α}
    (hmatrix : r.MatchesTable matrix matrix') (hcurrent : r.Matches current current') :
    r.Matches (advance matrix current) (advance matrix' current') := by
  obtain ⟨chance, rfl, rfl⟩ := hmatrix
  obtain ⟨weight, rfl, rfl⟩ := hcurrent
  have hsum : ∀ b, (r.after.map fun a => weight a * chance a b).foldl (· + ·) 0 =
      (r.before.map fun a => weight a * chance a b).foldl (· + ·) 0 :=
    fun b => (r.perm.symm.map _).foldl_op_eq
  rw [advance_table, advance_table]
  simp only [hsum]
  exact normalize_matches ⟨_, rfl, rfl⟩

theorem change_eq {next next' current current' : List α} (hnext : r.Matches next next')
    (hcurrent : r.Matches current current') : change next current = change next' current' :=
  sum_perm (hnext.zipWith hcurrent _).perm

theorem walk_matches {matrix matrix' : List (List α)} (hmatrix : r.MatchesTable matrix matrix')
    (tolerance : Option α) (steps : Nat) {current current' : List α}
    (hcurrent : r.Matches current current') :
    r.Matches (walk matrix tolerance steps current) (walk matrix' tolerance steps current') := by
  induction steps generalizing current current' with
  | zero => exact hcurrent
  | succ n ih =>
      have hnext := advance_matches hmatrix hcurrent
      rw [walk_succ, walk_succ, change_eq hnext hcurrent]
      split
      · exact hnext
      · exact ih hnext

theorem stationary_matches {matrix matrix' : List (List α)}
    (hmatrix : r.MatchesTable matrix matrix') (algorithm : Algorithm α) :
    r.Matches (stationary algorithm matrix) (stationary algorithm matrix') := by
  have hstart : r.Matches (matrix.map fun _ => 1 / (Scalar.ofCount matrix.length : α))
      (matrix'.map fun _ => 1 / (Scalar.ofCount matrix'.length : α)) := by
    rw [hmatrix.length_eq]
    obtain ⟨value, rfl, rfl⟩ := hmatrix
    exact ⟨fun _ => _, List.map_map, List.map_map⟩
  cases algorithm with
  | fixPoint iterations => exact walk_matches hmatrix none iterations hstart
  | converge tolerance maxIterations => exact walk_matches hmatrix _ maxIterations hstart

theorem shares_matches [DecidableEq ι] {matrix matrix' : List (List α)}
    (hmatrix : r.MatchesTable matrix matrix') (config : ConsistencyConfig α) :
    r.Matches (shares config matrix) (shares config matrix') := by
  rw [shares, shares, agrees_eq hmatrix]
  split
  · obtain ⟨value, rfl, rfl⟩ := hmatrix
    exact ⟨fun _ => 0, List.map_map, List.map_map⟩
  · exact stationary_matches (transitions_matches hmatrix _) _

/-- Each name gets the same score in both orders. -/
theorem scores_matches [DecidableEq ι] {matrix matrix' : List (List α)}
    (hmatrix : r.MatchesTable matrix matrix') (config : ConsistencyConfig α) :
    r.Matches (scores config matrix) (scores config matrix') := by
  have hlength := hmatrix.length_eq
  rcases Nat.lt_or_ge matrix.length 2 with hfew | hmany
  · -- Each name there is has score one.
    have hones : ∀ few : List (List α), few.length < 2 →
        scores config few = few.map fun _ => 1 := by
      intro few hlt
      rcases few with _ | ⟨first, _ | ⟨second, rest⟩⟩
      · rfl
      · rfl
      · simp only [List.length_cons] at hlt
        omega
    rw [hones matrix hfew, hones matrix' (hlength ▸ hfew)]
    obtain ⟨value, rfl, rfl⟩ := hmatrix
    exact ⟨fun _ => 1, List.map_map, List.map_map⟩
  · rw [scores_of_two_le config hmany, scores_of_two_le config (hlength ▸ hmany)]
    exact normalize_matches ((shares_matches hmatrix config).map _)

end Sums
end Ranking
end Deliberation
