import Deliberation.Proofs.Logic.Idempotence

/-!
Giving a variable a value through the variables that it stands for.

A variable that is bound to another one stands for it, and so on to the end of the chain. Without
circles the chain is no longer than the bindings are many, so an assignment follows it to the end,
and binds the name there. Every name whose chain ends there then has the value, however many chains
run together; a name that does not lead there is not affected.
-/

namespace Deliberation
namespace Substitution

open Relation

variable {s : Substitution} {t v : Term} {x n e : String}

/-! ### The end of a chain -/

theorem Acyclic.exists_isAliasEnd (hs : s.Acyclic) (x : String) : ∃ e, s.IsAliasEnd x e := by
  induction x using hs.induction with
  | step x ih =>
      by_cases hnext : ∃ y, s.StandsFor x y
      · obtain ⟨y, hxy⟩ := hnext
        obtain ⟨e, hchain, hlast⟩ := ih y hxy.dependsOn
        exact ⟨e, .head hxy hchain, hlast⟩
      · exact ⟨x, .refl, not_exists.1 hnext⟩

/-- As many steps as there are bindings lead to the end of every chain. -/
theorem Acyclic.isAliasEnd_iff (hs : s.Acyclic) {steps : Nat} (hsteps : s.size ≤ steps) :
    s.IsAliasEnd x e ↔ e = s.aliasEnd steps x := by
  have hmet := (s.card_metFrom_le x).trans hsteps
  constructor
  · intro h
    exact (hs.aliasEnd_eq_of_isAliasEnd h hmet).symm
  · rintro rfl
    obtain ⟨e, he⟩ := hs.exists_isAliasEnd x
    rwa [hs.aliasEnd_eq_of_isAliasEnd he hmet]

/-! ### Values after a name was bound -/

theorem Acyclic.bind_ground (hs : s.Acyclic) (hv : v.isGround = true) : (s.bind e v).Acyclic :=
  hs.bind fun y hy => by simp [allNames_of_isGround.1 v hv] at hy

/-- A new binding makes no difference to a term that does not lead to its name. -/
theorem apply_bind_of_not_met (hs : s.Acyclic) (hbind : (s.bind e v).Acyclic)
    (ht : ∀ x ∈ t.allNames, ¬ ReflTransGen s.DependsOn x e) :
    (s.bind e v).apply t = s.apply t := by
  have hvar (x : String) (hx : x ≠ anonymousName) (hmet : ¬ ReflTransGen s.DependsOn x e) :
      (s.bind e v).apply (.variable x) = s.apply (.variable x) := by
    induction x using hs.induction with
    | step x ih =>
        have hne : x ≠ e := by
          rintro rfl
          exact hmet .refl
        have hfind : (s.bind e v).find? x = s.find? x := by rw [find?_bind, if_neg hne]
        cases hw : s.find? x with
        | none =>
            rw [apply_variable_of_find?_eq_none hw,
              apply_variable_of_find?_eq_none (hfind.trans hw)]
        | some w =>
            rw [apply_variable (hs.settles x) hx hw,
              apply_variable (hbind.settles x) hx (hfind.trans hw)]
            refine apply_congr fun y hy => ?_
            have hxy : s.DependsOn x y := ⟨w, hw, hy⟩
            exact ih y hxy (ne_anonymous_of_mem_allNames.1 w hy) fun hye => hmet (.head hxy hye)
  exact apply_congr fun x hx => hvar x (ne_anonymous_of_mem_allNames.1 t hx) (ht x hx)

theorem value?_bind_of_not_met (hs : s.Acyclic) (hbind : (s.bind e v).Acyclic)
    (hn : ¬ ReflTransGen s.DependsOn n e) : (s.bind e v).value? n = s.value? n := by
  have hne : n ≠ e := by
    rintro rfl
    exact hn .refl
  rw [value?, value?, find?_bind, if_neg hne]
  cases hw : s.find? n with
  | none => rfl
  | some w =>
      rw [Option.map_some, Option.map_some, apply_bind_of_not_met hs hbind fun y hy hye => ?_]
      exact hn (.head ⟨w, hw, hy⟩ hye)

/-- A name sees what the end of its chain is bound to. -/
theorem value?_bind_of_isAliasEnd (hbind : (s.bind e v).Acyclic) (h : s.IsAliasEnd n e) :
    (s.bind e v).value? n = some ((s.bind e v).apply v) := by
  obtain ⟨hchain, hlast⟩ := h
  induction hchain using ReflTransGen.head_induction_on with
  | refl => rw [value?, find?_bind_self, Option.map_some]
  | @head n m hnm _ ih =>
      -- the end stands for nothing, so the way from `n` to `m` is still there
      have hne : n ≠ e := by
        rintro rfl
        exact hlast m hnm
      have hfind : (s.bind e v).find? n = some (.variable m) := by
        rw [find?_bind, if_neg hne, hnm.1]
      obtain ⟨w, hw, _⟩ := Option.map_eq_some_iff.1 ih
      rw [← ih, value?_eq_apply_variable hbind hnm.2 hw, value?, hfind]
      rfl

/-! ### Assignments of ground values -/

/-- A ground term has no names, so all bindings make the same of it. -/
theorem apply_ground (s s' : Substitution) (hv : v.isGround = true) : s.apply v = s'.apply v :=
  apply_congr fun x hx => by simp [allNames_of_isGround.1 v hv] at hx

theorem apply_ground_eq_self (s : Substitution) (hv : v.isGround = true) (hbare : v.isBare = true) :
    s.apply v = v :=
  Resolved.apply_eq ⟨hbare, fun x hx => by simp [allNames_of_isGround.1 v hv] at hx⟩

/-- Each chain has one end, and an assignment reaches it. Nothing but the binding of the end is
changed, no circle arises, every name whose chain ends there has the value, and a name that does not
lead there keeps its own. -/
theorem assign_binds_alias_end (hs : s.Acyclic) (x : String) (hv : v.isGround = true) :
    ∃ e, (∀ e', s.IsAliasEnd x e' ↔ e' = e) ∧ s.aliasEnd (s.size + 1) x = e ∧
      (∀ n, (s.assign x v).find? n = if n = e then some v else s.find? n) ∧
      (s.assign x v).Acyclic ∧
      (∀ n, s.IsAliasEnd n e → (s.assign x v).value? n = some (s.apply v)) ∧
      (v.isBare = true → s.apply v = v) ∧
      ∀ n, ¬ ReflTransGen s.DependsOn n e → (s.assign x v).value? n = s.value? n := by
  have hend (e' : String) := hs.isAliasEnd_iff (x := x) (e := e') (Nat.le_succ s.size)
  have hassign : (s.assign x v).Acyclic := hs.bind_ground hv
  refine ⟨_, hend, rfl, find?_bind s _ v, hassign, fun n hn => ?_, s.apply_ground_eq_self hv,
    fun n hn => value?_bind_of_not_met hs hassign hn⟩
  rw [s.apply_ground (s.assign x v) hv]
  exact value?_bind_of_isAliasEnd hassign hn

/-- `A` stands for `B` and both `B` and `D` for `C`, which is bound to nothing; `G` leads
elsewhere. -/
theorem assign_binds_alias_end_branches :
    let s := ofList [("A", .variable "B"), ("B", .variable "C"), ("D", .variable "C"),
      ("G", .sequence [.variable "H"]), ("H", .atom "kept")]
    let s' := s.assign "A" (.sequence [.bound "V" (.atom "five")])
    s'.value? "A" = some (.sequence [.atom "five"]) ∧
      s'.value? "D" = some (.sequence [.atom "five"]) ∧
      s'.find? "A" = some (.variable "B") ∧ s'.value? "G" = s.value? "G" := by
  intro s s'
  have hs : s.Acyclic := by
    refine acyclic_of_rank
      (fun x => if x = "A" then 3 else if x = "B" ∨ x = "D" ∨ x = "G" then 2 else
        if x = "C" ∨ x = "H" then 1 else 0) ?_
    decide +kernel
  obtain ⟨e, hend, hreached, hfind, _, hvalue, _, hkept⟩ :=
    assign_binds_alias_end hs "A" (v := .sequence [.bound "V" (.atom "five")]) (by decide)
  obtain rfl : "C" = e := by
    rw [← hreached]
    decide +kernel
  have hD : s.IsAliasEnd "D" "C" := (hs.isAliasEnd_iff (Nat.le_refl _)).2 (by decide +kernel)
  have hfive : s.apply (.sequence [.bound "V" (.atom "five")]) = .sequence [.atom "five"] := rfl
  have hG (y : String) (hy : ReflTransGen s.DependsOn "G" y) : y ∈ ["G", "H"] := by
    have hclosed : ∀ b ∈ s.toList, b.1 ∈ ["G", "H"] → ∀ z ∈ b.2.allNames, z ∈ ["G", "H"] := by
      decide +kernel
    induction hy with
    | refl => decide
    | tail _ hyz ih =>
        obtain ⟨t, ht, hz⟩ := hyz
        exact hclosed _ (find?_eq_some_iff.1 ht) ih _ hz
  rw [hfive] at hvalue
  refine ⟨hvalue "A" ((hend "C").2 rfl), hvalue "D" hD, ?_, hkept "G" fun hmet => ?_⟩
  · rw [hfind]
    rfl
  · exact absurd (hG "C" hmet) (by decide)

end Substitution
end Deliberation
