import Deliberation.Proofs.Logic.MostGeneral

/-!
Matching a pattern against a ground term.

Unification does not check whether a variable stands in its own value. If one side is ground, it
does not have to: a step into the arguments makes the ground side smaller, a step of resolving on
the other side follows bindings without a circle, and a variable is only ever bound to a ground
part, which leads to no other name. So the comparison ends, and circles do not arise.
-/

namespace Deliberation

theorem Term.isGround_children {t : Term} (ht : t.isGround = true) :
    ∀ u ∈ t.children, u.isGround = true := by
  cases t with
  | literal l =>
      obtain ⟨f, n, xs, notes⟩ := l
      simp only [Term.isGround, Literal.isGround, Term.allGround_eq, Bool.and_eq_true,
        List.all_eq_true] at ht
      exact ht.1
  | _ => simp_all [Term.isGround, Term.children]

theorem Literal.isGround_arguments {m : Literal} (hm : m.isGround = true) :
    ∀ u ∈ m.arguments, u.isGround = true := by
  have hground : (Term.literal m).isGround = true := hm
  exact Term.isGround_children hground

theorem Term.size_lt_of_mem_children {t u : Term} (hu : u ∈ t.children) : u.size < t.size := by
  rw [Term.size_eq t, ← Term.sizeAll_eq]
  exact Nat.lt_succ_of_le (Term.size_le_sizeAll hu)

/-! ### New bindings with ground values -/

namespace Substitution

open Relation

variable {s s' s'' : Substitution} {b w : Term} {x : String}

/-- Bindings that extend others, and what they bind on top of them is ground. -/
structure GroundExtends (s' s : Substitution) : Prop where
  extend : s'.Extends s
  ground : ∀ x t, s.find? x = none → s'.find? x = some t → t.isGround = true

theorem GroundExtends.refl (s : Substitution) : s.GroundExtends s :=
  ⟨Extends.refl s, fun x t hnone hsome => by simp [hnone] at hsome⟩

theorem GroundExtends.trans (h : s''.GroundExtends s') (h' : s'.GroundExtends s) :
    s''.GroundExtends s where
  extend := h.extend.trans h'.extend
  ground x t hnone hsome := by
    cases hmiddle : s'.find? x with
    | none => exact h.ground x t hmiddle hsome
    | some u =>
        obtain rfl : u = t := Option.some.inj ((h.extend x u hmiddle).symm.trans hsome)
        exact h'.ground x u hnone hmiddle

theorem groundExtends_bind (hfree : s.find? x = none) (hb : b.isGround = true) :
    (s.bind x b).GroundExtends s where
  extend := extends_bind hfree b
  ground y t hnone hsome := by
    rw [find?_bind] at hsome
    split at hsome
    · exact Option.some.inj hsome ▸ hb
    · simp [hnone] at hsome

/-- A new name leads nowhere, so there are no new ways through the bindings. -/
theorem GroundExtends.dependsOn (h : s'.GroundExtends s) {y : String} (hxy : s'.DependsOn x y) :
    s.DependsOn x y := by
  obtain ⟨t, ht, hy⟩ := hxy
  cases hold : s.find? x with
  | none => simp [allNames_of_isGround.1 t (h.ground x t hold ht)] at hy
  | some u =>
      obtain rfl : u = t := Option.some.inj ((h.extend x u hold).symm.trans ht)
      exact ⟨u, hold, hy⟩

theorem GroundExtends.acyclic (h : s'.GroundExtends s) (hs : s.Acyclic) : s'.Acyclic :=
  fun x hcycle => hs x (TransGen.mono (fun _ _ => h.dependsOn) x x hcycle)

/-- The value that a ground term carries is ground. -/
theorem isGround_of_follow? (hb : b.isGround = true) (hw : s.follow? b = some w) :
    w.isGround = true ∧ w.size < b.size := by
  cases b with
  | bound x v =>
      obtain rfl : v = w := by simpa [follow?] using hw
      exact ⟨hb, by simp [Term.size]⟩
  | «variable» x => simp [Term.isGround] at hb
  | _ => simp [follow?] at hw

end Substitution

namespace Unification

open Relation

variable {s s' : Substitution} {a b v w : Term} {x : String} {depth : Nat}

theorem isAnonymous_of_isGround (hb : b.isGround = true) : b.isAnonymous = false := by
  cases b <;> simp_all [Term.isGround, Term.isAnonymous]

theorem ne_variable_of_isGround (hb : b.isGround = true) (y : String) : b ≠ .variable y := by
  rintro rfl
  simp [Term.isGround] at hb

/-- Making ground terms equal to others adds ground values only. -/
theorem Solves.groundExtends {pairs : List (Term × Term)} (h : Solves pairs s s')
    (hpairs : ∀ p ∈ pairs, p.2.isGround = true) : s'.GroundExtends s := by
  induction h with
  | done => exact .refl _
  | skip _ _ ih | atom _ ih | number _ _ ih | text _ ih =>
      exact ih (List.forall_mem_cons.1 hpairs).2
  | left _ _ ih =>
      rw [List.forall_mem_cons] at hpairs
      exact ih (List.forall_mem_cons.2 hpairs)
  | right hfollow _ ih =>
      rw [List.forall_mem_cons] at hpairs
      have hw := (Substitution.isGround_of_follow? hpairs.1 hfollow).1
      exact ih (List.forall_mem_cons.2 ⟨hw, hpairs.2⟩)
  | bindLeft _ hfree _ _ _ ih =>
      rw [List.forall_mem_cons] at hpairs
      exact (ih hpairs.2).trans (Substitution.groundExtends_bind hfree hpairs.1)
  | same _ _ | bindRight _ _ _ _ _ _ =>
      exact absurd rfl (ne_variable_of_isGround (List.forall_mem_cons.1 hpairs).1 _)
  | sequence _ _ ih =>
      rw [List.forall_mem_cons] at hpairs
      refine ih (List.forall_mem_append.2 ⟨fun p hp => ?_, hpairs.2⟩)
      exact Term.isGround_children hpairs.1 p.2 (List.of_mem_zip hp).2
  | literal _ _ ih =>
      rw [List.forall_mem_cons] at hpairs
      refine ih (List.forall_mem_append.2 ⟨fun p hp => ?_, hpairs.2⟩)
      exact Term.isGround_children hpairs.1 p.2 (List.of_mem_zip hp).2

/-! ### The steps of a comparison -/

/-- The pairs that have to be made equal for two terms of one kind that are no variables. -/
def pairs? : Term → Term → Option (List (Term × Term))
  | .atom x, .atom y => if x = y then some [] else none
  | .number x, .number y => if numberKey x = numberKey y then some [] else none
  | .text x, .text y => if x = y then some [] else none
  | .sequence xs, .sequence ys => if xs.length = ys.length then some (xs.zip ys) else none
  | .literal l, .literal m =>
    if l.sameSignature m then some (l.arguments.zip m.arguments) else none
  | _, _ => none

theorem mem_children_of_pairs? {pairs : List (Term × Term)} (h : pairs? a b = some pairs) :
    ∀ p ∈ pairs, p.1 ∈ a.children ∧ p.2 ∈ b.children := by
  intro p hp
  cases a <;> cases b <;> simp only [pairs?, reduceCtorEq] at h
  all_goals
    split at h
    · obtain rfl := Option.some.inj h
      exact List.of_mem_zip hp
    · simp at h

theorem within_anonymous (h : (a.isAnonymous || b.isAnonymous) = true) :
    within (depth + 1) a b s = .ok s := by
  simp [within, h]

/-- Two terms that are no variables are compared by their pairs. -/
theorem within_pairs (ha : ∀ x, a ≠ .variable x) (hb : ∀ y, b ≠ .variable y)
    (hleft : s.follow? a = none) (hright : s.follow? b = none) :
    within (depth + 1) a b s =
      match pairs? a b with
      | some pairs => pairs.foldlM (fun s p => within depth p.1 p.2 s) s
      | none => .error .mismatch := by
  cases a with
  | «variable» x => exact absurd rfl (ha x)
  | bound x v => simp [Substitution.follow?] at hleft
  | _ =>
      cases b with
      | «variable» y => exact absurd rfl (hb y)
      | bound y w => simp [Substitution.follow?] at hright
      | _ =>
          simp only [within, pairs?, Term.isAnonymous, Substitution.follow?, Bool.or_self,
            Bool.false_eq_true, ↓reduceIte]
          try split
          all_goals rfl

/-- A free variable is bound to the ground term that it is compared with. -/
theorem within_variable_ground (hb : b.isGround = true)
    (hx : (Term.variable x).isAnonymous = false) (hleft : s.follow? (.variable x) = none)
    (hright : s.follow? b = none) :
    within (depth + 1) (.variable x) b s = .ok (s.bind x b) := by
  have hnb := isAnonymous_of_isGround hb
  cases b with
  | «variable» y => simp [Term.isGround] at hb
  | _ => simp [within, hx, hnb, hleft, hright]

/-- A variable that leads nowhere is bound, unless it is compared with itself; that does not depend
on the depth. -/
theorem within_variable (h : (∃ x, a = .variable x) ∨ ∃ y, b = .variable y)
    (ha : a.isAnonymous = false) (hb : b.isAnonymous = false)
    (hleft : s.follow? a = none) (hright : s.follow? b = none) :
    ∃ s', (∀ depth, within (depth + 1) a b s = .ok s') ∧
      (s' = s ∨ ∃ x v, s.follow? v = none ∧ v ≠ .variable x ∧ s' = s.bind x v) := by
  by_cases hsame : a = b
  · subst hsame
    obtain ⟨x, rfl⟩ : ∃ x, a = .variable x := by simpa using h
    exact ⟨s, fun depth => by simp [within, ha, hleft], Or.inl rfl⟩
  · by_cases hvariable : ∃ x, a = .variable x
    · obtain ⟨x, rfl⟩ := hvariable
      refine ⟨s.bind x b, fun depth => ?_, Or.inr ⟨x, b, hright, Ne.symm hsame, rfl⟩⟩
      cases b <;> simp_all [within]
    · obtain ⟨y, rfl⟩ := h.resolve_left hvariable
      refine ⟨s.bind y a, fun depth => ?_, Or.inr ⟨y, a, hleft, hsame, rfl⟩⟩
      cases a <;> simp_all [within]

/-! ### Deeper nesting -/

theorem foldlM_eq_of_ne_endless {pairs : List (Term × Term)}
    {go go' : Term → Term → Substitution → Except UnifyError Substitution}
    (hgo : ∀ a b s, go a b s ≠ .error .endless → go' a b s = go a b s)
    (h : pairs.foldlM (fun s p => go p.1 p.2 s) s ≠ .error .endless) :
    pairs.foldlM (fun s p => go' p.1 p.2 s) s = pairs.foldlM (fun s p => go p.1 p.2 s) s := by
  induction pairs generalizing s with
  | nil => rfl
  | cons p pairs ih =>
      rw [List.foldlM_cons] at h ⊢
      rw [List.foldlM_cons]
      cases hp : go p.1 p.2 s with
      | error e =>
          rw [hp] at h
          have he : (Except.error e : Except UnifyError Substitution) ≠ .error .endless := h
          rw [hgo _ _ _ (by rwa [hp]), hp]
          rfl
      | ok s₁ =>
          rw [hp] at h
          rw [hgo _ _ _ (by simp [hp]), hp]
          exact ih h

/-- A comparison that came to an end ends in the same way where it may be nested deeper. -/
theorem within_succ (h : within depth a b s ≠ .error .endless) :
    within (depth + 1) a b s = within depth a b s := by
  induction depth generalizing a b s with
  | zero => exact absurd rfl h
  | succ depth ih =>
      by_cases hanonymous : (a.isAnonymous || b.isAnonymous) = true
      · rw [within_anonymous hanonymous, within_anonymous hanonymous]
      obtain ⟨ha, hb⟩ : a.isAnonymous = false ∧ b.isAnonymous = false := by simpa using hanonymous
      cases hleft : s.follow? a with
      | some v =>
          rw [within_left ha hb hleft] at h ⊢
          rw [within_left ha hb hleft]
          exact ih h
      | none =>
          cases hright : s.follow? b with
          | some w =>
              rw [within_right ha hb hleft hright] at h ⊢
              rw [within_right ha hb hleft hright]
              exact ih h
          | none =>
              by_cases hvariable : (∃ x, a = .variable x) ∨ ∃ y, b = .variable y
              · obtain ⟨s', hs', _⟩ := within_variable hvariable ha hb hleft hright
                rw [hs', hs']
              · rw [not_or, not_exists, not_exists] at hvariable
                rw [within_pairs hvariable.1 hvariable.2 hleft hright] at h ⊢
                rw [within_pairs hvariable.1 hvariable.2 hleft hright]
                cases hkind : pairs? a b with
                | none => rfl
                | some pairs =>
                    rw [hkind] at h
                    exact foldlM_eq_of_ne_endless (fun _ _ _ => ih) h

theorem within_of_le {deeper : Nat} (h : within depth a b s ≠ .error .endless)
    (hle : depth ≤ deeper) : within deeper a b s = within depth a b s := by
  induction hle with
  | refl => rfl
  | step _ ih => exact (within_succ (by rwa [ih])).trans ih

/-! ### Straight bindings -/

/-- Bindings stay straight if new steps only lead to terms of a sort that is not left again and that
has no circles. -/
theorem Straight.of_new {D : Term → Prop} (h : Straight s)
    (hnew : ∀ a v, Follows s' a v → Follows s a v ∨ D v)
    (hkept : ∀ a v, D a → Follows s' a v → D v)
    (hstraight : ∀ a, D a → ¬ TransGen (Follows s') a a) :
    Straight s' := by
  intro a hcycle
  have hsteps (v : Term) (hv : TransGen (Follows s') a v) : TransGen (Follows s) a v ∨ D v := by
    induction hv with
    | single hav => exact (hnew _ _ hav).imp_left .single
    | tail _ hvw ih =>
        rcases ih with hav | hv
        · exact (hnew _ _ hvw).imp_left (TransGen.tail hav)
        · exact Or.inr (hkept _ _ hv hvw)
  rcases hsteps a hcycle with hold | hD
  · exact h a hold
  · exact hstraight a hD hcycle

/-- Binding a variable to another term that leads nowhere keeps bindings straight. -/
theorem Straight.bind (h : Straight s) (hv : s.follow? v = none) (hne : v ≠ .variable x) :
    Straight (s.bind x v) := by
  have hend : (s.bind x v).follow? v = none := by
    cases v with
    | «variable» y =>
        have hyx : y ≠ x := fun heq => hne (heq ▸ rfl)
        simpa [Substitution.follow?, Substitution.find?_bind, hyx] using hv
    | _ => exact hv
  refine h.of_new (D := (· = v)) (fun a w haw => ?_) ?_ ?_
  · by_cases ha : a = .variable x
    · subst ha
      simp only [Follows, Substitution.follow?, Substitution.find?_bind_self] at haw
      split at haw
      · simp at haw
      · exact Or.inr (Option.some.inj haw).symm
    · refine Or.inl ?_
      cases a with
      | «variable» y =>
          have hyx : y ≠ x := fun heq => ha (heq ▸ rfl)
          simpa [Follows, Substitution.follow?, Substitution.find?_bind, hyx] using haw
      | _ => exact haw
  · rintro a w rfl haw
    simp [Follows, hend] at haw
  · rintro a rfl hcycle
    obtain ⟨w, haw, _⟩ := TransGen.head'_iff.1 hcycle
    simp [Follows, hend] at haw

theorem Straight.groundExtends (hs : Straight s) (h : s'.GroundExtends s) : Straight s' := by
  refine hs.of_new (D := fun v => v.isGround = true) (fun a v hav => ?_)
    (fun a v ha hav => (Substitution.isGround_of_follow? ha hav).1) (fun a ha hcycle => ?_)
  · cases a with
    | «variable» x =>
        simp only [Follows, Substitution.follow?] at hav ⊢
        split at hav
        · simp at hav
        · rename_i hx
          rw [if_neg hx]
          cases hold : s.find? x with
          | none => exact Or.inr (h.ground x v hold hav)
          | some u => exact Or.inl ((h.extend x u hold).symm.trans hav)
    | _ => exact Or.inl hav
  · have hless (v : Term) (hv : TransGen (Follows s') a v) :
        v.isGround = true ∧ v.size < a.size := by
      induction hv with
      | single hav => exact Substitution.isGround_of_follow? ha hav
      | tail _ hvw ih =>
          have hw := Substitution.isGround_of_follow? ih.1 hvw
          exact ⟨hw.1, hw.2.trans ih.2⟩
    exact (hless a hcycle).2.false

/-- Unification keeps bindings straight, also where it runs them in a circle. -/
theorem Straight.within (h : Straight s) (hs' : within depth a b s = .ok s') : Straight s' := by
  induction depth generalizing a b s s' with
  | zero => simp [Unification.within] at hs'
  | succ depth ih =>
      by_cases hanonymous : (a.isAnonymous || b.isAnonymous) = true
      · rw [within_anonymous hanonymous] at hs'
        exact Except.ok.inj hs' ▸ h
      obtain ⟨ha, hb⟩ : a.isAnonymous = false ∧ b.isAnonymous = false := by simpa using hanonymous
      cases hleft : s.follow? a with
      | some v =>
          rw [within_left ha hb hleft] at hs'
          exact ih h hs'
      | none =>
          cases hright : s.follow? b with
          | some w =>
              rw [within_right ha hb hleft hright] at hs'
              exact ih h hs'
          | none =>
              by_cases hvariable : (∃ x, a = .variable x) ∨ ∃ y, b = .variable y
              · obtain ⟨s₁, hs₁, hbound⟩ := within_variable hvariable ha hb hleft hright
                obtain rfl := Except.ok.inj ((hs₁ depth).symm.trans hs')
                rcases hbound with rfl | ⟨x, v, hv, hne, rfl⟩
                · exact h
                · exact h.bind hv hne
              · rw [not_or, not_exists, not_exists] at hvariable
                rw [within_pairs hvariable.1 hvariable.2 hleft hright] at hs'
                cases hkind : pairs? a b with
                | none => simp [hkind] at hs'
                | some pairs =>
                    rw [hkind] at hs'
                    exact List.foldlM_induction (fun s p _ s' hs hp => ih hs hp) h hs'

/-! ### Comparisons with a ground term -/

/-- How a comparison ends: with bindings of some sort, or in one kind of error. -/
def Yields (e : UnifyError) (P : Substitution → Prop) : Except UnifyError Substitution → Prop
  | .ok s => P s
  | .error e' => e' = e

theorem Yields.foldlM {e : UnifyError} {P : Substitution → Prop} {pairs : List (Term × Term)}
    {go : Term → Term → Substitution → Except UnifyError Substitution}
    (hgo : ∀ p ∈ pairs, ∀ s, P s → Yields e P (go p.1 p.2 s)) (hs : P s) :
    Yields e P (pairs.foldlM (fun s p => go p.1 p.2 s) s) := by
  induction pairs generalizing s with
  | nil => exact hs
  | cons p pairs ih =>
      rw [List.forall_mem_cons] at hgo
      have hhead := hgo.1 s hs
      rw [List.foldlM_cons]
      cases hp : go p.1 p.2 s with
      | error e' =>
          rw [hp] at hhead
          exact hhead
      | ok s₁ =>
          rw [hp] at hhead
          exact ih hgo.2 hhead

variable {parts : Finset Term}

/-- Straight bindings with values among some parts. -/
structure Settled (parts : Finset Term) (s : Substitution) : Prop where
  straight : Straight s
  values : ∀ x v, s.find? x = some v → v ∈ parts

theorem Settled.bind (h : Settled parts s) (hfree : s.find? x = none) (hb : b.isGround = true)
    (hparts : b ∈ parts) : Settled parts (s.bind x b) where
  straight := h.straight.groundExtends (Substitution.groundExtends_bind hfree hb)
  values y v hy := by
    rw [Substitution.find?_bind] at hy
    split at hy
    · exact Option.some.inj hy ▸ hparts
    · exact h.values y v hy

/-- A depth at which the comparison of a term with a ground one can be nested: as many levels as the
ground term has parts, and on each of them a chain of steps of resolving. -/
noncomputable def groundNeed (parts : Finset Term) (s : Substitution) (a b : Term) : Nat :=
  b.size * (parts.card + 1) + chain parts s a + 1

/-- A smaller ground side needs less depth, whatever it is compared with. -/
theorem groundNeed_le_of_lt (s' : Substitution) (a' : Term) (hw : w.size < b.size)
    (hdepth : groundNeed parts s a b ≤ depth + 1) : groundNeed parts s' a' w ≤ depth := by
  have hchain := chain_le parts s' a'
  have hmul : (w.size + 1) * (parts.card + 1) ≤ b.size * (parts.card + 1) :=
    Nat.mul_le_mul_right _ hw
  rw [Nat.add_mul] at hmul
  rw [groundNeed] at hdepth ⊢
  omega

/-- A comparison with a ground term ends: with bindings of the same sort, or in a mismatch. -/
theorem Settled.within_ground (h : Settled parts s) (hparts : Closed parts) (ha : a ∈ parts)
    (hb : b ∈ parts) (hground : b.isGround = true) (hdepth : groundNeed parts s a b ≤ depth) :
    Yields .mismatch (Settled parts) (within depth a b s) := by
  induction depth generalizing a b s with
  | zero => simp [groundNeed] at hdepth
  | succ depth ih =>
      by_cases hanonymous : (a.isAnonymous || b.isAnonymous) = true
      · rw [within_anonymous hanonymous]
        exact h
      obtain ⟨hna, hnb⟩ : a.isAnonymous = false ∧ b.isAnonymous = false := by
        simpa using hanonymous
      cases hleft : s.follow? a with
      | some v =>
          have hv := hparts.follow? h.values ha hleft
          have hchain := chain_lt h.straight hv hleft
          rw [within_left hna hnb hleft]
          refine ih h hv hb hground ?_
          rw [groundNeed] at hdepth ⊢
          omega
      | none =>
          cases hright : s.follow? b with
          | some w =>
              have hw := Substitution.isGround_of_follow? hground hright
              rw [within_right hna hnb hleft hright]
              exact ih h ha (hparts.follow? h.values hb hright) hw.1
                (groundNeed_le_of_lt s a hw.2 hdepth)
          | none =>
              have hnotb := ne_variable_of_isGround hground
              by_cases hvariable : ∃ x, a = .variable x
              · obtain ⟨x, rfl⟩ := hvariable
                have hfree := (find?_of_follow? hna hleft).2
                rw [within_variable_ground hground hna hleft hright]
                exact h.bind hfree hground hb
              · rw [within_pairs (not_exists.1 hvariable) hnotb hleft hright]
                cases hkind : pairs? a b with
                | none => rfl
                | some pairs =>
                    refine Yields.foldlM (fun p hp s' hs' => ?_) h
                    obtain ⟨hleft', hright'⟩ := mem_children_of_pairs? hkind p hp
                    exact ih hs' (hparts a ha p.1 hleft') (hparts b hb p.2 hright')
                      (Term.isGround_children hground p.2 hright')
                      (groundNeed_le_of_lt s' p.1 (Term.size_lt_of_mem_children hright') hdepth)

theorem settled_partsOf (a b : Term) (hs : Straight s) : Settled (partsOf a b s) s :=
  ⟨hs, fun x v hv => mem_partsOf.2 (Or.inr (Or.inr ⟨x, v, hv, v.self_mem_parts⟩))⟩

theorem groundNeed_le {n : Nat} (hcard : parts.card ≤ n + 2) (hb : b.size ≤ n) :
    groundNeed parts s a b ≤ (n + 2) ^ 3 := by
  have hchain := (chain_le parts s a).trans hcard
  have hcube : (n + 2) ^ 3 = n * (n + 2 + 1) + (n + 2) + 1 + (n ^ 3 + 5 * n ^ 2 + 8 * n + 5) := by
    ring
  calc groundNeed parts s a b
    _ ≤ n * (n + 2 + 1) + (n + 2) + 1 := by
        rw [groundNeed]
        gcongr
    _ ≤ (n + 2) ^ 3 := by
        rw [hcube]
        exact Nat.le_add_right _ _

theorem Yields.ne_endless {P : Substitution → Prop} {r : Except UnifyError Substitution}
    (h : Yields .mismatch P r) : r ≠ .error .endless := by
  rintro rfl
  simp [Yields] at h

/-- Unification with a ground term is never cut off. -/
theorem unify_ne_endless (hs : Straight s) (hb : b.isGround = true) :
    unify a b s ≠ .error .endless := by
  have hcard := card_partsOf_le a b s
  have hneed : groundNeed (partsOf a b s) s a b ≤ depthBound (a.size + b.size) s :=
    groundNeed_le (by omega) (by omega)
  have hyields := (settled_partsOf a b hs).within_ground (closed_partsOf a b s)
    (mem_partsOf.2 (Or.inl a.self_mem_parts)) (mem_partsOf.2 (Or.inr (Or.inl b.self_mem_parts)))
    hb hneed
  exact hyields.ne_endless

theorem unifyLiterals_ne_endless {l m : Literal} (hs : Straight s) (hm : m.isGround = true) :
    unifyLiterals l m s ≠ .error .endless := by
  have hclosed := closed_partsOf (.literal l) (.literal m) s
  have hcard := card_partsOf_le (.literal l) (.literal m) s
  rw [Term.size, Term.size] at hcard
  unfold unifyLiterals
  split
  · have hstart := settled_partsOf (.literal l) (.literal m) hs
    refine (Yields.foldlM (fun p hp s' hs' => ?_) hstart).ne_endless
    obtain ⟨hleft, hright⟩ := List.of_mem_zip hp
    have hsize : p.2.size ≤ m.size := by
      rw [Literal.size_eq]
      exact Term.size_le_sizeAll hright
    have hneed : groundNeed (partsOf (.literal l) (.literal m) s) s' p.1 p.2 ≤
        depthBound (l.size + m.size) s := groundNeed_le (by omega) (by omega)
    exact hs'.within_ground hclosed
      (hclosed (.literal l) (mem_partsOf.2 (Or.inl (Term.self_mem_parts _))) _ hleft)
      (hclosed (.literal m) (mem_partsOf.2 (Or.inr (Or.inl (Term.self_mem_parts _)))) _ hright)
      (Literal.isGround_arguments hm _ hright) hneed
  · simp

theorem Straight.unifyLiterals {l m : Literal} (hs : Straight s)
    (h : unifyLiterals l m s = .ok s') : Straight s' := by
  unfold Deliberation.unifyLiterals at h
  split at h
  · exact List.foldlM_induction (fun _ _ _ _ => Straight.within) hs h
  · simp at h

/-- Matching a ground literal only adds ground values. -/
theorem unifyLiterals_groundExtends {l m : Literal} (hm : m.isGround = true)
    (h : unifyLiterals l m s = .ok s') : s'.GroundExtends s :=
  (unifyLiterals_solves h).2.groundExtends fun p hp =>
    Literal.isGround_arguments hm p.2 (List.of_mem_zip hp).2

end Unification
end Deliberation
