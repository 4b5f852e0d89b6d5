import Deliberation.Proofs.Logic.Matching

/-!
Bindings under which a pattern matches a ground term.

`Unification.Matches` says that under some bindings a pattern is a ground term, up to anonymous
variables. That is so after the pattern was unified with the term, and it stays so when more is
bound. The other way round, if the pattern matches under bindings that have ground terms for some of
the variables, it can be unified with the term while these are still free: what they are bound to
then need not be the same terms, since annotations and carried values do not count, but it matches
them.
-/

namespace Deliberation
namespace Unification

variable {s s' t : Substitution} {a b c v w : Term} {x : String} {depth : Nat}

/-! ### Bindings under which a pattern matches -/

/-- Under some bindings a pattern is a term, up to anonymous variables: no variable of it has to be
bound any more. -/
inductive Matches (t : Substitution) : Term → Term → Prop
  | anonymous {a b : Term} : a.isAnonymous = true → Matches t a b
  | left {a b v : Term} : t.follow? a = some v → Matches t v b → Matches t a b
  | right {a b w : Term} : t.follow? b = some w → Matches t a w → Matches t a b
  | parts {a b : Term} {pairs : List (Term × Term)} :
      pairs? a b = some pairs → (∀ p ∈ pairs, Matches t p.1 p.2) → Matches t a b

theorem follow?_of_extends (h : s'.Extends s) (ha : s.follow? a = some v) :
    s'.follow? a = some v := by
  cases a with
  | «variable» x =>
      simp only [Substitution.follow?] at ha ⊢
      split at ha
      · simp at ha
      · rename_i hx
        rw [if_neg hx]
        exact h x v ha
  | _ => exact ha

theorem Matches.mono (h : Matches s a b) (hext : t.Extends s) : Matches t a b := by
  induction h with
  | anonymous ha => exact .anonymous ha
  | left ha _ ih => exact .left (follow?_of_extends hext ha) ih
  | right hb _ ih => exact .right (follow?_of_extends hext hb) ih
  | parts hpairs _ ih => exact .parts hpairs ih

theorem follow?_of_pairs? {pairs : List (Term × Term)} (h : pairs? a b = some pairs) :
    s.follow? a = none ∧ s.follow? b = none := by
  cases a <;> cases b <;> simp_all [pairs?, Substitution.follow?]

theorem Matches.follow_left (h : Matches t a b) (ha : t.follow? a = some v) : Matches t v b := by
  induction h with
  | @anonymous a b hanonymous =>
      cases a with
      | «variable» x =>
          have hx : x = anonymousName := by simpa [Term.isAnonymous] using hanonymous
          simp [Substitution.follow?, hx] at ha
      | _ => simp [Term.isAnonymous] at hanonymous
  | left hfollow hrest _ =>
      obtain rfl := Option.some.inj (hfollow.symm.trans ha)
      exact hrest
  | right hfollow _ ih => exact .right hfollow (ih ha)
  | parts hpairs _ _ => simp [(follow?_of_pairs? hpairs).1] at ha

theorem Matches.follow_right (h : Matches t a b) (hb : t.follow? b = some w) : Matches t a w := by
  induction h with
  | anonymous ha => exact .anonymous ha
  | left hfollow _ ih => exact .left hfollow (ih hb)
  | right hfollow hrest _ =>
      obtain rfl := Option.some.inj (hfollow.symm.trans hb)
      exact hrest
  | parts hpairs _ _ => simp [(follow?_of_pairs? hpairs).2] at hb

/-- Terms that are not resolved further match by their parts. -/
theorem Matches.pairs (h : Matches t a b) (hna : a.isAnonymous = false)
    (ha : t.follow? a = none) (hb : t.follow? b = none) :
    ∃ pairs, pairs? a b = some pairs ∧ ∀ p ∈ pairs, Matches t p.1 p.2 := by
  cases h with
  | anonymous hanonymous => simp [hna] at hanonymous
  | left hfollow _ => simp [ha] at hfollow
  | right hfollow _ => simp [hb] at hfollow
  | parts hpairs hall => exact ⟨_, hpairs, hall⟩

/-! ### Matching ground terms with each other -/

theorem mem_zip_self {xs : List Term} {p : Term × Term} (hp : p ∈ xs.zip xs) :
    p.1 ∈ xs ∧ p.1 = p.2 := by
  have hzip := zip_map_self id xs
  rw [List.map_id] at hzip
  obtain ⟨u, hu, rfl⟩ := List.mem_map.1 (hzip ▸ hp)
  exact ⟨hu, rfl⟩

/-- A ground term matches itself. -/
theorem matches_self (t : Substitution) (hb : b.isGround = true) : Matches t b b := by
  induction b using Term.children_induction with
  | h b ih =>
      have hchild (u : Term) (hu : u ∈ b.children) := ih u hu (Term.isGround_children hb u hu)
      cases b with
      | «variable» x => simp [Term.isGround] at hb
      | bound x v =>
          have hv : Matches t v v := hchild v (by simp [Term.children])
          exact .left (v := v) rfl (.right (w := v) rfl hv)
      | sequence xs =>
          refine .parts (if_pos rfl) fun p hp => ?_
          obtain ⟨hu, heq⟩ := mem_zip_self hp
          exact heq ▸ hchild p.1 hu
      | literal l =>
          refine .parts (if_pos (by simp [Literal.sameSignature_iff])) fun p hp => ?_
          obtain ⟨hu, heq⟩ := mem_zip_self hp
          exact heq ▸ hchild p.1 hu
      | _ => exact .parts (if_pos rfl) (by simp)

/-- If the second components of two lists of pairs are lined up by the first, they can be paired. -/
theorem exists_mem_zip {xs ys zs : List Term} (hys : xs.length = ys.length)
    {p : Term × Term} (hp : p ∈ ys.zip zs) :
    ∃ u, (u, p.1) ∈ xs.zip ys ∧ (u, p.2) ∈ xs.zip zs := by
  induction xs generalizing ys zs with
  | nil =>
      obtain rfl := List.eq_nil_of_length_eq_zero hys.symm
      simp at hp
  | cons x xs ih =>
      cases ys with
      | nil => simp at hys
      | cons y ys =>
          cases zs with
          | nil => simp at hp
          | cons z zs =>
              rw [List.zip_cons_cons, List.mem_cons] at hp
              rcases hp with rfl | hp
              · exact ⟨x, by simp, by simp⟩
              · obtain ⟨u, hu, hu'⟩ := ih (by simpa using hys) hp
                exact ⟨u, List.mem_cons_of_mem _ hu, List.mem_cons_of_mem _ hu'⟩

/-- Two terms of the kind of a third are of one kind, and what is paired is paired with the same
parts of the third. -/
theorem pairs?_of_pairs? {first second : List (Term × Term)} (hb : pairs? a b = some first)
    (hc : pairs? a c = some second) :
    ∃ pairs, pairs? b c = some pairs ∧
      ∀ p ∈ pairs, ∃ u, (u, p.1) ∈ first ∧ (u, p.2) ∈ second := by
  cases a <;> cases b <;> simp only [pairs?, reduceCtorEq, Option.ite_none_right_eq_some,
    Option.some.injEq] at hb <;> cases c <;> simp only [pairs?, reduceCtorEq,
    Option.ite_none_right_eq_some, Option.some.injEq] at hc
  case sequence.sequence.sequence xs ys zs =>
    obtain ⟨hys, rfl⟩ := hb
    obtain ⟨hzs, rfl⟩ := hc
    exact ⟨_, if_pos (hys.symm.trans hzs), fun p hp => exists_mem_zip hys hp⟩
  case literal.literal.literal l m k =>
    obtain ⟨hm, rfl⟩ := hb
    obtain ⟨hk, rfl⟩ := hc
    rw [Literal.sameSignature_iff] at hm hk
    refine ⟨_, if_pos ?_, fun p hp => exists_mem_zip hm.2.2 hp⟩
    rw [Literal.sameSignature_iff]
    exact ⟨hm.1.symm.trans hk.1, hm.2.1.symm.trans hk.2.1, hm.2.2.symm.trans hk.2.2⟩
  all_goals
    obtain ⟨hb, rfl⟩ := hb
    obtain ⟨hc, rfl⟩ := hc
    exact ⟨[], if_pos (hb.symm.trans hc), by simp⟩

/-- What matches one ground term and another makes them match. -/
theorem Matches.euclidean (hb : Matches t a b) (hc : Matches t a c) (ha : a.isGround = true) :
    Matches t b c := by
  induction hb generalizing c with
  | @anonymous a b hanonymous => cases a <;> simp_all [Term.isAnonymous, Term.isGround]
  | left hfollow _ ih =>
      exact ih (hc.follow_left hfollow) (Substitution.isGround_of_follow? ha hfollow).1
  | right hfollow _ ih => exact .left hfollow (ih hc ha)
  | @parts a b first hfirst hall ih =>
      induction hc with
      | @anonymous a c hanonymous => cases a <;> simp_all [Term.isAnonymous, Term.isGround]
      | left hfollow _ _ => simp [(follow?_of_pairs? hfirst).1] at hfollow
      | right hfollow _ ihc => exact .right hfollow (ihc hfirst ha)
      | @parts a c second hsecond hall' _ =>
          obtain ⟨pairs, hpairs, hlined⟩ := pairs?_of_pairs? hfirst hsecond
          refine .parts hpairs fun p hp => ?_
          obtain ⟨u, hu, hu'⟩ := hlined p hp
          have hground := Term.isGround_children ha u (mem_children_of_pairs? hfirst _ hu).1
          exact ih (u, p.1) hu (hall' (u, p.2) hu') hground

/-- After a pattern was made equal to a ground term, it matches it. -/
theorem Solves.matches {pairs : List (Term × Term)} (h : Solves pairs s s')
    (hpairs : ∀ p ∈ pairs, p.2.isGround = true) : ∀ p ∈ pairs, Matches s' p.1 p.2 := by
  have hzip {xs ys : List Term} {rest : List (Term × Term)} (hys : ∀ u ∈ ys, u.isGround = true)
      (hrest : ∀ p ∈ rest, p.2.isGround = true) : ∀ p ∈ xs.zip ys ++ rest, p.2.isGround = true :=
    List.forall_mem_append.2 ⟨fun p hp => hys p.2 (List.of_mem_zip hp).2, hrest⟩
  induction h with
  | done => simp
  | @skip a b rest s s' hanonymous _ ih =>
      rw [List.forall_mem_cons] at hpairs ⊢
      have hb := isAnonymous_of_isGround hpairs.1
      exact ⟨.anonymous (by simpa [hb] using hanonymous), ih hpairs.2⟩
  | left hfollow hrest ih =>
      rw [List.forall_mem_cons] at hpairs
      have hall := List.forall_mem_cons.1 (ih (List.forall_mem_cons.2 hpairs))
      exact List.forall_mem_cons.2
        ⟨.left (follow?_of_extends hrest.extends hfollow) hall.1, hall.2⟩
  | right hfollow hrest ih =>
      rw [List.forall_mem_cons] at hpairs
      have hw := (Substitution.isGround_of_follow? hpairs.1 hfollow).1
      have hall := List.forall_mem_cons.1 (ih (List.forall_mem_cons.2 ⟨hw, hpairs.2⟩))
      exact List.forall_mem_cons.2
        ⟨.right (follow?_of_extends hrest.extends hfollow) hall.1, hall.2⟩
  | @bindLeft x b rest s s' hx _ _ _ hrest ih =>
      rw [List.forall_mem_cons] at hpairs ⊢
      have hbound := hrest.extends x b (Substitution.find?_bind_self s x b)
      have hfollow : s'.follow? (.variable x) = some b := by
        simp [Substitution.follow?, hx, hbound]
      exact ⟨.left hfollow (matches_self s' hpairs.1), ih hpairs.2⟩
  | same _ _ | bindRight _ _ _ _ _ _ =>
      exact absurd rfl (ne_variable_of_isGround (List.forall_mem_cons.1 hpairs).1 _)
  | atom _ ih | text _ ih =>
      rw [List.forall_mem_cons] at hpairs ⊢
      exact ⟨matches_self _ hpairs.1, ih hpairs.2⟩
  | number hkey _ ih =>
      rw [List.forall_mem_cons] at hpairs ⊢
      exact ⟨.parts (if_pos hkey) (by simp), ih hpairs.2⟩
  | sequence hlength _ ih =>
      rw [List.forall_mem_cons] at hpairs
      have hall := List.forall_mem_append.1
        (ih (hzip (Term.isGround_children hpairs.1) hpairs.2))
      exact List.forall_mem_cons.2 ⟨.parts (if_pos hlength) hall.1, hall.2⟩
  | literal hsignature _ ih =>
      rw [List.forall_mem_cons] at hpairs
      have hall := List.forall_mem_append.1
        (ih (hzip (Term.isGround_children hpairs.1) hpairs.2))
      exact List.forall_mem_cons.2 ⟨.parts (if_pos hsignature) hall.1, hall.2⟩

/-! ### Matching under fewer bindings -/

/-- What `s` binds, `t` binds to the same term or to a ground term that matches; what else `t` binds
is ground. -/
structure Agrees (t s : Substitution) : Prop where
  kept : ∀ x v, s.find? x = some v →
    ∃ w, t.find? x = some w ∧ (w = v ∨ w.isGround = true ∧ Matches t w v)
  ground : ∀ x w, s.find? x = none → t.find? x = some w → w.isGround = true

theorem agrees_of_groundExtends (h : t.GroundExtends s) : Agrees t s :=
  ⟨fun x v hv => ⟨v, h.extend x v hv, Or.inl rfl⟩, h.ground⟩

theorem Agrees.bind (h : Agrees t s) (hfree : s.find? x = none) (hw : t.find? x = some w)
    (hb : Matches t w b) : Agrees t (s.bind x b) where
  kept y v hy := by
    rw [Substitution.find?_bind] at hy
    split at hy
    · rename_i hyx
      obtain rfl := Option.some.inj hy
      subst hyx
      exact ⟨w, hw, Or.inr ⟨h.ground y w hfree hw, hb⟩⟩
    · exact h.kept y v hy
  ground y u hnone hu := by
    rw [Substitution.find?_bind] at hnone
    split at hnone
    · simp at hnone
    · exact h.ground y u hnone hu

/-- A step of resolving leads to a term that still matches. -/
theorem Agrees.follow (h : Agrees t s) (hv : s.follow? a = some v) (hab : Matches t a b) :
    Matches t v b := by
  cases a with
  | bound x u => exact hab.follow_left hv
  | «variable» x =>
      simp only [Substitution.follow?] at hv
      split at hv
      · simp at hv
      · rename_i hx
        obtain ⟨w, hw, hwv⟩ := h.kept x v hv
        have hwb : Matches t w b := hab.follow_left (by simp [Substitution.follow?, hx, hw])
        rcases hwv with rfl | ⟨hground, hwv⟩
        · exact hwb
        · exact hwv.euclidean hwb hground
  | _ => simp [Substitution.follow?] at hv

/-- If a pattern matches a ground term under bindings that agree with the ones that are there, the
comparison does not end in a mismatch. What it binds has a property that every binding keeps that
makes the pattern match. -/
theorem Matches.within {P : Substitution → Prop} (hab : Matches t a b) (hs : P s)
    (hP : ∀ s, P s → Agrees t s)
    (hbind : ∀ s x w b, P s → s.find? x = none → t.find? x = some w → Matches t w b →
      P (s.bind x b))
    (hground : b.isGround = true) : Yields .endless P (within depth a b s) := by
  induction depth generalizing a b s with
  | zero => rfl
  | succ depth ih =>
      by_cases hna : a.isAnonymous = true
      · rw [within_anonymous (by simp [hna])]
        exact hs
      rw [Bool.not_eq_true] at hna
      have hnb := isAnonymous_of_isGround hground
      cases hleft : s.follow? a with
      | some v =>
          rw [within_left hna hnb hleft]
          exact ih ((hP s hs).follow hleft hab) hs hground
      | none =>
          cases hright : s.follow? b with
          | some w =>
              have hw : t.follow? b = some w := by
                cases b with
                | «variable» y => simp [Term.isGround] at hground
                | _ => exact hright
              rw [within_right hna hnb hleft hright]
              exact ih (hab.follow_right hw) hs (Substitution.isGround_of_follow? hground hright).1
          | none =>
              have hnotb := ne_variable_of_isGround hground
              have hright' : t.follow? b = none := by
                cases b with
                | «variable» y => exact absurd rfl (hnotb y)
                | _ => exact hright
              by_cases hvariable : ∃ x, a = .variable x
              · obtain ⟨x, rfl⟩ := hvariable
                have hfree := (find?_of_follow? hna hleft).2
                rw [within_variable_ground hground hna hleft hright]
                cases hw : t.follow? (.variable x) with
                | none =>
                    obtain ⟨pairs, hpairs, _⟩ := hab.pairs hna hw hright'
                    simp [pairs?] at hpairs
                | some w =>
                    refine hbind s x w b hs hfree ?_ (hab.follow_left hw)
                    have hx := (find?_of_follow? hna hleft).1
                    simpa [Substitution.follow?, hx] using hw
              · rw [not_exists] at hvariable
                have hleft' : t.follow? a = none := by
                  cases a with
                  | «variable» x => exact absurd rfl (hvariable x)
                  | _ => exact hleft
                obtain ⟨pairs, hpairs, hall⟩ := hab.pairs hna hleft' hright'
                rw [within_pairs hvariable hnotb hleft hright, hpairs]
                refine Yields.foldlM (fun p hp s' hs' => ?_) hs
                have hchild := (mem_children_of_pairs? hpairs p hp).2
                exact ih (hall p hp) hs' (Term.isGround_children hground p.2 hchild)

/-- A ground literal that is matched under more bindings is matched. -/
theorem unifyLiterals_of_groundExtends {l m : Literal} {t' : Substitution} (hs : Straight s)
    (hm : m.isGround = true) (ht : t.GroundExtends s) (h : unifyLiterals l m t = .ok t') :
    ∃ s', unifyLiterals l m s = .ok s' := by
  obtain ⟨hsignature, hsolves⟩ := unifyLiterals_solves h
  have hpairs : ∀ p ∈ l.arguments.zip m.arguments, p.2.isGround = true := fun p hp =>
    Literal.isGround_arguments hm p.2 (List.of_mem_zip hp).2
  have hagrees := agrees_of_groundExtends ((hsolves.groundExtends hpairs).trans ht)
  have hyields : Yields .endless (Agrees t') (unifyLiterals l m s) := by
    unfold unifyLiterals
    rw [if_pos hsignature]
    refine Yields.foldlM (fun p hp s' hs' => ?_) hagrees
    exact (hsolves.matches hpairs p hp).within hs' (fun _ h => h)
      (fun s x w b hs hfree hw hb => hs.bind hfree hw hb) (hpairs p hp)
  cases hunify : unifyLiterals l m s with
  | ok s' => exact ⟨s', rfl⟩
  | error e =>
      rw [hunify] at hyields
      obtain rfl : e = .endless := hyields
      exact absurd hunify (unifyLiterals_ne_endless hs hm)

/-- A ground literal that was matched is matched again, and then nothing is bound. -/
theorem unifyLiterals_again {l m : Literal} (ht : Straight t) (hm : m.isGround = true)
    (h : unifyLiterals l m s = .ok s') (hext : t.Extends s') : unifyLiterals l m t = .ok t := by
  obtain ⟨hsignature, hsolves⟩ := unifyLiterals_solves h
  have hpairs : ∀ p ∈ l.arguments.zip m.arguments, p.2.isGround = true := fun p hp =>
    Literal.isGround_arguments hm p.2 (List.of_mem_zip hp).2
  have hyields : Yields .endless (· = t) (unifyLiterals l m t) := by
    unfold unifyLiterals
    rw [if_pos hsignature]
    refine Yields.foldlM (fun p hp s' hs' => ?_) rfl
    refine ((hsolves.matches hpairs p hp).mono hext).within hs' ?_ ?_ (hpairs p hp)
    · rintro s rfl
      exact agrees_of_groundExtends (.refl s)
    · rintro s x w b rfl hfree hw _
      simp [hfree] at hw
  cases hunify : unifyLiterals l m t with
  | ok t' =>
      rw [hunify] at hyields
      exact congrArg Except.ok hyields
  | error e =>
      rw [hunify] at hyields
      obtain rfl : e = .endless := hyields
      exact absurd hunify (unifyLiterals_ne_endless ht hm)

end Unification
end Deliberation
