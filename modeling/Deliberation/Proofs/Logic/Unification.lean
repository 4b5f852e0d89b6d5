import Deliberation.Proofs.Logic.Resolution

/-!
What unification does to its bindings.

`Unification.Solves` is unification as a list of pairs that are still to be made equal, without a
bound on the depth of comparisons; every successful run of `unify` solves the pair of its terms.
Nothing that is bound is ever bound again, so a solution extends the bindings that it started from,
and if it is acyclic it makes all pairs equal.
-/

namespace Deliberation

/-! ### Equality of terms -/

theorem Term.beqAll_iff (xs ys : List Term) :
    Term.beqAll xs ys = true ↔
      xs.length = ys.length ∧ ∀ p ∈ xs.zip ys, (p.1 == p.2) = true := by
  induction xs generalizing ys with
  | nil => cases ys <;> simp [Term.beqAll]
  | cons x xs ih =>
      cases ys with
      | nil => simp [Term.beqAll]
      | cons y ys =>
          have hhead : (x == y) = Term.beq x y := rfl
          simp only [Term.beqAll, Bool.and_eq_true, ih, List.length_cons, List.zip_cons_cons,
            List.forall_mem_cons, hhead, Nat.add_right_cancel_iff]
          exact and_left_comm

theorem Literal.beq_iff (l m : Literal) :
    (l == m) = true ↔
      l.functor = m.functor ∧ l.negated = m.negated ∧
        Term.beqAll l.arguments m.arguments = true := by
  obtain ⟨f, n, xs, notes⟩ := l
  obtain ⟨g, k, ys, marks⟩ := m
  simp [BEq.beq, Literal.beq, and_assoc]

theorem Literal.sameSignature_iff (l m : Literal) :
    l.sameSignature m = true ↔
      l.functor = m.functor ∧ l.negated = m.negated ∧
        l.arguments.length = m.arguments.length := by
  simp [Literal.sameSignature, Literal.arity, and_assoc]

/-- A term equals itself, whatever numbers stand in it. -/
theorem beq_refl :
    (∀ t : Term, (t == t) = true) ∧ ∀ l : Literal, (l == l) = true := by
  have hall (xs : List Term) (h : ∀ t ∈ xs, (t == t) = true) : Term.beqAll xs xs = true := by
    refine (Term.beqAll_iff xs xs).2 ⟨rfl, ?_⟩
    intro p hp
    obtain ⟨i, hi, rfl⟩ := List.mem_iff_getElem.1 hp
    rw [List.getElem_zip]
    exact h _ (List.getElem_mem _)
  apply Term.induction
  case sequence =>
    intro xs ih
    exact hall xs ih
  case literal =>
    intro l ih
    exact ih
  case bound =>
    intro x v ih
    have hv : Term.beq v v = true := ih
    simp [BEq.beq, Term.beq, hv]
  case mk =>
    intro f n xs notes ih _
    exact (Literal.beq_iff _ _).2 ⟨rfl, rfl, hall xs ih⟩
  all_goals simp [BEq.beq, Term.beq]

/-! ### Anonymous variables -/

mutual

/-- Whether every variable without a value outside of annotations has a name of its own. -/
def Term.isNamed : Term → Bool
  | .atom _ | .number _ | .text _ => true
  | .sequence xs => Term.allNamed xs
  | .literal l => Literal.isNamed l
  | .variable x => x ≠ anonymousName
  | .bound _ v => Term.isNamed v

def Term.allNamed : List Term → Bool
  | [] => true
  | x :: xs => Term.isNamed x && Term.allNamed xs

def Literal.isNamed : Literal → Bool
  | ⟨_, _, xs, _⟩ => Term.allNamed xs

end

@[simp] theorem Term.allNamed_eq (xs : List Term) : Term.allNamed xs = xs.all Term.isNamed := by
  induction xs with
  | nil => rfl
  | cons x xs ih => simp [Term.allNamed, ih]

@[simp] theorem Literal.isNamed_eq (l : Literal) :
    l.isNamed = l.arguments.all Term.isNamed := by
  cases l
  exact Term.allNamed_eq _

theorem Term.isAnonymous_of_isNamed {t : Term} (h : t.isNamed = true) : t.isAnonymous = false := by
  cases t <;> simp_all [Term.isNamed, Term.isAnonymous]

/-- No value has an anonymous variable. -/
def Substitution.Named (s : Substitution) : Prop :=
  ∀ x t, s.find? x = some t → t.isNamed = true

/-- All bindings of one substitution are bindings of another. -/
def Substitution.Extends (s' s : Substitution) : Prop :=
  ∀ x t, s.find? x = some t → s'.find? x = some t

namespace Substitution

variable {s s' s'' : Substitution} {x y : String} {a t : Term}

theorem Extends.refl (s : Substitution) : s.Extends s :=
  fun _ _ h => h

theorem Extends.trans (h : s''.Extends s') (h' : s'.Extends s) : s''.Extends s :=
  fun x t ht => h x t (h' x t ht)

theorem find?_bind (s : Substitution) (x : String) (t : Term) (y : String) :
    (s.bind x t).find? y = if y = x then some t else s.find? y :=
  SortedMap.find?_insert s.bindings x t y

@[simp] theorem find?_bind_self (s : Substitution) (x : String) (t : Term) :
    (s.bind x t).find? x = some t := by
  simp [find?_bind]

theorem extends_bind (h : s.find? x = none) (t : Term) : (s.bind x t).Extends s := by
  intro y u hy
  have hne : y ≠ x := by
    rintro rfl
    simp [h] at hy
  rw [find?_bind]
  simp [hne, hy]

theorem Named.bind (h : s.Named) (ht : t.isNamed = true) : (s.bind x t).Named := by
  intro y u hy
  rw [find?_bind] at hy
  split at hy
  · obtain rfl := Option.some.inj hy
    exact ht
  · exact h y u hy

/-- A step of resolving leads from named terms to named terms. -/
theorem Named.follow? (h : s.Named) (ha : a.isNamed = true) (ht : s.follow? a = some t) :
    t.isNamed = true := by
  cases a with
  | bound x v =>
      obtain rfl : v = t := by simpa [Substitution.follow?] using ht
      exact ha
  | «variable» x =>
      simp only [Substitution.follow?] at ht
      split at ht
      · simp at ht
      · exact h x t ht
  | _ => simp [Substitution.follow?] at ht

/-- A step of resolving does not change the resolved term. -/
theorem apply_follow? (h : s'.Acyclic) (hext : s'.Extends s) (ht : s.follow? a = some t) :
    s'.apply a = s'.apply t := by
  cases a with
  | bound x v =>
      obtain rfl : v = t := by simpa [Substitution.follow?] using ht
      rfl
  | «variable» x =>
      simp only [Substitution.follow?] at ht
      split at ht
      · simp at ht
      · rename_i hx
        exact apply_variable (h.settles x) hx (hext x t ht)
  | _ => simp [Substitution.follow?] at ht

end Substitution

/-! ### Solutions -/

namespace Unification

/-- `s'` is `s` with the bindings that make the listed pairs equal, from left to right. -/
inductive Solves : List (Term × Term) → Substitution → Substitution → Prop
  | done {s : Substitution} : Solves [] s s
  | skip {a b : Term} {rest : List (Term × Term)} {s s' : Substitution} :
      (a.isAnonymous || b.isAnonymous) = true → Solves rest s s' → Solves ((a, b) :: rest) s s'
  | left {a b v : Term} {rest : List (Term × Term)} {s s' : Substitution} :
      s.follow? a = some v → Solves ((v, b) :: rest) s s' → Solves ((a, b) :: rest) s s'
  | right {a b w : Term} {rest : List (Term × Term)} {s s' : Substitution} :
      s.follow? b = some w → Solves ((a, w) :: rest) s s' → Solves ((a, b) :: rest) s s'
  | same {x : String} {rest : List (Term × Term)} {s s' : Substitution} :
      Solves rest s s' → Solves ((.variable x, .variable x) :: rest) s s'
  | bindLeft {x : String} {b : Term} {rest : List (Term × Term)} {s s' : Substitution} :
      x ≠ anonymousName → s.find? x = none → b.isAnonymous = false → s.follow? b = none →
      Solves rest (s.bind x b) s' → Solves ((.variable x, b) :: rest) s s'
  | bindRight {y : String} {a : Term} {rest : List (Term × Term)} {s s' : Substitution} :
      y ≠ anonymousName → s.find? y = none → a.isAnonymous = false → s.follow? a = none →
      Solves rest (s.bind y a) s' → Solves ((a, .variable y) :: rest) s s'
  | atom {name : String} {rest : List (Term × Term)} {s s' : Substitution} :
      Solves rest s s' → Solves ((.atom name, .atom name) :: rest) s s'
  | number {x y : Float} {rest : List (Term × Term)} {s s' : Substitution} :
      numberKey x = numberKey y → Solves rest s s' → Solves ((.number x, .number y) :: rest) s s'
  | text {content : String} {rest : List (Term × Term)} {s s' : Substitution} :
      Solves rest s s' → Solves ((.text content, .text content) :: rest) s s'
  | sequence {xs ys : List Term} {rest : List (Term × Term)} {s s' : Substitution} :
      xs.length = ys.length → Solves (xs.zip ys ++ rest) s s' →
      Solves ((.sequence xs, .sequence ys) :: rest) s s'
  | literal {l m : Literal} {rest : List (Term × Term)} {s s' : Substitution} :
      l.sameSignature m = true → Solves (l.arguments.zip m.arguments ++ rest) s s' →
      Solves ((.literal l, .literal m) :: rest) s s'

variable {s s₁ s' : Substitution} {a b : Term} {rest pairs : List (Term × Term)}

theorem foldlM_solves {go : Term → Term → Substitution → Except UnifyError Substitution}
    (hgo : ∀ {a b : Term} {s s₁ s' : Substitution} {rest : List (Term × Term)},
      go a b s = .ok s₁ → Solves rest s₁ s' → Solves ((a, b) :: rest) s s')
    (h : pairs.foldlM (fun s pair => go pair.1 pair.2 s) s = .ok s₁) (hrest : Solves rest s₁ s') :
    Solves (pairs ++ rest) s s' := by
  induction pairs generalizing s with
  | nil =>
      obtain rfl : s = s₁ := by simpa [pure, Except.pure] using h
      exact hrest
  | cons pair pairs ih =>
      rw [List.foldlM_cons] at h
      cases hpair : go pair.1 pair.2 s with
      | error e => simp [hpair, bind, Except.bind] at h
      | ok s₂ =>
          simp only [hpair, bind, Except.bind] at h
          exact hgo hpair (ih h)

/-- A variable that leads nowhere is anonymous or free. -/
theorem find?_of_follow? {x : String} (hx : (Term.variable x).isAnonymous = false)
    (h : s.follow? (.variable x) = none) : x ≠ anonymousName ∧ s.find? x = none := by
  have hne : x ≠ anonymousName := by simpa [Term.isAnonymous] using hx
  exact ⟨hne, by simpa [Substitution.follow?, hne] using h⟩

/-- A comparison that comes to an end solves its pair. -/
theorem within_solves {depth : Nat} (h : within depth a b s = .ok s₁) (hrest : Solves rest s₁ s') :
    Solves ((a, b) :: rest) s s' := by
  induction depth generalizing a b s s₁ s' rest with
  | zero => simp [within] at h
  | succ depth ih =>
      unfold within at h
      split at h
      · rename_i hanonymous
        obtain rfl : s = s₁ := by simpa using h
        exact .skip hanonymous hrest
      · rename_i hnamed
        simp only [Bool.or_eq_true, not_or, Bool.not_eq_true] at hnamed
        split at h
        · rename_i v hfollow
          exact .left hfollow (ih h hrest)
        · rename_i hleft
          split at h
          · rename_i w hfollow
            exact .right hfollow (ih h hrest)
          · rename_i hright
            split at h
            · rename_i x y
              obtain ⟨hx, hfind⟩ := find?_of_follow? hnamed.1 hleft
              simp only [Except.ok.injEq] at h
              subst h
              split at hrest
              · rename_i hxy
                subst hxy
                exact .same hrest
              · exact .bindLeft hx hfind hnamed.2 hright hrest
            · rename_i x _ _
              obtain ⟨hx, hfind⟩ := find?_of_follow? hnamed.1 hleft
              simp only [Except.ok.injEq] at h
              subst h
              exact .bindLeft hx hfind hnamed.2 hright hrest
            · rename_i y _ _
              obtain ⟨hy, hfind⟩ := find?_of_follow? hnamed.2 hright
              simp only [Except.ok.injEq] at h
              subst h
              exact .bindRight hy hfind hnamed.1 hleft hrest
            · split at h
              · rename_i heq
                obtain rfl : s = s₁ := by simpa using h
                subst heq
                exact .atom hrest
              · simp at h
            · split at h
              · rename_i heq
                obtain rfl : s = s₁ := by simpa using h
                exact .number heq hrest
              · simp at h
            · split at h
              · rename_i heq
                obtain rfl : s = s₁ := by simpa using h
                subst heq
                exact .text hrest
              · simp at h
            · split at h
              · rename_i hlength
                exact .sequence hlength (foldlM_solves ih h hrest)
              · simp at h
            · split at h
              · rename_i hsignature
                exact .literal hsignature (foldlM_solves ih h hrest)
              · simp at h
            · simp at h

theorem unify_solves (h : unify a b s = .ok s') : Solves [(a, b)] s s' :=
  within_solves h .done

theorem unifyLiterals_solves {l m : Literal} (h : unifyLiterals l m s = .ok s') :
    l.sameSignature m = true ∧ Solves (l.arguments.zip m.arguments) s s' := by
  unfold unifyLiterals at h
  split at h
  · rename_i hsignature
    have hsolves := foldlM_solves within_solves h .done
    rw [List.append_nil] at hsolves
    exact ⟨hsignature, hsolves⟩
  · simp at h

/-- Whatever is bound stays bound to the same term. -/
theorem Solves.extends (h : Solves pairs s s') : s'.Extends s := by
  induction h with
  | done => exact Substitution.Extends.refl _
  | skip _ _ ih | left _ _ ih | right _ _ ih | same _ ih | atom _ ih | number _ _ ih | text _ ih
  | sequence _ _ ih | literal _ _ ih => exact ih
  | bindLeft _ hfree _ _ _ ih | bindRight _ hfree _ _ _ ih =>
      exact ih.trans (Substitution.extends_bind hfree _)

/-- Something holds of both sides of every pair. -/
def AllPairs (P : Term → Prop) (pairs : List (Term × Term)) : Prop :=
  ∀ p ∈ pairs, P p.1 ∧ P p.2

theorem allPairs_cons {P : Term → Prop} :
    AllPairs P ((a, b) :: rest) ↔ (P a ∧ P b) ∧ AllPairs P rest :=
  List.forall_mem_cons

theorem allPairs_zip {P : Term → Prop} {xs ys : List Term} (hxs : ∀ t ∈ xs, P t)
    (hys : ∀ t ∈ ys, P t) : AllPairs P (xs.zip ys) := by
  intro p hp
  have ⟨hleft, hright⟩ := List.of_mem_zip hp
  exact ⟨hxs _ hleft, hys _ hright⟩

theorem AllPairs.append {P : Term → Prop} (h : AllPairs P pairs) (hrest : AllPairs P rest) :
    AllPairs P (pairs ++ rest) :=
  List.forall_mem_append.2 ⟨h, hrest⟩

/-- Arguments whose pairs have become equal are equal lists. -/
theorem beqAll_map_apply {xs ys : List Term} (hlength : xs.length = ys.length)
    (h : ∀ p ∈ xs.zip ys, (s'.apply p.1 == s'.apply p.2) = true) :
    Term.beqAll (xs.map s'.apply) (ys.map s'.apply) = true := by
  refine (Term.beqAll_iff _ _).2 ⟨by simpa using hlength, ?_⟩
  intro p hp
  rw [List.zip_map, List.mem_map] at hp
  obtain ⟨q, hq, rfl⟩ := hp
  exact h q hq

theorem beq_applyLiteral {l m : Literal} (hsignature : l.sameSignature m = true)
    (h : ∀ p ∈ l.arguments.zip m.arguments, (s'.apply p.1 == s'.apply p.2) = true) :
    (s'.applyLiteral l == s'.applyLiteral m) = true := by
  obtain ⟨hfunctor, hnegated, hlength⟩ := (Literal.sameSignature_iff l m).1 hsignature
  have harguments := beqAll_map_apply hlength h
  rw [Literal.beq_iff]
  simp [hfunctor, hnegated, harguments]

/-- Acyclic bindings make all pairs equal that they solve. Each pair is made equal by bindings that
the solution still has, so it is enough to follow the pairs. -/
theorem Solves.sound (h : Solves pairs s s') (hacyclic : s'.Acyclic) (hs : s.Named)
    (hpairs : AllPairs (fun t => t.isNamed = true) pairs) :
    ∀ p ∈ pairs, (s'.apply p.1 == s'.apply p.2) = true := by
  induction h with
  | done => simp
  | @skip a b rest s s' hanonymous hrest ih =>
      have ⟨⟨ha, hb⟩, _⟩ := allPairs_cons.1 hpairs
      simp [Term.isAnonymous_of_isNamed ha, Term.isAnonymous_of_isNamed hb] at hanonymous
  | @left a b v rest s s' hfollow hrest ih =>
      have ⟨⟨ha, hb⟩, hnamed⟩ := allPairs_cons.1 hpairs
      have hv := hs.follow? ha hfollow
      have hall := ih hacyclic hs (allPairs_cons.2 ⟨⟨hv, hb⟩, hnamed⟩)
      rw [List.forall_mem_cons] at hall ⊢
      rw [Substitution.apply_follow? hacyclic hrest.extends hfollow]
      exact hall
  | @right a b w rest s s' hfollow hrest ih =>
      have ⟨⟨ha, hb⟩, hnamed⟩ := allPairs_cons.1 hpairs
      have hw := hs.follow? hb hfollow
      have hall := ih hacyclic hs (allPairs_cons.2 ⟨⟨ha, hw⟩, hnamed⟩)
      rw [List.forall_mem_cons] at hall ⊢
      rw [Substitution.apply_follow? hacyclic hrest.extends hfollow]
      exact hall
  | same hrest ih | atom hrest ih | text hrest ih =>
      have ⟨_, hnamed⟩ := allPairs_cons.1 hpairs
      exact List.forall_mem_cons.2 ⟨beq_refl.1 _, ih hacyclic hs hnamed⟩
  | @number x y rest s s' hkey hrest ih =>
      have ⟨_, hnamed⟩ := allPairs_cons.1 hpairs
      have heq : (Term.number x == Term.number y) = true := by simp [BEq.beq, Term.beq, hkey]
      exact List.forall_mem_cons.2 ⟨heq, ih hacyclic hs hnamed⟩
  | @bindLeft x b rest s s' hx hfree _ hnone hrest ih =>
      have ⟨⟨_, hb⟩, hnamed⟩ := allPairs_cons.1 hpairs
      have hbound := hrest.extends x b (Substitution.find?_bind_self s x b)
      have heq := Substitution.apply_variable (hacyclic.settles x) hx hbound
      refine List.forall_mem_cons.2 ⟨?_, ih hacyclic (hs.bind hb) hnamed⟩
      rw [heq]
      exact beq_refl.1 _
  | @bindRight y a rest s s' hy hfree _ hnone hrest ih =>
      have ⟨⟨ha, _⟩, hnamed⟩ := allPairs_cons.1 hpairs
      have hbound := hrest.extends y a (Substitution.find?_bind_self s y a)
      have heq := Substitution.apply_variable (hacyclic.settles y) hy hbound
      refine List.forall_mem_cons.2 ⟨?_, ih hacyclic (hs.bind ha) hnamed⟩
      rw [heq]
      exact beq_refl.1 _
  | @sequence xs ys rest s s' hlength hrest ih =>
      have ⟨⟨hxs, hys⟩, hnamed⟩ := allPairs_cons.1 hpairs
      rw [Term.isNamed, Term.allNamed_eq, List.all_eq_true] at hxs hys
      have hall := ih hacyclic hs ((allPairs_zip hxs hys).append hnamed)
      rw [List.forall_mem_append] at hall
      refine List.forall_mem_cons.2 ⟨?_, hall.2⟩
      rw [Substitution.apply_sequence, Substitution.apply_sequence]
      exact beqAll_map_apply hlength hall.1
  | @literal l m rest s s' hsignature hrest ih =>
      have ⟨⟨hl, hm⟩, hnamed⟩ := allPairs_cons.1 hpairs
      rw [Term.isNamed, Literal.isNamed_eq, List.all_eq_true] at hl hm
      have hall := ih hacyclic hs ((allPairs_zip hl hm).append hnamed)
      rw [List.forall_mem_append] at hall
      refine List.forall_mem_cons.2 ⟨?_, hall.2⟩
      rw [Substitution.apply_literal, Substitution.apply_literal]
      exact beq_applyLiteral hsignature hall.1

end Unification

/-- Unification only adds bindings, and if they are acyclic in the end, both sides resolve to equal
terms. -/
theorem unify_extends_and_equates {s : Substitution} (hs : s.Named) :
    (∀ (a b : Term) (s' : Substitution), a.isNamed = true → b.isNamed = true →
      unify a b s = .ok s' →
        s'.Extends s ∧ (s'.Acyclic → (s'.apply a == s'.apply b) = true)) ∧
    ∀ (l m : Literal) (s' : Substitution), l.isNamed = true → m.isNamed = true →
      unifyLiterals l m s = .ok s' →
        s'.Extends s ∧ (s'.Acyclic → (s'.applyLiteral l == s'.applyLiteral m) = true) := by
  constructor
  · intro a b s' ha hb h
    have hsolves := Unification.unify_solves h
    refine ⟨hsolves.extends, fun hacyclic => ?_⟩
    exact hsolves.sound hacyclic hs (by simp [Unification.AllPairs, ha, hb]) (a, b) (by simp)
  · intro l m s' hl hm h
    obtain ⟨hsignature, hsolves⟩ := Unification.unifyLiterals_solves h
    rw [Literal.isNamed_eq, List.all_eq_true] at hl hm
    refine ⟨hsolves.extends, fun hacyclic => ?_⟩
    exact Unification.beq_applyLiteral hsignature
      (hsolves.sound hacyclic hs (Unification.allPairs_zip hl hm))

/-- `goal(X, [Y, Z])` and `goal(Z, [W, one])`, where `X` is bound to `Y` and `W` carries `one`. -/
theorem unify_extends_and_equates_chain :
    let s := Substitution.ofList [("X", .variable "Y")]
    let l := Literal.of "goal" [.variable "X", .sequence [.variable "Y", .variable "Z"]]
    let m := Literal.of "goal"
      [.variable "Z", .sequence [.bound "W" (.atom "one"), .atom "one"]]
    ∃ s', unifyLiterals l m s = .ok s' ∧ s'.Extends s ∧
      (s'.applyLiteral l == s'.applyLiteral m) = true ∧
      s'.find? "Y" = some (.variable "Z") := by
  intro s l m
  have hs : s.Named := by
    have hall : ∀ b ∈ s.toList, b.2.isNamed = true := by decide +kernel
    exact fun x t ht => hall (x, t) (Substitution.find?_eq_some_iff.1 ht)
  have hunify : unifyLiterals l m s = .ok _ := rfl
  obtain ⟨hextends, hequal⟩ :=
    (unify_extends_and_equates hs).2 l m _ (by decide +kernel) (by decide +kernel) hunify
  refine ⟨_, hunify, hextends, hequal ?_, rfl⟩
  refine Substitution.acyclic_of_rank
    (fun x => if x = "X" then 2 else if x = "Y" then 1 else 0) ?_
  decide +kernel

end Deliberation
