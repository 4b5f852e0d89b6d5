import Deliberation.Logic.Substitution

/-!
Unification: bindings that make two terms equal.

There is no check whether a variable occurs in its own value, so unifying `X` with `f(X)` succeeds
and leaves bindings that run in a circle. Comparing such terms further need not end. Every term
that is met is a part of the two terms or of a binding, and a path of comparisons on which a pair of
parts comes back without a new binding in between never ends; `Unification.depthBound` is thus
deeper than any comparison that ends.
-/

namespace Deliberation

mutual

/-- The number of parts of a term. -/
def Term.size : Term → Nat
  | .atom _ | .number _ | .text _ | .variable _ => 1
  | .sequence xs => Term.sizeAll xs + 1
  | .literal l => Literal.size l + 1
  | .bound _ v => Term.size v + 1

def Term.sizeAll : List Term → Nat
  | [] => 0
  | x :: xs => Term.size x + Term.sizeAll xs

/-- The number of parts of a literal's arguments. -/
def Literal.size : Literal → Nat
  | ⟨_, _, xs, _⟩ => Term.sizeAll xs

end

/-- Why two terms were not unified. -/
inductive UnifyError where
  /-- No bindings make them equal. -/
  | mismatch
  /-- The comparison runs in a circle. -/
  | endless
  deriving DecidableEq, Repr

def UnifyError.message : UnifyError → String
  | .mismatch => "terms do not unify"
  | .endless => "bindings run in a circle"

namespace Unification

/-- The number of parts of all values, and of the names they are bound to. -/
def weight (s : Substitution) : Nat :=
  s.toList.foldr (fun b total => b.2.size + 1 + total) 0

/-- A depth that no comparison exceeds that ends. -/
def depthBound (parts : Nat) (s : Substitution) : Nat :=
  Nat.pow (parts + weight s + 2) 3

/-- Makes two terms equal by binding variables, where at most `depth` comparisons are nested. -/
def within : (depth : Nat) → Term → Term → Substitution → Except UnifyError Substitution
  | 0, _, _, _ => .error .endless
  | depth + 1, a, b, s =>
    if a.isAnonymous || b.isAnonymous then .ok s
    else
      match s.follow? a with
      | some v => within depth v b s
      | none =>
        match s.follow? b with
        | some w => within depth a w s
        | none =>
          match a, b with
          | .variable x, .variable y => .ok (if x = y then s else s.bind x (.variable y))
          | .variable x, t => .ok (s.bind x t)
          | t, .variable y => .ok (s.bind y t)
          | .atom x, .atom y => if x = y then .ok s else .error .mismatch
          | .number x, .number y =>
            if numberKey x = numberKey y then .ok s else .error .mismatch
          | .text x, .text y => if x = y then .ok s else .error .mismatch
          | .sequence xs, .sequence ys =>
            if xs.length = ys.length then
              (xs.zip ys).foldlM (fun s pair => within depth pair.1 pair.2 s) s
            else .error .mismatch
          | .literal l, .literal m =>
            if l.sameSignature m then
              (l.arguments.zip m.arguments).foldlM (fun s pair => within depth pair.1 pair.2 s) s
            else .error .mismatch
          | _, _ => .error .mismatch

end Unification

/-- The extension of `s` that makes two terms equal. -/
def unify (a b : Term) (s : Substitution) : Except UnifyError Substitution :=
  Unification.within (Unification.depthBound (a.size + b.size) s) a b s

/-- The extension of `s` that makes two literals equal: functor, negation and number of arguments
have to agree, and the arguments are unified from left to right. Annotations do not count. -/
def unifyLiterals (l m : Literal) (s : Substitution) : Except UnifyError Substitution :=
  if l.sameSignature m then
    (l.arguments.zip m.arguments).foldlM
      (fun s' pair =>
        Unification.within (Unification.depthBound (l.size + m.size) s) pair.1 pair.2 s') s
  else .error .mismatch

end Deliberation
