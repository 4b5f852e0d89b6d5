/-!
Names of agents: 128-bit numbers written in five groups of hexadecimal digits.
-/

namespace Deliberation

structure AgentId where
  value : BitVec 128
  deriving DecidableEq, Hashable, Inhabited

namespace AgentId

def ofNat (n : Nat) : AgentId := ⟨BitVec.ofNat 128 n⟩

def toNat (id : AgentId) : Nat := id.value.toNat

/-- The lengths of the groups of digits. -/
def groups : List Nat := [8, 4, 4, 4, 12]

/-- The text cut into pieces of the given lengths. -/
def cut : List Nat → List Char → List (List Char)
  | [], _ => []
  | n :: rest, cs => cs.take n :: cut rest (cs.drop n)

/-- The digits of an id in groups, with a hyphen between them. -/
def render (id : AgentId) : String :=
  let digits := Nat.toDigits 16 id.toNat
  let padded := List.replicate (32 - digits.length) '0' ++ digits
  "-".intercalate ((cut groups padded).map String.ofList)

instance : ToString AgentId := ⟨render⟩

def hexDigit? (c : Char) : Option Nat :=
  if '0' ≤ c ∧ c ≤ '9' then some (c.toNat - '0'.toNat)
  else if 'a' ≤ c ∧ c ≤ 'f' then some (c.toNat - 'a'.toNat + 10)
  else if 'A' ≤ c ∧ c ≤ 'F' then some (c.toNat - 'A'.toNat + 10)
  else none

/-- The number that 32 hexadecimal digits spell. -/
def ofDigits? (cs : List Char) : Option AgentId :=
  if cs.length = 32 then
    (cs.foldlM (fun n c => (hexDigit? c).map (16 * n + ·)) 0).map ofNat
  else none

/-- Groups of digits with hyphens between them. -/
def ofGroups? (cs : List Char) : Option AgentId :=
  if cs.length = 36 ∧ [8, 13, 18, 23].all (fun i => cs[i]? == some '-') then
    ofDigits? (cs.filter (· ≠ '-'))
  else none

/-- Reads an id: bare digits, or groups, which may stand in braces or after `urn:uuid:`. -/
def parse? (s : String) : Option AgentId :=
  let cs := s.toList
  match cs.length with
  | 32 => ofDigits? cs
  | 36 => ofGroups? cs
  | 38 =>
    if cs.head? = some '\x7b' ∧ cs.getLast? = some '\x7d' then ofGroups? (cs.drop 1).dropLast
    else none
  | 45 => if "urn:uuid:".toList.isPrefixOf cs then ofGroups? (cs.drop 9) else none
  | _ => none

end AgentId
end Deliberation
