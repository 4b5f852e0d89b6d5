/-!
Finite maps as lists of entries in the order of their keys.

The entries are strictly sorted, so each key has at most one value and the list of entries is
determined by what the map holds.
-/

namespace Deliberation

/-- A strict order in which any two different keys are comparable. -/
class KeyOrder (κ : Type) extends LT κ where
  decidableLT : DecidableLT κ
  decidableEq : DecidableEq κ
  irrefl (a : κ) : ¬ a < a
  trans {a b c : κ} : a < b → b < c → a < c
  connected {a b : κ} : ¬ a < b → ¬ b < a → a = b

instance (priority := low) KeyOrder.instDecidableLT {κ : Type} [KeyOrder κ] : DecidableLT κ :=
  KeyOrder.decidableLT

instance (priority := low) KeyOrder.instDecidableEq {κ : Type} [KeyOrder κ] : DecidableEq κ :=
  KeyOrder.decidableEq

/-- Names are ordered by their characters. -/
instance : KeyOrder String where
  decidableLT := inferInstance
  decidableEq := inferInstance
  irrefl := String.lt_irrefl
  trans := String.lt_trans
  connected hab hba := String.le_antisymm (String.not_lt.1 hba) (String.not_lt.1 hab)

variable {κ β γ : Type} [KeyOrder κ]

namespace SortedMap

/-- The entries with `key` set to `value`. -/
def insertEntry (key : κ) (value : β) : List (κ × β) → List (κ × β)
  | [] => [(key, value)]
  | (k, v) :: rest =>
    if key < k then (key, value) :: (k, v) :: rest
    else if k < key then (k, v) :: insertEntry key value rest
    else (key, value) :: rest

/-- Entries in the strict order of their keys. -/
def Sorted (entries : List (κ × β)) : Prop :=
  entries.Pairwise fun a b => a.1 < b.1

theorem mem_insertEntry {key : κ} {value : β} {e : κ × β} {entries : List (κ × β)}
    (he : e ∈ insertEntry key value entries) : e = (key, value) ∨ e ∈ entries := by
  induction entries with
  | nil => simpa [insertEntry] using he
  | cons head rest ih =>
      obtain ⟨k, v⟩ := head
      simp only [insertEntry] at he
      split at he
      · simpa using he
      · split at he
        · rcases List.mem_cons.1 he with rfl | he
          · exact Or.inr List.mem_cons_self
          · exact (ih he).imp id (List.mem_cons_of_mem _)
        · rcases List.mem_cons.1 he with rfl | he
          · exact Or.inl rfl
          · exact Or.inr (List.mem_cons_of_mem _ he)

theorem sorted_insertEntry (key : κ) (value : β) {entries : List (κ × β)}
    (h : Sorted entries) : Sorted (insertEntry key value entries) := by
  induction entries with
  | nil => simp [insertEntry, Sorted]
  | cons head rest ih =>
      obtain ⟨k, v⟩ := head
      have hhead : ∀ e ∈ rest, k < e.1 := fun _ he => List.rel_of_pairwise_cons h he
      have htail : Sorted rest := h.of_cons
      simp only [insertEntry]
      split
      · rename_i hlt
        refine List.Pairwise.cons ?_ h
        intro e he
        rcases List.mem_cons.1 he with rfl | he
        · exact hlt
        · exact KeyOrder.trans hlt (hhead e he)
      · rename_i hkey
        split
        · rename_i hlt
          refine List.Pairwise.cons ?_ (ih htail)
          intro e he
          rcases mem_insertEntry he with rfl | he
          · exact hlt
          · exact hhead e he
        · rename_i hk
          refine List.Pairwise.cons ?_ htail
          intro e he
          exact KeyOrder.connected hkey hk ▸ hhead e he

end SortedMap

/-- A finite map from `κ` to `β`. -/
structure SortedMap (κ β : Type) [KeyOrder κ] where
  entries : List (κ × β)
  sorted : SortedMap.Sorted entries

namespace SortedMap

def empty : SortedMap κ β := ⟨[], List.Pairwise.nil⟩

instance : EmptyCollection (SortedMap κ β) := ⟨empty⟩

instance : Inhabited (SortedMap κ β) := ⟨empty⟩

def find? (m : SortedMap κ β) (key : κ) : Option β :=
  m.entries.lookup key

def contains (m : SortedMap κ β) (key : κ) : Bool :=
  (m.find? key).isSome

/-- The map with `key` set to `value`. -/
def insert (m : SortedMap κ β) (key : κ) (value : β) : SortedMap κ β :=
  ⟨insertEntry key value m.entries, sorted_insertEntry key value m.sorted⟩

/-- The map without `key`. -/
def erase (m : SortedMap κ β) (key : κ) : SortedMap κ β :=
  ⟨m.entries.filter fun e => e.1 ≠ key, m.sorted.filter _⟩

def size (m : SortedMap κ β) : Nat :=
  m.entries.length

def isEmpty (m : SortedMap κ β) : Bool :=
  m.entries.isEmpty

/-- The map with every value replaced. -/
def mapValues (f : β → γ) (m : SortedMap κ β) : SortedMap κ γ :=
  ⟨m.entries.map fun e => (e.1, f e.2), by
    simpa [Sorted, List.pairwise_map] using m.sorted⟩

/-- The map that a list of entries describes; later entries win. -/
def ofList (entries : List (κ × β)) : SortedMap κ β :=
  entries.foldl (fun m e => m.insert e.1 e.2) empty

/-- Both maps together; where both have a value, the first one's stays. -/
def union (m other : SortedMap κ β) : SortedMap κ β :=
  other.entries.foldl (fun acc e => if acc.contains e.1 then acc else acc.insert e.1 e.2) m

end SortedMap
end Deliberation
