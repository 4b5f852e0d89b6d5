import Deliberation.Proofs.Lists
import Deliberation.SortedMap

/-!
Laws of finite maps.

A look-up sees the entry with its key, whatever was inserted under other keys, and every key has one
entry.
-/

namespace Deliberation

variable {κ β γ : Type} [KeyOrder κ]

theorem KeyOrder.ne_of_lt {key k : κ} (h : key < k) : key ≠ k :=
  fun heq => KeyOrder.irrefl k (heq ▸ h)

namespace SortedMap

@[simp] theorem find?_empty (key : κ) : (empty : SortedMap κ β).find? key = none := rfl

theorem lookup_entry (key k : κ) (value : β) (rest : List (κ × β)) :
    ((k, value) :: rest).lookup key = if key = k then some value else rest.lookup key := by
  by_cases hk : key = k
  · simp [hk]
  · have hbeq : (key == k) = false := by simpa using hk
    simp [List.lookup_cons, hbeq, hk]

theorem lookup_insertEntry (key : κ) (value : β) (entries : List (κ × β)) (k : κ) :
    (insertEntry key value entries).lookup k =
      if k = key then some value else entries.lookup k := by
  induction entries with
  | nil => simp [insertEntry, lookup_entry]
  | cons head rest ih =>
      obtain ⟨k', v⟩ := head
      simp only [insertEntry]
      split
      · simp [lookup_entry]
      · rename_i hlt
        split
        · rename_i hgt
          have hne : k' ≠ key := KeyOrder.ne_of_lt hgt
          by_cases hk : k = k'
          · simp [hk, hne]
          · simp [lookup_entry, hk, ih]
        · rename_i hgt
          obtain rfl := KeyOrder.connected hlt hgt
          by_cases hk : k = key <;> simp [lookup_entry, hk]

theorem find?_insert (m : SortedMap κ β) (key : κ) (value : β) (k : κ) :
    (m.insert key value).find? k = if k = key then some value else m.find? k :=
  lookup_insertEntry key value m.entries k

theorem find?_erase (m : SortedMap κ β) (key k : κ) :
    (m.erase key).find? k = if k = key then none else m.find? k := by
  suffices hgen : ∀ entries : List (κ × β),
      (entries.filter fun e => e.1 ≠ key).lookup k = if k = key then none else entries.lookup k from
    hgen m.entries
  intro entries
  induction entries with
  | nil => simp
  | cons head rest ih =>
      obtain ⟨j, v⟩ := head
      rw [List.filter_cons, lookup_entry]
      by_cases hj : j = key
      · subst hj
        by_cases hk : k = j
        · simpa [hk] using ih
        · simpa [hk] using ih
      · by_cases hk : k = j
        · subst hk
          simp [hj]
        · simpa [hj, hk, lookup_entry] using ih

theorem keys_nodup (m : SortedMap κ β) : (m.entries.map Prod.fst).Nodup := by
  have hsorted := m.sorted
  rw [Sorted] at hsorted
  rw [List.Nodup, List.pairwise_map]
  refine hsorted.imp ?_
  intro a b hlt heq
  exact KeyOrder.ne_of_lt hlt heq

theorem lookup_eq_some_iff {entries : List (κ × β)} (h : (entries.map Prod.fst).Nodup) {key : κ}
    {value : β} : entries.lookup key = some value ↔ (key, value) ∈ entries := by
  induction entries with
  | nil => simp
  | cons head rest ih =>
      obtain ⟨k, v⟩ := head
      rw [List.map_cons, List.nodup_cons] at h
      rw [lookup_entry, List.mem_cons]
      by_cases hk : key = k
      · subst hk
        have hnot : (key, value) ∉ rest := fun hmem => h.1 (List.mem_map.2 ⟨_, hmem, rfl⟩)
        simp [hnot, eq_comm]
      · simpa [hk] using ih h.2

theorem find?_eq_some_iff {m : SortedMap κ β} {key : κ} {value : β} :
    m.find? key = some value ↔ (key, value) ∈ m.entries :=
  lookup_eq_some_iff m.keys_nodup

theorem mem_keys_iff {m : SortedMap κ β} {key : κ} :
    key ∈ m.entries.map Prod.fst ↔ ∃ value, m.find? key = some value := by
  simp [find?_eq_some_iff]

/-- A map is determined by its look-ups: entries in strict order that are the same are in the same
order. -/
theorem eq_of_find? {m m' : SortedMap κ β} (h : ∀ key, m.find? key = m'.find? key) : m = m' := by
  have hmem (e : κ × β) : e ∈ m.entries ↔ e ∈ m'.entries := by
    obtain ⟨key, value⟩ := e
    rw [← find?_eq_some_iff, ← find?_eq_some_iff, h]
  have hperm : m.entries.Perm m'.entries :=
    (List.perm_ext_iff_of_nodup m.keys_nodup.of_map m'.keys_nodup.of_map).2 hmem
  have hentries : m.entries = m'.entries := by
    refine hperm.eq_of_pairwise (fun e e' _ _ hlt hgt => ?_) m.sorted m'.sorted
    exact absurd (KeyOrder.trans hlt hgt) (KeyOrder.irrefl e.1)
  cases m
  cases m'
  exact (SortedMap.mk.injEq ..).mpr hentries

/-- A key that is listed has one of the values listed for it, and any other key has none. -/
theorem find?_ofList (entries : List (κ × β)) (key : κ) :
    (∃ value, (key, value) ∈ entries ∧ (ofList entries).find? key = some value) ∨
      key ∉ entries.map Prod.fst ∧ (ofList entries).find? key = none := by
  -- what was there before the entries came shows through where none of them has the key
  suffices hgen : ∀ m : SortedMap κ β,
      (∃ value, (key, value) ∈ entries ∧
        (entries.foldl (fun m e => m.insert e.1 e.2) m).find? key = some value) ∨
      key ∉ entries.map Prod.fst ∧
        (entries.foldl (fun m e => m.insert e.1 e.2) m).find? key = m.find? key from
    hgen empty
  induction entries with
  | nil => simp
  | cons head rest ih =>
      obtain ⟨k, v⟩ := head
      intro m
      rw [List.foldl_cons]
      rcases ih (m.insert k v) with ⟨value, hmem, hfind⟩ | ⟨hnot, hfind⟩
      · exact Or.inl ⟨value, List.mem_cons_of_mem _ hmem, hfind⟩
      · rw [hfind, find?_insert]
        by_cases hk : key = k
        · subst hk
          exact Or.inl ⟨v, List.mem_cons_self, by simp⟩
        · refine Or.inr ⟨?_, by simp [hk]⟩
          rw [List.map_cons, List.mem_cons, not_or]
          exact ⟨hk, hnot⟩

/-- In both maps together a key has the first one's value, and the second one's if there is none. -/
theorem find?_union (m other : SortedMap κ β) (key : κ) :
    (m.union other).find? key = (m.find? key).or (other.find? key) := by
  suffices hgen : ∀ (entries : List (κ × β)) (m : SortedMap κ β),
      (entries.foldl (fun acc e => if acc.contains e.1 then acc else acc.insert e.1 e.2) m).find?
        key = (m.find? key).or (entries.lookup key) from hgen other.entries m
  intro entries
  induction entries with
  | nil => simp
  | cons head rest ih =>
      obtain ⟨k, v⟩ := head
      intro m
      rw [List.foldl_cons, ih, lookup_entry]
      by_cases hk : key = k
      · subst hk
        cases hfind : m.find? key <;> simp [contains, hfind, find?_insert]
      · cases hfind : m.find? k <;> simp [contains, hfind, find?_insert, hk]

theorem find?_mapValues (f : β → γ) (m : SortedMap κ β) (key : κ) :
    (m.mapValues f).find? key = (m.find? key).map f := by
  suffices hgen : ∀ entries : List (κ × β),
      (entries.map fun e => (e.1, f e.2)).lookup key = (entries.lookup key).map f from
    hgen m.entries
  intro entries
  induction entries with
  | nil => rfl
  | cons head rest ih =>
      obtain ⟨k, v⟩ := head
      rw [List.map_cons, lookup_entry, lookup_entry, ih]
      split <;> rfl

/-! ### Where an entry stands -/

theorem lookup_eq_none_of_lt {key : κ} {entries : List (κ × β)} (h : ∀ e ∈ entries, key < e.1) :
    entries.lookup key = none := by
  induction entries with
  | nil => rfl
  | cons head rest ih =>
      obtain ⟨k, v⟩ := head
      rw [List.forall_mem_cons] at h
      have hne : key ≠ k := KeyOrder.ne_of_lt h.1
      rw [lookup_entry, ih h.2]
      simp [hne]

theorem filter_ne_of_lt {key : κ} {entries : List (κ × β)} (h : ∀ e ∈ entries, key < e.1) :
    entries.filter (fun e => e.1 ≠ key) = entries := by
  refine List.filter_eq_self.2 fun e he => ?_
  have hne : e.1 ≠ key := (KeyOrder.ne_of_lt (h e he)).symm
  simpa using hne

/-- A key has one place among the entries: what stands before it and after it does not change when
its value is set or taken out. -/
theorem exists_place (m : SortedMap κ β) (key : κ) :
    ∃ before after, m.entries = before ++ ((m.find? key).map (key, ·)).toList ++ after ∧
      (∀ value, (m.insert key value).entries = before ++ (key, value) :: after) ∧
      (m.erase key).entries = before ++ after := by
  suffices hgen : ∀ entries : List (κ × β), Sorted entries → ∃ before after,
      entries = before ++ ((entries.lookup key).map (key, ·)).toList ++ after ∧
      (∀ value, insertEntry key value entries = before ++ (key, value) :: after) ∧
      entries.filter (fun e => e.1 ≠ key) = before ++ after from hgen m.entries m.sorted
  intro entries hsorted
  induction entries with
  | nil => exact ⟨[], [], rfl, fun _ => rfl, rfl⟩
  | cons head rest ih =>
      obtain ⟨k, v⟩ := head
      have hhead : ∀ e ∈ rest, k < e.1 := fun _ he => List.rel_of_pairwise_cons hsorted he
      by_cases hlt : key < k
      · -- the key would stand in front of all entries
        have hall : ∀ e ∈ (k, v) :: rest, key < e.1 := by
          rw [List.forall_mem_cons]
          exact ⟨hlt, fun e he => KeyOrder.trans hlt (hhead e he)⟩
        refine ⟨[], (k, v) :: rest, ?_, ?_, filter_ne_of_lt hall⟩
        · simp [lookup_eq_none_of_lt hall]
        · simp [insertEntry, hlt]
      · by_cases hgt : k < key
        · obtain ⟨before, after, hentries, hinsert, herase⟩ := ih hsorted.of_cons
          have hne : key ≠ k := (KeyOrder.ne_of_lt hgt).symm
          refine ⟨(k, v) :: before, after, ?_, ?_, ?_⟩
          · rw [lookup_entry]
            simp only [hne, ↓reduceIte, List.cons_append, List.cons.injEq, true_and]
            exact hentries
          · simp [insertEntry, hlt, hgt, hinsert]
          · have hkeep : decide (k ≠ key) = true := by simpa using hne.symm
            rw [List.filter_cons, if_pos hkeep, herase]
            rfl
        · obtain rfl := KeyOrder.connected hlt hgt
          refine ⟨[], rest, ?_, ?_, ?_⟩
          · simp
          · simp [insertEntry, hlt]
          · have hdrop : decide (key ≠ key) ≠ true := by simp
            rw [List.filter_cons, if_neg hdrop, filter_ne_of_lt hhead]
            rfl

/-! ### Runs of keys -/

theorem not_lt_of_mem_dropWhile {start : κ} {entries : List (κ × β)} (h : Sorted entries)
    {e : κ × β} (he : e ∈ entries.dropWhile fun e => e.1 < start) : ¬ e.1 < start := by
  induction entries with
  | nil => simp at he
  | cons head rest ih =>
      rw [List.dropWhile_cons] at he
      split at he
      · exact ih h.of_cons he
      · rename_i hhead
        have hfirst : ¬ head.1 < start := by simpa using hhead
        rcases List.mem_cons.1 he with rfl | he
        · exact hfirst
        · intro hlt
          exact hfirst (KeyOrder.trans (List.rel_of_pairwise_cons h he) hlt)

theorem filter_dropWhile_lt {start : κ} {P : κ × β → Bool} {entries : List (κ × β)}
    (h : ∀ e ∈ entries, P e = true → ¬ e.1 < start) :
    (entries.dropWhile fun e => e.1 < start).filter P = entries.filter P := by
  induction entries with
  | nil => rfl
  | cons head rest ih =>
      rw [List.forall_mem_cons] at h
      rw [List.dropWhile_cons]
      split
      · rename_i hlt
        have hP : ¬ P head = true := fun hP => h.1 hP (by simpa using hlt)
        rw [ih h.2, List.filter_cons_of_neg hP]
      · rfl

/-- Reading the entries from a key on, up to the first whose key lacks a property, finds all that
have it, if no smaller key has the property and keys that have it stand together. -/
theorem takeWhile_dropWhile_eq_filter (m : SortedMap κ β) {start : κ} {P : κ → Bool}
    (hstart : ∀ k, P k = true → ¬ k < start)
    (htogether : ∀ k k', ¬ k < start → k < k' → P k' = true → P k = true) :
    (m.entries.dropWhile fun e => e.1 < start).takeWhile (fun e => P e.1) =
      m.entries.filter fun e => P e.1 := by
  have hsorted : Sorted (m.entries.dropWhile fun e => e.1 < start) :=
    m.sorted.sublist (List.dropWhile_sublist _)
  have hpairs : (m.entries.dropWhile fun e => e.1 < start).Pairwise
      fun e e' => P e'.1 = true → P e.1 = true := by
    refine hsorted.imp_of_mem fun {e e'} he _ hlt hP => ?_
    exact htogether e.1 e'.1 (not_lt_of_mem_dropWhile m.sorted he) hlt hP
  rw [List.takeWhile_eq_filter hpairs, filter_dropWhile_lt fun e _ => hstart e.1]

/-! ### Lists under keys -/

/-- The list under a key, empty if there is none. -/
def listAt (m : SortedMap κ (List β)) (key : κ) : List β :=
  (m.find? key).getD []

/-- The map with a list under a key; an empty list is left out. -/
def putList (m : SortedMap κ (List β)) (key : κ) (list : List β) : SortedMap κ (List β) :=
  if list.isEmpty then m.erase key else m.insert key list

theorem find?_putList (m : SortedMap κ (List β)) (key : κ) (list : List β) (k : κ) :
    (m.putList key list).find? k =
      if k = key then (if list.isEmpty then none else some list) else m.find? k := by
  rw [putList]
  split
  · rw [find?_erase]
  · rw [find?_insert]

theorem listAt_putList (m : SortedMap κ (List β)) (key : κ) (list : List β) (k : κ) :
    (m.putList key list).listAt k = if k = key then list else m.listAt k := by
  rw [listAt, find?_putList]
  by_cases hk : k = key
  · cases list <;> simp [hk]
  · simp [hk, listAt]

/-- A list that was put under a key is gone when the old one is put back. -/
theorem putList_putList {m : SortedMap κ (List β)} {key : κ} {list : List β}
    (h : m.find? key = if list.isEmpty then none else some list) (other : List β) :
    (m.putList key other).putList key list = m := by
  refine eq_of_find? fun k => ?_
  rw [find?_putList, find?_putList]
  by_cases hk : k = key
  · rw [if_pos hk, hk, h]
  · rw [if_neg hk, if_neg hk]

/-- The list under a key has its place among all of them, between those under smaller keys and those
under larger ones, whichever list is put there. -/
theorem exists_flatMap_place (m : SortedMap κ (List β)) (key : κ) :
    ∃ before after : List (κ × List β),
      (∀ e ∈ before, e ∈ m.entries ∧ e.1 < key) ∧ (∀ e ∈ after, e ∈ m.entries ∧ key < e.1) ∧
      m.entries.flatMap (·.2) = before.flatMap (·.2) ++ m.listAt key ++ after.flatMap (·.2) ∧
      ∀ list, (m.putList key list).entries.flatMap (·.2) =
        before.flatMap (·.2) ++ list ++ after.flatMap (·.2) := by
  obtain ⟨before, after, hentries, hinsert, herase⟩ := m.exists_place key
  have hsorted := (m.insert key []).sorted
  rw [Sorted, hinsert, List.pairwise_append, List.pairwise_cons] at hsorted
  refine ⟨before, after, fun e he => ?_, fun e he => ?_, ?_, fun list => ?_⟩
  · exact ⟨by simp [hentries, he], hsorted.2.2 e he (key, []) List.mem_cons_self⟩
  · exact ⟨by simp [hentries, he], hsorted.2.1.1 e he⟩
  · rw [hentries, listAt]
    cases m.find? key <;> simp
  · cases list with
    | nil => simp [putList, herase]
    | cons x xs => simp [putList, hinsert]

/-- Only the list under the key makes a difference to how much there is in all. -/
theorem length_putList (m : SortedMap κ (List β)) (key : κ) (list : List β) :
    ((m.putList key list).entries.flatMap (·.2)).length + (m.listAt key).length =
      (m.entries.flatMap (·.2)).length + list.length := by
  obtain ⟨before, after, _, _, hold, hput⟩ := m.exists_flatMap_place key
  rw [hput, hold]
  simp only [List.length_append]
  omega

end SortedMap
end Deliberation
