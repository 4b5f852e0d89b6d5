import Mathlib.Data.List.DropRight
import Deliberation.Exchange.Json.Parser
import Deliberation.Exchange.Json.Printer

/-!
Reading the text of a document back.

The reader takes the text of a document to the document, as long as it does so for the numbers in
it, each of them alone, and lists and objects are not nested too deep. What a number is followed by
in a document cannot belong to it. The fuel of the reader is enough since each of its steps has a
character of its own.
-/

namespace Deliberation.Json

/-! ### Documents as trees -/

theorem induction {P : Json → Prop} (null : P .null) (bool : ∀ b, P (.bool b))
    (whole : ∀ n, P (.whole n)) (negative : ∀ n, P (.negative n)) (decimal : ∀ x, P (.decimal x))
    (text : ∀ s, P (.text s)) (list : ∀ items, (∀ j ∈ items, P j) → P (.list items))
    (object : ∀ fields, (∀ f ∈ fields, P f.2) → P (.object fields)) (unreadable : P .unreadable) :
    ∀ j, P j := by
  have cons {α : Type} {R : α → Prop} (head : α) (tail : List α) (hhead : R head)
      (htail : ∀ t ∈ tail, R t) : ∀ t ∈ head :: tail, R t :=
    List.forall_mem_cons.2 ⟨hhead, htail⟩
  exact @Json.rec P (fun items => ∀ j ∈ items, P j) (fun fields => ∀ f ∈ fields, P f.2)
    (fun f => P f.2) null bool whole negative decimal text list object unreadable (by simp) cons
    (by simp) cons fun _ _ h => h

mutual

/-- The numbers in a document, each as a document. -/
def numbers : Json → List Json
  | .whole n => [.whole n]
  | .negative n => [.negative n]
  | .decimal x => [.decimal x]
  | .list items => numbersOfList items
  | .object fields => numbersOfFields fields
  | _ => []

def numbersOfList : List Json → List Json
  | [] => []
  | j :: rest => numbers j ++ numbersOfList rest

def numbersOfFields : List (String × Json) → List Json
  | [] => []
  | (_, j) :: rest => numbers j ++ numbersOfFields rest

end

@[simp] theorem numbersOfList_eq (items : List Json) :
    numbersOfList items = items.flatMap numbers := by
  induction items with
  | nil => rfl
  | cons j rest ih => simp [numbersOfList, ih]

@[simp] theorem numbersOfFields_eq (fields : List (String × Json)) :
    numbersOfFields fields = fields.flatMap fun f => f.2.numbers := by
  induction fields with
  | nil => rfl
  | cons f rest ih => simp [numbersOfFields, ih]

@[simp] theorem printAll_eq (items : List Json) : printAll items = items.map print := by
  induction items with
  | nil => rfl
  | cons j rest ih => simp [printAll, ih]

@[simp] theorem printFields_eq (fields : List (String × Json)) :
    printFields fields = fields.map fun f => quote f.1 ++ ":" ++ print f.2 := by
  induction fields with
  | nil => rfl
  | cons f rest ih => simp [printFields, ih]

@[simp] theorem allReadable_eq (items : List Json) : allReadable items = items.all isReadable := by
  induction items with
  | nil => rfl
  | cons j rest ih => simp [allReadable, ih]

@[simp] theorem fieldsReadable_eq (fields : List (String × Json)) :
    fieldsReadable fields = fields.all fun f => f.2.isReadable := by
  induction fields with
  | nil => rfl
  | cons f rest ih => simp [fieldsReadable, ih]

theorem depthOfList_le_iff {items : List Json} {n : Nat} :
    depthOfList items ≤ n ↔ ∀ j ∈ items, j.depth ≤ n := by
  induction items with
  | nil => simp [depthOfList]
  | cons j rest ih => rw [depthOfList, Nat.max_le, ih, List.forall_mem_cons]

theorem depthOfFields_le_iff {fields : List (String × Json)} {n : Nat} :
    depthOfFields fields ≤ n ↔ ∀ f ∈ fields, f.2.depth ≤ n := by
  induction fields with
  | nil => simp [depthOfFields]
  | cons f rest ih => rw [depthOfFields, Nat.max_le, ih, List.forall_mem_cons]

theorem limitDepth_eq_self {limit : Nat} {j : Json} (h : j.depth ≤ limit) :
    j.limitDepth limit = j := by
  induction limit generalizing j with
  | zero => cases j <;> simp_all [depth, limitDepth]
  | succ limit ih =>
      cases j with
      | list items =>
          simp only [depth, Nat.add_le_add_iff_right, depthOfList_le_iff] at h
          simp only [limitDepth, list.injEq]
          exact (List.map_congr_left fun j hj => ih (h j hj)).trans (List.map_id' items)
      | object fields =>
          simp only [depth, Nat.add_le_add_iff_right, depthOfFields_le_iff] at h
          simp only [limitDepth, object.injEq]
          refine (List.map_congr_left fun f hf => ?_).trans (List.map_id' fields)
          rw [ih (h f hf)]
      | _ => rfl

/-! ### Texts -/

theorem hexCode?_hexDigit {n : Nat} (h : n < 32) :
    hexCode? ['0', '0', hexDigit (n / 16), hexDigit n] = some n := by
  revert n
  decide

/-- The escape of a character is read as its code. -/
theorem codes?_escape (c : Char) (rest : List Char) :
    codes? ((escape c).toList ++ rest) = (codes? rest).map fun r => (c.toNat :: r.1, r.2) := by
  have hput (code : Nat) : ((codes? rest).bind fun r => some (code :: r.1, r.2)) =
      (codes? rest).map fun r => (code :: r.1, r.2) := Option.map_eq_bind.symm
  unfold escape
  split
  case h_8 _ hquote hbackslash _ _ _ _ _ =>
    split
    · rename_i hcontrol
      have hcode := hexCode?_hexDigit hcontrol
      simp [codes?, hcode, hput]
    · rename_i hcontrol
      have hself : c.toString.toList ++ rest = c :: rest := by simp [Char.toString]
      rw [hself, codes?.eq_def]
      split
      case h_5 =>
        rename_i heq
        obtain ⟨rfl, rfl⟩ := List.cons.inj heq
        rw [if_neg hcontrol]
        exact hput c.toNat
      all_goals simp_all
  all_goals simp [codes?, hput]

theorem codes?_flatMap_escape (cs rest : List Char) :
    codes? (cs.flatMap (fun c => (escape c).toList) ++ '"' :: rest) =
      some (cs.map Char.toNat, rest) := by
  induction cs with
  | nil => simp [codes?]
  | cons c cs ih =>
      rw [List.flatMap_cons, List.append_assoc, codes?_escape, ih]
      rfl

/-- No character is half of a surrogate pair. -/
theorem characters?_map_toNat (cs : List Char) : characters? (cs.map Char.toNat) = some cs := by
  induction cs with
  | nil => rfl
  | cons c cs ih =>
      have hvalid : c.toNat < 0xD800 ∨ 0xDFFF < c.toNat ∧ c.toNat < 0x110000 := c.valid
      have hhigh : ¬ (0xD800 ≤ c.toNat ∧ c.toNat ≤ 0xDBFF) := by omega
      have hlow : ¬ (0xDC00 ≤ c.toNat ∧ c.toNat ≤ 0xDFFF) := by omega
      rw [List.map_cons, characters?.eq_def]
      simp [hhigh, hlow, ih, Char.ofNat_toNat]

theorem toList_quote (s : String) :
    (quote s).toList = '"' :: (s.toList.flatMap (fun c => (escape c).toList) ++ ['"']) := by
  simp [quote, String.toList_join, List.flatMap_map]

theorem quoted?_quote (s : String) (rest : List Char) :
    quoted? (s.toList.flatMap (fun c => (escape c).toList) ++ '"' :: rest) =
      some (some s, rest) := by
  rw [quoted?, codes?_flatMap_escape]
  simp [characters?_map_toNat]

/-! ### Numbers -/

/-- A text that no number goes on with. -/
def Stops (rest : List Char) : Prop :=
  ∀ c ∈ rest.head?, c.isDigit = false ∧ c ≠ '.' ∧ c ≠ 'e' ∧ c ≠ 'E'

variable {s rest t : List Char} {j : Json}

theorem takeWhile_isDigit_append (ht : Stops t) (s : List Char) :
    (s ++ t).takeWhile Char.isDigit = s.takeWhile Char.isDigit := by
  induction s with
  | nil =>
      cases t with
      | nil => rfl
      | cons c t => simp [(ht c (by simp)).1]
  | cons c s ih => simp [List.takeWhile_cons, ih]

theorem dropWhile_isDigit_append (ht : Stops t) (s : List Char) :
    (s ++ t).dropWhile Char.isDigit = s.dropWhile Char.isDigit ++ t := by
  induction s with
  | nil =>
      cases t with
      | nil => rfl
      | cons c t => simp [(ht c (by simp)).1]
  | cons c s ih =>
      simp only [List.cons_append, List.dropWhile_cons, ih]
      split <;> rfl

theorem absorb_append (ht : Stops t) (significand : Nat) (s : List Char) :
    absorb significand (s ++ t) =
      ((absorb significand s).1, (absorb significand s).2.1, (absorb significand s).2.2 ++ t) := by
  induction s generalizing significand with
  | nil =>
      cases t with
      | nil => rfl
      | cons c t => simp [absorb, digit?, (ht c (by simp)).1]
  | cons c s ih =>
      simp only [List.cons_append, absorb]
      split
      · rfl
      · split
        · rfl
        · rw [ih]

theorem exponent?_append {e : Option Int} (ht : Stops t) (h : exponent? s = some (e, rest)) :
    exponent? (s ++ t) = some (e, rest ++ t) := by
  cases s with
  | nil =>
      simp only [exponent?, Option.some.injEq, Prod.mk.injEq] at h
      obtain ⟨rfl, rfl⟩ := h
      cases t with
      | nil => rfl
      | cons c t =>
          obtain ⟨_, _, he, hE⟩ := ht c (by simp)
          simp [exponent?, he, hE]
  | cons c s =>
      simp only [exponent?, List.cons_append] at h ⊢
      split at h
      · rename_i hc
        rw [if_pos hc]
        cases s with
        | nil => simp at h
        | cons d s =>
            have htake := takeWhile_isDigit_append ht
            have hdrop := dropWhile_isDigit_append ht
            by_cases hminus : d = '-'
            · subst hminus
              simpa [htake, hdrop] using h
            · by_cases hplus : d = '+'
              · subst hplus
                simpa [htake, hdrop] using h
              · simp [hminus, hplus] at h ⊢
                rw [← List.cons_append, htake, hdrop]
                exact ⟨h.1, h.2.1, congrArg (· ++ t) h.2.2⟩
      · rename_i hc
        rw [if_neg hc]
        obtain ⟨rfl, rfl⟩ := Prod.mk.inj (Option.some.inj h)
        rfl

theorem withExponent?_append {n m : Numeral} (ht : Stops t)
    (h : withExponent? n s = some (m, rest)) : withExponent? n (s ++ t) = some (m, rest ++ t) := by
  unfold withExponent? at h ⊢
  split at h
  · simp at h
  · rename_i left heq
    obtain ⟨rfl, rfl⟩ := Prod.mk.inj (Option.some.inj h)
    rw [exponent?_append ht heq]
  · rename_i e left heq
    obtain ⟨rfl, rfl⟩ := Prod.mk.inj (Option.some.inj h)
    rw [exponent?_append ht heq]

theorem withFraction?_append {n m : Numeral} (ht : Stops t)
    (h : withFraction? n s = some (m, rest)) : withFraction? n (s ++ t) = some (m, rest ++ t) := by
  cases s with
  | nil =>
      cases t with
      | nil => simpa using h
      | cons c t =>
          have hpoint := (ht c (by simp)).2.1
          have hexponent := withExponent?_append ht (s := []) h
          rw [List.nil_append] at hexponent ⊢
          unfold withFraction?
          split
          · simp_all
          · exact hexponent
  | cons c s =>
      by_cases hpoint : c = '.'
      · subst hpoint
        simp only [withFraction?, List.cons_append, takeWhile_isDigit_append ht,
          dropWhile_isDigit_append ht, absorb_append ht] at h ⊢
        split at h
        · simp at h
        · exact withExponent?_append ht h
      · unfold withFraction? at h ⊢
        split at h
        · simp_all
        · split
          · simp_all
          · exact withExponent?_append ht h

theorem unsigned?_append {minus : Bool} {n : Numeral} (ht : Stops t)
    (h : unsigned? minus s = some (n, rest)) : unsigned? minus (s ++ t) = some (n, rest ++ t) := by
  unfold unsigned? at h ⊢
  rw [takeWhile_isDigit_append ht, dropWhile_isDigit_append ht]
  split at h
  · simp at h
  · simp at h
  · exact withFraction?_append ht h

theorem number?_append (ht : Stops t) (h : number? s = some (j, rest)) :
    number? (s ++ t) = some (j, rest ++ t) := by
  simp only [number?, Option.map_eq_some_iff] at h
  obtain ⟨⟨n, left⟩, hnumeral, heq⟩ := h
  obtain ⟨rfl, rfl⟩ := Prod.mk.inj heq
  cases s with
  | nil => simp [unsigned?] at hnumeral
  | cons c s =>
      by_cases hminus : c = '-'
      · subst hminus
        simp only [number?, List.cons_append, unsigned?_append ht hnumeral, Option.map_some]
      · have hunsigned : unsigned? false (c :: s) = some (n, left) := by
          split at hnumeral
          · simp_all
          · exact hnumeral
        have happended := unsigned?_append ht hunsigned
        simp only [number?]
        split
        · simp_all
        · rw [happended]
          rfl

/-! ### Documents -/

theorem skipBlanks_append (h : skipBlanks s ≠ []) : skipBlanks (s ++ t) = skipBlanks s ++ t := by
  rw [skipBlanks, List.dropWhile_append, if_neg]
  · rfl
  · simpa [skipBlanks] using h

theorem skipBlanks_append_of_eq_nil (h : skipBlanks s = []) :
    skipBlanks (s ++ t) = skipBlanks t := by
  rw [skipBlanks, List.dropWhile_append, if_pos]
  · rfl
  · simpa [skipBlanks] using h

theorem skipBlanks_skipBlanks (s : List Char) : skipBlanks (skipBlanks s) = skipBlanks s :=
  List.dropWhile_idempotent isBlank s

def isNumber : Json → Bool
  | .whole _ | .negative _ | .decimal _ => true
  | _ => false

/-- The characters that a text, a list, an object and a word begin with. -/
def openings : List Char :=
  ['"', '[', '\x7b', 'n', 't', 'f']

theorem value?_eq_number? {c : Char} {fuel : Nat} (h : skipBlanks s = c :: rest)
    (hc : c ∉ openings) : value? (fuel + 1) s = number? (c :: rest) := by
  simp only [openings, List.mem_cons, List.not_mem_nil, or_false, not_or] at hc
  unfold value?
  rw [h]
  split <;> simp_all

theorem isNumber_ofFields (fields : List (Option String × Json)) :
    (ofFields fields).isNumber = false := by
  unfold ofFields
  split <;> rfl

/-- A number is read by the reader for numbers. -/
theorem number?_of_value? {fuel : Nat} (hj : j.isNumber = true)
    (h : value? fuel s = some (j, rest)) :
    ∃ c left, skipBlanks s = c :: left ∧ c ∉ openings ∧ number? (c :: left) = some (j, rest) := by
  have hother {α : Type} {r : Option α} {f : α → Json × List Char}
      (hf : ∀ a, (f a).1.isNumber = false) (h : r.map f = some (j, rest)) : False := by
    obtain ⟨a, _, ha⟩ := Option.map_eq_some_iff.1 h
    have hnot := hf a
    simp [ha, hj] at hnot
  cases fuel with
  | zero => simp [value?] at h
  | succ fuel =>
      unfold value? at h
      split at h
      · simp at h
      · refine (hother (fun r => ?_) h).elim
        obtain ⟨content, left⟩ := r
        cases content <;> rfl
      · split at h
        · obtain ⟨rfl, _⟩ := Prod.mk.inj (Option.some.inj h)
          simp [isNumber] at hj
        · exact (hother (fun r => rfl) h).elim
      · split at h
        · obtain ⟨rfl, _⟩ := Prod.mk.inj (Option.some.inj h)
          simp [isNumber] at hj
        · exact (hother (fun r => isNumber_ofFields r.1) h).elim
      · exact (hother (fun r => rfl) h).elim
      · exact (hother (fun r => rfl) h).elim
      · exact (hother (fun r => rfl) h).elim
      · rename_i hempty hquote hlist hobject hn ht hf
        cases hs : skipBlanks s with
        | nil => exact absurd hs hempty
        | cons c left =>
            refine ⟨c, left, rfl, ?_, hs ▸ h⟩
            simp only [openings, List.mem_cons, List.not_mem_nil, or_false, not_or]
            refine ⟨?_, ?_, ?_, ?_, ?_, ?_⟩
            all_goals
              rintro rfl
              simp_all

/-- What follows a number in a document does not change how it is read. -/
theorem value?_append {fuel fuel' : Nat} (ht : Stops t) (hj : j.isNumber = true)
    (h : value? fuel s = some (j, rest)) : value? (fuel' + 1) (s ++ t) = some (j, rest ++ t) := by
  obtain ⟨c, left, hs, hc, hnumber⟩ := number?_of_value? hj h
  have hskipped : skipBlanks (s ++ t) = c :: (left ++ t) := by
    rw [skipBlanks_append (by simp [hs]), hs]
    rfl
  rw [value?_eq_number? hskipped hc, ← List.cons_append, number?_append ht hnumber]

/-- A document whose text reads back to it, whatever it is followed by that cannot belong to a
number. -/
def ReadsBack (j : Json) : Prop :=
  ∀ fuel t, 2 * (print j).toList.length ≤ fuel → Stops t →
    ∃ r, value? fuel ((print j).toList ++ t) = some (j, r) ∧ skipBlanks r = skipBlanks t

theorem parse_eq_some_iff {text : String} :
    parse text = some j ↔ ∃ j' rest,
      value? (2 * text.toList.length + 2) text.toList = some (j', rest) ∧ skipBlanks rest = [] ∧
        j'.limitDepth deepestNesting = j := by
  simp [parse, Option.bind_eq_some_iff]

theorem limitDepth_of_isNumber {limit : Nat} (h : (j.limitDepth limit).isNumber = true) :
    j.limitDepth limit = j := by
  cases limit with
  | zero => cases j <;> simp_all [limitDepth, isNumber]
  | succ limit => cases j <;> simp_all [limitDepth, isNumber]

theorem readsBack_number (hj : j.isNumber = true) (h : parse (print j) = some j) : j.ReadsBack := by
  obtain ⟨j', rest, hvalue, hrest, hlimit⟩ := parse_eq_some_iff.1 h
  obtain rfl : j' = j := (limitDepth_of_isNumber (hlimit ▸ hj)).symm.trans hlimit
  intro fuel t hfuel ht
  have hpos : 0 < (print j').toList.length := by
    refine List.length_pos_iff.2 fun hnil => ?_
    obtain ⟨c, left, hs, _⟩ := number?_of_value? hj hvalue
    simp [hnil, skipBlanks] at hs
  obtain ⟨fuel, rfl⟩ : ∃ k, fuel = k + 1 := ⟨fuel - 1, by omega⟩
  exact ⟨rest ++ t, value?_append ht hj hvalue, skipBlanks_append_of_eq_nil hrest⟩

/-! ### Lists and objects -/

theorem toList_print_list (items : List Json) :
    (print (.list items)).toList =
      '[' :: ([','].intercalate (items.map fun j => (print j).toList) ++ [']']) := by
  simp [print, String.toList_intercalate, Function.comp_def]

/-- The text of a field. -/
def fieldText (f : String × Json) : List Char :=
  (quote f.1).toList ++ ':' :: (print f.2).toList

theorem toList_print_object (fields : List (String × Json)) :
    (print (.object fields)).toList =
      '\x7b' :: ([','].intercalate (fields.map fieldText) ++ ['\x7d']) := by
  have htext : fieldText = fun f => (quote f.1).toList ++ ':' :: (print f.2).toList := rfl
  simp [print, String.toList_intercalate, Function.comp_def, htext]

theorem value?_skipBlanks (fuel : Nat) (s : List Char) :
    value? fuel (skipBlanks s) = value? fuel s := by
  cases fuel with
  | zero => rfl
  | succ fuel => simp only [value?, skipBlanks_skipBlanks]

theorem items?_skipBlanks (fuel : Nat) (s : List Char) :
    items? fuel (skipBlanks s) = items? fuel s := by
  cases fuel with
  | zero => rfl
  | succ fuel => simp only [items?, value?_skipBlanks]

theorem stops_nil : Stops [] := by
  simp [Stops]

theorem stops_cons {c : Char} (hc : c ∈ [',', ']', '\x7d']) (t : List Char) : Stops (c :: t) := by
  intro d hd
  obtain rfl : c = d := by simpa using hd
  simp only [List.mem_cons, List.not_mem_nil, or_false] at hc
  obtain rfl | rfl | rfl := hc <;> decide

/-- The items of a list are read one after another. -/
theorem items?_print {items : List Json} (hitems : ∀ j ∈ items, j.ReadsBack) (hne : items ≠ [])
    (fuel : Nat)
    (hfuel : 2 * ([','].intercalate (items.map fun j => (print j).toList)).length < fuel)
    (t : List Char) :
    items? fuel ([','].intercalate (items.map fun j => (print j).toList) ++ ']' :: t) =
      some (items, t) := by
  induction items generalizing fuel with
  | nil => exact absurd rfl hne
  | cons j rest ih =>
      obtain ⟨hj, hrest⟩ := List.forall_mem_cons.1 hitems
      obtain ⟨fuel, rfl⟩ : ∃ k, fuel = k + 1 := ⟨fuel - 1, by omega⟩
      cases rest with
      | nil =>
          simp only [List.map_cons, List.map_nil, List.intercalate_singleton] at hfuel ⊢
          obtain ⟨r, hvalue, hr⟩ := hj fuel (']' :: t) (by omega) (stops_cons (by decide) t)
          have hend : skipBlanks r = ']' :: t := hr
          simp only [items?, hvalue, hend]
      | cons k rest =>
          simp only [List.map_cons, List.intercalate_cons_cons, List.append_assoc,
            List.cons_append, List.nil_append, List.length_append, List.length_cons] at hfuel ih ⊢
          obtain ⟨r, hvalue, hr⟩ := hj fuel
            (',' :: ([','].intercalate ((print k).toList :: rest.map fun j => (print j).toList) ++
              ']' :: t)) (by omega) (stops_cons (by decide) _)
          have hnext : skipBlanks r = ',' ::
              ([','].intercalate ((print k).toList :: rest.map fun j => (print j).toList) ++
                ']' :: t) := hr
          simp only [items?, hvalue, hnext]
          rw [ih hrest (by simp) fuel (by omega)]
          rfl

/-- No item begins like the end of a list. -/
theorem skipBlanks_ne_of_items? {fuel : Nat} {r : List Json × List Char}
    (h : items? fuel s = some r) (left : List Char) : skipBlanks s ≠ ']' :: left := by
  intro hs
  have hnone (k : Nat) : value? k s = none := by
    cases k with
    | zero => rfl
    | succ k =>
        rw [value?_eq_number? hs (by decide)]
        simp [number?, unsigned?]
  cases fuel with
  | zero => simp [items?] at h
  | succ fuel => simp [items?, hnone] at h

theorem readsBack_list {items : List Json} (hitems : ∀ j ∈ items, j.ReadsBack) :
    (Json.list items).ReadsBack := by
  intro fuel t hfuel ht
  rw [toList_print_list] at hfuel ⊢
  simp only [List.length_cons, List.length_append, List.length_nil] at hfuel
  obtain ⟨fuel, rfl⟩ : ∃ k, fuel = k + 1 := ⟨fuel - 1, by omega⟩
  refine ⟨t, ?_, rfl⟩
  cases items with
  | nil => rfl
  | cons j rest =>
      have hread := items?_print hitems (by simp) fuel (by omega) t
      simp only [List.cons_append, List.append_assoc, List.nil_append, value?]
      rw [show ∀ s, skipBlanks ('[' :: s) = '[' :: s from fun _ => rfl]
      simp only
      split
      · rename_i hend
        exact absurd hend (skipBlanks_ne_of_items? hread _)
      · rw [items?_skipBlanks, hread]
        rfl

theorem skipBlanks_cons {c : Char} (hc : isBlank c = false) (s : List Char) :
    skipBlanks (c :: s) = c :: s := by
  simp [skipBlanks, hc]

/-- The fields of an object are read one after another. -/
theorem fields?_print {fields : List (String × Json)} (hfields : ∀ f ∈ fields, f.2.ReadsBack)
    (hne : fields ≠ []) (fuel : Nat)
    (hfuel : 2 * ([','].intercalate (fields.map fieldText)).length < fuel) (t : List Char) :
    fields? fuel ([','].intercalate (fields.map fieldText) ++ '\x7d' :: t) =
      some (fields.map fun f => (some f.1, f.2), t) := by
  have hquote (s : List Char) : skipBlanks ('"' :: s) = '"' :: s := skipBlanks_cons rfl s
  have hcolon (s : List Char) : skipBlanks (':' :: s) = ':' :: s := skipBlanks_cons rfl s
  induction fields generalizing fuel with
  | nil => exact absurd rfl hne
  | cons f rest ih =>
      obtain ⟨hf, hrest⟩ := List.forall_mem_cons.1 hfields
      obtain ⟨fuel, rfl⟩ : ∃ k, fuel = k + 1 := ⟨fuel - 1, by omega⟩
      have hlength : (print f.2).toList.length ≤ (fieldText f).length := by
        simp only [fieldText, List.length_append, List.length_cons]
        omega
      cases rest with
      | nil =>
          simp only [List.map_cons, List.map_nil, List.intercalate_singleton] at hfuel ⊢
          obtain ⟨r, hvalue, hr⟩ := hf fuel ('\x7d' :: t) (by omega) (stops_cons (by decide) t)
          have hend : skipBlanks r = '\x7d' :: t := hr
          simp only [fields?, fieldText, toList_quote, List.append_assoc, List.cons_append,
            List.nil_append, hquote, quoted?_quote, hcolon, hvalue, hend]
      | cons g rest =>
          simp only [List.map_cons, List.intercalate_cons_cons, List.append_assoc,
            List.cons_append, List.nil_append, List.length_append, List.length_cons] at hfuel ih ⊢
          obtain ⟨r, hvalue, hr⟩ := hf fuel
            (',' :: ([','].intercalate (fieldText g :: rest.map fieldText) ++ '\x7d' :: t))
            (by omega) (stops_cons (by decide) _)
          have hnext : skipBlanks r = ',' ::
              ([','].intercalate (fieldText g :: rest.map fieldText) ++ '\x7d' :: t) := hr
          have hlater := ih hrest (by simp) fuel (by omega)
          rw [fields?, fieldText, toList_quote]
          simp only [List.append_assoc, List.cons_append, List.nil_append, hquote, quoted?_quote,
            hcolon, hvalue, hnext, hlater, Option.map_some]

theorem ofFields_map (fields : List (String × Json)) :
    ofFields (fields.map fun f => (some f.1, f.2)) = .object fields := by
  have hnames : (fields.map fun f => (some f.1, f.2)).mapM
      (fun f => f.1.map fun name => (name, f.2)) = some fields := by
    induction fields with
    | nil => rfl
    | cons f rest ih => simp [List.mapM_cons, ih]
  rw [ofFields, hnames]

theorem readsBack_object {fields : List (String × Json)} (hfields : ∀ f ∈ fields, f.2.ReadsBack) :
    (Json.object fields).ReadsBack := by
  intro fuel t hfuel ht
  rw [toList_print_object] at hfuel ⊢
  simp only [List.length_cons, List.length_append, List.length_nil] at hfuel
  obtain ⟨fuel, rfl⟩ : ∃ k, fuel = k + 1 := ⟨fuel - 1, by omega⟩
  refine ⟨t, ?_, rfl⟩
  cases fields with
  | nil => rfl
  | cons f rest =>
      have hread := fields?_print hfields (by simp) fuel (by omega) t
      obtain ⟨left, hleft⟩ : ∃ left,
          [','].intercalate ((f :: rest).map fieldText) ++ '\x7d' :: t = '"' :: left := by
        cases rest <;> simp [fieldText, toList_quote]
      rw [hleft] at hread
      simp only [List.cons_append, List.append_assoc, List.nil_append, hleft, value?]
      rw [skipBlanks_cons rfl]
      simp only [skipBlanks_cons (show isBlank '"' = false from rfl)]
      split
      · simp_all
      · rw [hread, Option.map_some, ofFields_map]

theorem readsBack_null : Json.null.ReadsBack := by
  intro fuel t hfuel ht
  obtain ⟨fuel, rfl⟩ : ∃ k, fuel = k + 1 := ⟨fuel - 1, by simp [print] at hfuel; omega⟩
  exact ⟨t, rfl, rfl⟩

theorem readsBack_bool (b : Bool) : (Json.bool b).ReadsBack := by
  intro fuel t hfuel ht
  cases b with
  | false =>
      obtain ⟨fuel, rfl⟩ : ∃ k, fuel = k + 1 := ⟨fuel - 1, by simp [print] at hfuel; omega⟩
      exact ⟨t, rfl, rfl⟩
  | true =>
      obtain ⟨fuel, rfl⟩ : ∃ k, fuel = k + 1 := ⟨fuel - 1, by simp [print] at hfuel; omega⟩
      exact ⟨t, rfl, rfl⟩

theorem readsBack_text (s : String) : (Json.text s).ReadsBack := by
  intro fuel t hfuel ht
  rw [print, toList_quote] at hfuel ⊢
  simp only [List.length_cons] at hfuel
  obtain ⟨fuel, rfl⟩ : ∃ k, fuel = k + 1 := ⟨fuel - 1, by omega⟩
  refine ⟨t, ?_, rfl⟩
  simp only [List.cons_append, List.append_assoc, List.nil_append, value?]
  rw [skipBlanks_cons rfl]
  simp only [quoted?_quote, Option.map_some, Option.getD_some]

/-- A document reads back if the numbers in it do. -/
theorem readsBack (hreadable : j.isReadable = true)
    (hnumbers : ∀ n ∈ j.numbers, parse (print n) = some n) : j.ReadsBack := by
  revert hreadable hnumbers
  induction j using Json.induction with
  | null => exact fun _ _ => readsBack_null
  | bool b => exact fun _ _ => readsBack_bool b
  | whole n => exact fun _ h => readsBack_number rfl (h _ (by simp [numbers]))
  | negative n => exact fun _ h => readsBack_number rfl (h _ (by simp [numbers]))
  | decimal x => exact fun _ h => readsBack_number rfl (h _ (by simp [numbers]))
  | text s => exact fun _ _ => readsBack_text s
  | list items ih =>
      intro hreadable hnumbers
      simp only [isReadable, allReadable_eq, List.all_eq_true] at hreadable
      simp only [numbers, numbersOfList_eq, List.mem_flatMap] at hnumbers
      exact readsBack_list fun j hj => ih j hj (hreadable j hj) fun n hn => hnumbers n ⟨j, hj, hn⟩
  | object fields ih =>
      intro hreadable hnumbers
      simp only [isReadable, fieldsReadable_eq, List.all_eq_true] at hreadable
      simp only [numbers, numbersOfFields_eq, List.mem_flatMap] at hnumbers
      exact readsBack_object fun f hf =>
        ih f hf (hreadable f hf) fun n hn => hnumbers n ⟨f, hf, hn⟩
  | unreadable => simp [isReadable]

/-- Reading the text of a document gives the document, if it does so for the numbers in it and the
document is not nested too deep. -/
theorem parse_print (hreadable : j.isReadable = true) (hdepth : j.depth ≤ deepestNesting)
    (hnumbers : ∀ n ∈ j.numbers, parse (print n) = some n) : parse (print j) = some j := by
  obtain ⟨r, hvalue, hr⟩ := readsBack hreadable hnumbers (2 * (print j).toList.length + 2) []
    (by omega) stops_nil
  rw [List.append_nil] at hvalue
  exact parse_eq_some_iff.2 ⟨j, r, hvalue, hr, limitDepth_eq_self hdepth⟩

end Deliberation.Json
