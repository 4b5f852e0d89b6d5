import Mathlib.Data.List.Nodup
import Deliberation.Exchange.Plan
import Deliberation.Proofs.Exchange.Text
import Deliberation.Proofs.Logic.Names
import Deliberation.Proofs.Plan.Selection

/-!
Plans from documents.

Every part of a plan is read back from its document as it was written, if all its numbers are
finite: what is left out is what is taken for missing, and a reader that recurses on the depth of a
document goes deep enough.
-/

namespace Deliberation

/-! ### Reading what was written -/

namespace Json

/-- No field is passed over or refused if all are known and their names differ. -/
theorem known?_object (names : List String) (fields : List (String × Json))
    (hknown : ∀ f ∈ fields, f.1 ∈ names) (hnodup : (fields.map (·.1)).Nodup) :
    known? names (.object fields) = some fields := by
  have hfilter : fields.filter (fun f => names.contains f.1) = fields := by
    simpa [List.filter_eq_self] using hknown
  have hcount (name : String) : fields.countP (fun f => f.1 == name) ≤ 1 := by
    have hle := List.nodup_iff_count_le_one.1 hnodup name
    rwa [List.count, List.countP_map] at hle
  simp only [known?, hfilter]
  exact if_pos (List.all_eq_true.2 fun name _ => decide_eq_true (hcount name))

theorem tagged?_ofTagged {tag content : String} (h : tag ≠ content) (name : String) (value : Json) :
    (ofTagged tag content name value).tagged? tag content = some (name, value) := by
  have hknown : known? [tag, content] (ofTagged tag content name value) =
      some [(tag, .text name), (content, value)] := known?_object _ _ (by simp) (by simp [h])
  have hcontent : (content == tag) = false := beq_false_of_ne h.symm
  simp [tagged?, hknown, required?, name?, List.lookup_cons, hcontent]

theorem list?_map {α : Type} (read : Json → Option α) (write : α → Json) {xs : List α}
    (h : ∀ x ∈ xs, read (write x) = some x) : (Json.list (xs.map write)).list? read = some xs := by
  induction xs with
  | nil => rfl
  | cons x xs ih =>
      obtain ⟨hx, hxs⟩ := List.forall_mem_cons.1 h
      have hrest : (xs.map write).mapM read = some xs := ih hxs
      simp [list?, List.mapM_cons, hx, hrest]

theorem list?_ofTexts (texts : List String) : (ofTexts texts).list? text? = some texts :=
  list?_map text? .text fun _ _ => rfl

theorem option?_of_ne_null {α : Type} (read : Json → Option α) {j : Json} (h : j ≠ .null) :
    option? read j = (read j).map some := by
  cases j <;> simp_all [option?]

/-- A reader that goes as deep as a tagged object can take one step into it. -/
theorem exists_of_depth_ofTagged {tag content name : String} {value : Json} {bound : Nat}
    (h : (ofTagged tag content name value).depth ≤ bound) :
    ∃ k, bound = k + 1 ∧ value.depth ≤ k := by
  simp only [ofTagged, depth, depthOfFields] at h
  exact ⟨bound - 1, by omega, by omega⟩

end Json

@[simp] theorem Term.listToJson_eq (xs : List Term) : Term.listToJson xs = xs.map Term.toJson := by
  induction xs with
  | nil => rfl
  | cons x xs ih => simp [Term.listToJson, ih]

@[simp] theorem Literal.listToJson_eq (notes : List Literal) :
    Literal.listToJson notes = notes.map Literal.toJson := by
  induction notes with
  | nil => rfl
  | cons l notes ih => simp [Literal.listToJson, ih]

theorem Path.ofJson?_toJson (p : Path) : Path.ofJson? p.toJson = some p := by
  rw [ofJson?, toJson, Json.list?_ofTexts]
  rfl

/-! ### Terms and literals -/

theorem Term.toJson_ne_null (t : Term) : t.toJson ≠ .null := by
  cases t <;> simp [Term.toJson, Json.ofTagged]

mutual

/-- The numbers in a term, annotations included. -/
def Term.numbers : Term → List Float
  | .number x => [x]
  | .sequence xs => Term.numbersAll xs
  | .literal l => Literal.numbers l
  | .bound _ v => Term.numbers v
  | .atom _ | .text _ | .variable _ => []

def Term.numbersAll : List Term → List Float
  | [] => []
  | x :: xs => Term.numbers x ++ Term.numbersAll xs

def Literal.numbers : Literal → List Float
  | ⟨_, _, xs, notes⟩ => Term.numbersAll xs ++ Literal.numbersAll notes

def Literal.numbersAll : List Literal → List Float
  | [] => []
  | l :: notes => Literal.numbers l ++ Literal.numbersAll notes

end

@[simp] theorem Term.numbersAll_eq (xs : List Term) :
    Term.numbersAll xs = xs.flatMap Term.numbers := by
  induction xs with
  | nil => rfl
  | cons x xs ih => simp [Term.numbersAll, ih]

@[simp] theorem Literal.numbersAll_eq (notes : List Literal) :
    Literal.numbersAll notes = notes.flatMap Literal.numbers := by
  induction notes with
  | nil => rfl
  | cons l notes ih => simp [Literal.numbersAll, ih]

section

variable {f : Path} {n : Bool} {xs : List Term} {notes : List Literal} {bound : Nat}

theorem Literal.exists_of_depth_toJson (h : (Literal.mk f n xs notes).toJson.depth ≤ bound) :
    ∃ k, bound = k + 1 ∧ (∀ t ∈ xs, t.toJson.depth ≤ k) ∧ ∀ l ∈ notes, l.toJson.depth ≤ k := by
  have hdepth : Json.depthOfList (xs.map Term.toJson) < bound ∧
      Json.depthOfList (notes.map Literal.toJson) < bound := by
    cases notes with
    | nil =>
        simp only [Literal.toJson, Term.listToJson_eq, List.append_nil, Json.depth,
          Json.depthOfFields] at h
        exact ⟨by omega, by simp only [List.map_nil, Json.depthOfList]; omega⟩
    | cons l rest =>
        simp only [Literal.toJson, Term.listToJson_eq, Literal.listToJson_eq, List.cons_append,
          List.nil_append, Json.depth, Json.depthOfFields] at h
        omega
  refine ⟨bound - 1, by omega, fun t ht => ?_, fun l hl => ?_⟩
  · exact Json.depthOfList_le_iff.1 (Nat.le_sub_one_of_lt hdepth.1) _ (List.mem_map_of_mem ht)
  · exact Json.depthOfList_le_iff.1 (Nat.le_sub_one_of_lt hdepth.2) _ (List.mem_map_of_mem hl)

/-- A literal is read back if its arguments and its annotations are. -/
theorem Literal.ofJsonWithin?_toJson_succ
    (hargs : (Json.list (xs.map Term.toJson)).list? (Term.ofJsonWithin? bound) = some xs)
    (hnotes : (Json.list (notes.map Literal.toJson)).list? (Literal.ofJsonWithin? bound) =
      some notes) :
    Literal.ofJsonWithin? (bound + 1) (Literal.mk f n xs notes).toJson =
      some (Literal.mk f n xs notes) := by
  cases notes with
  | nil =>
      have hfields := Json.known?_object ["functor", "negated", "arguments", "annotations"]
        [("functor", f.toJson), ("negated", .bool n), ("arguments", .list (xs.map Term.toJson))]
        (by simp) (by simp)
      simp [Literal.toJson, Literal.ofJsonWithin?, hfields, Json.required?, Json.optional?,
        List.lookup_cons, Path.ofJson?_toJson, Json.bool?, hargs]
  | cons l rest =>
      have hfields := Json.known?_object ["functor", "negated", "arguments", "annotations"]
        [("functor", f.toJson), ("negated", .bool n), ("arguments", .list (xs.map Term.toJson)),
          ("annotations", .list ((l :: rest).map Literal.toJson))] (by simp) (by simp)
      rw [List.map_cons] at hfields hnotes
      simp [Literal.toJson, Literal.ofJsonWithin?, hfields, Json.required?, Json.optional?,
        List.lookup_cons, Path.ofJson?_toJson, Json.bool?, hargs, hnotes]

end

/-- Terms and literals are read back from their documents by a reader that goes deep enough. -/
theorem ofJsonWithin?_toJson :
    (∀ t : Term, (∀ x ∈ t.numbers, x.isFinite = true) → ∀ bound, t.toJson.depth ≤ bound →
        Term.ofJsonWithin? bound t.toJson = some t) ∧
      ∀ l : Literal, (∀ x ∈ l.numbers, x.isFinite = true) → ∀ bound, l.toJson.depth ≤ bound →
        Literal.ofJsonWithin? bound l.toJson = some l := by
  apply Term.induction
  case atom =>
    intro a _ bound hbound
    obtain ⟨bound, rfl, _⟩ := Json.exists_of_depth_ofTagged hbound
    simp [Term.toJson, Term.ofJsonWithin?, Json.tagged?_ofTagged, Json.text?]
  case number =>
    intro x hx bound hbound
    obtain ⟨bound, rfl, _⟩ := Json.exists_of_depth_ofTagged hbound
    have hfinite : Json.ofFloat x = .decimal x := if_pos (hx x (by simp [Term.numbers]))
    simp [Term.toJson, Term.ofJsonWithin?, Json.tagged?_ofTagged, hfinite, Json.float?]
  case text =>
    intro s _ bound hbound
    obtain ⟨bound, rfl, _⟩ := Json.exists_of_depth_ofTagged hbound
    simp [Term.toJson, Term.ofJsonWithin?, Json.tagged?_ofTagged, Json.text?]
  case sequence =>
    intro xs ih hfinite bound hbound
    obtain ⟨bound, rfl, hvalue⟩ := Json.exists_of_depth_ofTagged hbound
    simp only [Term.numbers, Term.numbersAll_eq, List.mem_flatMap] at hfinite
    simp only [Term.listToJson_eq, Json.depth] at hvalue
    have hdepth : ∀ j ∈ xs.map Term.toJson, j.depth ≤ bound :=
      Json.depthOfList_le_iff.1 (by omega)
    have hread := Json.list?_map (Term.ofJsonWithin? bound) Term.toJson
      fun t ht => ih t ht (fun x hx => hfinite x ⟨t, ht, hx⟩) bound
        (hdepth _ (List.mem_map_of_mem ht))
    simp [Term.toJson, Term.ofJsonWithin?, Json.tagged?_ofTagged, hread]
  case literal =>
    intro l ih hfinite bound hbound
    obtain ⟨bound, rfl, hvalue⟩ := Json.exists_of_depth_ofTagged hbound
    simp [Term.toJson, Term.ofJsonWithin?, Json.tagged?_ofTagged, ih hfinite bound hvalue]
  case var =>
    intro x _ bound hbound
    obtain ⟨bound, rfl, _⟩ := Json.exists_of_depth_ofTagged hbound
    have hfields := Json.known?_object ["name", "value"]
      [("name", .text x)] (by simp) (by simp)
    simp [Term.toJson, Term.ofJsonWithin?, Json.tagged?_ofTagged, hfields, Json.required?,
      Json.optional?, Json.text?, List.lookup_cons]
  case bound =>
    intro x v ih hfinite bound hbound
    obtain ⟨bound, rfl, hvalue⟩ := Json.exists_of_depth_ofTagged hbound
    simp only [Json.depth, Json.depthOfFields] at hvalue
    have hfields := Json.known?_object ["name", "value"]
      [("name", .text x), ("value", v.toJson)] (by simp) (by simp)
    have hoption := Json.option?_of_ne_null (Term.ofJsonWithin? bound) v.toJson_ne_null
    rw [ih hfinite bound (by omega)] at hoption
    simp [Term.toJson, Term.ofJsonWithin?, Json.tagged?_ofTagged, hfields, Json.required?,
      Json.optional?, Json.text?, List.lookup_cons, hoption]
  case mk =>
    intro f n xs notes ihargs ihnotes hfinite bound hbound
    simp only [Literal.numbers, Term.numbersAll_eq, Literal.numbersAll_eq, List.mem_append,
      List.mem_flatMap] at hfinite
    obtain ⟨bound, rfl, hxs, hnotes⟩ := Literal.exists_of_depth_toJson hbound
    apply Literal.ofJsonWithin?_toJson_succ
    · exact Json.list?_map _ _ fun t ht => ihargs t ht
        (fun x hx => hfinite x (Or.inl ⟨t, ht, hx⟩)) bound (hxs t ht)
    · exact Json.list?_map _ _ fun l hl => ihnotes l hl
        (fun x hx => hfinite x (Or.inr ⟨l, hl, hx⟩)) bound (hnotes l hl)

theorem Term.ofJson?_toJson {t : Term} (h : ∀ x ∈ t.numbers, x.isFinite = true) :
    Term.ofJson? t.toJson = some t :=
  ofJsonWithin?_toJson.1 t h _ (Nat.le_refl _)

theorem Literal.ofJson?_toJson {l : Literal} (h : ∀ x ∈ l.numbers, x.isFinite = true) :
    Literal.ofJson? l.toJson = some l :=
  ofJsonWithin?_toJson.2 l h _ (Nat.le_refl _)

/-! ### Names of choices -/

theorem UnaryOperator.ofJson?_toJson (op : UnaryOperator) : ofJson? op.toJson = some op := by
  cases op <;> rfl

theorem BinaryOperator.ofJson?_toJson (op : BinaryOperator) : ofJson? op.toJson = some op := by
  cases op <;> rfl

theorem Increment.ofJson?_toJson (op : Increment) : ofJson? op.toJson = some op := by
  cases op <;> rfl

theorem TriggerKind.ofJson?_toJson (kind : TriggerKind) : ofJson? kind.toJson = some kind := by
  cases kind <;> rfl

/-! ### Plans -/

namespace Trigger

def numbers (t : Trigger) : List Float :=
  t.literal.numbers

theorem ofJson?_toJson {t : Trigger} (h : ∀ x ∈ t.numbers, x.isFinite = true) :
    ofJson? t.toJson = some t := by
  have hfields := Json.known?_object ["kind", "literal"]
    [("kind", t.kind.toJson), ("literal", t.literal.toJson)] (by simp) (by simp)
  simp [ofJson?, toJson, hfields, Json.required?, List.lookup_cons, TriggerKind.ofJson?_toJson,
    Literal.ofJson?_toJson h]

end Trigger

namespace Expression

def numbers : Expression → List Float
  | .term t => t.numbers
  | .unary _ e => numbers e
  | .binary _ l r => numbers l ++ numbers r
  | .belief l => l.numbers

theorem toJson_ne_null (e : Expression) : e.toJson ≠ .null := by
  cases e <;> simp [toJson, Json.ofTagged]

theorem ofJsonWithin?_toJson {e : Expression} (h : ∀ x ∈ e.numbers, x.isFinite = true)
    {bound : Nat} (hbound : e.toJson.depth ≤ bound) : ofJsonWithin? bound e.toJson = some e := by
  induction e generalizing bound with
  | term t =>
      obtain ⟨bound, rfl, _⟩ := Json.exists_of_depth_ofTagged hbound
      simp [toJson, ofJsonWithin?, Json.tagged?_ofTagged, Term.ofJson?_toJson h]
  | unary op e ih =>
      obtain ⟨bound, rfl, hvalue⟩ := Json.exists_of_depth_ofTagged hbound
      simp only [Json.depth, Json.depthOfFields] at hvalue
      have hfields := Json.known?_object ["operator", "operand"]
        [("operator", op.toJson), ("operand", e.toJson)] (by simp) (by simp)
      have he : ofJsonWithin? bound e.toJson = some e := ih h (by omega)
      simp [toJson, ofJsonWithin?, Json.tagged?_ofTagged, hfields, Json.required?, List.lookup_cons,
        UnaryOperator.ofJson?_toJson, he]
  | binary op l r ihl ihr =>
      obtain ⟨bound, rfl, hvalue⟩ := Json.exists_of_depth_ofTagged hbound
      simp only [Json.depth, Json.depthOfFields] at hvalue
      have hfields := Json.known?_object ["operator", "left", "right"]
        [("operator", op.toJson), ("left", l.toJson), ("right", r.toJson)] (by simp)
        (by simp)
      have hl : ofJsonWithin? bound l.toJson = some l :=
        ihl (fun x hx => h x (List.mem_append_left _ hx)) (by omega)
      have hr : ofJsonWithin? bound r.toJson = some r :=
        ihr (fun x hx => h x (List.mem_append_right _ hx)) (by omega)
      simp [toJson, ofJsonWithin?, Json.tagged?_ofTagged, hfields, Json.required?, List.lookup_cons,
        BinaryOperator.ofJson?_toJson, hl, hr]
  | belief l =>
      obtain ⟨bound, rfl, _⟩ := Json.exists_of_depth_ofTagged hbound
      simp [toJson, ofJsonWithin?, Json.tagged?_ofTagged, Literal.ofJson?_toJson h]

theorem ofJson?_toJson {e : Expression} (h : ∀ x ∈ e.numbers, x.isFinite = true) :
    ofJson? e.toJson = some e :=
  ofJsonWithin?_toJson h (Nat.le_refl _)

end Expression

namespace ActionCall

def numbers (c : ActionCall) : List Float :=
  c.arguments.flatMap Term.numbers ++ c.annotations.flatMap Literal.numbers

theorem ofJson?_toJson {c : ActionCall} (h : ∀ x ∈ c.numbers, x.isFinite = true) :
    ofJson? c.toJson = some c := by
  simp only [numbers, List.mem_append, List.mem_flatMap] at h
  have harguments := Json.list?_map Term.ofJson? Term.toJson
    fun t ht => Term.ofJson?_toJson fun x hx => h x (Or.inl ⟨t, ht, hx⟩)
  have hannotations := Json.list?_map Literal.ofJson? Literal.toJson
    fun l hl => Literal.ofJson?_toJson fun x hx => h x (Or.inr ⟨l, hl, hx⟩)
  have hfields := Json.known?_object
    ["name", "arguments", "returns", "parallel", "annotations"]
    [("name", .text c.name), ("arguments", .list (c.arguments.map Term.toJson)),
      ("returns", .ofTexts c.returns), ("parallel", .bool c.parallel),
      ("annotations", .list (c.annotations.map Literal.toJson))] (by simp) (by simp)
  simp [ofJson?, toJson, hfields, Json.required?, Json.optional?, List.lookup_cons, Json.text?,
    Json.bool?, Json.list?_ofTexts, harguments, hannotations]

end ActionCall

namespace Instruction

def numbers : Instruction → List Float
  | .addBelief l | .removeBelief l | .achieve l | .testGoal l => l.numbers
  | .updateBelief old new => old.numbers ++ new.numbers
  | .post t => t.numbers
  | .assign _ e | .test e => e.numbers
  | .unary _ _ => []
  | .action call => call.numbers

theorem ofJson?_toJson {i : Instruction} (h : ∀ x ∈ i.numbers, x.isFinite = true) :
    ofJson? i.toJson = some i := by
  cases i with
  | addBelief | removeBelief | achieve | testGoal =>
      simp [toJson, ofJson?, Json.tagged?_ofTagged, Literal.ofJson?_toJson h]
  | updateBelief old new =>
      have hfields := Json.known?_object ["old", "new"]
        [("old", old.toJson), ("new", new.toJson)] (by simp) (by simp)
      have hold := Literal.ofJson?_toJson fun x hx => h x (List.mem_append_left _ hx)
      have hnew := Literal.ofJson?_toJson fun x hx => h x (List.mem_append_right _ hx)
      simp [toJson, ofJson?, Json.tagged?_ofTagged, hfields, Json.required?,
        List.lookup_cons, hold, hnew]
  | post t => simp [toJson, ofJson?, Json.tagged?_ofTagged, Trigger.ofJson?_toJson h]
  | assign x e =>
      have hfields := Json.known?_object ["variable", "expression"]
        [("variable", .text x), ("expression", e.toJson)] (by simp) (by simp)
      simp [toJson, ofJson?, Json.tagged?_ofTagged, hfields, Json.required?,
        List.lookup_cons, Json.text?, Expression.ofJson?_toJson h]
  | unary x op =>
      have hfields := Json.known?_object ["variable", "operator"]
        [("variable", .text x), ("operator", op.toJson)] (by simp) (by simp)
      simp [toJson, ofJson?, Json.tagged?_ofTagged, hfields, Json.required?,
        List.lookup_cons, Json.text?, Increment.ofJson?_toJson]
  | test e => simp [toJson, ofJson?, Json.tagged?_ofTagged, Expression.ofJson?_toJson h]
  | action call => simp [toJson, ofJson?, Json.tagged?_ofTagged, ActionCall.ofJson?_toJson h]

end Instruction

namespace Plan

/-- The numbers in a plan. -/
def numbers (p : Plan) : List Float :=
  p.trigger.numbers ++ p.guard.toList.flatMap Expression.numbers ++
    p.body.flatMap Instruction.numbers

theorem ofJson?_toJson {p : Plan} (h : ∀ x ∈ p.numbers, x.isFinite = true) :
    ofJson? p.toJson = some p := by
  obtain ⟨trigger, guard, body, atomic⟩ := p
  simp only [numbers, List.mem_append, List.mem_flatMap] at h
  have htrigger := Trigger.ofJson?_toJson fun x hx => h x (Or.inl (Or.inl hx))
  have hbody := Json.list?_map Instruction.ofJson? Instruction.toJson
    fun i hi => Instruction.ofJson?_toJson fun x hx => h x (Or.inr ⟨i, hi, hx⟩)
  cases guard with
  | none =>
      have hfields := Json.known?_object ["trigger", "guard", "body", "atomic"]
        [("trigger", trigger.toJson), ("body", .list (body.map Instruction.toJson)),
          ("atomic", .bool atomic)] (by simp) (by simp)
      simp [toJson, ofJson?, Json.optionalField, hfields, Json.required?, Json.optional?,
        List.lookup_cons, htrigger, hbody, Json.bool?]
  | some e =>
      have hguard := Expression.ofJson?_toJson fun x hx => h x (Or.inl (Or.inr ⟨e, by simp, hx⟩))
      have hoption := Json.option?_of_ne_null Expression.ofJson? e.toJson_ne_null
      have hfields := Json.known?_object ["trigger", "guard", "body", "atomic"]
        [("trigger", trigger.toJson), ("guard", e.toJson),
          ("body", .list (body.map Instruction.toJson)), ("atomic", .bool atomic)] (by simp)
        (by simp)
      simp [toJson, ofJson?, Json.optionalField, hfields, Json.required?, Json.optional?,
        List.lookup_cons, htrigger, hguard, hoption, hbody, Json.bool?]

end Plan

/-! ### Bundles -/

/-- No part of a written term or literal is unreadable. -/
theorem isReadable_toJson :
    (∀ t : Term, t.toJson.isReadable = true) ∧ ∀ l : Literal, l.toJson.isReadable = true := by
  apply Term.induction
  case number =>
    intro x
    by_cases hx : x.isFinite = true
    all_goals simp [Term.toJson, Json.ofTagged, Json.ofFloat, Json.isReadable, hx]
  case sequence =>
    intro xs ih
    simpa [Term.toJson, Json.ofTagged, Json.isReadable] using ih
  case literal =>
    intro l ih
    simpa [Term.toJson, Json.ofTagged, Json.isReadable] using ih
  case bound =>
    intro x v ih
    simpa [Term.toJson, Json.ofTagged, Json.isReadable] using ih
  case mk =>
    intro f n xs notes ihargs ihnotes
    cases notes with
    | nil => simpa [Literal.toJson, Path.toJson, Json.ofTexts, Json.isReadable] using ihargs
    | cons l rest =>
        simpa [Literal.toJson, Path.toJson, Json.ofTexts, Json.isReadable] using
          And.intro ihargs (List.forall_mem_cons.1 ihnotes)
  all_goals simp [Term.toJson, Json.ofTagged, Json.isReadable]

theorem Trigger.isReadable_toJson (t : Trigger) : t.toJson.isReadable = true := by
  simp [toJson, TriggerKind.toJson, Json.isReadable, Deliberation.isReadable_toJson.2]

theorem Expression.isReadable_toJson (e : Expression) : e.toJson.isReadable = true := by
  induction e with
  | term t => simp [toJson, Json.ofTagged, Json.isReadable, Deliberation.isReadable_toJson.1]
  | unary op e ih => simp [toJson, Json.ofTagged, Json.isReadable, UnaryOperator.toJson, ih]
  | binary op l r ihl ihr =>
      simp [toJson, Json.ofTagged, Json.isReadable, BinaryOperator.toJson, ihl, ihr]
  | belief l => simp [toJson, Json.ofTagged, Json.isReadable, Deliberation.isReadable_toJson.2]

theorem Instruction.isReadable_toJson (i : Instruction) : i.toJson.isReadable = true := by
  cases i <;>
    simp [toJson, Json.ofTagged, Json.isReadable, ActionCall.toJson, Increment.toJson, Json.ofTexts,
      Deliberation.isReadable_toJson, Trigger.isReadable_toJson, Expression.isReadable_toJson]

theorem Plan.isReadable_toJson (p : Plan) : p.toJson.isReadable = true := by
  cases hguard : p.guard <;>
    simp [toJson, hguard, Json.optionalField, Json.isReadable, Trigger.isReadable_toJson,
      Expression.isReadable_toJson, Instruction.isReadable_toJson]

/-- The numbers in the document of a term or a literal are the documents of its numbers. -/
theorem numbers_toJson :
    (∀ t : Term, t.toJson.numbers = t.numbers.flatMap fun x => (Json.ofFloat x).numbers) ∧
      ∀ l : Literal, l.toJson.numbers = l.numbers.flatMap fun x => (Json.ofFloat x).numbers := by
  apply Term.induction
  case sequence =>
    intro xs ih
    simp [Term.toJson, Json.ofTagged, Json.numbers, Term.numbers, List.flatMap_map,
      List.flatMap_assoc, List.flatMap_congr ih]
  case literal =>
    intro l ih
    simpa [Term.toJson, Json.ofTagged, Json.numbers, Term.numbers] using ih
  case bound =>
    intro x v ih
    simpa [Term.toJson, Json.ofTagged, Json.numbers, Term.numbers] using ih
  case mk =>
    intro f n xs notes ihargs ihnotes
    have hpath : f.toJson.numbers = [] := by
      simp [Path.toJson, Json.ofTexts, Json.numbers, List.flatMap_map]
    cases notes with
    | nil =>
        simp [Literal.toJson, Json.numbers, Literal.numbers, hpath, List.flatMap_map,
          List.flatMap_assoc, List.flatMap_congr ihargs]
    | cons l rest =>
        obtain ⟨hl, hrest⟩ := List.forall_mem_cons.1 ihnotes
        simp [Literal.toJson, Json.numbers, Literal.numbers, hpath, List.flatMap_map,
          List.flatMap_assoc, List.flatMap_congr ihargs, hl, List.flatMap_congr hrest]
  all_goals simp [Term.toJson, Json.ofTagged, Json.numbers, Term.numbers]

theorem Trigger.numbers_toJson (t : Trigger) :
    t.toJson.numbers = t.numbers.flatMap fun x => (Json.ofFloat x).numbers := by
  simp [toJson, TriggerKind.toJson, Json.numbers, numbers, Deliberation.numbers_toJson.2]

theorem Expression.numbers_toJson (e : Expression) :
    e.toJson.numbers = e.numbers.flatMap fun x => (Json.ofFloat x).numbers := by
  induction e with
  | term t => simp [toJson, Json.ofTagged, Json.numbers, numbers, Deliberation.numbers_toJson.1]
  | unary op e ih =>
      simp [toJson, Json.ofTagged, Json.numbers, numbers, UnaryOperator.toJson, ih]
  | binary op l r ihl ihr =>
      simp [toJson, Json.ofTagged, Json.numbers, numbers, BinaryOperator.toJson, ihl, ihr]
  | belief l => simp [toJson, Json.ofTagged, Json.numbers, numbers, Deliberation.numbers_toJson.2]

theorem Instruction.numbers_toJson (i : Instruction) :
    i.toJson.numbers = i.numbers.flatMap fun x => (Json.ofFloat x).numbers := by
  cases i <;>
    simp [toJson, Json.ofTagged, Json.numbers, numbers, ActionCall.toJson, ActionCall.numbers,
      Increment.toJson, Json.ofTexts, List.flatMap_map, List.flatMap_assoc,
      Deliberation.numbers_toJson, Trigger.numbers_toJson, Expression.numbers_toJson]

theorem Plan.numbers_toJson (p : Plan) :
    p.toJson.numbers = p.numbers.flatMap fun x => (Json.ofFloat x).numbers := by
  cases hguard : p.guard <;>
    simp [toJson, numbers, hguard, Json.optionalField, Json.numbers, List.flatMap_map,
      List.flatMap_assoc, Trigger.numbers_toJson, Expression.numbers_toJson,
      Instruction.numbers_toJson]

namespace PlanLibrary

/-- A number in the document of some plans is one of theirs. -/
theorem exists_of_mem_numbers {plans : List Plan} {n : Json}
    (h : n ∈ (Json.list (plans.map Plan.toJson)).numbers) :
    ∃ p ∈ plans, ∃ x ∈ p.numbers, n = .decimal x := by
  simp only [Json.numbers, Json.numbersOfList_eq, List.flatMap_map, List.mem_flatMap,
    Plan.numbers_toJson] at h
  obtain ⟨p, hp, x, hx, hn⟩ := h
  refine ⟨p, hp, x, hx, ?_⟩
  unfold Json.ofFloat at hn
  split at hn
  · simpa [Json.numbers] using hn
  · simp [Json.numbers] at hn

/-- Plans are read back from their documents, and from the text of a bundle if it is not nested too
deep and each of their numbers reads back alone. In the library each plan has the place that it had
in the bundle. -/
theorem plans_read_back {plans : List Plan}
    (hfinite : ∀ p ∈ plans, ∀ x ∈ p.numbers, x.isFinite = true) :
    (∀ p ∈ plans, Plan.ofJson? p.toJson = some p) ∧
      ((Json.list (plans.map Plan.toJson)).depth ≤ Json.deepestNesting →
        (∀ p ∈ plans, ∀ x ∈ p.numbers,
          Json.parse (Json.print (.decimal x)) = some (.decimal x)) →
        ofBundle (Json.print (.list (plans.map Plan.toJson))) = .ok (ofPlans plans)) ∧
      (ofPlans plans).plans = plans ∧ ∀ i, (ofPlans plans).find? ⟨i⟩ = plans[i]? := by
  have hplans (p : Plan) (hp : p ∈ plans) : Plan.ofJson? p.toJson = some p :=
    Plan.ofJson?_toJson (hfinite p hp)
  refine ⟨hplans, fun hdepth hnumbers => ?_, plans_ofPlans plans, fun i => ?_⟩
  · have hreadable : (Json.list (plans.map Plan.toJson)).isReadable = true := by
      simp [Json.isReadable, Plan.isReadable_toJson]
    have hdocument : Json.parse (Json.print (.list (plans.map Plan.toJson))) =
        some (.list (plans.map Plan.toJson)) := by
      refine Json.parse_print hreadable hdepth fun n hn => ?_
      obtain ⟨p, hp, x, hx, rfl⟩ := exists_of_mem_numbers hn
      exact hnumbers p hp x hx
    have hlist := Json.list?_map Plan.ofJson? Plan.toJson hplans
    rw [ofBundle, hdocument, Option.bind_some, ofJson?, hlist]
    rfl
  · rw [find?, plans_ofPlans]

/-- A plan with a number, a variable that carries itself, annotations and a guard. -/
def dimmer : Plan where
  trigger := ⟨.addGoal,
    (Literal.of "home/dim" [.bound "X" (.variable "X")]).annotate (.atom "soft")⟩
  guard := some (.unary .not (.belief (.of "level" [.variable "_", .text "\"off\""])))
  body :=
    [.assign "Level" (.binary .multiply (.term (.variable "X")) (.term (.number 0.5))),
      .updateBelief (.of "level" [.variable "_"]) (.of "level" [.variable "Level"]),
      .action ⟨"set", [.sequence [.variable "Level", .atom "now"]], ["Done"], true,
        [.atom "quick"]⟩]
  atomic := true

theorem plans_read_back_dimmer :
    Plan.ofJson? dimmer.toJson = some dimmer ∧
      ofBundle (Json.print (.list ([dimmer].map Plan.toJson))) = .ok (ofPlans [dimmer]) ∧
      (ofPlans [dimmer]).find? ⟨0⟩ = some dimmer := by
  have hnumbers : dimmer.numbers = [0.5] := rfl
  have htext : Json.print (.decimal 0.5) = "0.5" := by decide +kernel
  have hquotient : Json.Numeral.divide (Nat.toFloat 5) 1 = 0.5 := by
    rw [Json.Numeral.divide, if_pos (by decide)]
    have hmodel : (Nat.toFloat 5 / Json.Numeral.power 1).toModel = (0.5 : Float).toModel := by
      decide +kernel
    exact congrArg Float.ofModel hmodel
  have hhalf : Json.parse "0.5" = some (.decimal 0.5) := by
    have hread : Json.parse "0.5" = some (.decimal (Json.Numeral.divide (Nat.toFloat 5) 1)) := rfl
    rw [hread, hquotient]
  have hfinite : ∀ p ∈ [dimmer], ∀ x ∈ p.numbers, x.isFinite = true := by decide +kernel
  obtain ⟨hplans, hbundle, _, hfind⟩ := plans_read_back hfinite
  refine ⟨hplans dimmer (by simp), hbundle (by decide +kernel) fun p hp x hx => ?_, hfind 0⟩
  obtain rfl := List.mem_singleton.1 hp
  rw [hnumbers] at hx
  obtain rfl := List.mem_singleton.1 hx
  rw [htext, hhalf]

end PlanLibrary
end Deliberation
