import Deliberation.Proofs.Belief.Ground

/-!
What a removal takes out.

A literal speaks of one belief: the first that is identical to it or, if there is none and it has no
annotations, the first that equals it. Removing takes out that belief and leaves all others in their
order. No belief is identical to a later one, so each belief speaks of itself, also where several
differ in their annotations only; and removing what has just been added brings back what was held
before.
-/

namespace Deliberation

/-! ### The first of its kind -/

/-- An element is the first one of a list with some property; `front` stands before it, `back` after
it. -/
structure FirstOf {α : Type} (p : α → Prop) (list front : List α) (x : α)
    (back : List α) : Prop where
  split : list = front ++ x :: back
  holds : p x
  before : ∀ y ∈ front, ¬ p y

namespace FirstOf

variable {α : Type} {p : α → Prop} {list front front' back back' : List α} {x x' : α}

theorem mem (h : FirstOf p list front x back) : x ∈ list := by
  simp [h.split]

/-- A list has a first element with a property, or none at all. -/
theorem exists_or_none (p : α → Prop) (list : List α) :
    (∃ front x back, FirstOf p list front x back) ∨ ∀ x ∈ list, ¬ p x := by
  induction list with
  | nil => exact Or.inr (by simp)
  | cons y rest ih =>
      by_cases hy : p y
      · exact Or.inl ⟨[], y, rest, rfl, hy, by simp⟩
      · rcases ih with ⟨front, x, back, hsplit, hx, hbefore⟩ | hnone
        · refine Or.inl ⟨y :: front, x, back, by simp [hsplit], hx, ?_⟩
          exact List.forall_mem_cons.2 ⟨hy, hbefore⟩
        · exact Or.inr (List.forall_mem_cons.2 ⟨hy, hnone⟩)

theorem unique (h : FirstOf p list front x back) (h' : FirstOf p list front' x' back') :
    front = front' ∧ x = x' ∧ back = back' := by
  induction front generalizing list front' with
  | nil =>
      cases front' with
      | nil => simpa using h.split.symm.trans h'.split
      | cons y rest =>
          obtain ⟨rfl, _⟩ : x = y ∧ _ := by simpa using h.split.symm.trans h'.split
          exact absurd h.holds (h'.before x List.mem_cons_self)
  | cons y front ih =>
      cases front' with
      | nil =>
          obtain ⟨rfl, _⟩ : y = x' ∧ _ := by simpa using h.split.symm.trans h'.split
          exact absurd h'.holds (h.before y List.mem_cons_self)
      | cons z rest =>
          obtain ⟨rfl, hsplit⟩ : y = z ∧ front ++ x :: back = rest ++ x' :: back' := by
            simpa using h.split.symm.trans h'.split
          have htail : FirstOf p (front ++ x :: back) front x back :=
            ⟨rfl, h.holds, (List.forall_mem_cons.1 h.before).2⟩
          have htail' : FirstOf p (front ++ x :: back) rest x' back' :=
            ⟨hsplit, h'.holds, (List.forall_mem_cons.1 h'.before).2⟩
          obtain ⟨rfl, hx, hback⟩ := ih htail htail'
          exact ⟨rfl, hx, hback⟩

/-- It stays the first one where nothing of the kind is put before the list. -/
theorem widen (h : FirstOf p list front x back) {before : List α} (hbefore : ∀ y ∈ before, ¬ p y)
    (after : List α) : FirstOf p (before ++ list ++ after) (before ++ front) x (back ++ after) where
  split := by simp [h.split]
  holds := h.holds
  before := List.forall_mem_append.2 ⟨hbefore, h.before⟩

theorem findIdx?_eq {p : α → Bool} (h : FirstOf (p · = true) list front x back) :
    list.findIdx? p = some front.length := by
  have hnone : front.findIdx? p = none :=
    List.findIdx?_eq_none_iff.2 fun y hy => by simpa using h.before y hy
  have hx : p x = true := h.holds
  rw [h.split, List.findIdx?_append, hnone, List.findIdx?_cons]
  simp [hx]

end FirstOf

/-! ### What a literal speaks of -/

namespace Literal

variable {l m x : Literal} {beliefs front back : List Literal}

/-- The belief that a literal speaks of, and the beliefs around it. -/
inductive SpeaksOf (l : Literal) (beliefs front : List Literal) (x : Literal)
    (back : List Literal) : Prop
  | identical :
      FirstOf (·.identical l = true) beliefs front x back → SpeaksOf l beliefs front x back
  | equal : (∀ m ∈ beliefs, m.identical l = false) → l.annotations = [] →
      FirstOf (fun m => (m == l) = true) beliefs front x back → SpeaksOf l beliefs front x back

/-- A literal speaks of nothing among some beliefs. -/
structure SpeaksOfNone (l : Literal) (beliefs : List Literal) : Prop where
  identical : ∀ m ∈ beliefs, m.identical l = false
  equal : l.annotations = [] → ∀ m ∈ beliefs, (m == l) = false

theorem beq_of_identical (h : m.identical l = true) : (m == l) = true :=
  (identical_iff.1 h).1

theorem functor_eq_of_beq (h : (m == l) = true) : m.functor = l.functor :=
  ((beq_iff m l).1 h).1

theorem identical_eq_false (h : (m == l) = false) : m.identical l = false := by
  by_contra hidentical
  have hbeq := beq_of_identical (by simpa using hidentical)
  simp [h] at hbeq

/-- Beliefs that do not equal a literal are not identical to it either. -/
theorem identical_widen {before after : List Literal} (h : ∀ m ∈ beliefs, m.identical l = false)
    (hbefore : ∀ m ∈ before, (m == l) = false) (hafter : ∀ m ∈ after, (m == l) = false) :
    ∀ m ∈ before ++ beliefs ++ after, m.identical l = false := by
  simp only [List.forall_mem_append]
  exact ⟨⟨fun m hm => identical_eq_false (hbefore m hm), h⟩,
    fun m hm => identical_eq_false (hafter m hm)⟩

theorem speaksOf_or_none (l : Literal) (beliefs : List Literal) :
    (∃ front x back, l.SpeaksOf beliefs front x back) ∨ l.SpeaksOfNone beliefs := by
  rcases FirstOf.exists_or_none (·.identical l = true) beliefs with ⟨front, x, back, h⟩ | hnone
  · exact Or.inl ⟨front, x, back, .identical h⟩
  · replace hnone : ∀ m ∈ beliefs, m.identical l = false := fun m hm => by simpa using hnone m hm
    by_cases hnotes : l.annotations = []
    · rcases FirstOf.exists_or_none (fun m => (m == l) = true) beliefs with
        ⟨front, x, back, h⟩ | hequal
      · exact Or.inl ⟨front, x, back, .equal hnone hnotes h⟩
      · exact Or.inr ⟨hnone, fun _ m hm => by simpa using hequal m hm⟩
    · exact Or.inr ⟨hnone, fun h => absurd h hnotes⟩

namespace SpeaksOf

theorem split (h : l.SpeaksOf beliefs front x back) : beliefs = front ++ x :: back := by
  cases h with
  | identical h => exact h.split
  | equal _ _ h => exact h.split

theorem beq (h : l.SpeaksOf beliefs front x back) : (x == l) = true := by
  cases h with
  | identical h => exact beq_of_identical h.holds
  | equal _ _ h => exact h.holds

/-- Only a literal without annotations speaks of a belief that is not identical to it. -/
theorem identical_or_nil (h : l.SpeaksOf beliefs front x back) :
    x.identical l = true ∨ l.annotations = [] := by
  cases h with
  | identical h => exact Or.inl h.holds
  | equal _ hnotes _ => exact Or.inr hnotes

/-- Beliefs that do not equal a literal make no difference to what it speaks of. -/
theorem widen (h : l.SpeaksOf beliefs front x back) {before after : List Literal}
    (hbefore : ∀ m ∈ before, (m == l) = false) (hafter : ∀ m ∈ after, (m == l) = false) :
    l.SpeaksOf (before ++ beliefs ++ after) (before ++ front) x (back ++ after) := by
  cases h with
  | identical h =>
      exact .identical (h.widen (fun m hm => by simp [identical_eq_false (hbefore m hm)]) after)
  | equal hnone hnotes h =>
      refine .equal (identical_widen hnone hbefore hafter) hnotes (h.widen (fun m hm => ?_) after)
      simp [hbefore m hm]

end SpeaksOf

theorem SpeaksOfNone.widen (h : l.SpeaksOfNone beliefs) {before after : List Literal}
    (hbefore : ∀ m ∈ before, (m == l) = false) (hafter : ∀ m ∈ after, (m == l) = false) :
    l.SpeaksOfNone (before ++ beliefs ++ after) where
  identical := identical_widen h.identical hbefore hafter
  equal hnotes := by
    simp only [List.forall_mem_append]
    exact ⟨⟨hbefore, h.equal hnotes⟩, hafter⟩

end Literal

namespace BeliefBase

variable {b b' b₁ : BeliefBase} {l m x : Literal} {before after front back : List Literal}

/-! ### Taking a belief out of its bucket -/

theorem position?_of_speaksOf (h : l.SpeaksOf (b.bucket l.functor) before x after) :
    position? (b.bucket l.functor) l = some before.length := by
  cases h with
  | identical h => rw [position?, h.findIdx?_eq]
  | equal hnone hnotes h =>
      have hfirst : (b.bucket l.functor).findIdx? (·.identical l) = none :=
        List.findIdx?_eq_none_iff.2 hnone
      rw [position?, hfirst]
      simp [hnotes, h.findIdx?_eq]

theorem take?_of_speaksOf (h : l.SpeaksOf (b.bucket l.functor) before x after) :
    b.take? l = some (x, { b with
      buckets := b.buckets.putList l.functor (before ++ after)
      size := b.size - 1 }) := by
  have hfound : (b.bucket l.functor)[before.length]? = some x := by simp [h.split]
  have hrest : (b.bucket l.functor).eraseIdx before.length = before ++ after := by
    rw [h.split, List.eraseIdx_append_of_length_le (Nat.le_refl _)]
    simp
  simp only [take?, position?_of_speaksOf h, hfound, hrest]
  rfl

theorem take?_of_speaksOfNone (h : l.SpeaksOfNone (b.bucket l.functor)) : b.take? l = none := by
  have hidentical : (b.bucket l.functor).findIdx? (·.identical l) = none :=
    List.findIdx?_eq_none_iff.2 h.identical
  have hposition : position? (b.bucket l.functor) l = none := by
    rw [position?, hidentical]
    by_cases hnotes : l.annotations = []
    · simpa [hnotes] using h.equal hnotes
    · simp [hnotes]
  simp only [take?, hposition]

/-! ### Among all beliefs -/

namespace WellFormed

/-- The beliefs with a functor stand together, behind those with smaller ones and in front of those
with larger ones. -/
theorem exists_place (hb : b.WellFormed) (functor : Path) :
    ∃ front back, (∀ m ∈ front, m.functor < functor) ∧ (∀ m ∈ back, functor < m.functor) ∧
      b.toList = front ++ b.bucket functor ++ back ∧
      ∀ ls, (b.buckets.putList functor ls).entries.flatMap (·.2) = front ++ ls ++ back := by
  obtain ⟨before, after, hbefore, hafter, hold, hput⟩ := b.buckets.exists_flatMap_place functor
  refine ⟨_, _, fun m hm => ?_, fun m hm => ?_, hold, hput⟩
  · obtain ⟨e, he, hm⟩ := List.mem_flatMap.1 hm
    rw [(hb.filed e (hbefore e he).1 m hm).1]
    exact (hbefore e he).2
  · obtain ⟨e, he, hm⟩ := List.mem_flatMap.1 hm
    rw [(hb.filed e (hafter e he).1 m hm).1]
    exact (hafter e he).2

/-- What a literal speaks of is taken out, and all other beliefs keep their order. -/
theorem take?_cases (hb : b.WellFormed) (l : Literal) :
    (∃ front x back b', l.SpeaksOf b.toList front x back ∧ b.take? l = some (x, b') ∧
      b'.toList = front ++ back) ∨
    l.SpeaksOfNone b.toList ∧ b.take? l = none := by
  obtain ⟨front, back, hfront, hback, hold, hput⟩ := hb.exists_place l.functor
  have hapart {m : Literal} (hm : m.functor ≠ l.functor) : (m == l) = false := by
    by_contra hbeq
    exact hm (Literal.functor_eq_of_beq (by simpa using hbeq))
  have hbefore : ∀ m ∈ front, (m == l) = false := fun m hm =>
    hapart (KeyOrder.ne_of_lt (hfront m hm))
  have hafter : ∀ m ∈ back, (m == l) = false := fun m hm =>
    hapart (KeyOrder.ne_of_lt (hback m hm)).symm
  rcases l.speaksOf_or_none (b.bucket l.functor) with ⟨before, x, after, h⟩ | hnone
  · refine Or.inl ⟨front ++ before, x, after ++ back, _, ?_, take?_of_speaksOf h, ?_⟩
    · exact hold ▸ h.widen hbefore hafter
    · rw [toList, hput]
      simp
  · exact Or.inr ⟨hold ▸ hnone.widen hbefore hafter, take?_of_speaksOfNone hnone⟩

/-- No belief is identical to a later one, whatever their functors are. -/
theorem pairwise_identical (hb : b.WellFormed) :
    b.toList.Pairwise fun l m => l.identical m = false := by
  refine hb.pairwise_toList hb.pairwise_bucket fun l m hfunctor => ?_
  by_contra hidentical
  exact hfunctor (Literal.functor_eq_of_beq (Literal.beq_of_identical (by simpa using hidentical)))

/-- A belief speaks of itself. -/
theorem firstOf_self (hb : b.WellFormed) (h : b.toList = front ++ x :: back) :
    FirstOf (·.identical x = true) b.toList front x back where
  split := h
  holds := x.identical_refl
  before m hm := by
    have hapart := (List.pairwise_append.1 (h ▸ hb.pairwise_identical)).2.2
    simp [hapart m hm x List.mem_cons_self]

/-- A belief that is looked for by itself is the one that is taken out. -/
theorem take?_self (hb : b.WellFormed) (h : b.toList = front ++ x :: back) :
    ∃ b', b.take? x = some (x, b') ∧ b'.toList = front ++ back := by
  have hself := hb.firstOf_self h
  rcases hb.take?_cases x with ⟨front', y, back', b', hspeaks, htake, hrest⟩ | ⟨hnone, _⟩
  · cases hspeaks with
    | identical hfirst =>
        obtain ⟨rfl, rfl, rfl⟩ := hself.unique hfirst
        exact ⟨b', htake, hrest⟩
    | equal hnone _ _ => exact absurd hself.holds (by simp [hnone x hself.mem])
  · exact absurd hself.holds (by simp [hnone.identical x hself.mem])

/-- What stands at the end of a bucket that had nothing identical is taken out again, and the bucket
with it if nothing else is there. -/
theorem take?_of_append (hb : b.WellFormed)
    (hnone : ∀ m ∈ b.bucket l.functor, m.identical l = false)
    (hbuckets : b₁.buckets = b.buckets.putList l.functor (b.bucket l.functor ++ [l]))
    (hsize : b₁.size = b.size + 1) :
    ∃ b₂, b₁.take? l = some (l, b₂) ∧ b₂.buckets = b.buckets ∧ b₂.size = b.size := by
  have hbucket : b₁.bucket l.functor = b.bucket l.functor ++ [l] := by
    have hput := b.buckets.listAt_putList l.functor (b.bucket l.functor ++ [l]) l.functor
    rw [← hbuckets, if_pos rfl] at hput
    exact hput
  have hfirst : FirstOf (·.identical l = true) (b₁.bucket l.functor) (b.bucket l.functor) l [] :=
    ⟨hbucket, l.identical_refl, fun m hm => by simp [hnone m hm]⟩
  refine ⟨_, take?_of_speaksOf (.identical hfirst), ?_, ?_⟩
  · -- no bucket is empty, so one that would be left empty was not there
    have hfind : b.buckets.find? l.functor =
        if (b.bucket l.functor).isEmpty then none else some (b.bucket l.functor) := by
      cases hls : b.buckets.find? l.functor with
      | none => simp [bucket, hls]
      | some ls =>
          have hfilled := hb.filled (l.functor, ls) (mem_entries_iff.2 hls)
          simpa [bucket, hls] using hfilled
    simp only [hbuckets, List.append_nil]
    exact SortedMap.putList_putList hfind _
  · simp [hsize]

end WellFormed

/-! ### Removing -/

theorem WellFormed.remove_cases (hb : b.WellFormed) (l : Literal) :
    (∃ front x back, l.SpeaksOf b.toList front x back ∧ (b.remove l).1 = true ∧
      (b.remove l).2.toList = front ++ back) ∨
    l.SpeaksOfNone b.toList ∧ b.remove l = (false, b) := by
  rcases hb.take?_cases l with ⟨front, x, back, b', hspeaks, htake, hrest⟩ | ⟨hnone, htake⟩
  · refine Or.inl ⟨front, x, back, hspeaks, ?_, ?_⟩
    · simp only [remove, htake]
    · simp only [remove, htake]
      exact hrest
  · exact Or.inr ⟨hnone, by simp only [remove, htake]⟩

theorem insert?_of_add (h : b.add l = .ok (true, b₁)) :
    ∃ b', b.insert? l = some b' ∧ b₁ = b'.emit .add l none := by
  cases hvalid : validate l with
  | error e => simp [add, hvalid, bind, Except.bind] at h
  | ok u =>
      cases hinsert : b.insert? l with
      | none => simp [add, hvalid, hinsert, bind, Except.bind, pure, Except.pure] at h
      | some b' =>
          have heq : b'.emit .add l none = b₁ := by
            simpa [add, hvalid, hinsert, bind, Except.bind, pure, Except.pure] using h
          exact ⟨b', rfl, heq.symm⟩

/-- A removal undoes the addition right before it. -/
theorem WellFormed.remove_of_add (hb : b.WellFormed) (h : b.add l = .ok (true, b₁)) :
    (b₁.remove l).1 = true ∧ (b₁.remove l).2.buckets = b.buckets ∧
      (b₁.remove l).2.size = b.size := by
  obtain ⟨b', hinsert, rfl⟩ := insert?_of_add h
  obtain ⟨hnone, hb'⟩ := insert?_eq_some_iff.1 hinsert
  have hbuckets : (b'.emit .add l none).buckets =
      b.buckets.putList l.functor (b.bucket l.functor ++ [l]) := congrArg buckets hb'
  have hsize : (b'.emit .add l none).size = b.size + 1 := congrArg size hb'
  obtain ⟨b₂, htake, hkept, hcount⟩ := hb.take?_of_append hnone hbuckets hsize
  simp only [remove, htake]
  exact ⟨trivial, hkept, hcount⟩

theorem Reached.wellFormed (hb : b.Reached) : b.WellFormed :=
  hb.wellFormed_eventsGround.1

/-- Removing tells whether there is an identical belief or, for a literal without annotations, an
equal one. If so, it takes out the first identical one, or else the first equal one, and all other
beliefs keep their order. If not, it changes nothing. A literal with annotations never takes out a
belief that is not identical to it. What was new when it was added is what is removed right after,
and then the buckets are those from before. -/
theorem removal_exact (hb : b.Reached) (l : Literal) :
    ((b.remove l).1 = true ↔
      (∃ x ∈ b.toList, x.identical l = true) ∨
        l.annotations = [] ∧ ∃ x ∈ b.toList, (x == l) = true) ∧
    ((b.remove l).1 = true →
      ∃ front x back, l.SpeaksOf b.toList front x back ∧ (b.remove l).2.toList = front ++ back) ∧
    ((b.remove l).1 = false → (b.remove l).2 = b) ∧
    (l.annotations ≠ [] → ∀ x ∈ b.toList, x.identical l = false → x ∈ (b.remove l).2.toList) ∧
    ∀ b₁, b.add l = .ok (true, b₁) →
      (b₁.remove l).1 = true ∧ (b₁.remove l).2.buckets = b.buckets ∧
        (b₁.remove l).2.size = b.size := by
  refine ⟨?_, fun hremoved => ?_, fun hkept => ?_, fun hnotes x hx hidentical => ?_,
    fun b₁ hadd => ?_⟩
  · rcases hb.wellFormed.remove_cases l with ⟨front, x, back, hspeaks, hremoved, _⟩ | ⟨hnone, hkept⟩
    · refine iff_of_true hremoved ?_
      have hx : x ∈ b.toList := by simp [hspeaks.split]
      exact hspeaks.identical_or_nil.imp (fun h => ⟨x, hx, h⟩) fun h => ⟨h, x, hx, hspeaks.beq⟩
    · refine iff_of_false (by simp [hkept]) ?_
      rintro (⟨x, hx, hidentical⟩ | ⟨hnotes, x, hx, hequal⟩)
      · simp [hnone.identical x hx] at hidentical
      · simp [hnone.equal hnotes x hx] at hequal
  · rcases hb.wellFormed.remove_cases l with ⟨front, x, back, hspeaks, _, hrest⟩ | ⟨_, hkept⟩
    · exact ⟨front, x, back, hspeaks, hrest⟩
    · simp [hkept] at hremoved
  · rcases hb.wellFormed.remove_cases l with ⟨front, x, back, _, hremoved, _⟩ | ⟨_, heq⟩
    · simp [hkept] at hremoved
    · rw [heq]
  · rcases hb.wellFormed.remove_cases l with ⟨front, y, back, hspeaks, _, hrest⟩ | ⟨_, heq⟩
    · have hy := hspeaks.identical_or_nil.resolve_right hnotes
      have hne : x ≠ y := fun heq => by simp [heq, hy] at hidentical
      rw [hspeaks.split, List.mem_append, List.mem_cons] at hx
      rw [hrest, List.mem_append]
      exact hx.imp_right fun h => h.resolve_left hne
    · rwa [heq]
  · exact hb.wellFormed.remove_of_add hadd

/-- Two beliefs that differ in their source only. The literal without a source removes the first of
them, unless it is a belief itself: after it was added, removing it leaves both. The literal with
the second source does not touch the first. -/
theorem removal_exact_sources :
    let source (name : String) := Literal.of "source" [.atom name]
    let plain := Literal.of "wet" [.atom "road"]
    let seen := plain.annotate (source "percept")
    let told := plain.annotate (source "neighbour")
    let b := (BeliefHistory.after [.call (.add seen), .call (.add told)]).base
    b.Reached ∧ b.toList.map Literal.render =
        ["wet(road)[source(percept)]", "wet(road)[source(neighbour)]"] ∧
      (b.remove plain).1 = true ∧ (∃ front x back, plain.SpeaksOf b.toList front x back) ∧
      (b.remove plain).2.toList.map Literal.render = ["wet(road)[source(neighbour)]"] ∧
      (told.annotations ≠ [] ∧ seen ∈ (b.remove told).2.toList) ∧
      ∃ b₁, b.add plain = .ok (true, b₁) ∧ (b₁.remove plain).1 = true ∧
        (b₁.remove plain).2.buckets = b.buckets := by
  intro source plain seen told b
  have hb : b.Reached := BeliefHistory.reached_after _
  obtain ⟨hiff, hspeaks, _, _, hundo⟩ := removal_exact hb plain
  obtain ⟨_, _, _, hkeeps, _⟩ := removal_exact hb told
  have hseen : seen ∈ b.toList := List.mem_of_getElem? (i := 0) rfl
  have hremoved : (b.remove plain).1 = true :=
    hiff.2 (Or.inr ⟨rfl, seen, hseen, by decide +kernel⟩)
  obtain ⟨front, x, back, hx, _⟩ := hspeaks hremoved
  obtain ⟨hundone, hbuckets, _⟩ := hundo _ rfl
  refine ⟨hb, by decide +kernel, hremoved, ⟨front, x, back, hx⟩, by decide +kernel, ?_, _, rfl,
    hundone, hbuckets⟩
  have hnotes : told.annotations ≠ [] := by decide +kernel
  exact ⟨hnotes, hkeeps hnotes seen hseen (by decide +kernel)⟩

end BeliefBase
end Deliberation
