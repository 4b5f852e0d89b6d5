import Deliberation.Belief.Base
import Deliberation.Proofs.Logic.Identity
import Deliberation.Proofs.SortedMap

/-!
Calls that change beliefs.

A call adds, removes or replaces a belief. `BeliefBase.Outcome` says what it can come to: nothing, a
literal that was stored, one that was taken out, or both, with the events that go with it. All that
calls keep is derived from that; first of all that a base is well formed: no bucket is empty, the
beliefs in it are ground and have its functor, none is identical to a later one, and the size is
their number.
-/

namespace Deliberation

/-- A call that changes beliefs. -/
inductive BeliefCall where
  | add (l : Literal)
  | remove (l : Literal)
  | update (old new : Literal)

/-- The literal that a call would store. -/
def BeliefCall.offered? : BeliefCall → Option Literal
  | .add l => some l
  | .remove _ => none
  | .update _ new => some new

namespace BeliefBase

variable {b b' : BeliefBase} {c : BeliefCall} {answer : Except ValidationError Bool}
  {l m found : Literal} {functor : Path}

/-- The answer of a call that may be refused, and the base after it. -/
def settle (b : BeliefBase) :
    Except ValidationError (Bool × BeliefBase) → Except ValidationError Bool × BeliefBase
  | .ok (answer, b') => (.ok answer, b')
  | .error e => (.error e, b)

/-- The answer of a call and the base after it. -/
def call (b : BeliefBase) : BeliefCall → Except ValidationError Bool × BeliefBase
  | .add l => b.settle (b.add l)
  | .remove l => (.ok (b.remove l).1, (b.remove l).2)
  | .update old new => b.settle (b.update old new)

/-! ### What a call comes to -/

theorem validate_eq_ok_iff :
    validate l = .ok () ↔ l.functor.isEmpty = false ∧ l.isGround = true := by
  rw [validate]
  split
  · simp_all
  · split <;> simp_all

/-- A literal is stored at the end of its bucket if nothing there is identical to it. -/
theorem insert?_eq_some_iff :
    b.insert? l = some b' ↔ (∀ m ∈ b.bucket l.functor, m.identical l = false) ∧
      b' = { b with
        buckets := b.buckets.putList l.functor (b.bucket l.functor ++ [l])
        size := b.size + 1 } := by
  have hput : b.buckets.putList l.functor (b.bucket l.functor ++ [l]) =
      b.buckets.insert l.functor (b.bucket l.functor ++ [l]) := by
    simp [SortedMap.putList]
  rw [insert?, hput]
  by_cases hheld : b.contains l = true
  · obtain ⟨m, hm, hidentical⟩ := List.any_eq_true.1 hheld
    simp only [hheld, ↓reduceIte, reduceCtorEq, false_iff, not_and]
    intro hnone
    simp [hnone m hm] at hidentical
  · have hnone : ∀ m ∈ b.bucket l.functor, m.identical l = false := by
      simpa [contains] using hheld
    simp only [hheld, Bool.false_eq_true, ↓reduceIte, Option.some.injEq]
    exact ⟨fun h => ⟨hnone, h.symm⟩, fun h => h.2.symm⟩

/-- What is taken out goes from its place in the bucket. -/
theorem take?_eq_some (h : b.take? l = some (found, b')) :
    ∃ before after, b.bucket l.functor = before ++ found :: after ∧
      b' = { b with
        buckets := b.buckets.putList l.functor (before ++ after)
        size := b.size - 1 } := by
  unfold take? at h
  simp only at h
  split at h
  · simp at h
  · split at h
    · simp at h
    · rename_i i hi _ held hheld
      obtain ⟨rfl, rfl⟩ := Prod.mk.injEq .. ▸ Option.some.inj h
      obtain ⟨hlt, hget⟩ := List.getElem?_eq_some_iff.1 hheld
      refine ⟨(b.bucket l.functor).take i, (b.bucket l.functor).drop (i + 1), ?_, ?_⟩
      · rw [← hget, List.getElem_cons_drop, List.take_append_drop]
      · rw [← List.eraseIdx_eq_take_drop_succ]
        rfl

theorem bucket_of_insert? (h : b.insert? l = some b') (functor : Path) :
    b'.bucket functor =
      if functor = l.functor then b.bucket l.functor ++ [l] else b.bucket functor := by
  obtain ⟨_, rfl⟩ := insert?_eq_some_iff.1 h
  exact b.buckets.listAt_putList ..

theorem bucket_of_take? (h : b.take? l = some (found, b')) :
    ∃ before after, b.bucket l.functor = before ++ found :: after ∧ ∀ functor,
      b'.bucket functor = if functor = l.functor then before ++ after else b.bucket functor := by
  obtain ⟨before, after, hbucket, rfl⟩ := take?_eq_some h
  exact ⟨before, after, hbucket, b.buckets.listAt_putList l.functor _⟩

/-- Neither storing nor taking out writes to the log. -/
theorem frame_of_insert? (h : b.insert? l = some b') :
    b'.events = b.events ∧ b'.sequence = b.sequence := by
  obtain ⟨_, rfl⟩ := insert?_eq_some_iff.1 h
  exact ⟨rfl, rfl⟩

theorem frame_of_take? (h : b.take? l = some (found, b')) :
    b'.events = b.events ∧ b'.sequence = b.sequence := by
  obtain ⟨_, _, _, rfl⟩ := take?_eq_some h
  exact ⟨rfl, rfl⟩

/-- What a call can come to: its answer and the base after it. -/
inductive Outcome (b : BeliefBase) (c : BeliefCall) :
    Except ValidationError Bool → BeliefBase → Prop
  | nothing {answer : Except ValidationError Bool} : answer ≠ .ok true → Outcome b c answer b
  | stored {l : Literal} {b₁ : BeliefBase} :
      c.offered? = some l → validate l = .ok () → b.insert? l = some b₁ →
      Outcome b c (.ok true) (b₁.emit .add l none)
  | taken {l found : Literal} {b₁ : BeliefBase} :
      b.take? l = some (found, b₁) →
      Outcome b c (.ok true) (b₁.emit .remove found none)
  | replaced {old new previous : Literal} {b₁ b₂ : BeliefBase} :
      c.offered? = some new → validate new = .ok () →
      b.take? old = some (previous, b₁) → b₁.insert? new = some b₂ →
      previous.functor = new.functor →
      Outcome b c (.ok true) (b₂.emit .update new (some previous))
  | moved {old new previous : Literal} {b₁ b₂ : BeliefBase} :
      c.offered? = some new → validate new = .ok () →
      b.take? old = some (previous, b₁) → b₁.insert? new = some b₂ →
      previous.functor ≠ new.functor →
      Outcome b c (.ok true) ((b₂.emit .remove previous none).emit .add new none)

theorem call_outcome (b : BeliefBase) (c : BeliefCall) :
    Outcome b c (b.call c).1 (b.call c).2 := by
  cases c with
  | add l =>
      simp only [call, add]
      cases hvalid : validate l with
      | error e => exact .nothing (by simp [settle, bind, Except.bind])
      | ok u =>
          cases hinsert : b.insert? l with
          | none => exact .nothing (by simp [settle, bind, Except.bind, pure, Except.pure])
          | some b₁ => exact .stored rfl hvalid hinsert
  | remove l =>
      simp only [call, remove]
      cases htake : b.take? l with
      | none => exact .nothing (by simp)
      | some taken => exact .taken htake
  | update old new =>
      simp only [call, update]
      cases hvalid : validate new with
      | error e => exact .nothing (by simp [settle, bind, Except.bind])
      | ok u =>
          cases htake : b.take? old with
          | none =>
              cases hinsert : b.insert? new with
              | none => exact .nothing (by simp [settle, bind, Except.bind, pure, Except.pure])
              | some b₁ => exact .stored rfl hvalid hinsert
          | some taken =>
              obtain ⟨previous, b₁⟩ := taken
              cases hinsert : b₁.insert? new with
              | none =>
                  simp only [bind, Except.bind, hinsert]
                  exact .taken htake
              | some b₂ =>
                  by_cases hfunctor : previous.functor = new.functor
                  · simp only [bind, Except.bind, hinsert, hfunctor, ↓reduceIte]
                    exact .replaced rfl hvalid htake hinsert hfunctor
                  · simp only [bind, Except.bind, hinsert, hfunctor, ↓reduceIte]
                    exact .moved rfl hvalid htake hinsert hfunctor

/-! ### Well-formed bases -/

/-- A base that is kept as it should be. -/
structure WellFormed (b : BeliefBase) : Prop where
  /-- No bucket is empty. -/
  filled : ∀ e ∈ b.buckets.entries, e.2 ≠ []
  /-- No belief has the empty path as its functor. -/
  labelled : ∀ e ∈ b.buckets.entries, e.1.isEmpty = false
  /-- A bucket has ground literals with its functor. -/
  filed : ∀ e ∈ b.buckets.entries, ∀ l ∈ e.2, l.functor = e.1 ∧ l.isGround = true
  /-- No belief is identical to a later one in its bucket. -/
  distinct : ∀ e ∈ b.buckets.entries, e.2.Pairwise fun l m => l.identical m = false
  /-- The size is the number of beliefs. -/
  counted : b.size = b.toList.length

theorem mem_entries_iff {e : Path × List Literal} :
    e ∈ b.buckets.entries ↔ b.buckets.find? e.1 = some e.2 :=
  SortedMap.find?_eq_some_iff.symm

/-- A bucket with something in it is an entry. -/
theorem mem_entries_of_mem_bucket (hl : l ∈ b.bucket functor) :
    (functor, b.bucket functor) ∈ b.buckets.entries := by
  rw [mem_entries_iff]
  cases hfind : b.buckets.find? functor with
  | none => simp [bucket, hfind] at hl
  | some ls => simp [bucket, hfind]

theorem mem_toList_iff : l ∈ b.toList ↔ ∃ functor, l ∈ b.bucket functor := by
  constructor
  · intro hl
    obtain ⟨e, he, hl⟩ := List.mem_flatMap.1 hl
    refine ⟨e.1, ?_⟩
    rw [bucket, mem_entries_iff.1 he]
    exact hl
  · rintro ⟨functor, hl⟩
    exact List.mem_flatMap.2 ⟨_, mem_entries_of_mem_bucket hl, hl⟩

theorem mem_toList_of_insert? (h : b.insert? l = some b') :
    m ∈ b'.toList ↔ m ∈ b.toList ∨ m = l := by
  simp only [mem_toList_iff, bucket_of_insert? h]
  constructor
  · rintro ⟨functor, hm⟩
    split at hm
    · rcases List.mem_append.1 hm with hm | hm
      · exact Or.inl ⟨l.functor, hm⟩
      · exact Or.inr (List.mem_singleton.1 hm)
    · exact Or.inl ⟨functor, hm⟩
  · rintro (⟨functor, hm⟩ | rfl)
    · refine ⟨functor, ?_⟩
      split
      · rename_i hfunctor
        exact List.mem_append_left _ (hfunctor ▸ hm)
      · exact hm
    · exact ⟨m.functor, by simp⟩

theorem mem_toList_of_take? (h : b.take? l = some (found, b')) (hm : m ∈ b'.toList) :
    m ∈ b.toList := by
  obtain ⟨before, after, hheld, hrest⟩ := bucket_of_take? h
  obtain ⟨functor, hm⟩ := mem_toList_iff.1 hm
  rw [hrest] at hm
  split at hm
  · refine mem_toList_iff.2 ⟨l.functor, ?_⟩
    rw [hheld]
    rcases List.mem_append.1 hm with hm | hm
    · exact List.mem_append_left _ hm
    · exact List.mem_append_right _ (List.mem_cons_of_mem _ hm)
  · exact mem_toList_iff.2 ⟨functor, hm⟩

/-- A belief after a call was one before, or the call offered it. -/
theorem Outcome.mem_toList (h : Outcome b c answer b') (hm : m ∈ b'.toList) :
    m ∈ b.toList ∨ c.offered? = some m ∧ validate m = .ok () := by
  cases h with
  | nothing _ => exact Or.inl hm
  | stored hoffered hvalid hinsert =>
      rcases (mem_toList_of_insert? hinsert).1 hm with hm | rfl
      · exact Or.inl hm
      · exact Or.inr ⟨hoffered, hvalid⟩
  | taken htake => exact Or.inl (mem_toList_of_take? htake hm)
  | replaced hoffered hvalid htake hinsert _ | moved hoffered hvalid htake hinsert _ =>
      rcases (mem_toList_of_insert? hinsert).1 hm with hm | rfl
      · exact Or.inl (mem_toList_of_take? htake hm)
      · exact Or.inr ⟨hoffered, hvalid⟩

namespace WellFormed

theorem congr (h : b.WellFormed) (hbuckets : b'.buckets = b.buckets) (hsize : b'.size = b.size) :
    b'.WellFormed := by
  refine ⟨?_, ?_, ?_, ?_, ?_⟩
  · exact hbuckets ▸ h.filled
  · exact hbuckets ▸ h.labelled
  · exact hbuckets ▸ h.filed
  · exact hbuckets ▸ h.distinct
  · rw [hsize, toList, hbuckets]
    exact h.counted

theorem functor_of_mem (h : b.WellFormed) (hl : l ∈ b.bucket functor) : l.functor = functor :=
  (h.filed _ (mem_entries_of_mem_bucket hl) l hl).1

theorem pairwise_bucket (h : b.WellFormed) (functor : Path) :
    (b.bucket functor).Pairwise fun l m => l.identical m = false := by
  cases hbucket : b.bucket functor with
  | nil => exact .nil
  | cons l ls =>
      have hmem : l ∈ b.bucket functor := by simp [hbucket]
      rw [← hbucket]
      exact h.distinct _ (mem_entries_of_mem_bucket hmem)

/-- Another list of beliefs can be put into a bucket. -/
theorem putList (h : b.WellFormed) {ls : List Literal} {size : Nat}
    (hfunctor : ls ≠ [] → functor.isEmpty = false)
    (hfiled : ∀ l ∈ ls, l.functor = functor ∧ l.isGround = true)
    (hdistinct : ls.Pairwise fun l m => l.identical m = false)
    (hsize : size + (b.bucket functor).length = b.size + ls.length) :
    { b with buckets := b.buckets.putList functor ls, size }.WellFormed := by
  have hentry (e : Path × List Literal)
      (he : e ∈ (b.buckets.putList functor ls).entries) :
      (e.1 = functor ∧ e.2 = ls ∧ ls ≠ []) ∨ e ∈ b.buckets.entries := by
    replace he : (b.buckets.putList functor ls).find? e.1 = some e.2 :=
      SortedMap.find?_eq_some_iff.2 he
    rw [SortedMap.find?_putList] at he
    by_cases hkey : e.1 = functor
    · cases ls with
      | nil => simp [hkey] at he
      | cons l ls =>
          simp only [hkey, ↓reduceIte, List.isEmpty_cons, Bool.false_eq_true,
            Option.some.injEq] at he
          exact Or.inl ⟨hkey, he.symm, by simp⟩
    · simp only [hkey, ↓reduceIte] at he
      exact Or.inr (mem_entries_iff.2 he)
  refine ⟨fun e he => ?_, fun e he => ?_, fun e he => ?_, fun e he => ?_, ?_⟩
  · rcases hentry e he with ⟨_, hls, hne⟩ | he
    · exact hls ▸ hne
    · exact h.filled e he
  · rcases hentry e he with ⟨hkey, _, hne⟩ | he
    · exact hkey ▸ hfunctor hne
    · exact h.labelled e he
  · rcases hentry e he with ⟨hkey, hls, _⟩ | he
    · rw [hkey, hls]
      exact hfiled
    · exact h.filed e he
  · rcases hentry e he with ⟨_, hls, _⟩ | he
    · exact hls ▸ hdistinct
    · exact h.distinct e he
  · have htotal := b.buckets.length_putList functor ls
    have hcounted := h.counted
    simp only [toList, bucket, SortedMap.listAt] at *
    omega

theorem empty : BeliefBase.empty.WellFormed := by
  refine ⟨?_, ?_, ?_, ?_, rfl⟩ <;> simp [BeliefBase.empty, SortedMap.empty]

theorem insert? (h : b.WellFormed) (hvalid : validate l = .ok ()) (hb : b.insert? l = some b') :
    b'.WellFormed := by
  obtain ⟨hfunctor, hground⟩ := validate_eq_ok_iff.1 hvalid
  obtain ⟨hnone, rfl⟩ := insert?_eq_some_iff.1 hb
  refine h.putList (fun _ => hfunctor) (fun m hm => ?_) ?_ (by simp; omega)
  · rcases List.mem_append.1 hm with hm | hm
    · exact h.filed _ (mem_entries_of_mem_bucket hm) m hm
    · obtain rfl := List.mem_singleton.1 hm
      exact ⟨rfl, hground⟩
  · refine List.pairwise_append.2 ⟨h.pairwise_bucket _, List.pairwise_singleton .., ?_⟩
    intro m hm l' hl'
    obtain rfl := List.mem_singleton.1 hl'
    exact hnone m hm

/-- A belief can only be taken out of a base that counts it. -/
theorem take? (h : b.WellFormed) (hb : b.take? l = some (found, b')) :
    b'.WellFormed ∧ b'.size + 1 = b.size := by
  obtain ⟨before, after, hbucket, rfl⟩ := take?_eq_some hb
  have hsublist : (before ++ after).Sublist (b.bucket l.functor) := by
    rw [hbucket]
    exact (List.sublist_cons_self found after).append_left before
  have hfound : found ∈ b.bucket l.functor := by simp [hbucket]
  have hentry := mem_entries_of_mem_bucket hfound
  have hsize : 0 < b.size := by
    rw [h.counted]
    exact List.length_pos_of_mem (mem_toList_iff.2 ⟨_, hfound⟩)
  refine ⟨h.putList (fun _ => h.labelled _ hentry) (fun m hm => ?_) ?_ ?_, ?_⟩
  · exact h.filed _ hentry m (hsublist.subset hm)
  · exact (h.pairwise_bucket _).sublist hsublist
  · simp only [hbucket, List.length_append, List.length_cons]
    omega
  · simp only
    omega

theorem emit (h : b.WellFormed) (change : BeliefChange) (l : Literal) (previous : Option Literal) :
    (b.emit change l previous).WellFormed :=
  h.congr rfl rfl

theorem outcome (h : b.WellFormed) (hcall : Outcome b c answer b') : b'.WellFormed := by
  cases hcall with
  | nothing _ => exact h
  | stored _ hvalid hinsert => exact (h.insert? hvalid hinsert).emit ..
  | taken htake => exact (h.take? htake).1.emit ..
  | replaced _ hvalid htake hinsert _ => exact ((h.take? htake).1.insert? hvalid hinsert).emit ..
  | moved _ hvalid htake hinsert _ =>
      exact (((h.take? htake).1.insert? hvalid hinsert).emit ..).emit ..

/-- What holds of any two beliefs in one bucket, and of any two with different functors, holds of
all beliefs. -/
theorem pairwise_toList (h : b.WellFormed) {R : Literal → Literal → Prop}
    (hwithin : ∀ functor, (b.bucket functor).Pairwise R)
    (hacross : ∀ l m, l.functor ≠ m.functor → R l m) : b.toList.Pairwise R := by
  refine List.pairwise_flatMap.2 ⟨fun e he => ?_, ?_⟩
  · have hbucket : b.bucket e.1 = e.2 := by simp [bucket, mem_entries_iff.1 he]
    exact hbucket ▸ hwithin e.1
  · have hkeys : b.buckets.entries.Pairwise fun e e' => e.1 ≠ e'.1 :=
      List.pairwise_map.1 b.buckets.keys_nodup
    refine hkeys.imp_of_mem fun {e e'} he he' hne l hl m hm => hacross l m ?_
    rw [(h.filed e he l hl).1, (h.filed e' he' m hm).1]
    exact hne

end WellFormed

end BeliefBase

/-! ### Histories -/

/-- What can be done to a base from outside: a call, taking the events out of its log, or
subscribing an observer. -/
inductive BeliefOperation where
  | call (c : BeliefCall)
  | drainEvents
  | subscribe (capacity : Nat)

def BeliefOperation.offered? : BeliefOperation → Option Literal
  | .call c => c.offered?
  | .drainEvents => none
  | .subscribe _ => none

/-- A base and the events that were taken out of its log, oldest first. -/
structure BeliefHistory where
  base : BeliefBase
  taken : List BeliefEvent

namespace BeliefHistory

def perform (h : BeliefHistory) : BeliefOperation → BeliefHistory
  | .call c => { h with base := (h.base.call c).2 }
  | .drainEvents => ⟨h.base.drainEvents.2, h.taken ++ h.base.drainEvents.1⟩
  | .subscribe capacity => { h with base := (h.base.subscribe capacity).2 }

/-- The history of a base that was empty at first. -/
def after (operations : List BeliefOperation) : BeliefHistory :=
  operations.foldl perform ⟨.empty, []⟩

/-- All events, oldest first, whether they were taken or not. -/
def log (h : BeliefHistory) : List BeliefEvent :=
  h.taken ++ h.base.events

/-- What is so of an empty base and what each operation keeps is so after all of them. -/
theorem after_induction {P : BeliefHistory → Prop} (operations : List BeliefOperation)
    (hempty : P ⟨.empty, []⟩) (hperform : ∀ h, P h → ∀ o ∈ operations, P (h.perform o)) :
    P (after operations) :=
  operations.foldlRecOn perform hempty hperform

theorem wellFormed_after (operations : List BeliefOperation) :
    (after operations).base.WellFormed := by
  refine after_induction (P := fun h => h.base.WellFormed) operations .empty fun h hbase o _ => ?_
  cases o with
  | call c => exact hbase.outcome (h.base.call_outcome c)
  | drainEvents => exact hbase.congr rfl rfl
  | subscribe capacity => exact hbase.congr rfl rfl

/-- After any operations, every bucket has something in it, and what it has are ground literals with
its functor, which is not empty, and none that is identical to a later one; the size is the number
of beliefs, and there is always one to count down when one is taken out; and no belief is there
twice. -/
theorem beliefs_filed_and_counted (operations : List BeliefOperation) :
    (after operations).base.WellFormed ∧
      (∀ l found b', (after operations).base.take? l = some (found, b') →
        b'.size + 1 = (after operations).base.size) ∧
      (after operations).base.toList.Nodup := by
  have hbase := wellFormed_after operations
  refine ⟨hbase, fun l found b' htake => (hbase.take? htake).2, ?_⟩
  refine hbase.pairwise_toList (fun functor => ?_) fun l m hfunctor heq => hfunctor (heq ▸ rfl)
  refine (hbase.pairwise_bucket functor).imp fun {l m} hidentical heq => ?_
  rw [heq, m.identical_refl] at hidentical
  cases hidentical

end BeliefHistory
end Deliberation
