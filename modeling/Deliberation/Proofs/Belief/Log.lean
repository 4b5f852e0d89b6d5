import Deliberation.Proofs.Belief.Calls

/-!
The log tells what happened.

Events are replayed over an empty store: one that tells of a belief that came appends it to its
bucket, one of a belief that went deletes it, and one of a replacement does both. Whatever is done
to a base that was empty at first, replaying all its events gives its beliefs again, in their order,
and the events are numbered from one on. A call that changes nothing writes nothing, and a call that
changes something writes that down.
-/

namespace Deliberation

/-! ### Replaying events -/

/-- Beliefs by functor, as a base keeps them. -/
abbrev BeliefStore := SortedMap Path (List Literal)

namespace BeliefStore

def append (store : BeliefStore) (l : Literal) : BeliefStore :=
  store.putList l.functor (store.listAt l.functor ++ [l])

/-- The store without a literal, which is the first one that is identical to it. -/
def delete (store : BeliefStore) (l : Literal) : BeliefStore :=
  store.putList l.functor ((store.listAt l.functor).eraseP (·.identical l))

/-- The store after the change that an event tells of. -/
def apply (store : BeliefStore) (e : BeliefEvent) : BeliefStore :=
  match e.change with
  | .add => store.append e.literal
  | .remove => store.delete e.literal
  | .update => (e.previous.elim store store.delete).append e.literal

/-- What events tell of, from nothing on. -/
def replay (events : List BeliefEvent) : BeliefStore :=
  events.foldl apply .empty

end BeliefStore

namespace BeliefBase

variable {b b' b₁ b₂ : BeliefBase} {l found : Literal} {emitted emitted' : List BeliefEvent}

theorem append_of_insert? (h : b.insert? l = some b') :
    b'.buckets = BeliefStore.append b.buckets l := by
  obtain ⟨_, rfl⟩ := insert?_eq_some_iff.1 h
  rfl

theorem WellFormed.functor_of_take? (hb : b.WellFormed) (h : b.take? l = some (found, b')) :
    found.functor = l.functor := by
  obtain ⟨before, after, hbucket, _⟩ := take?_eq_some h
  exact hb.functor_of_mem (by simp [hbucket])

/-- Deleting what was taken out finds the place it was taken from: nothing before it is
identical. -/
theorem delete_of_take? (hb : b.WellFormed) (h : b.take? l = some (found, b')) :
    b'.buckets = BeliefStore.delete b.buckets found := by
  have hfunctor := hb.functor_of_take? h
  obtain ⟨before, after, hbucket, rfl⟩ := take?_eq_some h
  have hbefore : ∀ m ∈ before, m.identical found = false := by
    have hapart := hbucket ▸ hb.pairwise_bucket l.functor
    exact fun m hm => (List.pairwise_append.1 hapart).2.2 m hm found List.mem_cons_self
  have herase : (b.bucket l.functor).eraseP (·.identical found) = before ++ after := by
    rw [hbucket, List.eraseP_append_right _ (by simpa using hbefore)]
    simp [found.identical_refl]
  rw [BeliefStore.delete, hfunctor]
  exact congrArg (b.buckets.putList l.functor) herase.symm

/-- What was written to the log between two states of a base, and that replaying it leads from the
beliefs of the one to those of the other. -/
structure Logged (b b' : BeliefBase) (emitted : List BeliefEvent) : Prop where
  events : b'.events = b.events ++ emitted
  counted : b'.sequence = b.sequence + emitted.length
  numbered : emitted.map (·.sequence) = List.range' (b.sequence + 1) emitted.length
  replayed : emitted.foldl BeliefStore.apply b.buckets = b'.buckets
  previous : ∀ e ∈ emitted, e.previous.isSome = true ↔ e.change = .update

namespace Logged

theorem refl (b : BeliefBase) : Logged b b [] :=
  ⟨by simp, by simp, by simp, rfl, by simp⟩

theorem trans (h : Logged b b₁ emitted) (h' : Logged b₁ b' emitted') :
    Logged b b' (emitted ++ emitted') := by
  refine ⟨?_, ?_, ?_, ?_, fun e he => ?_⟩
  · rw [h'.events, h.events, List.append_assoc]
  · rw [h'.counted, h.counted, List.length_append, Nat.add_assoc]
  · rw [List.map_append, h.numbered, h'.numbered, h.counted, List.length_append,
      ← List.range'_append_1]
    simp [Nat.add_right_comm]
  · rw [List.foldl_append, h.replayed, h'.replayed]
  · rcases List.mem_append.1 he with he | he
    · exact h.previous e he
    · exact h'.previous e he

/-- An event is written after the beliefs have changed as it tells. -/
theorem emit {change : BeliefChange} {previous : Option Literal} (hevents : b₁.events = b.events)
    (hsequence : b₁.sequence = b.sequence)
    (hstore : b₁.buckets = BeliefStore.apply b.buckets ⟨change, l, previous, b.sequence + 1⟩)
    (hprevious : previous.isSome = true ↔ change = .update) :
    Logged b (b₁.emit change l previous) [⟨change, l, previous, b.sequence + 1⟩] := by
  refine ⟨?_, ?_, ?_, ?_, ?_⟩
  · simp [BeliefBase.emit, hevents, hsequence]
  · simp [BeliefBase.emit, hsequence]
  · simp
  · simp [BeliefBase.emit, hstore]
  · simpa using hprevious

end Logged

/-- One belief went, another one with its functor came, and all other beliefs stand as before. -/
def Replaces (b b' : BeliefBase) (previous new : Literal) : Prop :=
  previous.functor = new.functor ∧
    (∃ before after, b.bucket new.functor = before ++ previous :: after ∧
      b'.bucket new.functor = before ++ after ++ [new]) ∧
    ∀ functor, functor ≠ new.functor → b'.bucket functor = b.bucket functor

/-- A replacement changes no bucket's length. -/
theorem Replaces.length_bucket {previous new : Literal} (h : Replaces b b' previous new)
    (functor : Path) : (b'.bucket functor).length = (b.bucket functor).length := by
  obtain ⟨_, ⟨before, after, hbucket, hbucket'⟩, hother⟩ := h
  by_cases hfunctor : functor = new.functor
  · rw [hfunctor, hbucket, hbucket']
    simp only [List.length_append, List.length_cons, List.length_nil]
    omega
  · rw [hother functor hfunctor]

theorem WellFormed.replaces {old new previous : Literal} (hb : b.WellFormed)
    (htake : b.take? old = some (previous, b₁)) (hinsert : b₁.insert? new = some b₂)
    (hfunctor : previous.functor = new.functor) : Replaces b b₂ previous new := by
  obtain ⟨before, after, hheld, hrest⟩ := bucket_of_take? htake
  have hold : old.functor = new.functor := (hb.functor_of_take? htake).symm.trans hfunctor
  refine ⟨hfunctor, ⟨before, after, hold ▸ hheld, ?_⟩, fun functor hne => ?_⟩
  · simp [bucket_of_insert? hinsert, hrest, hold]
  · simp [bucket_of_insert? hinsert, hrest, hold, hne]

/-- What a call wrote to the log, and what it answered. -/
structure Told (b : BeliefBase) (answer : Except ValidationError Bool) (b' : BeliefBase)
    (emitted : List BeliefEvent) : Prop extends Logged b b' emitted where
  /-- Nothing is written exactly if the call was refused or answered that nothing changed. -/
  silent : emitted = [] ↔ answer ≠ .ok true
  unchanged : emitted = [] → b' = b
  /-- An update is written exactly if one belief was replaced by another with its functor. -/
  update : (∃ e ∈ emitted, e.change = .update) ↔
    answer = .ok true ∧ ∃ previous new, Replaces b b' previous new
  replaced : ∀ e ∈ emitted, e.change = .update →
    ∃ previous, e.previous = some previous ∧ Replaces b b' previous e.literal

/-- A call after which some bucket is longer or shorter replaced nothing. -/
theorem Logged.told (h : Logged b b' emitted) (hne : emitted ≠ [])
    (hchange : ∀ e ∈ emitted, e.change ≠ .update) (functor : Path)
    (hlength : (b'.bucket functor).length ≠ (b.bucket functor).length) :
    Told b (.ok true) b' emitted := by
  refine ⟨h, by simpa using hne, fun hnil => absurd hnil hne, ⟨?_, ?_⟩, ?_⟩
  · rintro ⟨e, he, hupdate⟩
    exact absurd hupdate (hchange e he)
  · rintro ⟨_, previous, new, hreplaces⟩
    exact absurd (hreplaces.length_bucket functor) hlength
  · exact fun e he hupdate => absurd hupdate (hchange e he)

theorem Outcome.told {c : BeliefCall} {answer : Except ValidationError Bool} (hb : b.WellFormed)
    (h : Outcome b c answer b') : ∃ emitted, Told b answer b' emitted := by
  cases h with
  | nothing hanswer =>
      refine ⟨[], .refl b, by simpa using hanswer, fun _ => rfl, ?_, by simp⟩
      simp [hanswer]
  | @stored l b₁ _ _ hinsert =>
      obtain ⟨hevents, hsequence⟩ := frame_of_insert? hinsert
      have hlogged : Logged b (b₁.emit .add l none) _ :=
        .emit hevents hsequence (append_of_insert? hinsert) (by simp)
      have hbucket : (b₁.emit .add l none).bucket l.functor = b.bucket l.functor ++ [l] :=
        (bucket_of_insert? hinsert _).trans (if_pos rfl)
      exact ⟨_, hlogged.told (by simp) (by simp) l.functor (by simp [hbucket])⟩
  | @taken l found b₁ htake =>
      obtain ⟨hevents, hsequence⟩ := frame_of_take? htake
      have hlogged : Logged b (b₁.emit .remove found none) _ :=
        .emit hevents hsequence (delete_of_take? hb htake) (by simp)
      obtain ⟨before, after, hheld, hrest⟩ := bucket_of_take? htake
      have hbucket : (b₁.emit .remove found none).bucket l.functor = before ++ after :=
        (hrest _).trans (if_pos rfl)
      exact ⟨_, hlogged.told (by simp) (by simp) l.functor (by simp [hbucket, hheld])⟩
  | @replaced old new previous b₁ b₂ _ _ htake hinsert hfunctor =>
      obtain ⟨hevents, hsequence⟩ := frame_of_take? htake
      obtain ⟨hevents', hsequence'⟩ := frame_of_insert? hinsert
      have hstore : b₂.buckets = (BeliefStore.delete b.buckets previous).append new := by
        rw [append_of_insert? hinsert, delete_of_take? hb htake]
      have hlogged : Logged b (b₂.emit .update new (some previous)) _ :=
        .emit (hevents'.trans hevents) (hsequence'.trans hsequence) hstore (by simp)
      have hreplaces : Replaces b (b₂.emit .update new (some previous)) previous new :=
        (hb.replaces htake hinsert hfunctor : Replaces b b₂ previous new)
      refine ⟨_, hlogged, by simp, by simp, ?_, by simpa using hreplaces⟩
      exact ⟨fun _ => ⟨rfl, previous, new, hreplaces⟩, fun _ => ⟨_, List.mem_singleton_self _, rfl⟩⟩
  | @moved old new previous b₁ b₂ _ _ htake hinsert hfunctor =>
      obtain ⟨hevents, hsequence⟩ := frame_of_take? htake
      obtain ⟨hevents', hsequence'⟩ := frame_of_insert? hinsert
      -- The first event stands between the two changes, the second one after both.
      have hwent : Logged b (b₁.emit .remove previous none) _ :=
        .emit hevents hsequence (delete_of_take? hb htake) (by simp)
      have hstore : b₂.buckets = BeliefStore.append b₁.buckets new := append_of_insert? hinsert
      have hcame : Logged (b₁.emit .remove previous none)
          ((b₂.emit .remove previous none).emit .add new none) _ :=
        .emit (by simp [emit, hevents', hsequence']) (by simp [emit, hsequence']) hstore (by simp)
      obtain ⟨before, after, hheld, hrest⟩ := bucket_of_take? htake
      have hold : old.functor ≠ new.functor := hb.functor_of_take? htake ▸ hfunctor
      have hbucket : ((b₂.emit .remove previous none).emit .add new none).bucket old.functor =
          before ++ after :=
        (bucket_of_insert? hinsert _).trans (by simp [hrest, hold])
      exact ⟨_, (hwent.trans hcame).told (by simp) (by simp) old.functor (by simp [hbucket, hheld])⟩

/-- What becomes of a base through calls, while its events stay in its log. Observers may come and
go. -/
inductive Changes (b : BeliefBase) : BeliefBase → Prop
  | refl : Changes b b
  | call {b' : BeliefBase} (c : BeliefCall) : Changes b b' → Changes b (b'.call c).2
  | observed {b' : BeliefBase} (outbox : Outbox) : Changes b b' → Changes b { b' with outbox }

theorem Changes.of_add {isNew : Bool} (h : b.add l = .ok (isNew, b')) : b.Changes b' := by
  have hcall : b.Changes (b.call (.add l)).2 := .call _ .refl
  simpa [BeliefBase.call, settle, h] using hcall

theorem Changes.of_update {old : Literal} {changed : Bool}
    (h : b.update old l = .ok (changed, b')) : b.Changes b' := by
  have hcall : b.Changes (b.call (.update old l)).2 := .call _ .refl
  simpa [BeliefBase.call, settle, h] using hcall

theorem Changes.logged (h : b.Changes b') (hb : b.WellFormed) :
    b'.WellFormed ∧ ∃ emitted, Logged b b' emitted := by
  induction h with
  | refl => exact ⟨hb, [], .refl b⟩
  | @call b' c _ ih =>
      obtain ⟨hb', emitted, hlogged⟩ := ih
      have houtcome := b'.call_outcome c
      obtain ⟨since, htold⟩ := houtcome.told hb'
      exact ⟨hb'.outcome houtcome, _, hlogged.trans htold.toLogged⟩
  | observed outbox _ ih =>
      obtain ⟨hb', emitted, hlogged⟩ := ih
      exact ⟨hb'.congr rfl rfl, emitted, hlogged.events, hlogged.counted, hlogged.numbered,
        hlogged.replayed, hlogged.previous⟩

end BeliefBase

namespace BeliefHistory

/-- The log of a history accounts for the base. -/
structure Accounted (h : BeliefHistory) : Prop where
  counted : h.base.sequence = h.log.length
  /-- The events are numbered from one on, without a gap. -/
  numbered : h.log.map (·.sequence) = List.range' 1 h.log.length
  /-- Replaying them gives the beliefs, in their order. -/
  replayed : BeliefStore.replay h.log = h.base.buckets
  /-- An event names a previous belief exactly if it is an update. -/
  previous : ∀ e ∈ h.log, e.previous.isSome = true ↔ e.change = .update

namespace Accounted

variable {h h' : BeliefHistory} {emitted : List BeliefEvent}

/-- Events that were taken still count. -/
theorem congr (hlog : h.Accounted) (heq : h'.log = h.log)
    (hsequence : h'.base.sequence = h.base.sequence)
    (hbuckets : h'.base.buckets = h.base.buckets) : h'.Accounted := by
  refine ⟨?_, ?_, ?_, ?_⟩
  · rw [heq, hsequence, hlog.counted]
  · rw [heq, hlog.numbered]
  · rw [heq, hbuckets, hlog.replayed]
  · rw [heq]
    exact hlog.previous

/-- With the events that were written since, an account of the base before becomes one of the base
after. -/
theorem logged (hlog : h.Accounted) (hsince : h.base.Logged h'.base emitted)
    (heq : h'.log = h.log ++ emitted) : h'.Accounted := by
  refine ⟨?_, ?_, ?_, fun e he => ?_⟩
  · rw [hsince.counted, hlog.counted, heq, List.length_append]
  · rw [heq, List.map_append, hlog.numbered, hsince.numbered, hlog.counted, List.length_append,
      ← List.range'_append_1, Nat.add_comm 1]
  · rw [heq, BeliefStore.replay, List.foldl_append, ← BeliefStore.replay, hlog.replayed,
      hsince.replayed]
  · rcases List.mem_append.1 (heq ▸ he) with he | he
    · exact hlog.previous e he
    · exact hsince.previous e he

end Accounted

theorem accounted_after (operations : List BeliefOperation) : (after operations).Accounted := by
  suffices h : (after operations).base.WellFormed ∧ (after operations).Accounted from h.2
  refine after_induction (P := fun h => h.base.WellFormed ∧ h.Accounted) operations ?_
    fun h ih o _ => ?_
  · exact ⟨.empty, rfl, rfl, rfl, by simp [log, BeliefBase.empty]⟩
  · obtain ⟨hbase, hlog⟩ := ih
    cases o with
    | call c =>
        have houtcome := h.base.call_outcome c
        obtain ⟨emitted, htold⟩ := houtcome.told hbase
        have heq : (h.perform (.call c)).log = h.log ++ emitted := by
          rw [log, log, List.append_assoc, ← htold.events]
          rfl
        exact ⟨hbase.outcome houtcome, hlog.logged htold.toLogged heq⟩
    | drainEvents =>
        have heq : (h.perform .drainEvents).log = h.log := by
          simp [log, perform, BeliefBase.drainEvents]
        exact ⟨hbase.congr rfl rfl, hlog.congr heq rfl rfl⟩
    | subscribe capacity => exact ⟨hbase.congr rfl rfl, hlog.congr rfl rfl rfl⟩

/-- After any operations the log accounts for the base, and what any further call writes to it says
what that call did. -/
theorem log_tells_every_change (operations : List BeliefOperation) :
    (after operations).Accounted ∧
      ∀ c, ∃ emitted, (after operations).base.Told ((after operations).base.call c).1
        ((after operations).base.call c).2 emitted :=
  ⟨accounted_after operations, fun c =>
    ((after operations).base.call_outcome c).told (wellFormed_after operations)⟩

end BeliefHistory
end Deliberation
