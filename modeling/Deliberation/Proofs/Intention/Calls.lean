import Mathlib.Data.List.Nodup
import Deliberation.Proofs.Intention.Arena

/-!
Calls of an arena and their answers.

A history is an arena together with the calls that made it and what they answered, whoever made them
and whatever names they used. What stands under a name can be read off the answers alone: the frame
that was stored under it, with the changes since then under that name, unless it was removed since.
No name is given twice, so a name that was removed leads nowhere for good, however often its slot is
used again.
-/

namespace Deliberation

/-- A call of an arena. -/
inductive ArenaCall where
  | insert (f : Frame)
  | find (id : FrameId)
  | modify (id : FrameId) (change : Frame → Frame)
  | remove (id : FrameId)

/-- What a call of an arena answers: the name that it gave, or what it found under one. -/
inductive ArenaAnswer where
  | named (id : FrameId)
  | found (f : Option Frame)

/-- A call and its answer. -/
structure ArenaEntry where
  call : ArenaCall
  answer : ArenaAnswer

/-- What a call makes of the frame under a name, if it leaves one there. -/
def ArenaCall.effect (id : FrameId) : ArenaCall → Frame → Frame
  | .modify other change, f => if other = id then change f else f
  | _, f => f

/-- The name that was given in an entry. -/
def ArenaEntry.given? : ArenaEntry → Option FrameId
  | ⟨.insert _, .named id⟩ => some id
  | _ => none

/-- The answer of a call and the arena after it. -/
def FrameArena.call (a : FrameArena) : ArenaCall → ArenaAnswer × FrameArena
  | .insert f => (.named (a.insert f).1, (a.insert f).2)
  | .find id => (.found (a.find? id), a)
  | .modify id change => (.found (a.find? id), a.modify id change)
  | .remove id =>
    match a.remove? id with
    | some (f, frames) => (.found (some f), frames)
    | none => (.found none, a)

/-- An arena, and the calls that were made so far, oldest first. -/
structure ArenaHistory where
  arena : FrameArena
  entries : List ArenaEntry

namespace ArenaHistory

variable {h : ArenaHistory} {id : FrameId} {g : Frame}

def perform (h : ArenaHistory) (c : ArenaCall) : ArenaHistory :=
  ⟨(h.arena.call c).2, h.entries ++ [⟨c, (h.arena.call c).1⟩]⟩

/-- The history of some calls of an empty arena. -/
def after (calls : List ArenaCall) : ArenaHistory :=
  calls.foldl perform ⟨.empty, []⟩

/-- The names that were given, oldest first. -/
def given (h : ArenaHistory) : List FrameId :=
  h.entries.filterMap ArenaEntry.given?

/-- The names that lead to a frame. -/
def live (h : ArenaHistory) : List FrameId :=
  h.given.filter fun id => (h.arena.find? id).isSome

/-! ### What stands under a name -/

/-- By the entries, `g` stands under a name: it is the frame that was stored under it, with the
changes since then under that name, and no call removed it since. -/
def Stands (entries : List ArenaEntry) (id : FrameId) (g : Frame) : Prop :=
  ∃ before f after, entries = before ++ ⟨.insert f, .named id⟩ :: after ∧
    (∀ e ∈ after, e.call ≠ .remove id) ∧ g = after.foldl (fun f e => e.call.effect id f) f

theorem stands_concat {entries : List ArenaEntry} {e : ArenaEntry} :
    Stands (entries ++ [e]) id g ↔ e = ⟨.insert g, .named id⟩ ∨
      ∃ f, Stands entries id f ∧ e.call ≠ .remove id ∧ g = e.call.effect id f := by
  constructor
  · rintro ⟨before, f, after, heq, hkept, rfl⟩
    -- the new entry stored the frame, or it is the last of those since then
    rcases after.eq_nil_or_concat with rfl | ⟨since, last, rfl⟩
    · exact Or.inl (List.append_inj_right' heq rfl |> List.singleton_inj.1)
    · rw [List.concat_eq_append] at hkept
      rw [List.concat_eq_append, ← List.cons_append, ← List.append_assoc] at heq
      obtain ⟨rfl, hlast⟩ := List.append_inj' heq rfl
      obtain rfl := List.singleton_inj.1 hlast
      rw [List.forall_mem_append] at hkept
      refine Or.inr ⟨_, ⟨before, f, since, rfl, hkept.1, rfl⟩, hkept.2 e List.mem_cons_self, ?_⟩
      rw [List.concat_eq_append, List.foldl_append]
      rfl
  · rintro (rfl | ⟨f, ⟨before, f, since, rfl, hkept, rfl⟩, he, rfl⟩)
    · exact ⟨entries, g, [], rfl, by simp, rfl⟩
    · refine ⟨before, f, since ++ [e], by simp, ?_, by simp⟩
      rw [List.forall_mem_append]
      exact ⟨hkept, by simpa using he⟩

theorem Stands.mem_given (hstands : Stands h.entries id g) : id ∈ h.given := by
  obtain ⟨before, f, after, heq, _⟩ := hstands
  rw [given, heq]
  simp [ArenaEntry.given?]

end ArenaHistory

/-! ### One call -/

namespace FrameArena

variable {a : FrameArena} {id : FrameId} {f g : Frame}

/-- A removal answers what it takes out. -/
theorem call_remove (a : FrameArena) (id : FrameId) :
    (a.call (.remove id)).1 = .found (a.find? id) := by
  cases hfind : a.find? id with
  | none => simp [call, remove?, hfind]
  | some f => simp [call, remove?, hfind]

theorem call_remove_of_find? (hfind : a.find? id = none) : (a.call (.remove id)).2 = a := by
  simp [call, remove?, hfind]

theorem exists_of_call_remove (hfind : a.find? id = some f) :
    ∃ frames, a.remove? id = some (f, frames) ∧ (a.call (.remove id)).2 = frames := by
  obtain ⟨frames, hremove⟩ := remove?_isSome hfind
  exact ⟨frames, hremove, by simp [call, hremove]⟩

theorem Valid.call (h : a.Valid) (c : ArenaCall) : (a.call c).2.Valid := by
  cases c with
  | insert f => exact h.insert f
  | find id => exact h
  | modify id change => exact h.modify id change
  | remove id =>
      cases hfind : a.find? id with
      | none => rwa [call_remove_of_find? hfind]
      | some f =>
          obtain ⟨frames, hremove, heq⟩ := exists_of_call_remove hfind
          exact heq ▸ h.remove hremove

theorem Used.call (hid : a.Used id) (h : a.Valid) (c : ArenaCall) : (a.call c).2.Used id := by
  cases c with
  | insert f => exact hid.insert h f
  | find other => exact hid
  | modify other change => exact hid.modify other change
  | remove other =>
      cases hfind : a.find? other with
      | none => rwa [call_remove_of_find? hfind]
      | some f =>
          obtain ⟨frames, hremove, heq⟩ := exists_of_call_remove hfind
          exact heq ▸ hid.remove hremove

/-- What a call leaves under a name: the frame that it stored there, or what it made of the one that
was there before. -/
theorem Valid.find?_call_eq_some_iff (h : a.Valid) (c : ArenaCall) :
    (a.call c).2.find? id = some g ↔ ArenaEntry.mk c (a.call c).1 = ⟨.insert g, .named id⟩ ∨
      ∃ f, a.find? id = some f ∧ c ≠ .remove id ∧ g = c.effect id f := by
  cases c with
  | insert f =>
      by_cases hid : id = (a.insert f).1
      · subst hid
        simp [FrameArena.call, h.find?_insert_self, h.find?_insert_name]
      · have hother : (a.insert f).1 ≠ id := Ne.symm hid
        simp [FrameArena.call, h.find?_insert_of_ne f hid, hother, ArenaCall.effect]
  | find other => simp [FrameArena.call, ArenaCall.effect]
  | modify other change =>
      by_cases hid : id = other
      · subst hid
        simp [FrameArena.call, find?_modify_self, ArenaCall.effect, @eq_comm _ g]
      · have hother : other ≠ id := Ne.symm hid
        simp [FrameArena.call, find?_modify_of_ne a change hid, ArenaCall.effect, hother]
  | remove other =>
      cases hfind : a.find? other with
      | none =>
          rw [call_remove_of_find? hfind]
          by_cases hid : other = id
          · simp [← hid, hfind]
          · simp [ArenaCall.effect, hid]
      | some f =>
          obtain ⟨frames, hremove, heq⟩ := exists_of_call_remove hfind
          rw [heq]
          by_cases hid : id = other
          · subst hid
            simp [find?_remove_self hremove]
          · have hother : other ≠ id := Ne.symm hid
            simp [find?_remove_of_ne hremove hid, ArenaCall.effect, hother]

/-- A name that was given and leads nowhere is not given again. -/
theorem Valid.find?_call_of_used (h : a.Valid) (hid : a.Used id) (hnone : a.find? id = none)
    (c : ArenaCall) : (a.call c).2.find? id = none := by
  rw [Option.eq_none_iff_forall_ne_some]
  intro g hg
  rcases (h.find?_call_eq_some_iff c).1 hg with hgiven | ⟨f, hf, _⟩
  · simp only [ArenaEntry.mk.injEq] at hgiven
    obtain ⟨rfl, hanswer⟩ := hgiven
    have hname : (a.insert g).1 = id := by simpa [FrameArena.call] using hanswer
    exact h.not_used_insert_name g (hname ▸ hid)
  · simp [hnone] at hf

end FrameArena

/-! ### Histories -/

namespace ArenaHistory

variable {h : ArenaHistory} {id : FrameId}

/-- The entries tell what the arena holds. -/
structure Faithful (h : ArenaHistory) : Prop where
  valid : h.arena.Valid
  used : ∀ id ∈ h.given, h.arena.Used id
  /-- No name was given twice. -/
  nodup : h.given.Nodup
  stands : ∀ id g, h.arena.find? id = some g ↔ Stands h.entries id g
  /-- A name under which a frame was taken out leads nowhere. -/
  gone : ∀ id f, ⟨.remove id, .found (some f)⟩ ∈ h.entries → id ∈ h.given ∧ h.arena.find? id = none
  counted : h.arena.size = h.live.length

theorem given_perform (h : ArenaHistory) (c : ArenaCall) :
    (h.perform c).given = h.given ++ (ArenaEntry.mk c (h.arena.call c).1).given?.toList := by
  rw [given, perform, List.filterMap_append]
  cases hgiven : (ArenaEntry.mk c (h.arena.call c).1).given? <;> simp [given, hgiven]

theorem given_perform_insert (h : ArenaHistory) (f : Frame) :
    (h.perform (.insert f)).given = h.given ++ [(h.arena.insert f).1] := by
  rw [given_perform]
  rfl

theorem given_perform_of_ne (h : ArenaHistory) {c : ArenaCall} (hc : ∀ f, c ≠ .insert f) :
    (h.perform c).given = h.given := by
  rw [given_perform]
  cases c with
  | insert f => exact absurd rfl (hc f)
  | find | modify | remove => simp [ArenaEntry.given?]

theorem Faithful.mem_given (hh : h.Faithful) {f : Frame} (hfind : h.arena.find? id = some f) :
    id ∈ h.given :=
  ((hh.stands id f).1 hfind).mem_given

/-- The name of a new frame is a new name. -/
theorem Faithful.not_mem_given (hh : h.Faithful) (f : Frame) : (h.arena.insert f).1 ∉ h.given :=
  fun hmem => hh.valid.not_used_insert_name f (hh.used _ hmem)

theorem live_perform_insert (hh : h.Faithful) (f : Frame) :
    (h.perform (.insert f)).live = h.live ++ [(h.arena.insert f).1] := by
  have hself : ((h.perform (.insert f)).arena.find? (h.arena.insert f).1).isSome = true := by
    simp [perform, FrameArena.call, hh.valid.find?_insert_self]
  rw [live, given_perform_insert, List.filter_append, List.filter_singleton, hself]
  simp only [cond_true, List.append_cancel_right_eq]
  refine List.filter_congr fun id hid => ?_
  have hne : id ≠ (h.arena.insert f).1 := fun heq => hh.not_mem_given f (heq ▸ hid)
  simp [perform, FrameArena.call, hh.valid.find?_insert_of_ne f hne]

/-- Of the names that lead to a frame, a removal takes away its own. -/
theorem live_perform_remove (hh : h.Faithful) {f : Frame} (hfind : h.arena.find? id = some f) :
    (h.perform (.remove id)).live = h.live.erase id := by
  obtain ⟨frames, hremove, heq⟩ := FrameArena.exists_of_call_remove hfind
  rw [live, live, List.Nodup.erase_eq_filter (hh.nodup.filter _), List.filter_filter,
    given_perform_of_ne h (by simp)]
  refine List.filter_congr fun other _ => ?_
  by_cases hother : other = id
  · simp [perform, heq, hother, FrameArena.find?_remove_self hremove]
  · simp [perform, heq, hother, FrameArena.find?_remove_of_ne hremove hother]

theorem Faithful.counted_perform (hh : h.Faithful) (c : ArenaCall) :
    (h.perform c).arena.size = (h.perform c).live.length := by
  cases c with
  | insert f =>
      rw [live_perform_insert hh, List.length_append, ← hh.counted]
      exact hh.valid.size_insert f
  | find id =>
      rw [live, given_perform_of_ne h (by simp)]
      exact hh.counted
  | modify id change =>
      have hlive : (h.perform (.modify id change)).live = h.live := by
        rw [live, given_perform_of_ne h (by simp)]
        refine List.filter_congr fun other _ => ?_
        by_cases hother : other = id
        · simp [perform, FrameArena.call, hother, FrameArena.find?_modify_self]
        · simp [perform, FrameArena.call, FrameArena.find?_modify_of_ne h.arena change hother]
      rw [hlive, ← hh.counted]
      exact FrameArena.size_modify h.arena id change
  | remove id =>
      cases hfind : h.arena.find? id with
      | none =>
          have harena : (h.perform (.remove id)).arena = h.arena :=
            FrameArena.call_remove_of_find? hfind
          rw [live, given_perform_of_ne h (by simp), harena]
          exact hh.counted
      | some f =>
          obtain ⟨frames, hremove, heq⟩ := FrameArena.exists_of_call_remove hfind
          have hmem : id ∈ h.live := List.mem_filter.2 ⟨hh.mem_given hfind, by simp [hfind]⟩
          have hsize := hh.valid.size_remove hremove
          rw [live_perform_remove hh hfind, List.length_erase_of_mem hmem, ← hh.counted, ← hsize]
          simp [perform, heq]

theorem Faithful.perform (hh : h.Faithful) (c : ArenaCall) : (h.perform c).Faithful where
  valid := hh.valid.call c
  used id hid := by
    rw [given_perform, List.mem_append] at hid
    rcases hid with hid | hid
    · exact (hh.used id hid).call hh.valid c
    · cases c with
      | insert f =>
          obtain rfl : id = (h.arena.insert f).1 := List.mem_singleton.1 hid
          exact hh.valid.used_insert_self f
      | find | modify | remove => simp [ArenaEntry.given?] at hid
  nodup := by
    cases c with
    | insert f =>
        rw [given_perform_insert]
        exact List.Nodup.append hh.nodup (List.nodup_singleton _)
          (List.disjoint_singleton.2 (hh.not_mem_given f))
    | find | modify | remove => simpa [given_perform_of_ne] using hh.nodup
  stands id g := by
    rw [show (h.perform c).arena = (h.arena.call c).2 from rfl, hh.valid.find?_call_eq_some_iff,
      show (h.perform c).entries = h.entries ++ [⟨c, (h.arena.call c).1⟩] from rfl, stands_concat]
    simp only [hh.stands]
  gone id f hgone := by
    rcases List.mem_append.1 hgone with hgone | hgone
    · obtain ⟨hgiven, hnone⟩ := hh.gone id f hgone
      refine ⟨?_, hh.valid.find?_call_of_used (hh.used id hgiven) hnone c⟩
      rw [given_perform]
      exact List.mem_append_left _ hgiven
    · obtain ⟨rfl, hanswer⟩ := ArenaEntry.mk.injEq .. ▸ List.mem_singleton.1 hgone
      rw [FrameArena.call_remove] at hanswer
      obtain ⟨frames, hremove, heq⟩ :=
        FrameArena.exists_of_call_remove (ArenaAnswer.found.inj hanswer).symm
      rw [given_perform_of_ne h (by simp)]
      refine ⟨hh.mem_given (ArenaAnswer.found.inj hanswer).symm, ?_⟩
      simp [ArenaHistory.perform, heq, FrameArena.find?_remove_self hremove]
  counted := hh.counted_perform c

theorem faithful_after (calls : List ArenaCall) : (after calls).Faithful := by
  suffices hrun : ∀ h : ArenaHistory, h.Faithful → (calls.foldl ArenaHistory.perform h).Faithful by
    refine hrun _ ⟨FrameArena.valid_empty, ?_, .nil, ?_, ?_, rfl⟩
    · simp [given]
    · simp [FrameArena.find?, FrameArena.empty, Stands]
    · simp
  induction calls with
  | nil => exact fun h hh => hh
  | cons c calls ih => exact fun h hh => ih _ (hh.perform c)

/-- Whatever calls are made of an arena, no name is given twice. A name leads to a frame exactly if
the frame was stored under it and not removed since; the frame is then as it was stored, with the
changes under this name and no others, and a removal answers it. Once it was removed the name leads
nowhere. The free list names the empty slots, each of them once, and the size is the number of names
that lead to a frame. -/
theorem names_lead_to_frames (calls : List ArenaCall) :
    (after calls).given.Nodup ∧
      (∀ id g, (after calls).arena.find? id = some g ↔ Stands (after calls).entries id g) ∧
      (∀ id, ((after calls).arena.call (.remove id)).1 = .found ((after calls).arena.find? id)) ∧
      (∀ id f, ⟨.remove id, .found (some f)⟩ ∈ (after calls).entries →
        (after calls).arena.find? id = none) ∧
      (after calls).arena.Valid ∧ (after calls).arena.size = (after calls).live.length := by
  have hh := faithful_after calls
  exact ⟨hh.nodup, hh.stands, FrameArena.call_remove _, fun id f hgone => (hh.gone id f hgone).2,
    hh.valid, hh.counted⟩

/-- The slot of the first frame is used again for the third one, under a new name; a second removal
under the old name does not reach it. -/
theorem names_lead_to_frames_reusedSlot :
    let f := Frame.start ⟨0⟩ ⟨.addGoal, .atom "tidy"⟩ ∅ none
    let h := after [.insert f, .insert f, .modify ⟨1, 0⟩ fun f => { f with pc := 1 },
      .remove ⟨0, 0⟩, .insert f, .remove ⟨0, 0⟩]
    h.given = [⟨0, 0⟩, ⟨1, 0⟩, ⟨0, 1⟩] ∧ h.live = [⟨1, 0⟩, ⟨0, 1⟩] ∧ h.given.Nodup ∧
      ⟨.remove ⟨0, 0⟩, .found (some f)⟩ ∈ h.entries ∧ h.arena.find? ⟨0, 0⟩ = none ∧
      Stands h.entries ⟨1, 0⟩ { f with pc := 1 } ∧ Stands h.entries ⟨0, 1⟩ f ∧
      h.arena.size = 2 := by
  intro f h
  obtain ⟨hnodup, hstands, _, hgone, _, hsize⟩ := names_lead_to_frames
    [.insert f, .insert f, .modify ⟨1, 0⟩ fun f => { f with pc := 1 }, .remove ⟨0, 0⟩, .insert f,
      .remove ⟨0, 0⟩]
  have hlive : h.live = [⟨1, 0⟩, ⟨0, 1⟩] := rfl
  have hremoved : ⟨.remove ⟨0, 0⟩, .found (some f)⟩ ∈ h.entries :=
    List.mem_of_getElem? (show h.entries[3]? = _ from rfl)
  exact ⟨rfl, hlive, hnodup, hremoved, hgone _ f hremoved, (hstands _ _).1 rfl, (hstands _ _).1 rfl,
    hsize.trans (congrArg List.length hlive)⟩

end ArenaHistory
end Deliberation
