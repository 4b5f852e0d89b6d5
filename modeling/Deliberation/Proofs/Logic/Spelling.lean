import Deliberation.Logic.Path
import Mathlib.Data.List.DropRight
import Mathlib.Tactic.MkIffOfInductiveProp

/-!
How texts spell paths.

Blanks spell nothing, a segment may have blanks around it, and a slash joins what stands on its two
sides. Reading a text gives the one path that it spells by these rules. All segments that can be
spelled are of one kind, and a path made of such segments is spelled by the text that shows it. So
what was read once is read again from what is shown, and the paths that texts can name are exactly
those with such segments.
-/

namespace Deliberation

/-! ### Trimming -/

namespace Text

variable {cs before after : List Char}

/-- There is nothing but blanks. -/
def AllBlank (cs : List Char) : Prop :=
  ∀ c ∈ cs, isBlank c = true

/-- No blank stands at either end. -/
def Trimmed (cs : List Char) : Prop :=
  (∀ c ∈ cs.head?, isBlank c = false) ∧ ∀ c ∈ cs.getLast?, isBlank c = false

instance : DecidablePred Trimmed := fun cs =>
  decidable_of_iff (cs.head?.all (!isBlank ·) = true ∧ cs.getLast?.all (!isBlank ·) = true)
    (by simp [Trimmed, Option.all_eq_true])

theorem trim_eq_rdropWhile (cs : List Char) :
    trim cs = (cs.dropWhile isBlank).rdropWhile isBlank :=
  rfl

theorem head?_dropWhile_isBlank (cs : List Char) :
    ∀ c ∈ (cs.dropWhile isBlank).head?, isBlank c = false := by
  intro c hc
  have hfirst := List.head?_dropWhile_not isBlank cs
  rwa [Option.mem_def.1 hc] at hfirst

theorem dropWhile_isBlank_append (hbefore : AllBlank before)
    (hcs : ∀ c ∈ cs.head?, isBlank c = false) : (before ++ cs).dropWhile isBlank = cs := by
  rw [List.dropWhile_append_of_pos hbefore]
  cases cs with
  | nil => rfl
  | cons c cs => simp [hcs c rfl]

/-- What trimming takes away is blank. -/
theorem exists_blanks_around_trim (cs : List Char) :
    ∃ before after : List Char,
      AllBlank before ∧ AllBlank after ∧ cs = before ++ trim cs ++ after := by
  refine ⟨cs.takeWhile isBlank, (cs.dropWhile isBlank).rtakeWhile isBlank,
    fun _ => List.mem_takeWhile_imp, fun _ => List.mem_rtakeWhile_imp, ?_⟩
  rw [trim_eq_rdropWhile, List.append_assoc, List.rdropWhile_append_rtakeWhile,
    List.takeWhile_append_dropWhile]

theorem trimmed_trim (cs : List Char) : Trimmed (trim cs) := by
  constructor
  · intro c hc
    -- trimming the end leaves the first character in its place
    obtain ⟨after, hafter⟩ := List.rdropWhile_prefix isBlank (cs.dropWhile isBlank)
    have hfirst := head?_dropWhile_isBlank cs
    rw [trim_eq_rdropWhile, Option.mem_def] at hc
    rw [← hafter, List.head?_append, hc] at hfirst
    exact hfirst c rfl
  · rw [trim, List.getLast?_reverse]
    exact head?_dropWhile_isBlank _

/-- Trimming takes away no more than the blanks around a trimmed text. -/
theorem trim_append_blanks (hbefore : AllBlank before) (hcs : Trimmed cs) (hne : cs ≠ [])
    (hafter : AllBlank after) : trim (before ++ cs ++ after) = cs := by
  have hfirst : ∀ c ∈ (cs ++ after).head?, isBlank c = false := by
    rw [List.head?_append_of_ne_nil cs hne]
    exact hcs.1
  have hlast : ∀ c ∈ cs.reverse.head?, isBlank c = false := by
    rw [List.head?_reverse]
    exact hcs.2
  have hafter' : AllBlank after.reverse := fun c hc => hafter c (List.mem_reverse.1 hc)
  rw [trim, List.append_assoc, dropWhile_isBlank_append hbefore hfirst, List.reverse_append,
    dropWhile_isBlank_append hafter' hlast, List.reverse_reverse]

theorem AllBlank.trim_eq_nil (h : AllBlank cs) : trim cs = [] := by
  rw [trim, List.dropWhile_eq_nil_iff.2 h]
  rfl

theorem AllBlank.slash_not_mem (h : AllBlank cs) : '/' ∉ cs := by
  intro hslash
  have hblank : isBlank '/' = true := h _ hslash
  exact absurd hblank (by decide)

end Text

namespace Path

variable {s w : String} {segments : List String}

/-! ### Spelling -/

/-- A segment as it can be spelled: it is not empty, no slash is in it and no blank at its ends. -/
@[mk_iff]
structure IsSegment (w : String) : Prop where
  ne_empty : w ≠ ""
  slashless : '/' ∉ w.toList
  trimmed : Text.Trimmed w.toList

instance : DecidablePred IsSegment := fun w => decidable_of_iff' _ (isSegment_iff w)

/-- A text spells the segments of a path. -/
inductive Spells : String → List String → Prop
  | blank {s : String} : Text.AllBlank s.toList → Spells s []
  | segment {before w after : String} : Text.AllBlank before.toList → IsSegment w →
      Text.AllBlank after.toList → Spells (before ++ w ++ after) [w]
  | join {left right : String} {ws vs : List String} : Spells left ws → Spells right vs →
      Spells (left ++ "/" ++ right) (ws ++ vs)

theorem Spells.isSegment (h : Spells s segments) : ∀ w ∈ segments, IsSegment w := by
  induction h with
  | blank => exact List.forall_mem_nil _
  | segment _ hw _ => exact List.forall_mem_singleton.2 hw
  | join _ _ hleft hright => exact List.forall_mem_append.2 ⟨hleft, hright⟩

theorem spells_of_isSegment (hw : IsSegment w) : Spells w [w] := by
  have hblank : Text.AllBlank "".toList := List.forall_mem_nil _
  simpa using Spells.segment hblank hw hblank

theorem spells_intercalate (h : ∀ w ∈ segments, IsSegment w) :
    Spells ("/".intercalate segments) segments := by
  induction segments with
  | nil => exact .blank (List.forall_mem_nil _)
  | cons w rest ih =>
      rw [List.forall_mem_cons] at h
      have hw := spells_of_isSegment h.1
      cases rest with
      | nil => simpa using hw
      | cons v rest =>
          rw [String.intercalate_cons_cons]
          exact hw.join (ih h.2)

/-! ### Reading -/

theorem splitSlashes_eq_splitOn (cs : List Char) : splitSlashes cs = cs.splitOn '/' := by
  induction cs with
  | nil => rfl
  | cons c cs ih =>
      rw [splitSlashes, ih, List.splitOn_cons_eq_if_modifyHead]
      cases hpieces : cs.splitOn '/' with
      | nil => exact absurd hpieces (List.splitOn_ne_nil _ _)
      | cons piece pieces => simp

/-- A slash divides the reading of a text. -/
theorem segments_parse_join (left right : String) :
    (parse (left ++ "/" ++ right)).segments = (parse left).segments ++ (parse right).segments := by
  have htext : (left ++ "/" ++ right).toList = left.toList ++ '/' :: right.toList := by simp
  simp only [parse, htext, splitSlashes_eq_splitOn, List.splitOn_append_cons_self, List.map_append,
    List.filter_append]

theorem segments_parse_of_slashless (h : '/' ∉ s.toList) :
    (parse s).segments =
      if Text.trim s.toList = [] then [] else [String.ofList (Text.trim s.toList)] := by
  simp only [parse, splitSlashes_eq_splitOn, List.splitOn_eq_singleton h]
  split <;> simp [*]

/-- Reading finds what a text spells. -/
theorem Spells.segments_parse (h : Spells s segments) : (parse s).segments = segments := by
  induction h with
  | blank hs =>
      rw [segments_parse_of_slashless hs.slash_not_mem, if_pos hs.trim_eq_nil]
  | @segment before w after hbefore hw hafter =>
      have hne : w.toList ≠ [] := by simpa using hw.ne_empty
      have htrim : Text.trim (before ++ w ++ after).toList = w.toList := by
        rw [String.toList_append, String.toList_append]
        exact Text.trim_append_blanks hbefore hw.trimmed hne hafter
      have hslash : '/' ∉ (before ++ w ++ after).toList := by
        simp [hbefore.slash_not_mem, hw.slashless, hafter.slash_not_mem]
      rw [segments_parse_of_slashless hslash, htrim, if_neg hne, String.ofList_toList]
  | join _ _ hleft hright => rw [segments_parse_join, hleft, hright]

/-- A text without slashes spells at most one segment, which is what trimming leaves. -/
theorem spells_parse_of_slashless (h : '/' ∉ s.toList) : Spells s (parse s).segments := by
  obtain ⟨before, after, hbefore, hafter, hs⟩ := Text.exists_blanks_around_trim s.toList
  rw [segments_parse_of_slashless h]
  by_cases htrim : Text.trim s.toList = []
  · rw [if_pos htrim]
    refine .blank fun c hc => ?_
    rw [hs, htrim, List.append_nil] at hc
    exact (List.mem_append.1 hc).elim (hbefore c) (hafter c)
  · rw [if_neg htrim]
    have hslash : '/' ∉ Text.trim s.toList := by
      rw [hs] at h
      simp only [List.mem_append, not_or] at h
      exact h.1.2
    have hw : IsSegment (String.ofList (Text.trim s.toList)) :=
      ⟨by simpa using htrim, by simpa using hslash, by simpa using Text.trimmed_trim s.toList⟩
    have htext : s =
        String.ofList before ++ String.ofList (Text.trim s.toList) ++ String.ofList after := by
      rw [← String.toList_inj]
      simpa using hs
    -- only the text itself is taken apart, not the one inside the segment
    nth_rewrite 1 [htext]
    exact .segment (by simpa using hbefore) hw (by simpa using hafter)

/-- Every text spells what reading finds. -/
theorem spells_parse (s : String) : Spells s (parse s).segments := by
  induction hn : s.length using Nat.strong_induction_on generalizing s with
  | h n ih =>
      by_cases hslash : '/' ∈ s.toList
      · obtain ⟨left, right, htext⟩ := List.append_of_mem hslash
        have hs : s = String.ofList left ++ "/" ++ String.ofList right := by
          rw [← String.toList_inj]
          simpa using htext
        -- both sides of a slash are shorter than the text
        have hlength : left.length + right.length + 1 = n := by
          rw [← hn, ← String.length_toList, htext, List.length_append, List.length_cons]
          omega
        rw [hs, segments_parse_join]
        exact .join (ih left.length (by omega) _ (by simp)) (ih right.length (by omega) _ (by simp))
      · exact spells_parse_of_slashless hslash

theorem parse_eq_iff_spells {p : Path} : parse s = p ↔ Spells s p.segments := by
  constructor
  · rintro rfl
    exact spells_parse s
  · intro h
    cases p
    exact congrArg Path.mk h.segments_parse

theorem parse_intercalate (h : ∀ w ∈ segments, IsSegment w) :
    parse ("/".intercalate segments) = ⟨segments⟩ :=
  parse_eq_iff_spells.2 (spells_intercalate h)

/-- Reading a text gives the path that it spells, whose segments are not empty and have neither
slashes in them nor blanks at their ends, and gives it again from what is shown of it. The lists of
segments that are read again from their text, with slashes in between, are exactly those with such
segments only. -/
theorem parse_normal_form :
    (∀ s : String, Spells s (parse s).segments ∧ (∀ w ∈ (parse s).segments, IsSegment w) ∧
        parse (parse s).render = parse s) ∧
      ∀ segments : List String,
        parse ("/".intercalate segments) = ⟨segments⟩ ↔ ∀ w ∈ segments, IsSegment w := by
  constructor
  · intro s
    have hspells := spells_parse s
    exact ⟨hspells, hspells.isSegment, parse_intercalate hspells.isSegment⟩
  · intro segments
    constructor
    · intro h
      exact (parse_eq_iff_spells.1 h).isSegment
    · exact parse_intercalate

/-- A text with blanks of several kinds and slashes to spare, and segments that no text spells. -/
theorem parse_normal_form_padded :
    let s := "\u3000/ first //\u00a0sub 1\t/\n"
    (parse s).segments = ["first", "sub 1"] ∧ (parse s).render = "first/sub 1" ∧
      parse "first/sub 1" = parse s ∧ (∀ w ∈ ["first", "sub 1"], IsSegment w) ∧
      parse ("/".intercalate ["a/b", "c"]) ≠ ⟨["a/b", "c"]⟩ := by
  intro s
  have hsegments : (parse s).segments = ["first", "sub 1"] := by decide +kernel
  have hrender : (parse s).render = "first/sub 1" := by decide +kernel
  obtain ⟨_, hall, hback⟩ := parse_normal_form.1 s
  refine ⟨hsegments, hrender, hrender ▸ hback, hsegments ▸ hall, fun h => ?_⟩
  exact absurd ((parse_normal_form.2 _).1 h "a/b" List.mem_cons_self) (by decide +kernel)

end Path
end Deliberation
