import Deliberation.Proofs.Belief.Removal

/-!
Asking for beliefs by the start of their functor.

Paths are ordered segment by segment, so those with a common start stand together: the start itself
comes first, wherever it would stand if it is not there, and nothing else comes in between. A
question that reads the functors in order from the start on, up to the first without it, therefore
finds exactly the beliefs that a look at all of them would.
-/

namespace Deliberation

/-! ### Paths with a common start -/

namespace Path

variable {p q start : Path}

theorem startsWith_iff : p.startsWith start = true ↔ start.segments <+: p.segments :=
  List.isPrefixOf_iff_prefix

/-- A path is not smaller than its start. -/
theorem not_lt_of_startsWith (h : p.startsWith start = true) : ¬ p < start :=
  (startsWith_iff.1 h).le

theorem startsWith_of_between (hle : ¬ p < start) (hlt : p < q) (h : q.startsWith start = true) :
    p.startsWith start = true :=
  startsWith_iff.2 (List.isPrefix_of_between hle hlt (startsWith_iff.1 h))

end Path

/-! ### Answers -/

namespace BeliefBase

variable {b : BeliefBase}

/-- The answer to a question is the list of all beliefs without those whose functor has another
start. -/
theorem query_eq_filter_toList (hb : b.Reached) (start : Path) :
    b.query start = b.toList.filter fun l => l.functor.startsWith start := by
  have hrun := b.buckets.takeWhile_dropWhile_eq_filter (P := fun p => p.startsWith start)
    (fun _ => Path.not_lt_of_startsWith) fun _ _ => Path.startsWith_of_between
  have hfiled : ∀ e ∈ b.buckets.entries, ∀ l ∈ e.2, l.functor = e.1 :=
    fun e he l hl => (hb.wellFormed.filed e he l hl).1
  rw [query, hrun, toList, List.filter_flatMap_of_key hfiled fun p => p.startsWith start]

/-- Beliefs about `first/sub1`, `first/sub1/deep` and `first/sub2`, with none about `first` itself
and one about `firstx` right behind them. -/
theorem query_eq_filter_toList_first :
    let add (functor : String) := BeliefOperation.call (.add (Literal.atom functor))
    let b := (BeliefHistory.after [add "second/sub3", add "first/sub2", add "firstx",
      add "first/sub1/deep", add "first/sub1", add "fire"]).base
    let found (start : String) := (b.query (Path.parse start)).map fun l => l.functor.segments
    found "first" = [["first", "sub1"], ["first", "sub1", "deep"], ["first", "sub2"]] ∧
      found "fir" = [] ∧ found "" = b.toList.map fun l => l.functor.segments := by
  intro add b found
  have hb : b.Reached := BeliefHistory.reached_after _
  have hfound (start : String) : found start =
      (b.toList.filter fun l => l.functor.startsWith (Path.parse start)).map fun l =>
        l.functor.segments := by
    simp only [found, query_eq_filter_toList hb]
  rw [hfound, hfound, hfound]
  decide +kernel

end BeliefBase
end Deliberation
