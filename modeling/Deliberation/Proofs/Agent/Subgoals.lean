import Deliberation.Proofs.Agent.Scope

/-!
The returns from sub-goals in a run.

If no annotation has variables, every return from a sub-goal binds exactly the variables of the
sub-goal, and the sub-goal under the new bindings is what was handed back. Where annotations do have
variables, those that stand in annotations only are handed back as they are, and may then mean
something else to the frame that waited.
-/

namespace Deliberation

variable {notes : Prop}

/-- The sub-goal that a frame waits for is resolved: none of its variables is bound. Where it is
not, the bindings run in a circle, and resolving them has no end. -/
def Frame.IsResolved (g : Frame) : Prop :=
  ∀ goal, g.awaiting = some goal → ∀ x ∈ goal.names, g.bindings.find? x = none

namespace Agent

variable {a b : Agent} {f g : Frame} {operations : List Operation} {spec : AgentSpec}

/-- In the step that is next in turn for `a` the frame `f` ends in success, when the agent has
become `b`, and `g` waits for it. -/
inductive Returns (a b : Agent) (f g : Frame) : Prop
  | intro {place : Nat} {i : Intention} {id parent : FrameId} {rest : List FrameId} :
      a.awake.pending = [] → a.awake.runnable? = some place →
      Round a.awake place i (id :: rest) b none → b.frames.find? id = some f →
      f.parent = some parent → b.frames.find? parent = some g → Returns a b f g

/-- The return in the turn of the intention that is next, if its top frame ends in success there. -/
def returning? (a : Agent) : Option (Agent × Frame × Frame) :=
  match a.awake.pending, a.awake.runnable? with
  | [], some place =>
    match a.awake.turn place with
    | .ends b none => do
      let i ← b.intentions[place]?
      let f ← b.frames.find? (← i.stack.head?)
      let g ← b.frames.find? (← f.parent)
      return (b, f, g)
    | _ => none
  | _, _ => none

theorem returns_of_returning? (h : a.returning? = some (b, f, g)) : a.Returns b f g := by
  unfold returning? at h
  split at h
  · rename_i place hpending hplace
    split at h
    · rename_i c hturn
      simp only [Option.bind_eq_bind, Option.bind_eq_some_iff, pure, Option.some.injEq,
        Prod.mk.injEq] at h
      obtain ⟨i, hi, id, hid, f', hf, parent, hparent, g', hg, rfl, rfl, rfl⟩ := h
      obtain ⟨rest, hstack⟩ := List.head?_eq_some_iff.1 hid
      have hround := Round.first hturn hi
      rw [hstack] at hround
      exact .intro hpending hplace hround hf hparent hg
    · contradiction
  · contradiction

theorem tickAnswers_of_isEmpty (h : a.awake.actions.isEmpty = true) : a.TickAnswers notes := by
  intro place _ _ s call _ action haction
  have hentries : a.awake.actions.actions.entries = [] := List.isEmpty_iff.1 h
  simp [ActionRegistry.find?, SortedMap.find?, hentries] at haction

/-- An agent without actions may tick on. -/
theorem admits_ticks {n : Nat}
    (h : ∀ k < n, (a.performAll (.replicate k .tick)).awake.actions.isEmpty = true) :
    a.Admits (Allows notes) (.replicate n .tick) := by
  induction n generalizing a with
  | zero => trivial
  | succ n ih =>
      refine ⟨tickAnswers_of_isEmpty (h 0 (by omega)), ih fun k hk => ?_⟩
      exact h (k + 1) (by omega)

theorem admits_append {allowed : Agent → Operation → Prop} {rest : List Operation}
    (h : a.Admits allowed (operations ++ rest)) :
    a.Admits allowed operations ∧ (a.performAll operations).Admits allowed rest := by
  induction operations generalizing a with
  | nil => exact ⟨trivial, h⟩
  | cons op operations ih => exact ⟨⟨h.1, (ih h.2).1⟩, (ih h.2).2⟩

/-- At every return the frame that ends serves the one that waits. -/
theorem Returns.serves (hspec : spec.HasPlainNames notes) (hbuild : spec.build = .ok a)
    (hrun : a.Admits (Allows notes) (operations ++ [.tick]))
    (h : (a.performAll operations).Returns b f g) :
    ∃ goal, f.Serves notes b.fresh g goal ∧ f.Fits notes b.fresh ∧ g.Fits notes b.fresh := by
  obtain ⟨hoperations, htick⟩ := admits_append hrun
  obtain ⟨hsound, hscoped⟩ := scoped_performAll hspec hbuild hoperations
  obtain ⟨hpending, hplace, hround, hf, hparent, hg⟩ := h
  have hb := hscoped.awake.round hsound.awake (htick.1 _ hpending hplace) hround
  obtain ⟨g', goal, hg', hserves⟩ := hb.frames.serves _ f _ hf hparent
  rw [hg] at hg'
  obtain rfl := Option.some.inj hg'
  exact ⟨goal, hserves, hb.frames.fits _ f hf, hb.frames.fits _ g hg⟩

/-- Without variables in annotations every return from a sub-goal succeeds. The frame that waited
keeps its bindings, the variables of the sub-goal are newly bound and no others are, no circle
arises, and the sub-goal under the new bindings has the arguments that were handed back. -/
theorem return_binds_subgoal (hspec : spec.HasPlainNames False) (hbuild : spec.build = .ok a)
    (hrun : a.Admits (Allows False) (operations ++ [.tick]))
    (hreturn : (a.performAll operations).Returns b f g) (hacyclic : g.bindings.Acyclic) :
    ∃ goal s, g.awaiting = some goal ∧
      (∀ degree, g.resume degree none (f.answer none b.fresh).1 =
        ({ g with
          state := .running
          awaiting := none
          degrees := g.degrees ++ [degree]
          bindings := s }, none)) ∧
      s.Extends g.bindings ∧
      (∀ x, (g.bindings.find? x = none ∧ s.find? x ≠ none) ↔ x ∈ goal.names) ∧
      s.Acyclic ∧
      (s.applyLiteral goal).arguments = (f.instantiated.freshen b.fresh).1.arguments := by
  obtain ⟨goal, hserves, hf, hg⟩ := hreturn.serves hspec hbuild hrun
  obtain ⟨τ, s, hret⟩ :=
    hserves.return hf hg.bindings fun x hx => hserves.find?_eq_none hacyclic hx
  have hgoalNotes : goal.noteNames = [] := by
    obtain ⟨k, _, hgoal, _⟩ := hserves.trigger
    exact hgoal.notes.resolve_left not_false
  have hnotes : f.instantiated.noteNames = [] := hf.instantiated.notes.resolve_left not_false
  have hclean : Frame.Return.Clean f g b.fresh s := by
    intro x t hx ht y hy
    rcases hret.mem_allNames hx ht hy with hgenerated | hstray
    · exact hgenerated
    · simp [Literal.strayNames, hnotes] at hstray
  refine ⟨goal, s, hserves.awaiting, hret.resume_eq hserves.awaiting, hret.bindings_extends,
    hret.binds_iff, hclean.acyclic hret hacyclic, ?_⟩
  rw [hclean.applyLiteral_eq hret hgoalNotes]

/-- An agent with two plans that share a variable. The sub-goal hands back the `Y` of its own
plan. -/
def sharedNames : AgentSpec where
  id := ⟨1⟩
  config := .default
  library := .ofPlans
    [⟨⟨.addGoal, .atom "main"⟩, none,
      [.assign "Y" (.term (.atom "secret")),
        .achieve (.of "make" [.variable "A", .variable "B"])], false⟩,
     ⟨⟨.addGoal, .of "make" [.sequence [.variable "X", .variable "Y"], .variable "Z"]⟩, none,
      [.assign "X" (.term (.atom "one"))], false⟩]
  actions := .empty
  scorer := weightScorer
  hearing := none
  beliefs := []
  goals := [.atom "main"]

theorem return_binds_subgoal_sharedNames :
    ∃ (a b : Agent) (f g : Frame) (goal : Literal) (s : Substitution),
      sharedNames.build = .ok a ∧ (a.performAll (.replicate 3 .tick)).Returns b f g ∧
      g.awaiting = some goal ∧ g.bindings.render = "\x7bY -> secret\x7d" ∧
      s.Extends g.bindings ∧
      (∀ x, (g.bindings.find? x = none ∧ s.find? x ≠ none) ↔ x ∈ goal.names) ∧ s.Acyclic ∧
      (s.applyLiteral goal).arguments.map Term.render = ["[one, Y#3]", "B#2#4"] := by
  obtain ⟨a, hbuild, hactions, ⟨b, f, g⟩, hreturning, hrender, hground, harguments⟩ :
      ∃ a, sharedNames.build = .ok a ∧
        (∀ k < 4, (a.performAll (.replicate k .tick)).awake.actions.isEmpty = true) ∧
        ∃ r ∈ (a.performAll (.replicate 3 .tick)).returning?,
          r.2.2.bindings.render = "\x7bY -> secret\x7d" ∧
          (∀ entry ∈ r.2.2.bindings.toList, ∀ y ∈ entry.2.allNames, 0 < 0) ∧
          (r.2.1.instantiated.freshen r.1.fresh).1.arguments.map Term.render =
            ["[one, Y#3]", "B#2#4"] :=
    ⟨_, rfl, by decide +kernel, by decide +kernel⟩
  have hreturn := returns_of_returning? hreturning
  have hacyclic : g.bindings.Acyclic := Substitution.acyclic_of_rank (fun _ => 0) hground
  obtain ⟨goal, s, hgoal, _, hextends, hbinds, hs, hresult⟩ :=
    return_binds_subgoal (by decide +kernel) hbuild (admits_ticks hactions) hreturn hacyclic
  exact ⟨a, b, f, g, goal, s, hbuild, hreturn, hgoal, hrender, hextends, hbinds, hs,
    hresult ▸ harguments⟩

/-- A variable in a value that a return from a sub-goal newly binds was made up for the return,
unless it stands in annotations only in what was handed back. One that was made up is not known
before and not bound, so without the others no circle arises. -/
theorem return_hygienic_iff (hspec : spec.HasPlainNames True) (hbuild : spec.build = .ok a)
    (hrun : a.Admits (Allows True) (operations ++ [.tick]))
    (hreturn : (a.performAll operations).Returns b f g) (hresolved : g.IsResolved) :
    ∃ goal s, g.awaiting = some goal ∧
      (∀ degree, g.resume degree none (f.answer none b.fresh).1 =
        ({ g with
          state := .running
          awaiting := none
          degrees := g.degrees ++ [degree]
          bindings := s }, none)) ∧
      (∀ x t, g.bindings.find? x = none → s.find? x = some t → ∀ y ∈ t.allNames,
        (y ∈ f.instantiated.generated b.fresh ↔ y ∉ f.instantiated.strayNames) ∧
        (y ∈ f.instantiated.generated b.fresh → ¬ Known b.fresh y ∧ s.find? y = none)) ∧
      ((∀ x t, g.bindings.find? x = none → s.find? x = some t → ∀ y ∈ t.allNames,
          y ∉ f.instantiated.strayNames) →
        g.bindings.Acyclic → s.Acyclic) := by
  obtain ⟨goal, hserves, hf, hg⟩ := hreturn.serves hspec hbuild hrun
  obtain ⟨τ, s, hret⟩ := hserves.return hf hg.bindings (hresolved goal hserves.awaiting)
  have hmade {x y : String} {t : Term} (hx : g.bindings.find? x = none) (ht : s.find? x = some t)
      (hy : y ∈ t.allNames) (hstray : y ∉ f.instantiated.strayNames) :
      y ∈ f.instantiated.generated b.fresh :=
    (hret.mem_allNames hx ht hy).resolve_right hstray
  refine ⟨goal, s, hserves.awaiting, hret.resume_eq hserves.awaiting, ?_, ?_⟩
  · intro x t hx ht y hy
    refine ⟨⟨fun hgenerated hstray => ?_, hmade hx ht hy⟩, fun hgenerated => ?_⟩
    · have hnote := (Literal.mem_strayNames.1 hstray).1
      have hknown := hf.instantiated.names y ((mem_allNames_iff.2 _ y).2 (Or.inr hnote))
      exact Literal.not_known_of_mem_generated hgenerated hknown
    · exact ⟨Literal.not_known_of_mem_generated hgenerated, hret.unbound y hgenerated⟩
  · intro hnone hacyclic
    have hclean : Frame.Return.Clean f g b.fresh s :=
      fun x t hx ht y hy => hmade hx ht hy (hnone x t hx ht y hy)
    exact hclean.acyclic hret hacyclic

/-- An agent with two plans that share a variable. The sub-goal hands back the `Y` of its own plan
in an annotation, where it is not renamed. -/
def sharedNote : AgentSpec where
  id := ⟨1⟩
  config := .default
  library := .ofPlans
    [⟨⟨.addGoal, .atom "main"⟩, none,
      [.assign "Y" (.term (.atom "secret")), .achieve (.of "make" [.variable "A"]),
        .addBelief (.of "got" [.variable "A"])], false⟩,
     ⟨⟨.addGoal, .of "make" [.literal ((Literal.atom "q").annotate (.of "src" [.variable "Y"]))]⟩,
      none, [], false⟩]
  actions := .empty
  scorer := weightScorer
  hearing := none
  beliefs := []
  goals := [.atom "main"]

theorem return_hygienic_iff_sharedNote :
    ∃ (a b : Agent) (f g : Frame) (s : Substitution) (t : Term),
      sharedNote.build = .ok a ∧ (a.performAll (.replicate 3 .tick)).Returns b f g ∧
      g.IsResolved ∧ (g.resume 1 none (f.answer none b.fresh).1).1.bindings = s ∧
      g.bindings.find? "A" = none ∧ s.find? "A" = some t ∧ "Y" ∈ t.allNames ∧
      "Y" ∉ f.instantiated.generated b.fresh ∧
      (s.apply (.variable "A")).render = "q[src(secret)]" := by
  obtain ⟨a, hbuild, hactions, ⟨b, f, g⟩, hreturning, hresolved, hunbound, ⟨t, ht, hname⟩, hstray,
      hcaptured⟩ :
      ∃ a, sharedNote.build = .ok a ∧
        (∀ k < 4, (a.performAll (.replicate k .tick)).awake.actions.isEmpty = true) ∧
        ∃ r ∈ (a.performAll (.replicate 3 .tick)).returning?,
          (∀ goal ∈ r.2.2.awaiting, ∀ x ∈ goal.names, r.2.2.bindings.find? x = none) ∧
          r.2.2.bindings.find? "A" = none ∧
          (∃ t ∈ (r.2.2.resume 1 none (r.2.1.answer none r.1.fresh).1).1.bindings.find? "A",
            "Y" ∈ t.allNames) ∧
          "Y" ∈ r.2.1.instantiated.strayNames ∧
          ((r.2.2.resume 1 none (r.2.1.answer none r.1.fresh).1).1.bindings.apply
            (.variable "A")).render = "q[src(secret)]" :=
    ⟨_, rfl, by decide +kernel, by decide +kernel⟩
  have hreturn := returns_of_returning? hreturning
  obtain ⟨goal, s, _, hresume, hmade, _⟩ :=
    return_hygienic_iff (by decide +kernel) hbuild (admits_ticks hactions) hreturn hresolved
  rw [hresume] at ht hcaptured
  refine ⟨a, b, f, g, s, t, hbuild, hreturn, hresolved, by rw [hresume], hunbound, ht, hname, ?_,
    hcaptured⟩
  exact fun hgenerated => (hmade "A" t hunbound ht "Y" hname).1.1 hgenerated hstray

end Agent
end Deliberation
