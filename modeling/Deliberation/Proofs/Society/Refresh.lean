import Deliberation.Proofs.Number.Rational
import Deliberation.Proofs.Society.Run
import Mathlib.Data.List.Forall2
import Mathlib.Tactic.NormNum

/-!
When a refresh may skip the work.

A refresh trusts fingerprints, and a fingerprint is a digest of the text of a snapshot. To compare
what it answers with what a recompute would answer, a run is watched: beside the population stands
the population as the last recompute found it. The answer that is kept is the one for that
population, and the fingerprints that are kept are those of its members.

Where no two texts share a digest, a refresh is right in every run if and only if published
snapshots with the same text look the same. Different terms can have the same text, so it is not
right in general.
-/

namespace Deliberation

variable {α : Type} [Scalar α]

/-! ### Watched runs -/

/-- Whether an operation looks at the members. -/
def Population.looks (p : Population α) : PopulationOperation → Bool
  | .recompute => true
  | .refresh => p.changed || p.last.isNone
  | .add _ _ _ | .remove _ | .publish _ _ => false

/-- A population, and the one that was there when its members were last looked at. -/
structure Watched (α : Type) where
  population : Population α
  looked : Option (Population α)

namespace Watched

def perform (w : Watched α) (op : PopulationOperation) : Watched α :=
  ⟨w.population.perform op, if w.population.looks op then some w.population else w.looked⟩

def performAll (w : Watched α) (operations : List PopulationOperation) : Watched α :=
  operations.foldl perform w

/-- Watching changes nothing. -/
theorem population_performAll (w : Watched α) (operations : List PopulationOperation) :
    (w.performAll operations).population = w.population.performAll operations := by
  induction operations generalizing w with
  | nil => rfl
  | cons op rest ih => exact ih (w.perform op)

end Watched

namespace Population

theorem refresh_of_looks {p : Population α} (h : p.looks .refresh = true) :
    p.refresh = p.recompute := by
  cases hchanged : p.changed with
  | true => simp [refresh, hchanged]
  | false =>
      have hlast : p.last = none := by simpa [looks, hchanged] using h
      simp [refresh, hlast]

/-- A refresh that does not look gives the last answer. -/
theorem refresh_of_not_looks {p : Population α} (h : p.looks .refresh = false) :
    ∃ v, p.last = some v ∧ p.refresh = (v, p) := by
  simp only [looks, Bool.or_eq_false_iff] at h
  obtain ⟨v, hlast⟩ := Option.isSome_iff_exists.1 (Option.isNone_eq_false_iff.1 h.2)
  exact ⟨v, hlast, by simp [refresh, h.1, hlast]⟩

end Population

/-! ### What a run remembers -/

/-- A member carries the fingerprint of what was seen of another, which is itself at the time of the
last look. -/
structure Member.Marked (kind : Snapshot → Prop) (m before : Member α) : Prop where
  id : m.id = before.id
  published : kind before.snapshot
  seen : m.seen = some before.snapshot.fingerprint

/-- The last answer is the one for the population that was looked at, and unless members came or
went since, they are marked with what was seen of them. -/
structure Watched.Recalls (kind : Snapshot → Prop) (w : Watched α) : Prop where
  settings : ∀ q, w.looked = some q → q.SameSettings w.population
  answered : w.population.last = w.looked.map fun q => q.recompute.1
  published : ∀ m ∈ w.population.members, kind m.snapshot
  marked : w.population.dirty = false →
    ∃ q, w.looked = some q ∧ List.Forall₂ (Member.Marked kind) w.population.members q.members

namespace Watched.Recalls

variable {kind : Snapshot → Prop} {w : Watched α}

/-- Nobody has looked at a new population. -/
theorem start (kind : Snapshot → Prop) {config : ConsistencyConfig α}
    {observe : Snapshot → List Literal} {metric : Metric α} {p : Population α}
    (h : Population.start config observe metric = .ok p) : Recalls kind ⟨p, none⟩ := by
  cases Population.eq_of_start h
  exact ⟨by simp, rfl, by simp, by simp⟩

/-- A recompute marks every member with what it sees. -/
theorem look (h : w.Recalls kind) :
    Recalls kind ⟨w.population.recompute.2, some w.population⟩ where
  settings := by
    rintro q ⟨⟩
    exact w.population.sameSettings_perform .recompute
  answered := rfl
  published := by
    intro m hm
    simp only [Population.recompute, List.mem_map, Prod.exists] at hm
    obtain ⟨n, i, hn, rfl⟩ := hm
    exact h.published n (List.fst_mem_of_mem_zipIdx hn)
  marked := by
    intro _
    refine ⟨w.population, rfl, ?_⟩
    -- settled and not, the members stand at the same places
    have hplaces := List.zipIdx_map_fst 0 w.population.members
    rw [← hplaces]
    refine List.forall₂_map_left_iff.2 (List.forall₂_map_right_iff.2 (List.forall₂_same.2 ?_))
    intro place hplace
    exact ⟨rfl, h.published _ (List.fst_mem_of_mem_zipIdx hplace), rfl⟩

theorem add (h : w.Recalls kind) (id : AgentId) (source : Nat) {snapshot : Snapshot}
    (hsnapshot : kind snapshot) :
    Recalls kind ⟨(w.population.add id source snapshot).2, w.looked⟩ := by
  cases hcontains : w.population.contains id with
  | true => simpa [Population.add, hcontains] using h
  | false =>
      simp only [Population.add, hcontains]
      refine ⟨fun q hq => (h.settings q hq).trans ⟨rfl, rfl, rfl⟩, h.answered, ?_, by simp⟩
      intro m hm
      rcases List.mem_append.1 hm with hm | hm
      · exact h.published m hm
      · cases List.mem_singleton.1 hm
        exact hsnapshot

theorem remove (h : w.Recalls kind) (id : AgentId) :
    Recalls kind ⟨(w.population.remove id).2, w.looked⟩ where
  settings q hq := (h.settings q hq).trans (w.population.sameSettings_perform (.remove id))
  answered := h.answered
  published m hm := h.published m (List.mem_filter.1 hm).1
  marked := by
    intro hdirty
    simp only [Population.remove, Bool.or_eq_false_iff] at hdirty ⊢
    have hkept : (w.population.members.filter fun m => m.id ≠ id) = w.population.members := by
      simpa [Population.contains] using hdirty.2
    obtain ⟨q, hlooked, hmarked⟩ := h.marked hdirty.1
    exact ⟨q, hlooked, by rwa [hkept]⟩

theorem publish (h : w.Recalls kind) (source : Nat) {snapshot : Snapshot}
    (hsnapshot : kind snapshot) :
    Recalls kind ⟨w.population.publish source snapshot, w.looked⟩ where
  settings q hq :=
    (h.settings q hq).trans (w.population.sameSettings_perform (.publish source snapshot))
  answered := h.answered
  published := by
    intro m hm
    obtain ⟨n, hn, rfl⟩ := List.mem_map.1 hm
    split
    · exact hsnapshot
    · exact h.published n hn
  marked := by
    intro hdirty
    obtain ⟨q, hlooked, hmarked⟩ := h.marked hdirty
    refine ⟨q, hlooked, List.forall₂_map_left_iff.2 (hmarked.imp ?_)⟩
    rintro m n ⟨hid, hpublished, hseen⟩
    split <;> exact ⟨hid, hpublished, hseen⟩

theorem perform (h : w.Recalls kind) {op : PopulationOperation} (hop : op.Brings kind) :
    (w.perform op).Recalls kind := by
  cases op with
  | add id source snapshot => exact h.add id source hop
  | remove id => exact h.remove id
  | publish source snapshot => exact h.publish source hop
  | recompute => exact h.look
  | refresh =>
      cases hlooks : w.population.looks .refresh with
      | true =>
          simp only [Watched.perform, hlooks, Population.perform,
            Population.refresh_of_looks hlooks]
          exact h.look
      | false =>
          obtain ⟨v, _, hrefresh⟩ := Population.refresh_of_not_looks hlooks
          simp only [Watched.perform, hlooks, Population.perform, hrefresh]
          exact h

theorem performAll (h : w.Recalls kind) {operations : List PopulationOperation}
    (hoperations : ∀ op ∈ operations, op.Brings kind) :
    (w.performAll operations).Recalls kind := by
  induction operations generalizing w with
  | nil => exact h
  | cons op rest ih =>
      exact ih (h.perform (hoperations op (by simp))) fun op' hop' =>
        hoperations op' (List.mem_cons_of_mem op hop')

/-- Where fingerprints tell apart what looks different, a refresh skips the work only if the last
look saw what is there now. -/
theorem sight_of_skips (h : w.Recalls kind)
    (hfaithful : ∀ s t, kind s → kind t → s.fingerprint = t.fingerprint →
      w.population.observe s = w.population.observe t)
    (hskips : w.population.looks .refresh = false) :
    ∃ q, w.looked = some q ∧ q.sight = w.population.sight := by
  simp only [Population.looks, Population.changed, Bool.or_eq_false_iff, List.any_eq_false,
    bne_iff_ne, ne_eq, not_not] at hskips
  obtain ⟨⟨hclean, hseen⟩, -⟩ := hskips
  obtain ⟨q, hlooked, hmarked⟩ := h.marked hclean
  refine ⟨q, hlooked, Eq.symm ?_⟩
  rw [Population.sight, Population.sight, (h.settings q hlooked).observe, ← List.forall₂_eq_eq_eq,
    List.forall₂_map_left_iff, List.forall₂_map_right_iff]
  have hcurrent : ∀ m ∈ w.population.members,
      kind m.snapshot ∧ m.seen = some m.snapshot.fingerprint :=
    fun m hm => ⟨h.published m hm, hseen m hm⟩
  refine ((List.forall₂_and_left _ _).2 ⟨hcurrent, hmarked⟩).imp ?_
  rintro m before ⟨⟨hpublished, hown⟩, hid, hbefore, hmark⟩
  have hsame : m.snapshot.fingerprint = before.snapshot.fingerprint :=
    Option.some.inj (hown.symm.trans hmark)
  rw [hid, hfaithful _ _ hpublished hbefore hsame]

/-- If the last look saw what is there now, the last answer is right. -/
theorem refresh_agrees (h : w.Recalls kind) (hskips : w.population.looks .refresh = false)
    {q : Population α} (hlooked : w.looked = some q) (hsight : q.sight = w.population.sight) :
    w.population.refresh.1.Agrees w.population.recompute.1 := by
  obtain ⟨v, hlast, hrefresh⟩ := Population.refresh_of_not_looks hskips
  have hv : v = q.recompute.1 := by
    have hanswered := h.answered
    rw [hlast, hlooked] at hanswered
    exact Option.some.inj hanswered
  rw [hrefresh, hv]
  exact (h.settings q hlooked).recompute_agrees hsight

end Watched.Recalls

/-! ### A change that goes unnoticed -/

open Classical in
/-- A metric that compares equal states only. -/
noncomputable def Metric.equality : Metric α :=
  ⟨"equality", fun left right =>
    if left = right then .ok 0 else .error (.metricFailed "equality" "the states differ")⟩

namespace Population

/-- Of two members, both are left out if they cannot be compared. -/
theorem staleOf_pair (metric : Metric α) (a b : AgentId) (left right : List Literal) :
    staleOf metric [(a, left), (b, right)] =
      if (distance? metric left right).isNone then [a, b] else [] := by
  have hboth : Ranking.blame 2 [(0, 1)] = [true, true] := by decide
  have hnobody : Ranking.blame 2 [] = [false, false] := by decide
  cases hdistance : distance? metric left right with
  | none => simp [staleOf, failuresOf, upperRows, rowAfter, failedPairs, hdistance, hboth]
  | some d => simp [staleOf, failuresOf, upperRows, rowAfter, failedPairs, hdistance, hnobody]

theorem staleOf_equality_of_ne {left right : List Literal} (h : left ≠ right) (a b : AgentId) :
    staleOf (.equality : Metric α) [(a, left), (b, right)] = [a, b] := by
  rw [staleOf_pair]
  simp [distance?, Metric.equality, h]

theorem staleOf_equality_self (hzero : Scalar.isFinite (0 : α) = true) (state : List Literal)
    (a b : AgentId) : staleOf (.equality : Metric α) [(a, state), (b, state)] = [] := by
  rw [staleOf_pair]
  simp [distance?, Metric.equality, hzero]

/-- Two agents are looked at, and then the first comes to publish what the second does. -/
def imitation (s t : Snapshot) : List PopulationOperation :=
  [.add (.ofNat 1) 1 s, .add (.ofNat 2) 2 t, .recompute, .publish 1 t]

/-- If the first agent's fingerprint stays the same although it looks different now, a refresh still
leaves both agents out. -/
theorem imitation_unnoticed (hzero : Scalar.isFinite (0 : α) = true)
    {config : ConsistencyConfig α} {observe : Snapshot → List Literal} {p : Population α}
    (hstart : start config observe .equality = .ok p) {s t : Snapshot}
    (hfingerprint : s.fingerprint = t.fingerprint) (hlook : observe s ≠ observe t) :
    (p.performAll (imitation s t)).refresh.1.stale ≠
      (p.performAll (imitation s t)).recompute.1.stale := by
  cases eq_of_start hstart
  have hne : AgentId.ofNat 1 ≠ AgentId.ofNat 2 := by decide
  let q : Population α :=
    ⟨config, observe, .equality,
      [⟨.ofNat 1, 1, s, .pending, none⟩, ⟨.ofNat 2, 2, t, .pending, none⟩], .empty, 0, true, none⟩
  let r := q.recompute.2.publish 1 t
  have hrun : performAll ⟨config, observe, .equality, [], .empty, 0, true, none⟩ (imitation s t) =
      r := by
    simp [performAll, perform, imitation, add, contains, r, q, hne]
  have hskips : r.looks .refresh = false := by
    simp [looks, changed, r, q, publish, recompute, settle, hfingerprint]
  have hbefore : q.recompute.1.stale = [.ofNat 1, .ofNat 2] :=
    q.recompute_stale.trans (staleOf_equality_of_ne hlook _ _)
  have hnow : r.recompute.1.stale = [] :=
    r.recompute_stale.trans (staleOf_equality_self hzero (observe t) _ _)
  obtain ⟨v, hlast, hrefresh⟩ := refresh_of_not_looks hskips
  have hv : v = q.recompute.1 := Option.some.inj hlast.symm
  rw [hrun, hrefresh, hv, hbefore, hnow]
  simp

/-! ### When a refresh can be trusted -/

section Trust

variable {config : ConsistencyConfig α} {observe : Snapshot → List Literal}
  {kind : Snapshot → Prop}

/-- In every run with snapshots of a kind, whatever the metric, a refresh answers as a recompute
would. -/
def RefreshAgrees (config : ConsistencyConfig α) (observe : Snapshot → List Literal)
    (kind : Snapshot → Prop) : Prop :=
  ∀ (metric : Metric α) (p : Population α), start config observe metric = .ok p →
    ∀ operations : List PopulationOperation, (∀ op ∈ operations, op.Brings kind) →
      let q := p.performAll operations
      q.refresh.1.Agrees q.recompute.1

/-- In every run with snapshots of a kind, whatever the metric, a refresh skips the work only when
the members look as they did when they were last looked at. -/
def RefreshSkipsUnchanged (config : ConsistencyConfig α) (observe : Snapshot → List Literal)
    (kind : Snapshot → Prop) : Prop :=
  ∀ (metric : Metric α) (p : Population α), start config observe metric = .ok p →
    ∀ operations : List PopulationOperation, (∀ op ∈ operations, op.Brings kind) →
      let w := Watched.performAll ⟨p, none⟩ operations
      w.population.looks .refresh = false →
        ∃ q, w.looked = some q ∧ q.sight = w.population.sight

/-- Snapshots of a kind that look different have different texts. -/
def TextsTell (observe : Snapshot → List Literal) (kind : Snapshot → Prop) : Prop :=
  ∀ s t, kind s → kind t → s.text = t.text → observe s = observe t

/-- No two different texts of snapshots of a kind have the same digest. -/
def DigestsTell (kind : Snapshot → Prop) : Prop :=
  ∀ s t, kind s → kind t → s.fingerprint = t.fingerprint → s.text = t.text

theorem TextsTell.refreshSkipsUnchanged (htexts : TextsTell observe kind)
    (hdigests : DigestsTell kind) : RefreshSkipsUnchanged config observe kind := by
  intro metric p hstart operations hoperations w
  have hrecalls : w.Recalls kind := (Watched.Recalls.start kind hstart).performAll hoperations
  have hobserve : w.population.observe = observe := by
    rw [Watched.population_performAll, ← (p.sameSettings_performAll operations).observe,
      eq_of_start hstart]
  refine hrecalls.sight_of_skips fun s t hs ht hsame => ?_
  rw [hobserve]
  exact htexts s t hs ht (hdigests s t hs ht hsame)

theorem RefreshSkipsUnchanged.agrees (h : RefreshSkipsUnchanged config observe kind) :
    RefreshAgrees config observe kind := by
  intro metric p hstart operations hoperations
  have hrecalls := (Watched.Recalls.start kind hstart).performAll hoperations
  have hskips := h metric p hstart operations hoperations
  rw [← Watched.population_performAll ⟨p, none⟩ operations]
  intro q
  cases hlooks : q.looks .refresh with
  | true =>
      rw [refresh_of_looks hlooks]
      exact ⟨rfl, rfl, rfl⟩
  | false =>
      obtain ⟨before, hlooked, hsight⟩ := hskips hlooks
      exact hrecalls.refresh_agrees hlooks hlooked hsight

/-- Snapshots with the same text have the same fingerprint, so if they look different a change from
one to the other goes unnoticed. -/
theorem RefreshAgrees.textsTell (h : RefreshAgrees config observe kind)
    (hconfig : config.validate = .ok ()) (hzero : Scalar.isFinite (0 : α) = true) :
    TextsTell observe kind := by
  intro s t hs ht htext
  by_contra hlook
  have hstart := start_eq hconfig observe (Metric.equality : Metric α)
  have hbrings : ∀ op ∈ imitation s t, op.Brings kind := by
    simp [imitation, PopulationOperation.Brings, hs, ht]
  exact imitation_unnoticed hzero hstart (congrArg Blake3.hex htext) hlook
    (h _ _ hstart _ hbrings).stale

/-- Let no two texts of published snapshots share a digest. If the texts tell apart what looks
different, a refresh answers in every run as a recompute would, and skips the work only when nothing
has changed. They have to: otherwise some run has a refresh with another answer. -/
theorem refresh_agrees_if_texts_tell (hdigests : DigestsTell kind) :
    (TextsTell observe kind →
      RefreshAgrees config observe kind ∧ RefreshSkipsUnchanged config observe kind) ∧
    (config.validate = .ok () → Scalar.isFinite (0 : α) = true →
      RefreshAgrees config observe kind → TextsTell observe kind) := by
  constructor
  · intro htexts
    have hskips : RefreshSkipsUnchanged config observe kind :=
      htexts.refreshSkipsUnchanged hdigests
    exact ⟨hskips.agrees, hskips⟩
  · intro hconfig hzero hagrees
    exact hagrees.textsTell hconfig hzero

end Trust

/-- What is published by an agent that believes in a lamp in some state, and does nothing. -/
def lamp (state : Term) : Snapshot :=
  ⟨.ofNat 1, "watcher", 1, [⟨⟨["lamp"]⟩, false, [state], []⟩], []⟩

/-- The state of the lamp is the atom or the literal of one name; both have the same text. -/
def LampOn (s : Snapshot) : Prop :=
  s = lamp (.atom "on") ∨ s = lamp (.literal ⟨⟨["on"]⟩, false, [], []⟩)

theorem LampOn.text_eq {s t : Snapshot} (hs : LampOn s) (ht : LampOn t) : s.text = t.text := by
  rcases hs with rfl | rfl <;> rcases ht with rfl | rfl <;> rfl

/-- Where agents are compared by all that they publish, a change of the lamp goes unnoticed. Where
they are compared by their running plans only, a refresh can be trusted. -/
theorem refresh_agrees_if_texts_tell_lamp :
    ¬ RefreshAgrees (⟨.fixPoint 8, 1 / 1000⟩ : ConsistencyConfig ℚ) Observation.all.view LampOn ∧
      RefreshAgrees (⟨.fixPoint 8, 1 / 1000⟩ : ConsistencyConfig ℚ) Observation.running.view
        LampOn := by
  have hdigests : DigestsTell LampOn := fun s t hs ht _ => hs.text_eq ht
  have hconfig : (⟨.fixPoint 8, 1 / 1000⟩ : ConsistencyConfig ℚ).validate = .ok () := by
    have hepsilon : (0 : ℚ) < 1 / 1000 ∧ (1 / 1000 : ℚ) < 1 := by norm_num
    exact if_pos hepsilon
  constructor
  · intro hagrees
    have htexts := (refresh_agrees_if_texts_tell hdigests).2 hconfig rfl hagrees
    have hlook := htexts _ _ (.inl rfl) (.inr rfl) (LampOn.text_eq (.inl rfl) (.inr rfl))
    simp [Observation.view, lamp] at hlook
  · have htexts : TextsTell Observation.running.view LampOn := by
      rintro s t (rfl | rfl) (rfl | rfl) _ <;> rfl
    exact ((refresh_agrees_if_texts_tell hdigests).1 htexts).1

end Population
end Deliberation
