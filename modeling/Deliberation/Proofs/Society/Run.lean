import Deliberation.Proofs.Lists
import Deliberation.Society.Population

/-!
Runs of a population.

A run is a list of operations: agents join, leave and publish, and the scores are asked for. The
settings of a population stay as they are, and what a recompute answers is a function of them and of
what is seen of the members.
-/

namespace Deliberation

/-- What can happen to a population. -/
inductive PopulationOperation where
  | add (id : AgentId) (source : Nat) (snapshot : Snapshot)
  | remove (id : AgentId)
  | publish (source : Nat) (snapshot : Snapshot)
  | recompute
  | refresh

/-- The snapshot that an operation brings, if any, is of a kind. -/
def PopulationOperation.Brings (kind : Snapshot → Prop) : PopulationOperation → Prop
  | .add _ _ snapshot | .publish _ snapshot => kind snapshot
  | .remove _ | .recompute | .refresh => True

/-- Two results are the same, but for the number of the round. -/
structure Verdict.Agrees {α : Type} (v w : Verdict α) : Prop where
  scores : v.scores = w.scores
  stale : v.stale = w.stale
  statistics : v.statistics = w.statistics

namespace Population

variable {α : Type}

/-- What is seen of the members: the name of each, and the observed part of its snapshot. -/
def sight (p : Population α) : List (AgentId × List Literal) :=
  p.members.map fun m => (m.id, p.observe m.snapshot)

theorem map_snd_sight (p : Population α) :
    p.sight.map (·.2) = p.members.map fun m => p.observe m.snapshot := by
  simp [sight, Function.comp_def]

theorem length_sight (p : Population α) : p.sight.length = p.members.length := by
  simp [sight]

/-- Two populations are scored in the same way. -/
structure SameSettings (p q : Population α) : Prop where
  config : p.config = q.config
  observe : p.observe = q.observe
  metric : p.metric = q.metric

theorem SameSettings.refl (p : Population α) : p.SameSettings p :=
  ⟨rfl, rfl, rfl⟩

theorem SameSettings.trans {p q r : Population α} (h : p.SameSettings q)
    (hnext : q.SameSettings r) : p.SameSettings r :=
  ⟨h.config.trans hnext.config, h.observe.trans hnext.observe, h.metric.trans hnext.metric⟩

variable [Scalar α]

/-- The population after an operation. -/
def perform (p : Population α) : PopulationOperation → Population α
  | .add id source snapshot => (p.add id source snapshot).2
  | .remove id => (p.remove id).2
  | .publish source snapshot => p.publish source snapshot
  | .recompute => p.recompute.2
  | .refresh => p.refresh.2

/-- The population after a run. -/
def performAll (p : Population α) (operations : List PopulationOperation) : Population α :=
  operations.foldl perform p

/-- A population starts without members, and nobody has looked at it. -/
theorem start_eq {config : ConsistencyConfig α} (hconfig : config.validate = .ok ())
    (observe : Snapshot → List Literal) (metric : Metric α) :
    start config observe metric =
      .ok ⟨config, observe, metric, [], .empty, 0, true, none⟩ := by
  simp [start, hconfig, bind, Except.bind, pure, Except.pure]

theorem eq_of_start {config : ConsistencyConfig α} {observe : Snapshot → List Literal}
    {metric : Metric α} {p : Population α} (h : start config observe metric = .ok p) :
    p = ⟨config, observe, metric, [], .empty, 0, true, none⟩ := by
  cases hconfig : config.validate with
  | error e => simp [start, hconfig, bind, Except.bind] at h
  | ok u =>
      rw [start_eq hconfig] at h
      exact (Except.ok.inj h).symm

theorem sameSettings_perform (p : Population α) (op : PopulationOperation) :
    p.SameSettings (p.perform op) := by
  cases op with
  | add id source snapshot =>
      simp only [perform, add]
      split <;> exact ⟨rfl, rfl, rfl⟩
  | remove id => exact ⟨rfl, rfl, rfl⟩
  | publish source snapshot => exact ⟨rfl, rfl, rfl⟩
  | recompute => exact ⟨rfl, rfl, rfl⟩
  | refresh =>
      simp only [perform, refresh]
      split <;> exact ⟨rfl, rfl, rfl⟩

theorem sameSettings_performAll (p : Population α) (operations : List PopulationOperation) :
    p.SameSettings (p.performAll operations) := by
  induction operations generalizing p with
  | nil => exact .refl p
  | cons op rest ih => exact (p.sameSettings_perform op).trans (ih (p.perform op))

/-! ### What a recompute depends on -/

/-- The pairs of places that cannot be compared. -/
def failuresOf (metric : Metric α) (sight : List (AgentId × List Literal)) : List (Nat × Nat) :=
  failedPairs (upperRows metric (sight.map (·.2)))

/-- The scores of those that are seen. -/
def scoresOf (config : ConsistencyConfig α) (metric : Metric α)
    (sight : List (AgentId × List Literal)) : List (AgentId × α) :=
  (scorePlaces config (upperRows metric (sight.map (·.2)))
    (Ranking.blame sight.length (failuresOf metric sight))).filterMap fun (i, value) =>
      sight[i]?.map fun seen => (seen.1, value)

/-- Those that are seen and left out. -/
def staleOf (metric : Metric α) (sight : List (AgentId × List Literal)) : List AgentId :=
  (sight.zip (Ranking.blame sight.length (failuresOf metric sight))).filterMap fun (seen, out) =>
    if out then some seen.1 else none

theorem recompute_scores (p : Population α) :
    p.recompute.1.scores = scoresOf p.config p.metric p.sight := by
  simp only [recompute, scoresOf, failuresOf, map_snd_sight, length_sight]
  congr 1
  funext place
  simp [sight, Function.comp_def]

theorem recompute_statistics (p : Population α) :
    p.recompute.1.statistics =
      .ofList ((scoresOf p.config p.metric p.sight).map (·.2)) := by
  rw [← recompute_scores]
  rfl

theorem recompute_stale (p : Population α) :
    p.recompute.1.stale = staleOf p.metric p.sight := by
  simp only [recompute, staleOf, failuresOf, map_snd_sight, length_sight]
  rw [sight, List.zip_map_left, List.filterMap_map]
  rfl

/-- Populations with the same settings of which the same is seen get the same result. -/
theorem SameSettings.recompute_agrees {p q : Population α} (h : p.SameSettings q)
    (hsight : p.sight = q.sight) : p.recompute.1.Agrees q.recompute.1 where
  scores := by rw [recompute_scores, recompute_scores, h.config, h.metric, hsight]
  stale := by rw [recompute_stale, recompute_stale, h.metric, hsight]
  statistics := by rw [recompute_statistics, recompute_statistics, h.config, h.metric, hsight]

end Population
end Deliberation
