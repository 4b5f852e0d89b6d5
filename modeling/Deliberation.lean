import Deliberation.Agent.Action
import Deliberation.Agent.Basic
import Deliberation.Agent.Config
import Deliberation.Agent.Cycle
import Deliberation.Agent.Execution
import Deliberation.Agent.Id
import Deliberation.Agent.Setup
import Deliberation.Agent.Snapshot
import Deliberation.Belief.Base
import Deliberation.Belief.Event
import Deliberation.Belief.Outbox
import Deliberation.Degree
import Deliberation.Error
import Deliberation.Exchange.Json
import Deliberation.Exchange.Json.Parser
import Deliberation.Exchange.Json.Printer
import Deliberation.Exchange.Logic
import Deliberation.Exchange.Plan
import Deliberation.Exchange.Settings
import Deliberation.Intention.Frame
import Deliberation.Logic.Path
import Deliberation.Logic.Substitution
import Deliberation.Logic.Term
import Deliberation.Logic.Unification
import Deliberation.Number.Decimal
import Deliberation.Number.Exact
import Deliberation.Number.Scalar
import Deliberation.Number.Statistics
import Deliberation.Plan.Basic
import Deliberation.Plan.Expression
import Deliberation.Plan.Library
import Deliberation.Plan.Trigger
import Deliberation.Society.Bias
import Deliberation.Society.Distance
import Deliberation.Society.Ensemble
import Deliberation.Society.Observation
import Deliberation.Society.Population
import Deliberation.Society.Ranking
import Deliberation.Society.Scheduler
import Deliberation.Society.Standing
import Deliberation.SortedMap
import Deliberation.Text.Blake3
import Deliberation.Text.Blank
import Deliberation.Text.Hidden
import Deliberation.Text.Quoted
import Deliberation.Proofs.Lists
import Deliberation.Proofs.Agent.Run
import Deliberation.Proofs.Intention.Arena
import Deliberation.Proofs.Intention.Stacks
import Deliberation.Proofs.Agent.Journal
import Deliberation.Proofs.Agent.Course
import Deliberation.Proofs.Agent.Intentions
import Deliberation.Proofs.Logic.Names
import Deliberation.Proofs.SortedMap
import Deliberation.Proofs.Logic.Resolution
import Deliberation.Proofs.Logic.Unification
import Deliberation.Proofs.Logic.Scope
import Deliberation.Proofs.Logic.Instance
import Deliberation.Proofs.Agent.Fresh
import Deliberation.Proofs.Agent.Return
import Deliberation.Proofs.Belief.Ground
import Deliberation.Proofs.Plan.Scope
import Deliberation.Proofs.Agent.Scope
import Deliberation.Proofs.Agent.Subgoals
import Deliberation.Proofs.Logic.Equality
import Deliberation.Proofs.Logic.Refinement
import Deliberation.Proofs.Logic.MostGeneral
import Deliberation.Proofs.Logic.Matching
import Deliberation.Proofs.Logic.Matched
import Deliberation.Proofs.Belief.Calls
import Deliberation.Proofs.Belief.Log
import Deliberation.Proofs.Belief.Sets
import Deliberation.Proofs.Agent.Chronicle
import Deliberation.Proofs.Agent.Queue
import Deliberation.Proofs.Agent.Ledger
import Deliberation.Proofs.Agent.Sequence
import Deliberation.Proofs.Agent.Accounting
import Deliberation.Proofs.Number.Rational
import Deliberation.Proofs.Society.Run
import Deliberation.Proofs.Society.Refresh
import Deliberation.Proofs.Agent.Scheduling
import Deliberation.Proofs.Agent.Renaming
import Deliberation.Proofs.Exchange.Plan
import Deliberation.Proofs.Society.Round
import Deliberation.Proofs.Society.Workers
import Deliberation.Proofs.Belief.Delivery
import Deliberation.Proofs.Society.Outcomes
import Deliberation.Proofs.Society.Standings
import Deliberation.Proofs.Number.Extended
import Deliberation.Proofs.Society.Bias
import Deliberation.Proofs.Society.Reordering
import Deliberation.Proofs.Society.Comparison
import Deliberation.Proofs.Society.Blame
import Deliberation.Proofs.Society.Accord
import Deliberation.Proofs.Society.Order
import Deliberation.Proofs.Plan.Stability
import Deliberation.Proofs.Agent.Perception
import Deliberation.Proofs.Agent.Guards
import Deliberation.Proofs.Number.Order
import Deliberation.Proofs.Plan.Choice
import Deliberation.Proofs.Agent.Cascade
import Deliberation.Proofs.Belief.Removal
import Deliberation.Proofs.Agent.Revision
import Deliberation.Proofs.Agent.Bindings
import Deliberation.Proofs.Agent.Failure
import Deliberation.Proofs.Belief.Query
import Deliberation.Proofs.Logic.Idempotence
import Deliberation.Proofs.Logic.Assignment
import Deliberation.Proofs.Logic.Composition
import Deliberation.Proofs.Society.Coverage
import Deliberation.Proofs.Number.Arithmetic
import Deliberation.Proofs.Number.Summary
import Deliberation.Proofs.Society.Distribution
import Deliberation.Proofs.Society.SetDistance
import Deliberation.Proofs.Intention.Calls
import Deliberation.Proofs.Logic.Congruence
import Deliberation.Proofs.Logic.Annotations
import Deliberation.Proofs.Agent.Sleep
import Deliberation.Proofs.Logic.Spelling
