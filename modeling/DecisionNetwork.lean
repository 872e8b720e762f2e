import DecisionNetwork.SortedMap.Lemmas
import DecisionNetwork.Inference.ExpectedUtility
import DecisionNetwork.Inference.Reduction
import DecisionNetwork.Rule.CaseRule
import DecisionNetwork.Settings.Reader
import DecisionNetwork.Value.Json
import DecisionNetwork.Value.Sequence
import DecisionNetwork.Proofs.Assignment.Bindings
import DecisionNetwork.Proofs.RuleUtility.Operation
import DecisionNetwork.Proofs.RuleUtility.Recall
import DecisionNetwork.Proofs.Assignment.Combinations
import DecisionNetwork.Proofs.Inference.Exchange
import DecisionNetwork.Proofs.Inference.Plan
import DecisionNetwork.Proofs.Inference.Posterior
import DecisionNetwork.Proofs.Inference.Rebuild
import DecisionNetwork.Proofs.Inference.Reduction
import DecisionNetwork.Proofs.Number.Notation
import DecisionNetwork.Proofs.Text.Pieces
import DecisionNetwork.Proofs.Value.Groups
import DecisionNetwork.Proofs.Value.Reading
import DecisionNetwork.Proofs.Value.RoundTrip
import DecisionNetwork.Proofs.RuleUtility.Counting
import DecisionNetwork.Proofs.Inference.Splitting
import DecisionNetwork.Proofs.Inference.Enumeration
import DecisionNetwork.Proofs.Inference.Extension
import DecisionNetwork.Proofs.Inference.Marginal
import DecisionNetwork.Proofs.RuleUtility.Steady
import DecisionNetwork.Proofs.Inference.ExpectedUtility
import DecisionNetwork.Proofs.Inference.Barren
import DecisionNetwork.Proofs.Inference.Mean
import DecisionNetwork.Proofs.Inference.Independence
import DecisionNetwork.Proofs.Value.Characters
import DecisionNetwork.Proofs.Value.ListRoundTrip
import DecisionNetwork.Proofs.Rule.Slots
import DecisionNetwork.Proofs.Rule.Realised
import DecisionNetwork.Proofs.Rule.Mentioned
import DecisionNetwork.Proofs.RuleUtility.Noninterference
import DecisionNetwork.Proofs.Network.Acyclic
import DecisionNetwork.Proofs.RuleUtility.Finite
import DecisionNetwork.Proofs.Inference.Guarded
import DecisionNetwork.Proofs.Inference.Outcome
import DecisionNetwork.Proofs.Value.Canonical
import DecisionNetwork.Proofs.Assignment.Canonical
import DecisionNetwork.Proofs.Inference.PlanOutcome
import DecisionNetwork.Proofs.Network.Countdown
import DecisionNetwork.Proofs.Network.Order
import DecisionNetwork.Proofs.RuleUtility.Worth
import DecisionNetwork.Proofs.Number.Spelling
import DecisionNetwork.Proofs.Value.Grammar
import DecisionNetwork.Proofs.Assignment.Choices
import DecisionNetwork.Proofs.Inference.Requests
import DecisionNetwork.Proofs.Rule.Refill
import DecisionNetwork.Proofs.Network.Ancestors
import DecisionNetwork.Proofs.Assignment.Renaming
import DecisionNetwork.Proofs.Table.Best
import DecisionNetwork.Proofs.Value.Tagged
import DecisionNetwork.Proofs.Assignment.Primes
import DecisionNetwork.Proofs.Assignment.Algebra
import DecisionNetwork.Proofs.Value.Nesting
import DecisionNetwork.Proofs.Inference.Components
