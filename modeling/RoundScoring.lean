import RoundScoring.Address
import RoundScoring.Bech32.Checksum
import RoundScoring.Bech32.Code
import RoundScoring.Bech32.Lemmas
import RoundScoring.Bech32.Symbol
import RoundScoring.Binary64.Elementary
import RoundScoring.Binary64.Rounding
import RoundScoring.Consensus.Config
import RoundScoring.Consensus.Lemmas
import RoundScoring.Consensus.Pass
import RoundScoring.Consensus.Result
import RoundScoring.Coverage
import RoundScoring.Decimal.Basic
import RoundScoring.Decimal.Numeral
import RoundScoring.Decimal.Rounded
import RoundScoring.Decimal.Shortest
import RoundScoring.Fault
import RoundScoring.Keeper
import RoundScoring.Keeper.Lemmas
import RoundScoring.Ledger
import RoundScoring.Loss.Bundle
import RoundScoring.Loss.Category
import RoundScoring.Loss.Key
import RoundScoring.Loss.Measure
import RoundScoring.OrderedSet
import RoundScoring.Proofs.Bech32.Building
import RoundScoring.Proofs.Bech32.Checksum
import RoundScoring.Proofs.Bech32.Corruption
import RoundScoring.Proofs.Bech32.Distance
import RoundScoring.Proofs.Bech32.Printed
import RoundScoring.Proofs.Bech32.RoundTrip
import RoundScoring.Proofs.Binary64.Arithmetic
import RoundScoring.Proofs.Binary64.Halvings
import RoundScoring.Proofs.Binary64.Levels
import RoundScoring.Proofs.Binary64.Logarithm
import RoundScoring.Proofs.Binary64.Moderate
import RoundScoring.Proofs.Binary64.Nearest
import RoundScoring.Proofs.Binary64.Ongoing
import RoundScoring.Proofs.Binary64.Operations
import RoundScoring.Proofs.Binary64.Overflowing
import RoundScoring.Proofs.Binary64.Packing
import RoundScoring.Proofs.Binary64.Passes
import RoundScoring.Proofs.Binary64.Powers
import RoundScoring.Proofs.Binary64.Rounds
import RoundScoring.Proofs.Binary64.Scalars
import RoundScoring.Proofs.Binary64.Sums
import RoundScoring.Proofs.Binary64.Unpacked
import RoundScoring.Proofs.Consensus.Aggregate
import RoundScoring.Proofs.Consensus.Bounds
import RoundScoring.Proofs.Consensus.Composing
import RoundScoring.Proofs.Consensus.Definition
import RoundScoring.Proofs.Consensus.Disagreement
import RoundScoring.Proofs.Consensus.Divisors
import RoundScoring.Proofs.Consensus.Enumerating
import RoundScoring.Proofs.Consensus.Exact
import RoundScoring.Proofs.Consensus.Idling
import RoundScoring.Proofs.Consensus.Keys
import RoundScoring.Proofs.Consensus.Levels
import RoundScoring.Proofs.Consensus.Merging
import RoundScoring.Proofs.Consensus.Network
import RoundScoring.Proofs.Consensus.Ordering
import RoundScoring.Proofs.Consensus.Panel
import RoundScoring.Proofs.Consensus.Passes
import RoundScoring.Proofs.Consensus.Range
import RoundScoring.Proofs.Consensus.Relisting
import RoundScoring.Proofs.Consensus.Rereading
import RoundScoring.Proofs.Consensus.Shuffling
import RoundScoring.Proofs.Consensus.Splitting
import RoundScoring.Proofs.Consensus.Thinning
import RoundScoring.Proofs.Consensus.Units
import RoundScoring.Proofs.Covering
import RoundScoring.Proofs.Covering.Definition
import RoundScoring.Proofs.Covering.Offences
import RoundScoring.Proofs.Covering.Retelling
import RoundScoring.Proofs.Enumerations
import RoundScoring.Proofs.Exact.Scalar
import RoundScoring.Proofs.Failing
import RoundScoring.Proofs.Keeping
import RoundScoring.Proofs.Receiving
import RoundScoring.Proofs.Rounds.Accounts
import RoundScoring.Proofs.Rounds.AllOrNothing
import RoundScoring.Proofs.Rounds.Counting
import RoundScoring.Proofs.Rounds.Effect
import RoundScoring.Proofs.Rounds.Excluding
import RoundScoring.Proofs.Rounds.Faults
import RoundScoring.Proofs.Rounds.Forecasting
import RoundScoring.Proofs.Rounds.Given
import RoundScoring.Proofs.Rounds.History
import RoundScoring.Proofs.Rounds.Isolation
import RoundScoring.Proofs.Rounds.Listening
import RoundScoring.Proofs.Rounds.Numbers
import RoundScoring.Proofs.Rounds.Pairing
import RoundScoring.Proofs.Rounds.Parts
import RoundScoring.Proofs.Rounds.Reading
import RoundScoring.Proofs.Rounds.Rearranging
import RoundScoring.Proofs.Rounds.Refusing
import RoundScoring.Proofs.Rounds.Replaying
import RoundScoring.Proofs.Rounds.Retelling
import RoundScoring.Proofs.Rounds.Returning
import RoundScoring.Proofs.Rounds.Roster
import RoundScoring.Proofs.Rounds.Scoring
import RoundScoring.Proofs.Rounds.Workers
import RoundScoring.Proofs.Rounds.Working
import RoundScoring.Proofs.Sparing
import RoundScoring.Proofs.Staying
import RoundScoring.Proofs.Tables
import RoundScoring.Proofs.Topics
import RoundScoring.Proofs.Transactions
import RoundScoring.Proofs.Traversal
import RoundScoring.Round.Engine
import RoundScoring.Round.Reputers
import RoundScoring.Round.Workers
import RoundScoring.Scalar
import RoundScoring.Score
import RoundScoring.Session
import RoundScoring.Sorting
import RoundScoring.Table
import RoundScoring.Text.Characters
import RoundScoring.Text.Hex
import RoundScoring.Text.Invisible
import RoundScoring.Text.LowerCase
import RoundScoring.Text.Quoted
import RoundScoring.Wire.Assignment
import RoundScoring.Wire.Misuse
import RoundScoring.Wire.Reading
import RoundScoring.Wire.Record
import RoundScoring.Wire.Shown
import RoundScoring.Wire.Value
