import Relata.Text.Alphabet
import Relata.Text.Case
import Relata.Text.Quoted
import Relata.Number.Numeral
import Relata.Value
import Relata.Guard
import Relata.Sql.Condition
import Relata.Sql.Select
import Relata.Sql.Written
import Relata.Relation.Descriptor
import Relata.Schema.Linearization
import Relata.Signature
import Relata.Schema.Catalog
import Relata.Relation.Resolve
import Relata.Store.Entity
import Relata.Query.Basic
import Relata.Query.Where
import Relata.Query.Call
import Relata.Query.Related
import Relata.Registry.Flights
import Relata.Process.Schedule
import Relata.Loading.Eager
import Relata.Loading.Shared
import Relata.Store.Dump
import Relata.Session.Script
import Relata.Session.Portrait
import Relata.Session.Perform
import Relata.Session.Transcript
import Relata.Schema.Source
import Relata.Proofs.Sql.Reading
import Relata.Proofs.Sql.Where
import Relata.Proofs.Sql.Deletion
import Relata.Proofs.Sql.Placeholders
import Relata.Proofs.Query.Steps
import Relata.Proofs.Query.Matched
import Relata.Proofs.Query.Kept
import Relata.Proofs.Query.Subqueries
import Relata.Proofs.Query.Calls
import Relata.Proofs.Query.Built
import Relata.Proofs.Sql.Alike
import Relata.Proofs.Query.Paired
import Relata.Proofs.Query.Uniform
import Relata.Proofs.Query.Varied
import Relata.Proofs.Query.Values
import Relata.Proofs.Process.Sends
import Relata.Proofs.Process.Comes
import Relata.Proofs.Sql.Guarded
import Relata.Proofs.Value.Equality
import Relata.Proofs.Loading.Growth
import Relata.Proofs.Loading.Made
import Relata.Proofs.Loading.ReadOnly
import Relata.Proofs.Loading.Matching
import Relata.Proofs.Loading.Batched
import Relata.Proofs.Sql.Behind
import Relata.Proofs.Sql.Correlated
import Relata.Proofs.Query.Depth
import Relata.Proofs.Query.Narrowing
import Relata.Proofs.Query.Narrowed
import Relata.Proofs.Query.Linked
import Relata.Proofs.Query.Chunk
import Relata.Proofs.Query.Existence
import Relata.Proofs.Process.Turns
import Relata.Proofs.Process.Within
import Relata.Proofs.Process.Beside
import Relata.Proofs.Registry.Flights
import Relata.Proofs.Value.Entries
import Relata.Proofs.Store.Slots
import Relata.Proofs.Loading.Grouped
import Relata.Proofs.Loading.Manner
import Relata.Proofs.Loading.Launch
import Relata.Proofs.Loading.Joint
import Relata.Proofs.Relation.Resolved
import Relata.Proofs.Loading.Retained
import Relata.Proofs.Loading.Traffic
import Relata.Proofs.Loading.SingleFlight
import Relata.Proofs.Query.Asked
import Relata.Proofs.Loading.Delivered
import Relata.Proofs.Loading.ForAll
import Relata.Proofs.Loading.Members
import Relata.Proofs.Loading.Settling
import Relata.Proofs.Registry.Marks
import Relata.Proofs.Registry.Account
import Relata.Proofs.Loading.Kin
import Relata.Proofs.Loading.Once
import Relata.Proofs.Loading.Fellows
import Relata.Proofs.Loading.Coalesced
import Relata.Proofs.Loading.Apart
import Relata.Proofs.Loading.Copies
import Relata.Proofs.Process.Abides
import Relata.Proofs.Registry.Grounds
import Relata.Proofs.Loading.Grounded
import Relata.Proofs.Schema.Linearized
import Relata.Proofs.Schema.Inherited
import Relata.Proofs.Schema.Settings
import Relata.Proofs.Query.United
import Relata.Proofs.Query.Leftover
import Relata.Proofs.Store.Hidden
import Relata.Proofs.Relation.Answered
import Relata.Proofs.Relation.Composed
import Relata.Proofs.Query.Morphed
import Relata.Proofs.Query.Composed
import Relata.Proofs.Query.Captured
import Relata.Proofs.Schema.Listed
import Relata.Proofs.Schema.Tagged
import Relata.Proofs.Loading.Targets
import Relata.Proofs.Store.Tables
import Relata.Proofs.Process.Flagged
import Relata.Proofs.Loading.Waiting
import Relata.Proofs.Loading.States
import Relata.Proofs.Process.Goes
import Relata.Proofs.Loading.Failing
import Relata.Proofs.Loading.Visits
import Relata.Proofs.Loading.Twice
import Relata.Proofs.Loading.Dispatched
import Relata.Proofs.Loading.Keyless
import Relata.Proofs.Loading.Marking
import Relata.Proofs.Loading.Referrers
import Relata.Proofs.Loading.Referents
import Relata.Proofs.Sql.Appended
import Relata.Proofs.Loading.Singled
import Relata.Proofs.Sql.Unknown
import Relata.Proofs.Query.Negated
import Relata.Proofs.Query.Replayed
import Relata.Proofs.Schema.Heirs
import Relata.Proofs.Relation.Derived
import Relata.Proofs.Sql.Keywords
import Relata.Proofs.Store.Hydrated
import Relata.Proofs.Query.Pivoted
import Relata.Proofs.Loading.Gathered
import Relata.Proofs.Sql.Limited
import Relata.Proofs.Process.Proceeds
import Relata.Proofs.Loading.Paged
import Relata.Proofs.Query.Lasting
import Relata.Proofs.Query.Cancelled
import Relata.Proofs.Loading.Cancelled
import Relata.Proofs.Sql.Respaced
import Relata.Proofs.Schema.Foremost
import Relata.Proofs.Query.Owned
import Relata.Proofs.Query.Shown
import Relata.Proofs.Sql.Sifted
import Relata.Proofs.Loading.Related
import Relata.Proofs.Loading.Agreeing
import Relata.Proofs.Query.Quantified
import Relata.Proofs.Sql.Counted
import Relata.Proofs.Loading.Existing
import Relata.Proofs.Query.Counting
import Relata.Proofs.Loading.Counts
import Relata.Proofs.Loading.Demanded
import Relata.Proofs.Loading.Missing
import Relata.Proofs.Query.Inlined
import Relata.Proofs.Sql.Grouped
import Relata.Proofs.Loading.Partition
import Relata.Proofs.Query.Keyed
import Relata.Proofs.Loading.Rounds
import Relata.Proofs.Relation.Complete
import Relata.Proofs.Process.Spans
import Relata.Proofs.Loading.Collected
import Relata.Proofs.Loading.Enrolled
import Relata.Proofs.Loading.Acquainted
