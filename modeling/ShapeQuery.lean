import ShapeQuery.Assoc
import ShapeQuery.Binary64.Basic
import ShapeQuery.Binary64.Rounding
import ShapeQuery.Binary64.Shortest
import ShapeQuery.Client.Basic
import ShapeQuery.Client.Event
import ShapeQuery.Client.Mode
import ShapeQuery.Client.Settings
import ShapeQuery.Failure
import ShapeQuery.Groq.Assembly
import ShapeQuery.Groq.Cache
import ShapeQuery.Groq.Filter
import ShapeQuery.Groq.Text
import ShapeQuery.Json.Basic
import ShapeQuery.Json.Number
import ShapeQuery.Json.Reader
import ShapeQuery.Json.Text
import ShapeQuery.Json.Token
import ShapeQuery.Predicate.Basic
import ShapeQuery.Predicate.Text
import ShapeQuery.Proofs.Assoc
import ShapeQuery.Proofs.Binary64.Decimal
import ShapeQuery.Proofs.Binary64.Rounding
import ShapeQuery.Proofs.Binary64.Value
import ShapeQuery.Proofs.Client.Exchange
import ShapeQuery.Proofs.Client.MissingQueries
import ShapeQuery.Proofs.Client.Modes
import ShapeQuery.Proofs.Client.Soundness
import ShapeQuery.Proofs.Groq.BodyFraming
import ShapeQuery.Proofs.Groq.Brackets
import ShapeQuery.Proofs.Groq.BranchLists
import ShapeQuery.Proofs.Groq.CacheGrowth
import ShapeQuery.Proofs.Groq.CacheRuns
import ShapeQuery.Proofs.Groq.Framing
import ShapeQuery.Proofs.Groq.Name
import ShapeQuery.Proofs.Groq.QuotedKeys
import ShapeQuery.Proofs.Groq.Readability
import ShapeQuery.Proofs.Groq.RegularNodes
import ShapeQuery.Proofs.Groq.SeededCache
import ShapeQuery.Proofs.Groq.Skeleton
import ShapeQuery.Proofs.Groq.SkeletonText
import ShapeQuery.Proofs.Groq.Surroundings
import ShapeQuery.Proofs.Json.Agreement
import ShapeQuery.Proofs.Json.Equality
import ShapeQuery.Proofs.Json.Equivalence
import ShapeQuery.Proofs.Json.Induction
import ShapeQuery.Proofs.Json.NumberText
import ShapeQuery.Proofs.Json.Tokens
import ShapeQuery.Proofs.Predicate.Combinations
import ShapeQuery.Proofs.Predicate.Context
import ShapeQuery.Proofs.Predicate.Formula
import ShapeQuery.Proofs.Predicate.Normal
import ShapeQuery.Proofs.Predicate.OpeningBrackets
import ShapeQuery.Proofs.Predicate.Reader
import ShapeQuery.Proofs.Predicate.RoundTrip
import ShapeQuery.Proofs.Predicate.Scanner
import ShapeQuery.Proofs.Predicate.Structured
import ShapeQuery.Proofs.Predicate.Tokens
import ShapeQuery.Proofs.Predicate.Words
import ShapeQuery.Proofs.Query.Chains
import ShapeQuery.Proofs.Query.Merging
import ShapeQuery.Proofs.Query.NodeFilters
import ShapeQuery.Proofs.Query.Readability
import ShapeQuery.Proofs.Query.Routes
import ShapeQuery.Proofs.Query.WellBracketed
import ShapeQuery.Proofs.RelatedLists
import ShapeQuery.Proofs.Schema.Content
import ShapeQuery.Proofs.Schema.Contexts
import ShapeQuery.Proofs.Schema.Derivations
import ShapeQuery.Proofs.Schema.Equality
import ShapeQuery.Proofs.Schema.FieldElements
import ShapeQuery.Proofs.Schema.Induction
import ShapeQuery.Proofs.Schema.Owners
import ShapeQuery.Proofs.Schema.Pools
import ShapeQuery.Proofs.Schema.Programs
import ShapeQuery.Proofs.Schema.TypedUnions
import ShapeQuery.Proofs.Text.Framing
import ShapeQuery.Proofs.Transport.History
import ShapeQuery.Proofs.Validation.Acceptance
import ShapeQuery.Proofs.Validation.Accumulation
import ShapeQuery.Proofs.Validation.AnyPlace
import ShapeQuery.Proofs.Validation.Conformance
import ShapeQuery.Proofs.Validation.Congruence
import ShapeQuery.Proofs.Validation.DataShapes
import ShapeQuery.Proofs.Validation.Indifference
import ShapeQuery.Proofs.Validation.Mismatches
import ShapeQuery.Proofs.Validation.Monotonicity
import ShapeQuery.Proofs.Validation.Repetitions
import ShapeQuery.Query.Basic
import ShapeQuery.Reading.Basic
import ShapeQuery.Reading.Fault
import ShapeQuery.Reading.Record
import ShapeQuery.Schema.Build
import ShapeQuery.Schema.Derive
import ShapeQuery.Schema.Identity
import ShapeQuery.Schema.Node
import ShapeQuery.Schema.Options
import ShapeQuery.Schema.Variant
import ShapeQuery.Text.DecimalDigit
import ShapeQuery.Text.Invisible
import ShapeQuery.Text.LogQuoted
import ShapeQuery.Text.Quoted
import ShapeQuery.Transport.Basic
import ShapeQuery.Transport.Param
import ShapeQuery.Transport.Scripted
import ShapeQuery.Validation.Check
import ShapeQuery.Validation.Issue
import ShapeQuery.Validation.IssueJson
