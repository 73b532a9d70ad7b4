import BuildAdvisor.Advisor.BuiltIn
import BuildAdvisor.Advisor.Codec
import BuildAdvisor.Advisor.Options
import BuildAdvisor.Advisor.Run
import BuildAdvisor.Advisor.Source
import BuildAdvisor.CommandLine.Help
import BuildAdvisor.CommandLine.Parameter
import BuildAdvisor.CommandLine.Parser
import BuildAdvisor.CommandLine.Request
import BuildAdvisor.CommandLine.Run
import BuildAdvisor.CommandLine.Value
import BuildAdvisor.Config
import BuildAdvisor.Data.Decode
import BuildAdvisor.Data.Value
import BuildAdvisor.Decimal.Binary
import BuildAdvisor.Decimal.Layout
import BuildAdvisor.Decimal.Read
import BuildAdvisor.Decimal.Shortest
import BuildAdvisor.Error
import BuildAdvisor.Files.Tree
import BuildAdvisor.Graph.Basic
import BuildAdvisor.Graph.Codec
import BuildAdvisor.Graph.Record
import BuildAdvisor.HeaderPath
import BuildAdvisor.Json.Parser
import BuildAdvisor.Json.Printer
import BuildAdvisor.Json.Token
import BuildAdvisor.Main
import BuildAdvisor.Pch.Candidate
import BuildAdvisor.Pch.Codec
import BuildAdvisor.Pch.Cost
import BuildAdvisor.Pch.Effectiveness
import BuildAdvisor.Pch.Plan
import BuildAdvisor.Proofs.Advisor.BuiltIn
import BuildAdvisor.Proofs.Advisor.Run
import BuildAdvisor.Proofs.Graph.Log
import BuildAdvisor.Proofs.HeaderPath
import BuildAdvisor.Proofs.Random.Sample
import BuildAdvisor.Proofs.Rational
import BuildAdvisor.Proofs.Split.Analysis
import BuildAdvisor.Proofs.Split.Benefit
import BuildAdvisor.Proofs.Split.CoUsage
import BuildAdvisor.Proofs.Split.Groups
import BuildAdvisor.Proofs.Split.Labels
import BuildAdvisor.Proofs.Split.Partition
import BuildAdvisor.Proofs.Split.Quality
import BuildAdvisor.Proofs.Suggestion.Ranking
import BuildAdvisor.Proofs.Table
import BuildAdvisor.Random.ChaCha
import BuildAdvisor.Random.Generator
import BuildAdvisor.Random.Sample
import BuildAdvisor.Scalar
import BuildAdvisor.Scalar.Double
import BuildAdvisor.Scalar.Rational
import BuildAdvisor.Split.Affinity
import BuildAdvisor.Split.Clustering
import BuildAdvisor.Split.CoUsage
import BuildAdvisor.Split.Codec
import BuildAdvisor.Split.Config
import BuildAdvisor.Split.KMeans
import BuildAdvisor.Split.Proposal
import BuildAdvisor.Suggestion.Basic
import BuildAdvisor.Suggestion.Codec
import BuildAdvisor.Suggestion.Identifier
import BuildAdvisor.Suggestion.Ranking
import BuildAdvisor.Symbols.Declarations
import BuildAdvisor.Symbols.Inspector
import BuildAdvisor.Symbols.SourceFiles
import BuildAdvisor.Symbols.StaticTable
import BuildAdvisor.Table
import BuildAdvisor.Template.Codec
import BuildAdvisor.Template.Hotspot
import BuildAdvisor.Template.Name
import BuildAdvisor.Text.Blank
import BuildAdvisor.Text.Hex
import BuildAdvisor.Text.Pattern
import BuildAdvisor.Text.Quoted
import BuildAdvisor.Text.Utf8
import BuildAdvisor.Text.Word
import BuildAdvisor.Toml.Lexeme
import BuildAdvisor.Toml.Parser
import BuildAdvisor.Toml.Section
import BuildAdvisor.Trace.Basic
import BuildAdvisor.Trace.Codec
import BuildAdvisor.Proofs.Pch.Cost
import BuildAdvisor.Proofs.Pch.Candidate
import BuildAdvisor.Proofs.Pch.Plan
import BuildAdvisor.Proofs.Split.Cohesion
import BuildAdvisor.Proofs.Advisor.Isolation
import BuildAdvisor.Proofs.Graph.Record
import BuildAdvisor.Proofs.Data.Decode
import BuildAdvisor.Proofs.Graph.Codec
import BuildAdvisor.Proofs.Trace.Codec
import BuildAdvisor.Proofs.Scalar.Arithmetic
import BuildAdvisor.Proofs.Config
import BuildAdvisor.Proofs.Pch.Savings
import BuildAdvisor.Proofs.Template.Hotspot
import BuildAdvisor.Proofs.Advisor.Locality
import BuildAdvisor.Proofs.Advisor.WellFormed
import BuildAdvisor.Proofs.Split.Dependents
import BuildAdvisor.Proofs.Suggestion.Identifier
import BuildAdvisor.Proofs.Scalar.Order
import BuildAdvisor.Proofs.Split.Nearest
import BuildAdvisor.Proofs.Split.Settled
import BuildAdvisor.Proofs.Scalar.Divisor
import BuildAdvisor.Proofs.Checked.Operation
import BuildAdvisor.Proofs.Checked.Pch
import BuildAdvisor.Proofs.Checked.Advisor
import BuildAdvisor.Proofs.Checked.Clustering
import BuildAdvisor.Proofs.Checked.CoUsage
import BuildAdvisor.Proofs.Checked.Text
import BuildAdvisor.Proofs.Checked.HeaderPath
import BuildAdvisor.Proofs.Checked.Proposal
import BuildAdvisor.Proofs.Checked.TemplateName
import BuildAdvisor.Proofs.Checked.Pipeline
import BuildAdvisor.Proofs.Split.Descent
import BuildAdvisor.Proofs.Split.Rounds
import BuildAdvisor.Proofs.Split.Distance
import BuildAdvisor.Proofs.Split.TwoRows
import BuildAdvisor.Proofs.Template.Compaction
import BuildAdvisor.Proofs.Template.Spacing
import BuildAdvisor.Proofs.Template.Nesting
import BuildAdvisor.Proofs.Template.Arguments
import BuildAdvisor.Proofs.Scalar.Ranking
import BuildAdvisor.Proofs.Template.Reports
import BuildAdvisor.Proofs.Scalar.Storing
import BuildAdvisor.Proofs.Scalar.Rounding
import BuildAdvisor.Proofs.Scalar.Place
import BuildAdvisor.Proofs.Scalar.Product
import BuildAdvisor.Proofs.Pch.Selection
import BuildAdvisor.Proofs.HeaderPath.Separators
import BuildAdvisor.Proofs.Split.PartSize
import BuildAdvisor.Proofs.Text.Word
import BuildAdvisor.Proofs.Text.Pattern
import BuildAdvisor.Proofs.Text.Name
import BuildAdvisor.Proofs.Symbols.Identifiers
import BuildAdvisor.Proofs.Symbols.Declarations
import BuildAdvisor.Proofs.Scalar.Vanishing
import BuildAdvisor.Proofs.Suggestion.Selection
import BuildAdvisor.Proofs.Advisor.Removal
import BuildAdvisor.Proofs.Pch.Additions
import BuildAdvisor.Proofs.Pch.Repeats
import BuildAdvisor.Proofs.Split.RowClasses
import BuildAdvisor.Proofs.HeaderPath.PartName
import BuildAdvisor.Proofs.Scalar.Quotient
import BuildAdvisor.Proofs.Pch.Boundary
import BuildAdvisor.Proofs.Text.Passage
import BuildAdvisor.Proofs.Symbols.Macros
import BuildAdvisor.Proofs.Template.StrayBrackets
import BuildAdvisor.Proofs.Checked.StrayBrackets
import BuildAdvisor.Proofs.Template.Depth
