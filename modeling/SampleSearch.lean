import SampleSearch.Calendar.Moment
import SampleSearch.Calendar.Window
import SampleSearch.CommandLine.Invocation
import SampleSearch.CommandLine.Run
import SampleSearch.Compile.Directory
import SampleSearch.Compile.Leaf
import SampleSearch.Compile.Plan
import SampleSearch.Compile.Query
import SampleSearch.Condition.Access
import SampleSearch.Condition.Basic
import SampleSearch.Condition.Column
import SampleSearch.Condition.Decision
import SampleSearch.Condition.Readable
import SampleSearch.Condition.Truth
import SampleSearch.Decimal.Digits
import SampleSearch.Decimal.Dyadic
import SampleSearch.Decimal.Extended
import SampleSearch.Decimal.Real
import SampleSearch.Error
import SampleSearch.Field.Path
import SampleSearch.Field.Registry
import SampleSearch.Json.Document
import SampleSearch.Json.DocumentReader
import SampleSearch.Json.Escape
import SampleSearch.Json.Number
import SampleSearch.Json.Printer
import SampleSearch.Json.Reader
import SampleSearch.Json.Value
import SampleSearch.Kind
import SampleSearch.Main
import SampleSearch.Query.Lexeme
import SampleSearch.Query.Outcome
import SampleSearch.Query.Parser
import SampleSearch.Query.Tree
import SampleSearch.Report.Format
import SampleSearch.Report.Payload
import SampleSearch.Scan.Access
import SampleSearch.Scan.Course
import SampleSearch.Scan.Estimate
import SampleSearch.Scan.Matching
import SampleSearch.Scan.Route
import SampleSearch.Scan.Term
import SampleSearch.Search.Answer
import SampleSearch.Search.Hit
import SampleSearch.Sql.Fragment
import SampleSearch.Sql.Limits
import SampleSearch.Sql.Statement
import SampleSearch.Store.Basic
import SampleSearch.Store.Cell
import SampleSearch.Store.Change
import SampleSearch.Store.Database
import SampleSearch.Store.Lookup
import SampleSearch.Store.Record
import SampleSearch.Store.Scope
import SampleSearch.Store.Script
import SampleSearch.Store.Table
import SampleSearch.Text.Basic
import SampleSearch.Text.Blank
import SampleSearch.Text.DecimalDigit
import SampleSearch.Text.Like
import SampleSearch.Text.Octets
import SampleSearch.Text.Wildcard
import SampleSearch.Viewer
import SampleSearch.Proofs.CompiledConditions
import SampleSearch.Proofs.HiddenEntities
import SampleSearch.Proofs.Readability
import SampleSearch.Proofs.RelatedRows
import SampleSearch.Proofs.LeafMeaning
import SampleSearch.Proofs.QueryMeaning
import SampleSearch.Proofs.DistinctKeys
import SampleSearch.Proofs.Visibility
import SampleSearch.Proofs.UploadOrder
import SampleSearch.Proofs.SearchExactness
import SampleSearch.Proofs.Pagination
import SampleSearch.Proofs.Routes
import SampleSearch.Proofs.CourseConditions
import SampleSearch.Proofs.CourseCoverage
import SampleSearch.Proofs.Noninterference
import SampleSearch.Proofs.StrictScalars
import SampleSearch.Proofs.StrictDocuments
import SampleSearch.Proofs.ParsedTrees
import SampleSearch.Proofs.PrintedQueries
import SampleSearch.Proofs.RoundTrip
import SampleSearch.Proofs.PermittedConditions
import SampleSearch.Proofs.Placeholders
import SampleSearch.Proofs.UniqueReading
import SampleSearch.Proofs.Literals
import SampleSearch.Proofs.BoundKinds
import SampleSearch.Proofs.KindScope
import SampleSearch.Proofs.KnownTruth
import SampleSearch.Proofs.Negation
import SampleSearch.Proofs.OrderlyConditions
import SampleSearch.Proofs.RowOrder
import SampleSearch.Proofs.HiddenDocuments
import SampleSearch.Proofs.NewIds
import SampleSearch.Proofs.WiderViewers
import SampleSearch.Proofs.WildcardMeaning
import SampleSearch.Proofs.DigitOrder
import SampleSearch.Proofs.CalendarOrder
import SampleSearch.Proofs.WrittenDates
import SampleSearch.Proofs.MomentConditions
import SampleSearch.Proofs.DateGrammar
import SampleSearch.Proofs.WiderRanges
import SampleSearch.Proofs.PointRanges
import SampleSearch.Proofs.EscapedPaths
import SampleSearch.Proofs.FieldTargets
import SampleSearch.Proofs.FieldGroups
import SampleSearch.Proofs.DroppedPrefixes
import SampleSearch.Proofs.RestrictedKinds
import SampleSearch.Proofs.FreeOrder
import SampleSearch.Proofs.DocumentPaths
import SampleSearch.Proofs.TreePaths
import SampleSearch.Proofs.RecursionDepth
import SampleSearch.Proofs.TreeShape
import SampleSearch.Proofs.ClosedQueries
import SampleSearch.Proofs.NestingLimits
import SampleSearch.Proofs.Parentheses
import SampleSearch.Proofs.ReadPositions
import SampleSearch.Proofs.ParserProgress
import SampleSearch.Proofs.StatementTokens
import SampleSearch.Proofs.StatementGrammar
import SampleSearch.Proofs.StatementForms
import SampleSearch.Proofs.StatementMeaning
import SampleSearch.Proofs.StatementRows
import SampleSearch.Proofs.StatementAnswers
import SampleSearch.Proofs.StatementResults
