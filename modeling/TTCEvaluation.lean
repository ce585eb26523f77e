import TTCEvaluation.Text.Segments
import TTCEvaluation.Text.Strings
import TTCEvaluation.Text.Patterns
import TTCEvaluation.Text.Scanning
import TTCEvaluation.Arithmetic.Rounding
import TTCEvaluation.Arithmetic.Steps
import TTCEvaluation.Arithmetic.DecimalText
import TTCEvaluation.Arithmetic.Shortest
import TTCEvaluation.Arithmetic.Shares
import TTCEvaluation.Store.Writes
import TTCEvaluation.Workflow.Scripts
import TTCEvaluation.Tables.Csv
import TTCEvaluation.Tables.Join
import TTCEvaluation.Tables.Statistics
import TTCEvaluation.Tables.TopRows
import TTCEvaluation.Tables.Counts
import TTCEvaluation.Tables.Spread
import TTCEvaluation.Tables.Monotone
import TTCEvaluation.Extraction.Identifiers
import TTCEvaluation.Extraction.Names
import TTCEvaluation.Extraction.Definitions
import TTCEvaluation.Extraction.Metadata
import TTCEvaluation.Extraction.Numbering
import TTCEvaluation.Extraction.Columns
import TTCEvaluation.Extraction.Dataset
import TTCEvaluation.Extraction.Interrupted
import TTCEvaluation.Extraction.Selection
import TTCEvaluation.Annotation.Constants
import TTCEvaluation.Annotation.Literals
import TTCEvaluation.Annotation.Tokens
import TTCEvaluation.Annotation.Preannotation
import TTCEvaluation.Annotation.Reproducible
import TTCEvaluation.Annotation.CellFormat
import TTCEvaluation.Annotation.Ranges
import TTCEvaluation.Annotation.ReadBack
import TTCEvaluation.Annotation.OutsideRange
import TTCEvaluation.Annotation.Includes
import TTCEvaluation.Scoring.Values
import TTCEvaluation.Scoring.IntegerLiterals
import TTCEvaluation.Scoring.Multiplicity
import TTCEvaluation.Scoring.Rows
import TTCEvaluation.Scoring.Layout
import TTCEvaluation.Scoring.EmptyTest
import TTCEvaluation.Scoring.Lines
import TTCEvaluation.Scoring.Attainable
import TTCEvaluation.Scoring.ValueLists
import TTCEvaluation.Scoring.Bounds
import TTCEvaluation.Scoring.Decimals
import TTCEvaluation.Evaluation.Lookup
import TTCEvaluation.Evaluation.Attribution
import TTCEvaluation.Evaluation.Results
import TTCEvaluation.Evaluation.Reports
import TTCEvaluation.Evaluation.Metrics
import TTCEvaluation.Evaluation.TopBottom
import TTCEvaluation.Evaluation.Figures
import TTCEvaluation.Evaluation.Agreement
import TTCEvaluation.Evaluation.Ranges
import TTCEvaluation.Evaluation.Improvement
import TTCEvaluation.Evaluation.Prompts
import TTCEvaluation.Evaluation.HandOff
import TTCEvaluation.Pipeline.Workspace
import TTCEvaluation.Pipeline.Stages
import TTCEvaluation.Pipeline.Orders
import TTCEvaluation.Pipeline.Failures
import TTCEvaluation.Pipeline.Current
import TTCEvaluation.Pipeline.Reports
import TTCEvaluation.Pipeline.Completion
import TTCEvaluation.Pipeline.Reruns
import TTCEvaluation.Pipeline.Growth
import TTCEvaluation.Pipeline.Outcome
import TTCEvaluation.Pipeline.Invariant
import TTCEvaluation.Pipeline.Reachable
import TTCEvaluation.Pipeline.Review
import TTCEvaluation.Pipeline.Confirmed
