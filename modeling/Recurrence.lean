import Recurrence.Cadence
import Recurrence.Calendar.Date
import Recurrence.Calendar.DateTime
import Recurrence.Calendar.Minute
import Recurrence.Calendar.Timestamp
import Recurrence.Command.Arguments
import Recurrence.Command.Options
import Recurrence.Command.Report
import Recurrence.Diagnostic
import Recurrence.Document
import Recurrence.Event
import Recurrence.Expression.Basic
import Recurrence.Expression.Document
import Recurrence.Expression.Rule
import Recurrence.Expression.Text
import Recurrence.Field
import Recurrence.Main
import Recurrence.Names
import Recurrence.Occurrences.Basic
import Recurrence.Occurrences.Matcher
import Recurrence.Occurrences.Search
import Recurrence.Occurrences.ValueSet
import Recurrence.Pattern.Basic
import Recurrence.Pattern.Document
import Recurrence.Pattern.Meaning
import Recurrence.Pattern.Text
import Recurrence.Pattern.Values
import Recurrence.Text.Alignment
import Recurrence.Text.Blank
import Recurrence.Text.Decimal
import Recurrence.Text.Split
import Recurrence.Text.Words
import Recurrence.Proofs.AscendingLists
import Recurrence.Proofs.CadenceRules
import Recurrence.Proofs.CalendarOrder
import Recurrence.Proofs.CalendarSteps
import Recurrence.Proofs.CursorOrder
import Recurrence.Proofs.FirstFault
import Recurrence.Proofs.FirstMatch
import Recurrence.Proofs.HorizonReport
import Recurrence.Proofs.MaximalRuns
import Recurrence.Proofs.OccurrenceOrder
import Recurrence.Proofs.Paging
import Recurrence.Proofs.PatternGrammar
import Recurrence.Proofs.Rereading
import Recurrence.Proofs.Satisfiability
import Recurrence.Proofs.SelectedValues
import Recurrence.Proofs.TokenMeaning
import Recurrence.Proofs.WeekdayCycle
import Recurrence.Proofs.Windows
import Recurrence.Proofs.Adaptors
import Recurrence.Proofs.WrittenForm
import Recurrence.Proofs.CounterBounds
import Recurrence.Proofs.DistinctTexts
import Recurrence.Proofs.LetterCase
import Recurrence.Proofs.NormalFormValues
import Recurrence.Proofs.OffendingPieces
import Recurrence.Proofs.Underlining
import Recurrence.Proofs.RunEndings
import Recurrence.Proofs.DeclaredArguments
import Recurrence.Proofs.RuleArguments
import Recurrence.Proofs.MinuteTexts
import Recurrence.Proofs.WindowListings
import Recurrence.Proofs.LosslessDocuments
import Recurrence.Proofs.SelectedDays
import Recurrence.Proofs.MarkedColumns
import Recurrence.Proofs.LeastMembers
