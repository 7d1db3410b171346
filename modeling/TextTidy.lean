import TextTidy.Http.Api
import TextTidy.Main
import TextTidy.Proofs.Binary64.Decimal
import TextTidy.Proofs.Binary64.Magnitude
import TextTidy.Proofs.Binary64.Nearest
import TextTidy.Proofs.Binary64.Shortest
import TextTidy.Proofs.Blank
import TextTidy.Proofs.Css.Brace
import TextTidy.Proofs.Scan
import TextTidy.Proofs.Css.Declaration
import TextTidy.Proofs.Css.Format
import TextTidy.Proofs.Css.Spelling
import TextTidy.Proofs.Css.Selector
import TextTidy.Proofs.Css.Verdict
import TextTidy.Proofs.Css.Repair
import TextTidy.Proofs.Css.Compact
import TextTidy.Proofs.Css.Condensed
import TextTidy.Proofs.Css.Rerun
import TextTidy.Proofs.Css.Comment
import TextTidy.Proofs.Css.Sequence
import TextTidy.Proofs.Css.Unclosed
import TextTidy.Proofs.Css.GapLength
import TextTidy.Proofs.Css.Account
import TextTidy.Proofs.Css.Respelt
import TextTidy.Proofs.Css.RunByRun
import TextTidy.Proofs.Css.QuotedKept
import TextTidy.Proofs.Json.Grammar
import TextTidy.Proofs.Json.Number
import TextTidy.Proofs.Json.Derived
import TextTidy.Proofs.Json.Parse
import TextTidy.Proofs.Json.Limit
import TextTidy.Proofs.Json.ConstantPlace
import TextTidy.Proofs.Http.ReportRoute
import TextTidy.Proofs.Json.Numeral
import TextTidy.Proofs.Json.Part
import TextTidy.Proofs.Json.Written
import TextTidy.Proofs.Json.Reformat
import TextTidy.Proofs.Css.CompactForm
import TextTidy.Proofs.Css.Leftover
import TextTidy.Proofs.Css.KeptSpace
import TextTidy.Proofs.Css.CompactVerdict
import TextTidy.Proofs.Utf8
import TextTidy.Proofs.FileStore
import TextTidy.Proofs.Css.Output
import TextTidy.Proofs.Delivery
import TextTidy.Proofs.CommandLine.Destination
import TextTidy.Proofs.CommandLine.Reformatting
import TextTidy.Proofs.Http.VerdictRoute
import TextTidy.Proofs.Css.Nesting
import TextTidy.Proofs.Css.Innermost
import TextTidy.Proofs.Css.JoinedComment
import TextTidy.Proofs.Json.LineEnds
import TextTidy.Proofs.Http.LineEnds
import TextTidy.Proofs.Offset
import TextTidy.Proofs.Http.FormatRoute
