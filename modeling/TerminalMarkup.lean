import TerminalMarkup.Text.Basic
import TerminalMarkup.Text.Blank
import TerminalMarkup.Text.DecimalDigit
import TerminalMarkup.Text.Printable
import TerminalMarkup.Text.Numeral
import TerminalMarkup.Text.Quoted
import TerminalMarkup.Text.Newline
import TerminalMarkup.Text.Utf8
import TerminalMarkup.Color
import TerminalMarkup.Palette
import TerminalMarkup.Style
import TerminalMarkup.Sgr
import TerminalMarkup.Sgr.Cursor
import TerminalMarkup.Token.ControlSequence
import TerminalMarkup.Token.Hyperlink
import TerminalMarkup.Token.Basic
import TerminalMarkup.Token.Reader
import TerminalMarkup.Token.Whole
import TerminalMarkup.Entries
import TerminalMarkup.Settings.AllowList
import TerminalMarkup.Settings.Basic
import TerminalMarkup.Html.Entity
import TerminalMarkup.Html.Appearance
import TerminalMarkup.Html.Render
import TerminalMarkup.Html.Stylesheet
import TerminalMarkup.Html.Page
import TerminalMarkup.Notice
import TerminalMarkup.Stream
import TerminalMarkup.Converter
import TerminalMarkup.Session
import TerminalMarkup.Decimal.Binary64
import TerminalMarkup.Decimal.Shortest
import TerminalMarkup.Json.Value
import TerminalMarkup.Json.Reader
import TerminalMarkup.Json.Printer
import TerminalMarkup.Settings.Schemes
import TerminalMarkup.Settings.Json
import TerminalMarkup.Files
import TerminalMarkup.Settings.File
import TerminalMarkup.Download
import TerminalMarkup.Token.Buffer
import TerminalMarkup.Command.Option
import TerminalMarkup.Command.Arguments
import TerminalMarkup.Command.Usage
import TerminalMarkup.Command.Plain
import TerminalMarkup.Command.Run
import TerminalMarkup.Command.Acting
import TerminalMarkup.Main
import TerminalMarkup.Proofs.Token.Extension
import TerminalMarkup.Proofs.Token.Schedule
import TerminalMarkup.Proofs.Converter.Packets
import TerminalMarkup.Proofs.Token.Grammar
import TerminalMarkup.Proofs.Converter.Chunks
import TerminalMarkup.Proofs.Converter.Whole
import TerminalMarkup.Proofs.Converter.Containment
import TerminalMarkup.Proofs.Converter.Quiescence
import TerminalMarkup.Proofs.Html.Classes
import TerminalMarkup.Proofs.Style.Palette
import TerminalMarkup.Proofs.Settings.RoundTrip
import TerminalMarkup.Proofs.Converter.Policy
import TerminalMarkup.Proofs.Json.Faults
import TerminalMarkup.Proofs.Settings.Loading
import TerminalMarkup.Proofs.Command.Invocation
import TerminalMarkup.Proofs.Command.Loading
import TerminalMarkup.Proofs.Command.Chunks
import TerminalMarkup.Proofs.Token.ControlSequence
import TerminalMarkup.Proofs.Token.Hyperlink
import TerminalMarkup.Proofs.Paths
import TerminalMarkup.Proofs.Command.Arguments
import TerminalMarkup.Proofs.Command.Overrides
import TerminalMarkup.Proofs.Command.Fetching
import TerminalMarkup.Proofs.Style.Codes
import TerminalMarkup.Proofs.Style.Aspects
import TerminalMarkup.Proofs.Style.ExtendedColors
import TerminalMarkup.Proofs.Style.Spelling
import TerminalMarkup.Proofs.Html.Replacing
import TerminalMarkup.Proofs.Text.Order
import TerminalMarkup.Proofs.Settings.Members
import TerminalMarkup.Proofs.Settings.Reordering
import TerminalMarkup.Proofs.Command.Results
import TerminalMarkup.Proofs.Command.Acting
import TerminalMarkup.Proofs.Command.Traces
import TerminalMarkup.Proofs.Html.EscapeFree
import TerminalMarkup.Proofs.Converter.EscapeFree
import TerminalMarkup.Proofs.Command.Plain
import TerminalMarkup.Proofs.Command.Printing
import TerminalMarkup.Proofs.Converter.Noninterference
import TerminalMarkup.Proofs.Html.Page
import TerminalMarkup.Proofs.Command.Pages
import TerminalMarkup.Proofs.Settings.Schemes
