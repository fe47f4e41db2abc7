import WarcStream.Bytes
import WarcStream.Text.Utf8
import WarcStream.Text.Blank
import WarcStream.Text.GraphemeExtend
import WarcStream.Text.Unprintable
import WarcStream.Text.Wide
import WarcStream.Decimal.Binary64
import WarcStream.Decimal.Shortest
import WarcStream.Text.Quoted
import WarcStream.Text.Width
import WarcStream.Base64
import WarcStream.Value
import WarcStream.Json.Printer
import WarcStream.Json.Error
import WarcStream.Json.Numeral
import WarcStream.Json.Parser
import WarcStream.Transport.Fault
import WarcStream.Transport.Source
import WarcStream.Transport.Sink
import WarcStream.Frame.Framing
import WarcStream.Frame.Segmenter
import WarcStream.Log.Event
import WarcStream.Frame.Reader
import WarcStream.Frame.Writer
import WarcStream.Frame.Codec
import WarcStream.Text.Integer
import WarcStream.Message.Basic
import WarcStream.Message.Version
import WarcStream.Message.Format
import WarcStream.Message.Document
import WarcStream.Message.Field
import WarcStream.Cbor.Header
import WarcStream.Cbor.Error
import WarcStream.Cbor.Encoder
import WarcStream.Cbor.Parser
import WarcStream.Transport.Buffered
import WarcStream.Cbor.Reader
import WarcStream.Message.Error
import WarcStream.Message.Structured
import WarcStream.Message.Writer
import WarcStream.Message.Reader
import WarcStream.Message.Codec
import WarcStream.Record.Sequence
import WarcStream.Report.Table
import WarcStream.Report.Printer
import WarcStream.Report.Check
import WarcStream.Command.Failure
import WarcStream.Log.Line
import WarcStream.Transport.Directory
import WarcStream.Command.Options
import WarcStream.Command.Arguments
import WarcStream.Command.Outcome
import WarcStream.Command.Dump
import WarcStream.Command.Check
import WarcStream.Command.Frame
import WarcStream.Command.Program
import WarcStream.Proofs.Record.Order
import WarcStream.Main
import WarcStream.Proofs.Text.Characters
import WarcStream.Proofs.Base64
import WarcStream.Proofs.Value
import WarcStream.Proofs.Transport.Delivery
import WarcStream.Proofs.Transport.Passage
import WarcStream.Proofs.Transport.Acceptance
import WarcStream.Proofs.Transport.Reliable
import WarcStream.Proofs.Frame.Runs
import WarcStream.Proofs.Frame.Reading
import WarcStream.Proofs.Frame.Passage
import WarcStream.Proofs.Frame.Reassembly
import WarcStream.Proofs.Frame.Limit
import WarcStream.Proofs.Frame.Wire
import WarcStream.Proofs.Frame.Sending
import WarcStream.Proofs.Frame.Resumption
import WarcStream.Proofs.Frame.Encoding
import WarcStream.Proofs.Json.Grammar
import WarcStream.Proofs.Json.Soundness
import WarcStream.Proofs.Json.Roundtrip
import WarcStream.Proofs.Json.Prefix
import WarcStream.Proofs.Cbor.Requests
import WarcStream.Proofs.Cbor.Roundtrip
import WarcStream.Proofs.Message.Document
import WarcStream.Proofs.Message.Writing
import WarcStream.Proofs.Message.Yield
import WarcStream.Proofs.Message.Cut
import WarcStream.Proofs.Message.Roundtrip
import WarcStream.Proofs.Message.Truncation
import WarcStream.Proofs.Record.Validation
import WarcStream.Proofs.Base64.Canonical
import WarcStream.Proofs.Success
import WarcStream.Proofs.Message.Fields
import WarcStream.Proofs.Message.Grammar
import WarcStream.Proofs.Message.Gate
import WarcStream.Proofs.Cbor.Consumption
import WarcStream.Proofs.Message.Items
import WarcStream.Proofs.Message.Buffered
import WarcStream.Proofs.Message.Upgrade
import WarcStream.Proofs.Message.Sending
import WarcStream.Proofs.Cbor.Passage
import WarcStream.Proofs.Message.Failure
import WarcStream.Proofs.Message.Fusing
import WarcStream.Proofs.Message.Encoding
import WarcStream.Proofs.Message.Relay
import WarcStream.Proofs.Cbor.Grammar
import WarcStream.Proofs.Cbor.Soundness
import WarcStream.Proofs.Members
import WarcStream.Proofs.Message.Members
import WarcStream.Proofs.Frame.Chunks
import WarcStream.Proofs.Message.Chunks
import WarcStream.Proofs.Message.Stopping
import WarcStream.Proofs.Text.Trimming
import WarcStream.Proofs.Json.Text
import WarcStream.Proofs.Command.Printing
import WarcStream.Proofs.Command.Lines
import WarcStream.Proofs.Command.Inverse
import WarcStream.Proofs.Command.Verdict
import WarcStream.Proofs.Command.Refusal
import WarcStream.Proofs.Message.Delimiting
import WarcStream.Proofs.Message.Interchange
import WarcStream.Proofs.Json.Blanks
import WarcStream.Proofs.Message.Layouts
import WarcStream.Proofs.Ordered
import WarcStream.Proofs.Message.Strict
import WarcStream.Proofs.Frame.Searching
import WarcStream.Proofs.Frame.Conservation
import WarcStream.Proofs.Frame.Draining
import WarcStream.Proofs.Frame.Bounded
import WarcStream.Proofs.Cbor.Recording
import WarcStream.Proofs.Message.Bounded
import WarcStream.Proofs.Message.Unambiguous
import WarcStream.Proofs.Record.Refusal
import WarcStream.Proofs.Frame.Demand
import WarcStream.Proofs.Transport.Agreement
import WarcStream.Proofs.Command.Rendering
import WarcStream.Proofs.Frame.Agreement
import WarcStream.Proofs.Message.Agreement
import WarcStream.Proofs.Command.Count
import WarcStream.Proofs.Report.Blocks
import WarcStream.Proofs.Report.Listing
import WarcStream.Proofs.Frame.Roundtrip
import WarcStream.Proofs.Command.Prefix
