import LuaDump.Binary64
import LuaDump.Bytecode
import LuaDump.Bytes
import LuaDump.Command
import LuaDump.Command.Arguments
import LuaDump.Constant
import LuaDump.Constant.Inspect
import LuaDump.Constant.Literal
import LuaDump.Decimal.Notation
import LuaDump.Decimal.Shortest
import LuaDump.Decode
import LuaDump.Decoder
import LuaDump.Decoder.Field
import LuaDump.Decoder.Sequence
import LuaDump.Decoder.Varint
import LuaDump.Dialect
import LuaDump.Event
import LuaDump.Failure
import LuaDump.Header
import LuaDump.Header.Sniff
import LuaDump.Interchange.DocumentError
import LuaDump.Interchange.Draft
import LuaDump.Interchange.Read
import LuaDump.Interchange.Write
import LuaDump.Jit.Constant
import LuaDump.Jit.Record
import LuaDump.Listing
import LuaDump.Luau.Constant
import LuaDump.Luau.Record
import LuaDump.Main
import LuaDump.MessagePack
import LuaDump.MessagePack.Reader
import LuaDump.Numeral
import LuaDump.Numeral.Complex
import LuaDump.Proofs.Culprit
import LuaDump.Proofs.Delivery
import LuaDump.Proofs.Depth
import LuaDump.Proofs.Everywhere
import LuaDump.Proofs.Extent
import LuaDump.Proofs.Finality
import LuaDump.Proofs.Guards
import LuaDump.Proofs.Interchange.Codec
import LuaDump.Proofs.Interchange.Document
import LuaDump.Proofs.Interchange.Fitting
import LuaDump.Proofs.Interchange.Range
import LuaDump.Proofs.Interchange.RecordRange
import LuaDump.Proofs.Interchange.RoundTrip
import LuaDump.Proofs.Jit.DebugInfo
import LuaDump.Proofs.Jit.Length
import LuaDump.Proofs.Jit.RoundTrip
import LuaDump.Proofs.Literal.Name
import LuaDump.Proofs.Literal.QuotedString
import LuaDump.Proofs.Literal.Unambiguity
import LuaDump.Proofs.Logging
import LuaDump.Proofs.Logging.Function
import LuaDump.Proofs.Luau.LineTable
import LuaDump.Proofs.Luau.Linking
import LuaDump.Proofs.Luau.Listing
import LuaDump.Proofs.Luau.Ownership
import LuaDump.Proofs.Luau.RoundTrip
import LuaDump.Proofs.Prefix
import LuaDump.Proofs.Raising
import LuaDump.Proofs.Raising.Function
import LuaDump.Proofs.Raising.Header
import LuaDump.Proofs.Raising.Record
import LuaDump.Proofs.Reading.File
import LuaDump.Proofs.Reading.Number
import LuaDump.Proofs.References
import LuaDump.Proofs.Relocation
import LuaDump.Proofs.Settling
import LuaDump.Proofs.Settling.Field
import LuaDump.Proofs.Settling.Function
import LuaDump.Proofs.Shape
import LuaDump.Proofs.Spending
import LuaDump.Proofs.Standard.Labels
import LuaDump.Proofs.Standard.Path
import LuaDump.Proofs.Standard.RoundTrip
import LuaDump.Proofs.Trace
import LuaDump.Proofs.Unfolding
import LuaDump.Proofs.Walk
import LuaDump.Prototype
import LuaDump.Session
import LuaDump.Standard.Chunk
import LuaDump.Standard.Field
import LuaDump.Standard.Release
import LuaDump.Text.Digit
import LuaDump.Text.Hidden
import LuaDump.Text.Quoted
import LuaDump.Text.Utf8
import LuaDump.Toolchain
import LuaDump.Proofs.Varint
import LuaDump.Proofs.Varint.LowGroups
import LuaDump.Proofs.Varint.HighGroups
import LuaDump.Proofs.Literal.Printable
import LuaDump.Proofs.Varint.NumericHead
import LuaDump.Proofs.Lines
import LuaDump.Proofs.Confinement.Session
