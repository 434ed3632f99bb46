import RuleCodec.Abi
import RuleCodec.Bytes
import RuleCodec.Component
import RuleCodec.Config
import RuleCodec.Config.Piece
import RuleCodec.Config.Settings
import RuleCodec.Config.Text
import RuleCodec.Definition.ForeignCall
import RuleCodec.Definition.Tracker
import RuleCodec.Definition.Value
import RuleCodec.Effect
import RuleCodec.Effect.Compile
import RuleCodec.Error
import RuleCodec.Expr
import RuleCodec.Expr.Normal
import RuleCodec.Expr.Parser
import RuleCodec.Global
import RuleCodec.Instruction
import RuleCodec.Instruction.Encode
import RuleCodec.Json
import RuleCodec.Json.Codec
import RuleCodec.Json.Records
import RuleCodec.Json.Text
import RuleCodec.Keccak
import RuleCodec.Numeral
import RuleCodec.Opcode
import RuleCodec.Operator
import RuleCodec.Parsed
import RuleCodec.Placeholder
import RuleCodec.Proofs.Acceptance
import RuleCodec.Proofs.Appending
import RuleCodec.Proofs.Catalogs
import RuleCodec.Proofs.Cataloguing
import RuleCodec.Proofs.Clauses
import RuleCodec.Proofs.Codecs
import RuleCodec.Proofs.Cores
import RuleCodec.Proofs.Decoding
import RuleCodec.Proofs.Denotations
import RuleCodec.Proofs.Distinguishing
import RuleCodec.Proofs.Effects
import RuleCodec.Proofs.Encoding
import RuleCodec.Proofs.Entries
import RuleCodec.Proofs.Exchanging
import RuleCodec.Proofs.Fields
import RuleCodec.Proofs.Formats
import RuleCodec.Proofs.Gist
import RuleCodec.Proofs.Grammar
import RuleCodec.Proofs.Layouts
import RuleCodec.Proofs.Literals
import RuleCodec.Proofs.Machine
import RuleCodec.Proofs.Nodes
import RuleCodec.Proofs.Normalizing
import RuleCodec.Proofs.Numbering
import RuleCodec.Proofs.Numerals
import RuleCodec.Proofs.Parsing
import RuleCodec.Proofs.Policies
import RuleCodec.Proofs.Precedence
import RuleCodec.Proofs.Quotations
import RuleCodec.Proofs.Readers
import RuleCodec.Proofs.ReadingBack
import RuleCodec.Proofs.Rebuilding
import RuleCodec.Proofs.Recompiling
import RuleCodec.Proofs.Records
import RuleCodec.Proofs.Refusals
import RuleCodec.Proofs.Registries
import RuleCodec.Proofs.Regrouping
import RuleCodec.Proofs.Renumbering
import RuleCodec.Proofs.Replaying
import RuleCodec.Proofs.Reprinting
import RuleCodec.Proofs.Rereading
import RuleCodec.Proofs.Resolution
import RuleCodec.Proofs.RoundTrip
import RuleCodec.Proofs.Scanning
import RuleCodec.Proofs.Selectors
import RuleCodec.Proofs.Settling
import RuleCodec.Proofs.Shapes
import RuleCodec.Proofs.Signatures
import RuleCodec.Proofs.Slots
import RuleCodec.Proofs.Spacing
import RuleCodec.Proofs.Spelling
import RuleCodec.Proofs.Streams
import RuleCodec.Proofs.Tables
import RuleCodec.Proofs.Texts
import RuleCodec.Proofs.Trimming
import RuleCodec.Proofs.Utf8
import RuleCodec.Proofs.Widths
import RuleCodec.Rule
import RuleCodec.Signature
import RuleCodec.Stream
import RuleCodec.Stream.Replay
import RuleCodec.Symbols
import RuleCodec.Table
import RuleCodec.Text.Alphabetic
import RuleCodec.Text.Blank
import RuleCodec.Text.CharClass
import RuleCodec.Text.CodeRanges
import RuleCodec.Text.Combining
import RuleCodec.Text.Escape
import RuleCodec.Text.Ignorable
import RuleCodec.Text.Numeric
import RuleCodec.Text.Quoted
import RuleCodec.Text.Split
import RuleCodec.Text.Unprintable
import RuleCodec.Text.Utf8
import RuleCodec.Token
import RuleCodec.Token.Lexer
import RuleCodec.ValueType
import RuleCodec.ValueType.Text
import RuleCodec.Word
import RuleCodec.Proofs.Cursors
import RuleCodec.Proofs.Tiling
import RuleCodec.Proofs.Lockstep
import RuleCodec.Proofs.Progress
