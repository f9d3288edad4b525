import Scaffold.Template.Error

/-!
The scanner of a template. It goes through the bytes of a text with one state and cuts the text at
byte positions: into literal text, tags, and a tag that is opened and never closed. A lone brace and
a lone first half of a closing delimiter are looked at once more as what stands around them.
-/

namespace Scaffold.Template

/-- The kind of tag that a brace and this byte open. -/
def Delimiter.ofSecond? (byte : UInt8) : Option Delimiter :=
  if byte = '{'.toUInt8 then some .expression
  else if byte = '%'.toUInt8 then some .directive
  else none

/-- The byte that closes a tag of this kind when a closing brace follows it. -/
def Delimiter.closer : Delimiter → UInt8
  | .expression => '}'.toUInt8
  | .directive => '%'.toUInt8

/-- The bytes from one position up to another. -/
structure Span where
  start : Nat
  stop : Nat
  deriving DecidableEq, Repr

/-- Whether a text may be cut at a position of its bytes: a character begins there, or the text
ends. -/
def isBoundary (source : ByteArray) (position : Nat) : Bool :=
  if h : position < source.size then source[position].IsUTF8FirstByte
  else position = source.size

/-- The text of a span, unless the span ends before it begins or is cut inside a character or
beyond the end. -/
def Span.text? (source : ByteArray) (s : Span) : Option String :=
  if s.start ≤ s.stop ∧ isBoundary source s.start ∧ isBoundary source s.stop then
    String.fromUTF8? (source.extract s.start s.stop)
  else none

/-- A stretch of the bytes of a template. Tags carry the line of their opening delimiter, and the
span of a tag is that of its content. -/
inductive Token where
  | literal (text : Span)
  | tag (delimiter : Delimiter) (content : Span) (line : Nat)
  | unclosed (delimiter : Delimiter) (line : Nat)
  deriving DecidableEq, Repr

/-- Literal text as a token, and no token for no text. -/
def Token.ofText (start stop : Nat) : List Token :=
  if start < stop then [.literal ⟨start, stop⟩] else []

/-- What the scanner has seen since the last token. -/
inductive ScanState where
  | text (start : Nat)
  | seenOpen (start brace : Nat)
  | inTag (delimiter : Delimiter) (content line : Nat)
  | seenClose (delimiter : Delimiter) (content close line : Nat)
  deriving DecidableEq, Repr

namespace ScanState

/-- Whether the next byte may have to be looked at twice. -/
def isHalfway : ScanState → Bool
  | .seenOpen .. | .seenClose .. => true
  | _ => false

/-- The tokens that are left when the bytes have run out. -/
def finish (size : Nat) : ScanState → List Token
  | .text start | .seenOpen start _ => Token.ofText start size
  | .inTag delimiter _ line | .seenClose delimiter _ _ line => [.unclosed delimiter line]

end ScanState

/-- The line after a byte on the given line. -/
def lineAfter (line : Nat) (byte : UInt8) : Nat :=
  if byte = '\n'.toUInt8 then line + 1 else line

/-- The tokens from a position on. -/
def scan (source : ByteArray) (position line : Nat) (state : ScanState) : List Token :=
  if h : position < source.size then
    let byte := source[position]
    match state with
    | .text start =>
      if byte = '{'.toUInt8 then scan source (position + 1) line (.seenOpen start position)
      else scan source (position + 1) (lineAfter line byte) (.text start)
    | .seenOpen start brace =>
      match Delimiter.ofSecond? byte with
      | some delimiter =>
        Token.ofText start brace ++
          scan source (position + 1) line (.inTag delimiter (position + 1) line)
      | none => scan source position line (.text start)
    | .inTag delimiter content tagLine =>
      if byte = delimiter.closer then
        scan source (position + 1) line (.seenClose delimiter content position tagLine)
      else scan source (position + 1) (lineAfter line byte) (.inTag delimiter content tagLine)
    | .seenClose delimiter content close tagLine =>
      if byte = '}'.toUInt8 then
        .tag delimiter ⟨content, close⟩ tagLine ::
          scan source (position + 1) line (.text (position + 1))
      else scan source position line (.inTag delimiter content tagLine)
  else state.finish source.size
termination_by 2 * (source.size - position) + state.isHalfway.toNat
decreasing_by all_goals (simp [ScanState.isHalfway]; try omega)

/-- The tokens of a text, from left to right. The first line is 1. -/
def tokens (text : String) : List Token :=
  scan text.toUTF8 0 1 (.text 0)

end Scaffold.Template
