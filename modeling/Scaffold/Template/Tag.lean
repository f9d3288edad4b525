import Scaffold.Text.Blank
import Scaffold.Text.Identifier
import Scaffold.Template.Scanner

/-!
Tags in the text of a template. The meaning of a tag depends on its content alone, and everything
outside of tags is literal text.
-/

namespace Scaffold.Template

open Text

/-- A dotted name, such as `name` or `p.name`. -/
structure Reference where
  head : String
  fields : List String
  deriving DecidableEq, Repr

def Reference.segments (r : Reference) : List String :=
  r.head :: r.fields

/-- The reference as it is written. -/
def Reference.text (r : Reference) : String :=
  ".".intercalate r.segments

/-- Reads a list of identifiers separated by dots. -/
def Reference.read? (cs : List Char) : Option Reference :=
  let segments := splitWhere (· = '.') cs
  if segments.all isIdentifier then
    match segments.map String.ofList with
    | [] => none
    | head :: fields => some ⟨head, fields⟩
  else none

inductive Tag where
  | placeholder (reference : Reference)
  | loopStart (var collection : String)
  | loopEnd
  deriving DecidableEq, Repr

/-- Reads the content of an expression tag. -/
def Tag.readExpression (content : List Char) : Except Fault Tag :=
  let expression := trim content
  if expression.isEmpty then .error .emptyExpression
  else
    match Reference.read? expression with
    | some reference => .ok (.placeholder reference)
    | none => .error (.invalidExpression (String.ofList expression))

/-- Reads the content of a directive tag. Only its words count, not the blanks between them. -/
def Tag.readDirective (content : List Char) : Except Fault Tag :=
  match (words content).map String.ofList with
  | [] => .error .emptyDirective
  | ["endfor"] => .ok .loopEnd
  | ["for", var, "in", collection] =>
    if !isIdentifier var.toList then .error (.invalidLoopVariable var)
    else if !isIdentifier collection.toList then .error (.invalidCollection collection)
    else .ok (.loopStart var collection)
  | "for" :: _ => .error (.invalidLoopHeader (String.ofList (trim content)))
  | word :: _ => .error (.unknownDirective word)

def Tag.read : Delimiter → List Char → Except Fault Tag
  | .expression => readExpression
  | .directive => readDirective

/-- A stretch of the text of a template. A tag that is opened and never closed takes the rest of
the text. Tags carry the line of their opening delimiter. -/
inductive Segment where
  | literal (text : List Char)
  | tag (delimiter : Delimiter) (content : List Char) (line : Nat)
  | unclosed (delimiter : Delimiter) (line : Nat)
  deriving DecidableEq, Repr

/-- The segment that a token cuts out of a text, unless it cuts a character apart. -/
def Token.segment? (source : ByteArray) : Token → Option Segment
  | .literal text => (text.text? source).map fun s => .literal s.toList
  | .tag delimiter content line =>
    (content.text? source).map fun s => .tag delimiter s.toList line
  | .unclosed delimiter line => some (.unclosed delimiter line)

/-- The segments of a text, from left to right. -/
def segments (text : String) : List Segment :=
  (tokens text).filterMap (Token.segment? text.toUTF8)

end Scaffold.Template
