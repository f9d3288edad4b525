/-!
Texts as bytes. A text is encoded in UTF-8. Bytes that encode no text can still be read: each
longest start of a character that is not completed is replaced by U+FFFD, and so is each byte that
cannot stand where it does.
-/

namespace Scaffold.Text

/-- The bytes of a text. -/
def bytes (s : String) : List UInt8 :=
  s.toList.flatMap String.utf8EncodeChar

/-- The character that the bytes begin with. -/
def firstChar? (bs : List UInt8) : Option Char :=
  ByteArray.utf8DecodeChar? ⟨bs.toArray⟩ 0

def isContinuation (byte : UInt8) : Bool :=
  0x80 ≤ byte && byte ≤ 0xBF

/-- The two bytes begin a character of three bytes or four. -/
def startsLong (lead second : UInt8) : Bool :=
  if lead = 0xE0 then 0xA0 ≤ second && second ≤ 0xBF
  else if lead = 0xED then 0x80 ≤ second && second ≤ 0x9F
  else if lead = 0xF0 then 0x90 ≤ second && second ≤ 0xBF
  else if lead = 0xF4 then 0x80 ≤ second && second ≤ 0x8F
  else 0xE1 ≤ lead && lead ≤ 0xF3 && isContinuation second

/-- How many of the bytes one replacement stands for, where they begin with no character. -/
def faultLength : List UInt8 → Nat
  | lead :: second :: third :: _ =>
    if !startsLong lead second then 1
    else if 0xF0 ≤ lead && isContinuation third then 3
    else 2
  | [lead, second] => if startsLong lead second then 2 else 1
  | _ => 1

/-- The characters of bytes, the first of which belong to what has been read before. -/
def decodeFrom : Nat → List UInt8 → List Char
  | _, [] => []
  | passed + 1, _ :: bs => decodeFrom passed bs
  | 0, b :: bs =>
    match firstChar? (b :: bs) with
    | some c => c :: decodeFrom (c.utf8Size - 1) bs
    | none => '\uFFFD' :: decodeFrom (faultLength (b :: bs) - 1) bs

/-- The text that bytes read as. -/
def decode (bs : List UInt8) : String :=
  String.ofList (decodeFrom 0 bs)

/-- The text that the bytes are those of. -/
def decode? (bs : List UInt8) : Option String :=
  if bytes (decode bs) = bs then some (decode bs) else none

end Scaffold.Text
