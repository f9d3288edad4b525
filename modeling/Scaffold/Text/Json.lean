/-!
JSON text laid out over lines: every element of an array and every entry of an object has a line of
its own, indented by two blanks.
-/

namespace Scaffold.Text

/-- The lines of a JSON value. -/
abbrev JsonLines := List String

namespace JsonLines

def lowerHexDigit (n : Nat) : Char :=
  if n < 10 then Char.ofNat ('0'.toNat + n) else Char.ofNat ('a'.toNat + n - 10)

/-- A character as a JSON string holds it. -/
def escaped : Char → List Char
  | '"' => ['\\', '"']
  | '\\' => ['\\', '\\']
  | '\x08' => ['\\', 'b']
  | '\x0c' => ['\\', 'f']
  | '\n' => ['\\', 'n']
  | '\r' => ['\\', 'r']
  | '\t' => ['\\', 't']
  | c =>
    if c.toNat < 0x20 then
      ['\\', 'u', '0', '0', lowerHexDigit (c.toNat / 16), lowerHexDigit (c.toNat % 16)]
    else [c]

def quote (s : String) : String :=
  String.ofList ('"' :: s.toList.flatMap escaped ++ ['"'])

def string (s : String) : JsonLines := [quote s]

/-- Puts text in front of the first line. -/
def labelled (label : String) : JsonLines → JsonLines
  | [] => [label]
  | line :: lines => (label ++ line) :: lines

/-- The lines of several values, with a comma after each but the last. -/
def separated : List JsonLines → List String
  | [] => []
  | [value] => value
  | value :: values => value.dropLast ++ (value.getLast?.toList.map (· ++ ",")) ++ separated values

def bracketed (opener closer : String) : List JsonLines → JsonLines
  | [] => [opener ++ closer]
  | values => opener :: (separated values).map ("  " ++ ·) ++ [closer]

def array (values : List JsonLines) : JsonLines :=
  bracketed "[" "]" values

def object (entries : List (String × JsonLines)) : JsonLines :=
  bracketed "\x7b" "\x7d" (entries.map fun (key, value) => labelled (quote key ++ ": ") value)

def text (lines : JsonLines) : String :=
  "\n".intercalate lines

end JsonLines

end Scaffold.Text
