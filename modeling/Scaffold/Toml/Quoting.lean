import Scaffold.Toml.Text

/-!
How text is written. Of the four forms of quoted text the plainest one that can hold the text is
chosen, and the basic forms escape what they cannot hold.
-/

namespace Scaffold.Toml

/-- The length of the longest run of a character. -/
def longestRun (c : Char) : List Char → Nat
  | [] => 0
  | d :: cs =>
    if d = c then max (1 + (cs.takeWhile (· = c)).length) (longestRun c cs) else longestRun c cs

/-- The forms of quoted text: basic or literal, on one line or on several. -/
inductive QuoteForm where
  | basic
  | literal
  | basicLines
  | literalLines
  deriving DecidableEq, Repr

/-- The form in which text is written. -/
def QuoteForm.ofText (cs : List Char) : QuoteForm :=
  let codes := cs.any fun c => isControl c && c ≠ '\n'
  let lines := cs.contains '\n'
  let escapes := cs.contains '\\'
  let double := longestRun '"' cs
  let single := longestRun '\'' cs
  if !codes && !escapes && double = 0 && !lines then .basic
  else if !codes && single = 0 && !lines then .literal
  else if !codes && !escapes && double ≤ 2 then .basicLines
  else if !codes && single ≤ 2 then .literalLines
  else if lines then .basicLines
  else .basic

def upperHexDigit (n : Nat) : Char :=
  if n < 10 then Char.ofNat ('0'.toNat + n) else Char.ofNat ('A'.toNat + n - 10)

/-- A character as basic text holds it. All control characters have codes below 256. -/
def escaped : Char → List Char
  | '\x08' => ['\\', 'b']
  | '\t' => ['\\', 't']
  | '\n' => ['\\', 'n']
  | '\x0c' => ['\\', 'f']
  | '\r' => ['\\', 'r']
  | '"' => ['\\', '"']
  | '\\' => ['\\', '\\']
  | c =>
    if isControl c then
      ['\\', 'u', '0', '0', upperHexDigit (c.toNat / 16), upperHexDigit (c.toNat % 16)]
    else [c]

/-- Text as it stands between the quotes of basic text of several lines. Line ends stay, and so do
quotes unless two that stay are right before; `quotes` is the number of those. -/
def escapedLines (quotes : Nat) : List Char → List Char
  | [] => []
  | '\n' :: cs => '\n' :: escapedLines 0 cs
  | '"' :: cs =>
    if quotes < 2 then '"' :: escapedLines (quotes + 1) cs
    else '\\' :: '"' :: escapedLines 0 cs
  | c :: cs => escaped c ++ escapedLines 0 cs

def QuoteForm.write (cs : List Char) : QuoteForm → List Char
  | .basic => '"' :: cs.flatMap escaped ++ ['"']
  | .literal => '\'' :: cs ++ ['\'']
  | .basicLines => ['"', '"', '"'] ++ firstNewline ++ escapedLines 0 cs ++ ['"', '"', '"']
  | .literalLines => ['\'', '\'', '\''] ++ firstNewline ++ cs ++ ['\'', '\'', '\'']
where
  /-- Text of several lines starts on a line of its own. -/
  firstNewline : List Char := if cs.contains '\n' then ['\n'] else []

/-- Text in quotes. -/
def quote (cs : List Char) : List Char :=
  (QuoteForm.ofText cs).write cs

end Scaffold.Toml
