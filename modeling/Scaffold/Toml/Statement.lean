import Scaffold.Toml.Date
import Scaffold.Toml.Item
import Scaffold.Toml.Text

/-!
Statements, the lines of a document: a header opens a table or a further table of an array, and an
entry gives a value to a key. Each reader gives what it has read with the text that follows.
-/

namespace Scaffold.Toml

/-- Reads one name of a key: quoted text on one line, or bare characters. -/
def readName? : List Char → Option (String × List Char)
  | '"' :: cs => (readBasic cs).map fun (text, rest) => (String.ofList text, rest)
  | '\'' :: cs => (readLiteral cs).map fun (text, rest) => (String.ofList text, rest)
  | cs =>
    match cs.takeWhile isBare with
    | [] => none
    | name => some (String.ofList name, cs.dropWhile isBare)

/-- The number of names from which on a key is refused, and the number of brackets and braces within
each other from which on a value is. -/
def nestingLimit : Nat := 80

/-- Reads the names of a key, with the blanks around them. -/
def readNames? (cs : List Char) : Option (Key × List Char) := do
  let (name, rest) ← readName? (skipSpaces cs)
  match skipSpaces rest with
  | '.' :: rest =>
    if rest.length < cs.length then
      let (key, rest) ← readNames? rest
      some (⟨name :: key.tables, key.name⟩, rest)
    else none
  | rest => some (⟨[], name⟩, rest)
termination_by cs.length

def readKey? (cs : List Char) : Option (Key × List Char) := do
  let (key, rest) ← readNames? cs
  if key.tables.length + 1 < nestingLimit then some (key, rest) else none

/-- A character of a value that is not in quotes. -/
def isPlain (c : Char) : Bool :=
  c.isAlphanum || c = '_' || c = '+' || c = '-' || c = '.' || c = ':'

/-- The value that is written without quotes. -/
def plainValue? (cs : List Char) : Option Value :=
  if cs = "true".toList then some (.boolean true)
  else if cs = "false".toList then some (.boolean false)
  else
    match date? cs with
    | some date => some (.date (String.ofList date))
    | none =>
      match integer? cs with
      | some n => some (.integer n)
      | none => if isFloat cs then some (.float (String.ofList cs)) else none

/-- Reads a value that is not in quotes. Behind a day a blank may separate it from a time. -/
def readPlain? (cs : List Char) : Option (Value × List Char) :=
  let plain := cs.takeWhile isPlain
  let rest := cs.dropWhile isPlain
  match splitDay? plain, rest with
  | some (_, []), ' ' :: time =>
    if (time.head?.map Char.isDigit).getD false then
      (plainValue? (plain ++ ' ' :: time.takeWhile isPlain)).map (·, time.dropWhile isPlain)
    else (plainValue? plain).map (·, rest)
  | _, _ => (plainValue? plain).map (·, rest)

/-- Reads the values of an array, from behind its bracket. A comma may follow the last one. -/
def readArray? (readValue : List Char → Option (Value × List Char)) (cs : List Char) :
    Option (List Value × List Char) :=
  match skipLayout cs with
  | ']' :: rest => some ([], rest)
  | start => do
    let (value, rest) ← readValue start
    match skipLayout rest with
    | ']' :: rest => some ([value], rest)
    | ',' :: rest =>
      if rest.length < cs.length then
        let (values, rest) ← readArray? readValue rest
        some (value :: values, rest)
      else none
    | _ => none
termination_by cs.length

/-- Reads a key and its value, with the blanks around them. -/
def readAssignment? (readValue : List Char → Option (Value × List Char)) (cs : List Char) :
    Option (Key × Value × List Char) := do
  let (key, rest) ← readKey? cs
  match rest with
  | '=' :: rest =>
    let (value, rest) ← readValue (skipSpaces rest)
    some (key, value, skipSpaces rest)
  | _ => none

/-- Reads the entries of a table in braces into the items read so far. No comma may follow the last
one, and all stands on one line. -/
def readEntries? (readValue : List Char → Option (Value × List Char)) (items : Items)
    (cs : List Char) : Option (Items × List Char) := do
  let (key, value, rest) ← readAssignment? readValue cs
  let items ← items.assign key value
  match rest with
  | '}' :: rest => some (items, rest)
  | ',' :: rest => if rest.length < cs.length then readEntries? readValue items rest else none
  | _ => none
termination_by cs.length

/-- Reads a table, from behind its brace. -/
def readTable? (readValue : List Char → Option (Value × List Char)) (cs : List Char) :
    Option (Items × List Char) :=
  match skipSpaces cs with
  | '}' :: rest => some ([], rest)
  | cs => readEntries? readValue [] cs

/-- Reads a value in which at most so many brackets and braces are open at a time. -/
def readValue? : Nat → List Char → Option (Value × List Char)
  | _, '"' :: cs =>
    (readText? ('"' :: cs)).map fun (text, rest) => (.text (String.ofList text), rest)
  | _, '\'' :: cs =>
    (readText? ('\'' :: cs)).map fun (text, rest) => (.text (String.ofList text), rest)
  | 0, cs => readPlain? cs
  | depth + 1, '[' :: cs =>
    (readArray? (readValue? depth) cs).map fun (values, rest) => (.array values, rest)
  | depth + 1, '{' :: cs =>
    (readTable? (readValue? depth) cs).map fun (items, rest) => (.table (entries items), rest)
  | _, cs => readPlain? cs

inductive Statement where
  | table (key : Key)
  | element (key : Key)
  | entry (key : Key) (value : Value)

def readStatement? : List Char → Option (Statement × List Char)
  | '[' :: '[' :: cs => do
    let (key, rest) ← readKey? cs
    match rest with
    | ']' :: ']' :: rest => some (.element key, rest)
    | _ => none
  | '[' :: cs => do
    let (key, rest) ← readKey? cs
    match rest with
    | ']' :: rest => some (.table key, rest)
    | _ => none
  | cs =>
    (readAssignment? (readValue? (nestingLimit - 1)) cs).map fun (key, value, rest) =>
      (.entry key value, rest)

/-- Reads the statements of a document, each on a line of its own. -/
def readStatements? (cs : List Char) : Option (List Statement) :=
  match skipSpaces cs with
  | [] => some []
  | start =>
    match afterLine? start with
    | some rest => if rest.length < cs.length then readStatements? rest else none
    | none => do
      let (statement, rest) ← readStatement? start
      let rest ← afterLine? rest
      if rest.length < cs.length then
        let statements ← readStatements? rest
        some (statement :: statements)
      else none
termination_by cs.length

end Scaffold.Toml
