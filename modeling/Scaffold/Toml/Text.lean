import Scaffold.Toml.Character

/-!
Text in quotes, in the four forms that TOML has. Basic text stands in double quotes and knows
escapes, literal text stands in single quotes and knows none, and with three quotes on either side
both may go over several lines. Each reader starts behind the opening quotes and gives the text with
what follows the closing ones.
-/

namespace Scaffold.Toml

/-- The value of a hexadecimal digit. -/
def hexValue? (c : Char) : Option Nat :=
  if '0' ≤ c ∧ c ≤ '9' then some (c.toNat - '0'.toNat)
  else if 'a' ≤ c ∧ c ≤ 'f' then some (c.toNat - 'a'.toNat + 10)
  else if 'A' ≤ c ∧ c ≤ 'F' then some (c.toNat - 'A'.toNat + 10)
  else none

/-- The character whose code point has these hexadecimal digits. -/
def codePoint? (digits : List Char) : Option Char := do
  let values ← digits.mapM hexValue?
  let n := values.foldl (16 * · + ·) 0
  if n.isValidChar then some (Char.ofNat n) else none

/-- The character that an escape stands for, from the text behind its backslash, and what follows
the escape. -/
def escape? : List Char → Option (Char × List Char)
  | 'b' :: cs => some ('\x08', cs)
  | 't' :: cs => some ('\t', cs)
  | 'n' :: cs => some ('\n', cs)
  | 'f' :: cs => some ('\x0c', cs)
  | 'r' :: cs => some ('\r', cs)
  | '"' :: cs => some ('"', cs)
  | '\\' :: cs => some ('\\', cs)
  | 'u' :: cs => if cs.length < 4 then none else (codePoint? (cs.take 4)).map (·, cs.drop 4)
  | 'U' :: cs => if cs.length < 8 then none else (codePoint? (cs.take 8)).map (·, cs.drop 8)
  | _ => none

/-- What follows the white space of several lines, and the same text if there is none. -/
def skipLines (cs : List Char) : List Char :=
  match _h : afterNewline? (skipSpaces cs) with
  | some rest => skipLines rest
  | none => skipSpaces cs
termination_by cs.length
decreasing_by
  have := length_afterNewline?_lt _h
  have := length_skipSpaces_le cs
  omega

/-- What follows a line that is continued, from the text behind its backslash: nothing but blanks
may stand before the line end, and the white space that the next lines start with is dropped. -/
def continuation? (cs : List Char) : Option (List Char) :=
  (afterNewline? (skipSpaces cs)).map skipLines

/-- The quotes that belong to the text at its end, from the place where three of them stand in a
row, and what follows the closing quotes. At most two belong to the text. -/
def closing? (quote : Char) (cs : List Char) : Option (List Char × List Char) :=
  let extra := (cs.takeWhile (· = quote)).length - 3
  if extra ≤ 2 then some (List.replicate extra quote, cs.drop (extra + 3)) else none

theorem length_escape?_lt {cs rest : List Char} {c : Char} (h : escape? cs = some (c, rest)) :
    rest.length < cs.length := by
  unfold escape? at h
  split at h
  case h_8 =>
    split at h
    · cases h
    · obtain ⟨_, _, he⟩ := Option.map_eq_some_iff.1 h
      cases he
      simp only [List.length_drop, List.length_cons]
      omega
  case h_9 =>
    split at h
    · cases h
    · obtain ⟨_, _, he⟩ := Option.map_eq_some_iff.1 h
      cases he
      simp only [List.length_drop, List.length_cons]
      omega
  all_goals cases h <;> simp

theorem length_skipLines_le (cs : List Char) : (skipLines cs).length ≤ cs.length := by
  fun_induction skipLines cs with
  | case1 cs rest h ih =>
    have := length_afterNewline?_lt h
    have := length_skipSpaces_le cs
    omega
  | case2 cs => exact length_skipSpaces_le cs

theorem length_continuation?_lt {cs rest : List Char} (h : continuation? cs = some rest) :
    rest.length < cs.length := by
  obtain ⟨after, ha, rfl⟩ := Option.map_eq_some_iff.1 h
  have := length_afterNewline?_lt ha
  have := length_skipSpaces_le cs
  have := length_skipLines_le after
  omega

/-- Reads basic text on one line. -/
def readBasic (cs : List Char) : Option (List Char × List Char) :=
  match cs with
  | [] => none
  | '"' :: rest => some ([], rest)
  | '\\' :: rest =>
    match _h : escape? rest with
    | some (c, rest) => (readBasic rest).map fun (text, after) => (c :: text, after)
    | none => none
  | c :: rest =>
    if isControl c then none else (readBasic rest).map fun (text, after) => (c :: text, after)
termination_by cs.length
decreasing_by
  · have := length_escape?_lt _h
    simp only [List.length_cons]
    omega
  · simp

/-- Reads literal text on one line. -/
def readLiteral : List Char → Option (List Char × List Char)
  | [] => none
  | '\'' :: rest => some ([], rest)
  | c :: rest =>
    if isControl c then none else (readLiteral rest).map fun (text, after) => (c :: text, after)

/-- Reads basic text of several lines. A line end is read as a line feed. -/
def readBasicLines (cs : List Char) : Option (List Char × List Char) :=
  match cs with
  | [] => none
  | '"' :: '"' :: '"' :: rest => closing? '"' ('"' :: '"' :: '"' :: rest)
  | '\r' :: '\n' :: rest => (readBasicLines rest).map fun (text, after) => ('\n' :: text, after)
  | '\\' :: rest =>
    match _hc : continuation? rest with
    | some rest => readBasicLines rest
    | none =>
      match _he : escape? rest with
      | some (c, rest) => (readBasicLines rest).map fun (text, after) => (c :: text, after)
      | none => none
  | c :: rest =>
    if isControl c && c ≠ '\n' then none
    else (readBasicLines rest).map fun (text, after) => (c :: text, after)
termination_by cs.length
decreasing_by
  · simp only [List.length_cons]
    omega
  · have := length_continuation?_lt _hc
    simp only [List.length_cons]
    omega
  · have := length_escape?_lt _he
    simp only [List.length_cons]
    omega
  · simp

/-- Reads literal text of several lines. A line end is read as a line feed. -/
def readLiteralLines : List Char → Option (List Char × List Char)
  | [] => none
  | '\'' :: '\'' :: '\'' :: rest => closing? '\'' ('\'' :: '\'' :: '\'' :: rest)
  | '\r' :: '\n' :: rest => (readLiteralLines rest).map fun (text, after) => ('\n' :: text, after)
  | c :: rest =>
    if isControl c && c ≠ '\n' then none
    else (readLiteralLines rest).map fun (text, after) => (c :: text, after)

/-- A line end right behind the opening quotes of text of several lines does not belong to it. -/
def dropFirstNewline (cs : List Char) : List Char :=
  (afterNewline? cs).getD cs

/-- Reads the quoted text that stands here, in any of the four forms. -/
def readText? : List Char → Option (List Char × List Char)
  | '"' :: '"' :: '"' :: rest => readBasicLines (dropFirstNewline rest)
  | '\'' :: '\'' :: '\'' :: rest => readLiteralLines (dropFirstNewline rest)
  | '"' :: rest => readBasic rest
  | '\'' :: rest => readLiteral rest
  | _ => none

end Scaffold.Toml
