/-!
The characters a TOML document is made of, and what may stand between its parts: blanks, line ends
and comments.
-/

namespace Scaffold.Toml

def isSpace (c : Char) : Bool :=
  c = ' ' || c = '\t'

/-- A control character other than the tab. None may stand in a comment or a line of text. -/
def isControl (c : Char) : Bool :=
  (c.toNat < 0x20 && c ≠ '\t') || c.toNat = 0x7F

/-- A character of a key that is written without quotes. -/
def isBare (c : Char) : Bool :=
  c.isAlphanum || c = '_' || c = '-'

def skipSpaces (cs : List Char) : List Char :=
  cs.dropWhile isSpace

/-- What follows a line end, which is a line feed with or without a carriage return before it. -/
def afterNewline? : List Char → Option (List Char)
  | '\n' :: cs => some cs
  | '\r' :: '\n' :: cs => some cs
  | _ => none

/-- What follows the comment that starts here, or the same text if none does. -/
def skipComment : List Char → List Char
  | '#' :: cs => cs.dropWhile (!isControl ·)
  | cs => cs

/-- What follows the rest of a line on which nothing but a comment may stand. The end of the
document ends a line too. -/
def afterLine? (cs : List Char) : Option (List Char) :=
  match skipComment (skipSpaces cs) with
  | [] => some []
  | cs => afterNewline? cs

theorem length_skipSpaces_le (cs : List Char) : (skipSpaces cs).length ≤ cs.length :=
  (List.dropWhile_sublist _).length_le

theorem length_skipComment_le (cs : List Char) : (skipComment cs).length ≤ cs.length := by
  unfold skipComment
  split
  · next cs =>
    have := (List.dropWhile_sublist (!isControl ·) (l := cs)).length_le
    simp only [List.length_cons]
    omega
  · exact Nat.le_refl _

theorem length_afterNewline?_lt {cs rest : List Char} (h : afterNewline? cs = some rest) :
    rest.length < cs.length := by
  unfold afterNewline? at h
  split at h <;> cases h <;> simp only [List.length_cons] <;> omega

/-- What follows the blanks, line ends and comments that stand here. -/
def skipLayout (cs : List Char) : List Char :=
  match _h : afterNewline? (skipComment (skipSpaces cs)) with
  | some rest => skipLayout rest
  | none => skipComment (skipSpaces cs)
termination_by cs.length
decreasing_by
  have := length_afterNewline?_lt _h
  have := length_skipComment_le (skipSpaces cs)
  have := length_skipSpaces_le cs
  omega

end Scaffold.Toml
