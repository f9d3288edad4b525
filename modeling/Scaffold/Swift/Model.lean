import Scaffold.Template.Context
import Scaffold.Text.Blank
import Scaffold.Text.CamelCase
import Scaffold.Text.WordChar

/-!
Models: the name and the stored properties of the first `struct` or `class` declaration of a Swift
text. This is a reader of lines and not of the language: a declaration is a keyword, blanks, a word
and a brace somewhere after it, its body ends at the next closing brace, and a stored property is a
`let` or `var` at the start of a line with a name, a colon and a type.
-/

namespace Scaffold.Swift

open Text

/-- A type as it is written. -/
structure TypeName where
  text : String
  deriving DecidableEq, Repr

def TypeName.isOptional (t : TypeName) : Bool :=
  ['?'].isSuffixOf t.text.toList

def TypeName.isArray (t : TypeName) : Bool :=
  [']'].isSuffixOf t.text.toList || [']', '?'].isSuffixOf t.text.toList

structure StoredProperty where
  name : String
  type : TypeName
  deriving DecidableEq, Repr

structure Model where
  name : String
  properties : List StoredProperty
  deriving DecidableEq, Repr

/-- The name of a variable that holds a value of the model. -/
def Model.variableName (m : Model) : String :=
  String.ofList (camelCase m.name.toList)

/-- The properties of a scene around the model, in the order of declaration. -/
def Model.sceneProperties (m : Model) : List Template.Property :=
  m.properties.map fun p => ⟨p.name, some p.type.text⟩

/-- What follows one of two keywords. -/
def afterKeyword? (first second : String) (cs : List Char) : Option (List Char) :=
  (after? first.toList cs).or (after? second.toList cs)

/-- Blanks, at least one, and a word after them: the word, and what follows it. -/
def spacedWord? (cs : List Char) : Option (List Char × List Char) :=
  if !(cs.takeWhile isBlank).isEmpty then
    let word := (cs.dropWhile isBlank).takeWhile isWordChar
    if word.isEmpty then none
    else some (word, (cs.dropWhile isBlank).dropWhile isWordChar)
  else none

/-- The name and the body of a declaration that starts here. -/
def declaration? (cs : List Char) : Option (List Char × List Char) := do
  let (name, rest) ← spacedWord? (← afterKeyword? "struct" "class" cs)
  match rest.dropWhile (· ≠ '{') with
  | [] => none
  | _ :: body => some (name, body.takeWhile (· ≠ '}'))

/-- The first declaration in a text. -/
def firstDeclaration? : List Char → Option (List Char × List Char)
  | [] => none
  | c :: cs => (declaration? (c :: cs)).or (firstDeclaration? cs)

/-- The text of a line up to an initial value or a comment. -/
def beforeValue : List Char → List Char
  | [] => []
  | c :: cs => if c = '=' ∨ (c = '/' ∧ cs.head? = some '/') then [] else c :: beforeValue cs

/-- The type after a colon, and what follows its line. The type may stand on a later line than the
colon. It is empty if only blanks are left, at least one of which ends no line. -/
def typeAfterColon? (cs : List Char) : Option (List Char × List Char) :=
  match cs.dropWhile isBlank with
  | [] => if cs.all (· = '\n') then none else some ([], [])
  | c :: rest =>
    some (trim (beforeValue ((c :: rest).takeWhile (· ≠ '\n'))), rest.dropWhile (· ≠ '\n'))

/-- A stored property that starts here, after any blanks, and what follows its line. -/
def storedProperty? (cs : List Char) : Option (StoredProperty × List Char) := do
  let (name, rest) ← spacedWord? (← afterKeyword? "let" "var" (cs.dropWhile isBlank))
  match rest.dropWhile isBlank with
  | ':' :: rest =>
    let (type, rest) ← typeAfterColon? rest
    return (⟨String.ofList name, ⟨String.ofList type⟩⟩, rest)
  | _ => none

/-- What follows the next line end. -/
def nextLine (cs : List Char) : List Char :=
  (cs.dropWhile (· ≠ '\n')).tail

theorem length_dropWhile_le {α : Type} (p : α → Bool) (cs : List α) :
    (cs.dropWhile p).length ≤ cs.length :=
  (List.dropWhile_sublist p).length_le

theorem length_nextLine_le (cs : List Char) : (nextLine cs).length ≤ cs.length - 1 := by
  have := length_dropWhile_le (· ≠ '\n') cs
  simp only [nextLine, List.length_tail]
  omega

theorem length_of_afterKeyword? {first second : String} {cs rest : List Char}
    (h : afterKeyword? first second cs = some rest) : rest.length ≤ cs.length := by
  have key : ∀ {k : List Char}, after? k cs = some rest → rest.length ≤ cs.length := by
    intro k hk
    rw [after?_eq_some_iff.1 hk, List.length_append]
    exact Nat.le_add_left _ _
  simp only [afterKeyword?, Option.or_eq_some_iff] at h
  rcases h with h | ⟨_, h⟩
  · exact key h
  · exact key h

theorem length_of_spacedWord? {cs word rest : List Char}
    (h : spacedWord? cs = some (word, rest)) : rest.length ≤ cs.length := by
  simp only [spacedWord?] at h
  split at h
  · split at h
    · cases h
    · cases h
      exact Nat.le_trans (length_dropWhile_le _ _) (length_dropWhile_le _ _)
  · cases h

theorem length_of_typeAfterColon? {cs type rest : List Char}
    (h : typeAfterColon? cs = some (type, rest)) : rest.length ≤ cs.length := by
  simp only [typeAfterColon?] at h
  split at h
  · split at h
    · cases h
    · cases h
      simp
  · next c rest' heq =>
    cases h
    have hle := length_dropWhile_le isBlank cs
    rw [heq] at hle
    have := length_dropWhile_le (· ≠ '\n') rest'
    simp only [List.length_cons] at hle
    omega

/-- A stored property leaves over less than the text it is read from. -/
theorem length_of_storedProperty? {cs rest : List Char} {p : StoredProperty}
    (h : storedProperty? cs = some (p, rest)) : rest.length < cs.length := by
  simp only [storedProperty?, Option.bind_eq_bind, Option.bind_eq_some_iff] at h
  obtain ⟨r₁, h₁, ⟨name, r₂⟩, h₂, h⟩ := h
  simp only at h
  split at h
  · next r₃ heq =>
    simp only [Option.bind_eq_some_iff] at h
    obtain ⟨⟨type, r₄⟩, h₄, h⟩ := h
    simp only [Option.pure_def, Option.some.injEq, Prod.mk.injEq] at h
    obtain ⟨_, rfl⟩ := h
    have := length_of_afterKeyword? h₁
    have := length_of_spacedWord? h₂
    have := length_of_typeAfterColon? h₄
    have hle := length_dropWhile_le isBlank r₂
    have := length_dropWhile_le isBlank cs
    rw [heq] at hle
    simp only [List.length_cons] at hle
    omega
  · cases h

/-- The stored properties of a body, line by line. -/
def storedProperties (cs : List Char) : List StoredProperty :=
  if _hne : cs = [] then []
  else
    match _hread : storedProperty? cs with
    | some (p, rest) => p :: storedProperties (nextLine rest)
    | none => storedProperties (nextLine cs)
termination_by cs.length
decreasing_by
  · have := length_of_storedProperty? _hread
    have := length_nextLine_le rest
    omega
  · have := List.length_pos_iff.2 _hne
    have := length_nextLine_le cs
    omega

/-- The first model in a text. -/
def Model.parse? (text : String) : Option Model := do
  let (name, body) ← firstDeclaration? text.toList
  return ⟨String.ofList name, storedProperties body⟩

end Scaffold.Swift
