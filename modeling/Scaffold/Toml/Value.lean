import Scaffold.Assoc

/-!
The values a TOML document is made of, and how a record is read from one: a record is written as a
table, or as the array of its fields.
-/

namespace Scaffold.Toml

/-- A value. Of floats and dates only the text is kept. -/
inductive Value where
  | text (s : String)
  | integer (n : Int)
  | float (lexeme : String)
  | boolean (b : Bool)
  | date (s : String)
  | array (items : List Value)
  | table (entries : List (String × Value))

namespace Value

def text? : Value → Option String
  | .text s => some s
  | _ => none

/-- The key under which a date holds its text where a table is expected. -/
def dateKey : String := "$__toml_private_datetime"

/-- The entries of a value that is used as a table. -/
def entries? : Value → Option (List (String × Value))
  | .table entries => some entries
  | .date s => some [(dateKey, .text s)]
  | _ => none

/-- The fields of a value that is used as a record. An array lists the fields in their order; it may
stop early, and what it holds beyond them does not count. -/
def fields? (names : List String) : Value → Option (List (String × Value))
  | .array items => some (names.zip items)
  | v => v.entries?

end Value

/-- The text of a field, and the given text if there is no such field. -/
def textOr? (absent : String) (key : String) (fields : List (String × Value)) : Option String :=
  match Assoc.find? key fields with
  | none => some absent
  | some v => v.text?

/-- The text of a field that has to be there. -/
def text? (key : String) (fields : List (String × Value)) : Option String :=
  (Assoc.find? key fields).bind Value.text?

end Scaffold.Toml
