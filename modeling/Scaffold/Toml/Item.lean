import Scaffold.Toml.Value

/-!
Tables while a document is being read. A table remembers how it came to be, which decides what may
still be added to it: a header opens a table once, and a dotted key goes only through tables that
dotted keys or headers of their subtables made.
-/

namespace Scaffold.Toml

/-- A dotted key: the names of the tables that it goes through, and its last name. -/
structure Key where
  tables : List String
  name : String
  deriving DecidableEq, Repr

/-- How a table came to be: by a header or braces of its own, by the header of a table below it, or
by a dotted key. -/
inductive Origin where
  | explicit
  | implicit
  | dotted
  deriving DecidableEq, Repr

/-- What a name stands for. Of an array of tables the last one is still open. -/
inductive Item where
  | value (v : Value)
  | table (origin : Origin) (items : List (String × Item))
  | tables (earlier : List (List (String × Item))) (last : List (String × Item))

abbrev Items := List (String × Item)

namespace Items

/-- Changes the table that the names lead to, and makes the tables that are missing on the way.
Names of an array of tables lead to its last one. -/
def descend (made : Origin) (change : Origin → Items → Option Items) (origin : Origin) :
    List String → Items → Option Items
  | [], items => change origin items
  | name :: names, items => do
    let item ← match Assoc.find? name items with
      | none => (descend made change made names []).map (.table made)
      | some (.table origin below) =>
        if made = .dotted ∧ origin = .explicit then none
        else (descend made change origin names below).map (.table origin)
      | some (.tables earlier last) =>
        (descend made change .explicit names last).map (.tables earlier)
      | some (.value _) => none
    some (Assoc.insert name item items)

/-- Gives a value to a key that has none. Behind tables the key must be in a table that a dotted key
made. -/
def assign (key : Key) (value : Value) (items : Items) : Option Items :=
  items.descend .dotted (fun origin items =>
    if key.tables ≠ [] ∧ origin ≠ .dotted then none
    else
      match Assoc.find? key.name items with
      | none => some (Assoc.insert key.name (.value value) items)
      | some _ => none) .explicit key.tables

/-- Opens a table that no header has opened before. -/
def openTable (key : Key) (items : Items) : Option Items :=
  items.descend .implicit (fun _ items =>
    match Assoc.find? key.name items with
    | none => some (Assoc.insert key.name (.table .explicit []) items)
    | some (.table .implicit below) => some (Assoc.insert key.name (.table .explicit below) items)
    | some _ => none) .explicit key.tables

/-- Opens a further table of an array of tables. -/
def openElement (key : Key) (items : Items) : Option Items :=
  items.descend .implicit (fun _ items =>
    match Assoc.find? key.name items with
    | none => some (Assoc.insert key.name (.tables [] []) items)
    | some (.tables earlier last) =>
      some (Assoc.insert key.name (.tables (earlier ++ [last]) []) items)
    | some _ => none) .explicit key.tables

end Items

mutual

def Item.toValue : Item → Value
  | .value v => v
  | .table _ items => .table (entries items)
  | .tables earlier last => .array (tableValues earlier ++ [.table (entries last)])

/-- The entries of a table that is complete. -/
def entries : Items → List (String × Value)
  | [] => []
  | (name, item) :: items => (name, item.toValue) :: entries items

def tableValues : List Items → List Value
  | [] => []
  | items :: rest => .table (entries items) :: tableValues rest

end

end Scaffold.Toml
