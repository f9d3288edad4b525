import Scaffold.Assoc
import Scaffold.Path

/-!
Directory trees. An entry is a file with its bytes, a symbolic link, or a directory of named
entries, and a list of names leads from a directory down to an entry, through directories only.
-/

namespace Scaffold

/-- The longest name that a directory can hold, in bytes. -/
def longestName : Nat := 255

/-- A directory can hold an entry by this name. -/
def Piece.isName (piece : Piece) : Bool :=
  piece ≠ .empty && piece ≠ .dot && piece ≠ .dots && !piece.bytes.contains 0 &&
    decide (piece.bytes.length ≤ longestName)

theorem Piece.isName_iff {piece : Piece} : piece.isName = true ↔
    piece ≠ .empty ∧ piece ≠ .dot ∧ piece ≠ .dots ∧ 0 ∉ piece.bytes ∧
      piece.bytes.length ≤ longestName := by
  simp [Piece.isName, and_assoc]

/-- The name of an entry. It need not be text. -/
structure Name extends Piece where
  isName : toPiece.isName = true
  deriving DecidableEq

namespace Name

/-- A text as a name. -/
def of (text : String) (hslash : true = decide (slash ∉ Text.bytes text) := by rfl)
    (h : true = (Piece.of text hslash).isName := by rfl) : Name :=
  ⟨Piece.of text hslash, h.symm⟩

/-- Names are in the order of their bytes. -/
instance : LE Name := ⟨fun a b => a.bytes ≤ b.bytes⟩

instance : DecidableLE Name :=
  fun a b => inferInstanceAs (Decidable (a.bytes ≤ b.bytes))

instance : Coe Name Piece := ⟨Name.toPiece⟩

instance : Coe Name String := ⟨fun name => name.text⟩

/-- Names that start with a dot are hidden. -/
def isHidden (name : Name) : Bool :=
  ['.'].isPrefixOf name.text.toList

end Name

/-- The path down from a directory. -/
def Path.ofNames (names : List Name) : Path :=
  ⟨names.map Name.toPiece⟩

inductive Entry where
  | file (content : ByteArray)
  | link (target : Path)
  | directory (entries : List (Name × Entry))

def Entry.isDirectory : Entry → Bool
  | .directory _ => true
  | _ => false

/-- The entries of a directory, in the order in which the system happens to list them. -/
abbrev Entries := List (Name × Entry)

/-- The entry that the names lead to. -/
def Entry.at? : List Name → Entry → Option Entry
  | [], e => some e
  | name :: names, .directory entries => (Assoc.find? name entries).bind (at? names)
  | _ :: _, _ => none

namespace Entries

/-- Puts an entry where the names lead to, in place of the one that is there. Nothing changes if
the last name but one leads to no directory. -/
def put : List Name → Entry → Entries → Entries
  | [], _, es => es
  | [name], e, es => Assoc.insert name e es
  | name :: names, e, es =>
    match Assoc.find? name es with
    | some (.directory children) => Assoc.insert name (.directory (put names e children)) es
    | _ => es

/-- Takes away the entry that the names lead to. -/
def remove : List Name → Entries → Entries
  | [], es => es
  | [name], es => Assoc.erase name es
  | name :: names, es =>
    match Assoc.find? name es with
    | some (.directory children) => Assoc.insert name (.directory (remove names children)) es
    | _ => es

end Entries

mutual

/-- What a walk meets below an entry, with the names that lead there: the entries of a directory in
the order of their names, each before what is below it. Links are not followed, and hidden entries
are left out with all that is below them. -/
def Entry.descendants : Entry → List (List Name × Entry)
  | .file _ | .link _ => []
  | .directory entries =>
    ((walksInto entries).mergeSort fun a b => a.1 ≤ b.1).flatMap (·.2)

/-- The walks into the entries of a directory that are not hidden, by name. -/
def walksInto : Entries → List (Name × List (List Name × Entry))
  | [] => []
  | (name, e) :: es =>
    if name.isHidden then walksInto es
    else
      (name, ([name], e) :: e.descendants.map fun (names, e') => (name :: names, e')) ::
        walksInto es

end

end Scaffold
