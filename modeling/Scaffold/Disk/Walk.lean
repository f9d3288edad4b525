import Scaffold.Disk.Entry
import Scaffold.Disk.Error

/-!
Where a path leads on a disk. A walk starts at the root or in the working directory and takes one
step after the other; symbolic links on the way are replaced by the path they hold, forty of them
at most.
-/

namespace Scaffold

/-- A directory tree from the root on, and the names that lead to the working directory. -/
structure Disk where
  entries : Entries
  here : List Name

/-- One piece of a path as the walk takes it. The empty piece stands between two slashes and after
the last one. A piece that no entry has for its name is unfit. -/
inductive Step where
  | slash
  | stay
  | up
  | into (name : Name)
  | unfit
  deriving DecidableEq

def Step.ofPiece (piece : Piece) : Step :=
  if piece = .empty then .slash
  else if piece = .dot then .stay
  else if piece = .dots then .up
  else if h : piece.isName = true then .into ⟨piece, h⟩
  else .unfit

/-- The steps of a path from the root or from the working directory. -/
def Path.steps (p : Path) : List Step :=
  (if p.isAbsolute then p.pieces.tail else p.pieces).map Step.ofPiece

/-- Where a walk ends: at an entry, or at a name that a directory does not hold. -/
inductive Place where
  | found (names : List Name) (entry : Entry)
  | missing (names : List Name)

namespace Disk

/-- The longest path that can be walked, in bytes. -/
def longestPath : Nat := 4095

/-- How many links a walk may go through. -/
def mostLinks : Nat := 40

def entry? (d : Disk) (names : List Name) : Option Entry :=
  Entry.at? names (.directory d.entries)

/-- Takes steps from a directory up to a link that has to be followed, and goes on there with the
steps that are left. The last step goes through a link only if `follow`. What makes a step unfit is
its length, as a null byte is found before the walk. -/
def descend (d : Disk) (follow : Bool)
    (onLink : List Name → List Step → Except FileError Place) (position : List Name) :
    List Step → Except FileError Place
  | [] =>
    match d.entry? position with
    | some e => .ok (.found position e)
    | none => .error .notFound
  | .slash :: steps => d.descend follow onLink position steps
  | .stay :: steps => d.descend follow onLink position steps
  | .up :: steps => d.descend follow onLink position.dropLast steps
  | .unfit :: _ => .error .nameTooLong
  | .into name :: steps =>
    let names := position ++ [name]
    match d.entry? names with
    | none => if steps = [] then .ok (.missing names) else .error .notFound
    | some (.directory _) => d.descend follow onLink names steps
    | some (.file content) =>
      if steps = [] then .ok (.found names (.file content)) else .error .notDirectory
    | some (.link target) =>
      if steps = [] ∧ !follow then .ok (.found names (.link target))
      else onLink (if target.isAbsolute then [] else position) (target.steps ++ steps)

/-- A walk that may go through a number of links. -/
def walk (d : Disk) (follow : Bool) : Nat → List Name → List Step → Except FileError Place
  | 0 => d.descend follow fun _ _ => .error .tooManyLinks
  | links + 1 => d.descend follow (d.walk follow links)

/-- Takes steps from the place where a path starts. -/
def walkFrom (d : Disk) (follow : Bool) (p : Path) (steps : List Step) :
    Except FileError Place :=
  if p.bytes.contains 0 then .error .nulInName
  else if longestPath < p.bytes.length then .error .nameTooLong
  else if p.bytes = [] then .error .notFound
  else if p.isAbsolute then d.walk follow mostLinks [] steps
  else
    match d.entry? d.here with
    | some (.directory _) => d.walk follow mostLinks d.here steps
    | _ => .error .notFound

/-- Where a path leads. -/
def resolve (d : Disk) (follow : Bool) (p : Path) : Except FileError Place :=
  d.walkFrom follow p p.steps

/-- The last step of a path, the steps before it, and whether slashes stand after it. -/
def lastStep (p : Path) : Option Step × List Step × Bool :=
  match p.steps.reverse.dropWhile (· = .slash) with
  | [] => (none, [], true)
  | step :: steps => (some step, steps.reverse, p.steps.getLast? = some .slash)

/-- The directory that the last step of a path is taken from. -/
def parentDirectory (d : Disk) (p : Path) : Except FileError (List Name) := do
  match ← d.walkFrom true p ((lastStep p).2.1 ++ [.stay]) with
  | .found names _ => return names
  | .missing _ => .error .notFound

end Disk

end Scaffold
