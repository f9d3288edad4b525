import Scaffold.Disk.TemporaryName
import Scaffold.Disk.Walk

/-!
Operations on a disk. Reading looks at the disk; an operation that writes gives the disk after it,
or fails and leaves the disk as it was.
-/

namespace Scaffold

namespace Disk

/-- The path of the working directory. -/
def herePath (d : Disk) : Path :=
  ⟨.empty :: if d.here = [] then [.empty] else d.here.map Name.toPiece⟩

/-- The entry at a path, links followed, if there is one. -/
def look? (d : Disk) (p : Path) : Option Entry :=
  match d.resolve true p with
  | .ok (.found _ e) => some e
  | _ => none

def pathExists (d : Disk) (p : Path) : Bool :=
  (d.look? p).isSome

def isDirectory (d : Disk) (p : Path) : Bool :=
  match d.look? p with
  | some (.directory _) => true
  | _ => false

def isFile (d : Disk) (p : Path) : Bool :=
  match d.look? p with
  | some (.file _) => true
  | _ => false

/-- The entry that a path leads to, links followed. -/
def get (d : Disk) (p : Path) : Except FileError Entry := do
  match ← d.resolve true p with
  | .found _ e => return e
  | .missing _ => .error .notFound

def readBytes (d : Disk) (p : Path) : Except FileError ByteArray := do
  match ← d.get p with
  | .file content => return content
  | .directory _ => .error .isDirectory
  | .link _ => .error .tooManyLinks

/-- The content of a file as text. -/
def readText (d : Disk) (p : Path) : Except FileError String := do
  match String.fromUTF8? (← d.readBytes p) with
  | some text => return text
  | none => .error .notText

/-- The entries of a directory. -/
def list (d : Disk) (p : Path) : Except FileError Entries := do
  match ← d.get p with
  | .directory entries => return entries
  | _ => .error .notDirectory

/-! ### Writing -/

def put (d : Disk) (names : List Name) (e : Entry) : Disk :=
  { d with entries := Entries.put names e d.entries }

def remove (d : Disk) (names : List Name) : Disk :=
  { d with entries := Entries.remove names d.entries }

/-- Writes a file, in place of a file that is there. -/
def writeBytes (d : Disk) (p : Path) (content : ByteArray) : Except FileError Disk :=
  match lastStep p with
  | (some (.into _), _, true) | (some .unfit, _, true) => do
    let _ ← d.parentDirectory p
    .error .isDirectory
  | _ => do
    match ← d.resolve true p with
    | .missing names => return d.put names (.file content)
    | .found names (.file _) => return d.put names (.file content)
    | .found _ (.directory _) => .error .isDirectory
    | .found _ (.link _) => .error .tooManyLinks

/-- The names that lead to the last name of a path, in the directory that is to hold it. The error
`other` is for a path that ends in no name. -/
def nameToCreate (d : Disk) (p : Path) (other : FileError) : Except FileError (List Name) := do
  let directory ← d.parentDirectory p
  match (lastStep p).1 with
  | some (.into name) => return directory ++ [name]
  | some .unfit => .error .nameTooLong
  | _ => .error other

def createDirectory (d : Disk) (p : Path) : Except FileError Disk := do
  let names ← d.nameToCreate p .alreadyExists
  match d.entry? names with
  | some _ => .error .alreadyExists
  | none => return d.put names (.directory [])

def createLink (d : Disk) (p target : Path) : Except FileError Disk := do
  let names ← d.nameToCreate p .alreadyExists
  match d.entry? names with
  | some _ => .error .alreadyExists
  | none => return d.put names (.link target)

/-- The names that lead to an entry after the entry at `old`, with all that is below it, has been
moved to `new`. -/
def namesAfterMove (old new names : List Name) : List Name :=
  if old.isPrefixOf names then new ++ names.drop old.length else names

/-- Moves an entry. It may replace an entry of the same kind, a directory only if that is empty,
and no directory may move below itself. The working directory moves along. -/
def rename (d : Disk) (source target : Path) : Except FileError Disk := do
  let sourceParent ← d.parentDirectory source
  let targetParent ← d.parentDirectory target
  match (lastStep source).1, (lastStep target).1 with
  | some (.into sourceName), some (.into targetName) =>
    let old := sourceParent ++ [sourceName]
    let new := targetParent ++ [targetName]
    match d.entry? old with
    | none => .error .notFound
    | some e =>
      if !e.isDirectory ∧ ((lastStep source).2.2 ∨ (lastStep target).2.2) then
        .error .notDirectory
      else if old.isPrefixOf targetParent then .error .invalid
      else if new.isPrefixOf sourceParent then .error .notEmpty
      else if old = new then return d
      else
        let moved :=
          { (d.remove old).put new e with here := namesAfterMove old new d.here }
        match e.isDirectory, d.entry? new with
        | _, none => return moved
        | true, some (.directory []) => return moved
        | true, some (.directory _) => .error .notEmpty
        | true, some _ => .error .notDirectory
        | false, some (.directory _) => .error .isDirectory
        | false, some _ => return moved
  | some (.into sourceName), some .unfit =>
    if ( d.entry? (sourceParent ++ [sourceName])).isSome then .error .nameTooLong
    else .error .notFound
  | some .unfit, some (.into _) | some .unfit, some .unfit => .error .nameTooLong
  | _, _ => .error .busy

/-- Removes an entry with all that is below it. A link is removed itself. -/
def removeAll (d : Disk) (p : Path) : Except FileError Disk := do
  match ← d.resolve false p with
  | .found names _ => return d.remove names
  | .missing _ => .error .notFound

/-- A path in a directory at which there is nothing yet. It is absolute. -/
def freshPath [TemporaryNames] (d : Disk) (directory : Path) : Path :=
  let directory := d.herePath.join directory
  let taken := match d.list directory with
    | .ok entries => Assoc.keys entries
    | .error _ => []
  directory.join (.ofNames [TemporaryNames.choose taken])

end Disk

end Scaffold
