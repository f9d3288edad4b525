import Scaffold.Command.Places
import Scaffold.Command.Run
import Std.Time.Zoned

/-!
The program. What a command looks at is read from the file system into a disk, and operations are
performed on the file system and on that disk alike.
-/

namespace Scaffold.Main

open Command

/-- The names that lead to a path from the root. -/
def namesOf (path : String) : List Name :=
  (Path.ofString path).steps.filterMap fun
    | .into name => some name
    | _ => none

/-- Where the directories on the way to a path really are, and the path itself if it exists. -/
def realPlaces (here : Path) (p : Path) : IO (List (List Name)) :=
  (here.join p).ancestors.filterMapM fun p => do
    try
      return some (namesOf (← IO.FS.realPath p.text).toString)
    catch _ =>
      return none

/-- Reads the entries of a directory. A directory below it is entered if it is on the way to one of
the places, or in one of the trees. A link that leads nowhere is read as a link to itself. -/
partial def readEntries (ways trees : List (List Name)) (names : List Name) : IO Entries := do
  let directory ← IO.FS.realPath ("/" ++ "/".intercalate (names.map fun name => name.text))
  let found ← try directory.readDir catch _ => pure #[]
  found.toList.filterMapM fun e => do
    let some name := (namesOf e.fileName).head? | return none
    let below := names ++ [name]
    let counts := trees.any (·.isPrefixOf below) || (ways ++ trees).any below.isPrefixOf
    try
      match (← e.path.symlinkMetadata).type with
      | .symlink =>
        let target ← try pure (← IO.FS.realPath e.path).toString catch _ => pure e.path.toString
        return some (name, .link (Path.ofString target))
      | .dir =>
        return some (name, .directory (← if counts then readEntries ways trees below else pure []))
      | _ =>
        return some (name, .file (← if counts then IO.FS.readBinFile e.path else pure .empty))
    catch _ =>
      return none

/-- Reads the given places into a disk. -/
def readDisk (here : List Name) (p : Places) : IO Disk := do
  let herePath := (⟨[], here⟩ : Disk).herePath
  let ways ← (p.paths ++ p.trees).mapM (realPlaces herePath)
  let trees ← p.trees.mapM fun tree => return (← realPlaces herePath tree).take 1
  return ⟨← readEntries (here :: ways.flatten) trees.flatten [], here⟩

/-- Reads what a command looks at: first what is known from the start, then what that leads to. -/
def readPlaces (here : List Name) (command : Command) : IO Disk := do
  let d ← readDisk here (command.places ⟨[], here⟩)
  readDisk here (command.places d)

def performOperation : DiskOperation → IO Unit
  | .createDirectory p => IO.FS.createDir p.text
  | .writeFile p content => IO.FS.writeBinFile p.text content
  | .rename source target => IO.FS.rename source.text target.text
  | .removeAll p => IO.FS.removeDirAll p.text

/-- If the system fails where the disk would fail too, the disk says why. -/
instance : MonadDisk (StateT Disk IO) where
  look := get
  attempt operation := do
    let d ← get
    match ← (performOperation operation).toBaseIO, operation.apply d with
    | .ok (), .ok d' => do
      set d'
      return .ok ()
    | .ok (), .error _ => return .ok ()
    | .error _, .error e => return .error e
    | .error e, .ok _ => return .error (.other (toString e))

def localTime : IO Date.LocalTime := do
  let t ← Std.Time.DateTime.now
  return ⟨t.year.toInt, t.month.val.toNat, t.day.val.toNat, t.hour.val.toNat, t.minute.val.toNat,
    t.second.val.toNat, t.nanosecond.val.toNat, t.offset.second.val⟩

def variableNames : List String :=
  ["SCENEGEN_PROJECT", "SCENEGEN_DEVELOPER", "SCENEGEN_COMPANY"]

def environment : IO (String → Option String) := do
  let values ← variableNames.mapM fun name => return (name, ← IO.getEnv name)
  return fun name => (Assoc.find? name values).join

def program (arguments : List String) : IO Outcome := do
  let environment ← environment
  let here := namesOf (← IO.currentDir).toString
  let disk ← match Invocation.ofArguments environment arguments with
    | .ok invocation => readPlaces here invocation.command
    | .error _ => pure ⟨[], here⟩
  let run : StateT Disk IO Outcome := execute arguments environment (← localTime)
  run.run' disk

end Scaffold.Main

def main (arguments : List String) : IO UInt32 := do
  let outcome ← Scaffold.Main.program arguments
  IO.print outcome.console.output
  IO.eprint outcome.errorText
  return outcome.code.toUInt32
