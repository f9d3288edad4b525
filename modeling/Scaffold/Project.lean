import Scaffold.Config.Document
import Scaffold.Disk.Action

/-!
Projects. A project is a directory with a configuration file, and the project that a directory is
in is the nearest one above it.
-/

namespace Scaffold

namespace Config

/-- Reads a configuration file. -/
def read (d : Disk) (p : Path) : Except Error Config := do
  let text ← (d.readText p).mapError .configUnreadable
  match parse? text with
  | some c => return c
  | none => .error .configInvalid

/-- Writes a configuration file. -/
def write {m : Type → Type} [Monad m] [MonadDisk m] (p : Path) (c : Config) :
    ExceptT Error m Unit :=
  DiskAction.perform (.writeFile p c.document.toUTF8)

end Config

structure Project where
  root : Path
  config : Config

namespace Project

def configPath (root : Path) : Path :=
  root.join (Path.ofString Config.fileName)

/-- The project that a directory is the root of. -/
def load (d : Disk) (root : Path) : Except Error Project := do
  return ⟨root, ← Config.read d (configPath root)⟩

/-- The project whose root is the first among a path and its parents that has a configuration file.
What is further away does not count, even if that file cannot be read. -/
def find (d : Disk) (start : Path) : Except Error (Option Project) :=
  match start.ancestors.find? fun p => d.isFile (configPath p) with
  | none => .ok none
  | some root => (load d root).map some

/-- The directory of the user's templates. -/
def templatesDirectory (p : Project) : Path :=
  p.root.join (Path.ofString p.config.templatesDirectory)

end Project

end Scaffold
