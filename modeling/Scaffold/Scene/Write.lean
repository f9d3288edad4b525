import Scaffold.Disk.Action
import Scaffold.Scene.Render

/-!
Writing a scene. The files are written to a temporary directory next to the place where the scene
is to stand, and moved there when all of them are written. A scene that stands there already is
moved away first, and back again if the new one cannot take its place.
-/

namespace Scaffold.Scene

open DiskAction

variable {m : Type → Type} [Monad m] [MonadDisk m] [TemporaryNames]

/-- The name under which the old scene is kept in the temporary directory. -/
def parkedName : Name := .of ".previous"

/-- Writes the files of a scene to a new directory. -/
def stage (staging : Path) (files : List RenderedFile) : ExceptT Error m Unit := do
  perform (.createDirectory staging)
  files.forM fun file => writeFile (staging.join file.path) file.content.toUTF8

/-- Moves `staging` to `target`. What stands there is moved to `parked`, and back if `staging`
cannot be moved. -/
def replace (staging target parked : Path) : ExceptT Error m Unit := do
  let stood := (← MonadDisk.look).pathExists target
  if stood then
    perform (.rename target parked)
  try
    perform (.rename staging target)
  catch e =>
    if stood then
      perform (.rename parked target)
    throw e

/-- Writes the files of a scene to the directory of its name and gives its path. -/
def write (out : Path) (name : String) (files : List RenderedFile) (overwrite : Bool) :
    ExceptT Error m Path := do
  let target := out.join (Path.ofString name)
  if (← MonadDisk.look).pathExists target ∧ !overwrite then
    throw (.sceneExists target)
  createDirectories out
  withTemporary out fun temporary => do
    let staging := temporary.join (Path.ofString name)
    stage staging files
    replace staging target (temporary.join (.ofNames [parkedName]))
  return target

end Scaffold.Scene
