import Scaffold.Config
import Scaffold.Disk.Error
import Scaffold.Path
import Scaffold.Template.Error
import Scaffold.Text.Identifier

/-!
Why a command fails. Each cause has its own constructor, and `Error.message` holds the wording.
-/

namespace Scaffold

/-- What is wrong with the templates of a scene kind. -/
inductive KindFault where
  | headerUnreadable (path : Path) (cause : FileError)
  | fileUnreadable (path : Path) (cause : FileError)
  | walkFailed (directory path : Path) (cause : FileError)
  | noFiles (name : String) (directory : Path)
  | noFileName (path : Path)
  | invalidFileName (path : Path) (name : String)
  deriving DecidableEq, Repr

/-- The file in the user's templates that holds the header of every generated file. -/
def headerFileName : String := "header.swift"

def KindFault.message : KindFault → String
  | .headerUnreadable path cause =>
    s!"Failed to read {headerFileName} at {path.text}: {cause.message}"
  | .fileUnreadable path cause => s!"Failed to read {path.text}: {cause.message}"
  | .walkFailed directory path cause =>
    s!"Failed to walk {directory.text}: IO error for operation on {path.text}: {cause.message}"
  | .noFiles name directory => s!"scene kind '{name}' at {directory.text} has no template files"
  | .noFileName path => s!"template path '{path.text}' has no file name"
  | .invalidFileName path name =>
    s!"template path '{path.text}' expands to invalid file name '{name}'"

inductive Error where
  | projectNotFound
  | configUnreadable (cause : FileError)
  | configInvalid
  | configExists (path : Path)
  | nameInvalid (name : String) (fault : Text.IdentifierFault)
  | sceneExists (path : Path)
  | kindNotFound (name : String)
  | kindInvalid (fault : KindFault)
  | template (file : String) (cause : Template.Error)
  | modelNotFound
  | modelUnreadable (path : Path) (cause : FileError)
  | templateUnreadable (path : Path) (cause : FileError)
  | contextUnreadable (path : Path) (cause : FileError)
  | contextInvalid (path : Path)
  | disk (cause : FileError)
  | dateFormatInvalid
  deriving DecidableEq, Repr

/-- The text of an error. Of an invalid configuration or context it says no more than that. -/
def Error.message : Error → String
  | .projectNotFound =>
    s!"PROJECT_NOT_FOUND: {Config.fileName} not found in current or parent directories"
  | .configUnreadable cause => s!"CONFIG_PARSE_ERROR: {cause.message}"
  | .configInvalid => s!"CONFIG_INVALID: failed to parse {Config.fileName}:"
  | .configExists path => s!"CONFIG_EXISTS: '{path.text}' already exists"
  | .nameInvalid name fault => s!"SCENE_NAME_INVALID: '{name}': {fault.message}"
  | .sceneExists path =>
    s!"SCENE_EXISTS: '{path.text}' already exists (use --force to overwrite)"
  | .kindNotFound name => s!"SCENE_KIND_NOT_FOUND: scene kind '{name}' not found"
  | .kindInvalid fault => s!"SCENE_KIND_INVALID: {fault.message}"
  | .template file cause => s!"TEMPLATE_FAILED: {file}: {cause.message}"
  | .modelNotFound => "MODEL_PARSE_ERROR: no struct or class declaration found"
  | .modelUnreadable path cause => s!"Failed to read model file {path.text}: {cause.message}"
  | .templateUnreadable path cause => s!"Failed to read template {path.text}: {cause.message}"
  | .contextUnreadable path cause => s!"Failed to read context file {path.text}: {cause.message}"
  | .contextInvalid path => s!"Invalid context file {path.text}:"
  | .disk cause => s!"IO_ERROR: {cause.message}"
  | .dateFormatInvalid => "a date format holds a specifier that does not exist"

/-- Refuses a name that is no identifier. -/
def checkName (name : String) : Except Error Unit :=
  match Text.identifierFault? name.toList with
  | none => .ok ()
  | some fault => .error (.nameInvalid name fault)

/-- The characters of a name that has been checked. -/
theorem checkName_eq_ok_iff {name : String} :
    checkName name = .ok () ↔ Text.isIdentifier name.toList = true := by
  rw [← Text.identifierFault?_eq_none_iff, checkName]
  cases Text.identifierFault? name.toList with
  | none => simp
  | some fault => simp

end Scaffold
