import Scaffold.Path

/-!
The templates of a scene kind: a header for every file, and the files in order. An override takes
the place of the file with the same path, where paths are compared by components; it comes last if
there is none.
-/

namespace Scaffold

/-- A template file, with its path relative to the scene. -/
structure TemplateFile where
  path : Path
  source : String
  deriving DecidableEq, Repr

structure KindTemplates where
  name : String
  header : String
  files : List TemplateFile
  deriving DecidableEq, Repr

/-- Puts a file in place of the first one with the same path, or at the end. -/
def TemplateFile.override (file : TemplateFile) : List TemplateFile → List TemplateFile
  | [] => [file]
  | f :: files =>
    if f.path.components = file.path.components then file :: files
    else f :: file.override files

def KindTemplates.withOverride (kind : KindTemplates) (file : TemplateFile) : KindTemplates :=
  { kind with files := file.override kind.files }

end Scaffold
