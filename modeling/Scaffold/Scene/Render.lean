import Scaffold.Error
import Scaffold.Kind.Templates
import Scaffold.Template.Expansion
import Scaffold.Text.Search

/-!
Rendering a scene: every template of a kind gives one file, with the header before it. The first
template that fails ends the rendering.
-/

namespace Scaffold.Scene

open Text

structure RenderedFile where
  path : Path
  content : String
  deriving DecidableEq, Repr

/-- The text of a file name that holds a placeholder. A name that is no text holds none. -/
def templatedName? (fileName : Piece) : Option String :=
  fileName.text?.filter fun text => hasInfix ['{', '{'] text.toList

/-- The name of the file that a template gives: the template's own with the name of the scene in
front, or what it expands to if it holds a placeholder. -/
def outputName (path : Path) (fileName : Piece) (c : Template.Context) :
    Except Error (List UInt8) :=
  match templatedName? fileName with
  | some text =>
    match expand text c with
    | .error e => .error (.template path.text e)
    | .ok name =>
      if name = "" ∨ name.toList.any (fun c => c = '/' || c = '\\') then
        .error (.kindInvalid (.invalidFileName path name))
      else .ok (bytes name)
  | none => .ok (bytes c.name ++ fileName.bytes)

/-- The path of the file that a template gives, in the directory of the template. -/
def outputPath (path : Path) (c : Template.Context) : Except Error Path :=
  match path.fileName? with
  | none => .error (.kindInvalid (.noFileName path))
  | some fileName => (outputName path fileName c).map path.withFileName

def renderFile (header : Template) (c : Template.Context) (file : TemplateFile) :
    Except Error RenderedFile := do
  let path ← outputPath file.path c
  let inFile := Error.template file.path.text
  let body ← (Template.parse file.source).mapError inFile
  let c := c.bind "file_name" path.fileText
  let head ← (header.expand c).mapError (.template headerFileName)
  let rest ← (body.expand c).mapError inFile
  return ⟨path, head ++ rest⟩

/-- The files of a scene, in the order of the templates. -/
def render (kind : KindTemplates) (c : Template.Context) : Except Error (List RenderedFile) := do
  let header ← (Template.parse kind.header).mapError (.template headerFileName)
  kind.files.mapM (renderFile header c)

end Scaffold.Scene
