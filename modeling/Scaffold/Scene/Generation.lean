import Scaffold.Kind.Resolution
import Scaffold.Project
import Scaffold.Scene.Context
import Scaffold.Scene.Write

/-!
Generating a scene, from what is asked for to the files on the disk. All that is asked for is
checked before any template is read, and all templates are expanded before anything is written.
-/

namespace Scaffold

/-- Where a model is read from. -/
inductive ModelSource where
  | text (content : String)
  | file (path : Path)

def ModelSource.read (d : Disk) : ModelSource → Except Error Swift.Model
  | .text content => parse content
  | .file path => do
    parse (← (d.readText path).mapError (.modelUnreadable path))
where
  parse (content : String) : Except Error Swift.Model :=
    match Swift.Model.parse? content with
    | some m => .ok m
    | none => .error .modelNotFound

/-- Reads a model if one is given. -/
def readModel? (d : Disk) : Option ModelSource → Except Error (Option Swift.Model)
  | none => .ok none
  | some source => (source.read d).map some

/-- The properties of a model, if there is one, and then the further properties. -/
def withModelProperties (model? : Option Swift.Model) (properties : List Template.Property) :
    List Template.Property :=
  (model?.map Swift.Model.sceneProperties).getD [] ++ properties

namespace Scene

/-- What is asked for when a scene is to be generated. -/
structure Request where
  name : String
  kind : String
  properties : List Template.Property
  model? : Option ModelSource

/-- A request in its project, with the model read and all names checked. The properties are those
of the model and then the further ones. -/
structure Plan where
  project : Project
  name : String
  kind : String
  model? : Option Swift.Model
  properties : List Template.Property

/-- Checks a request that is made in a directory. -/
def Request.plan (d : Disk) (start : Path) (r : Request) : Except Error Plan := do
  match ← Project.find d start with
  | none => .error .projectNotFound
  | some project =>
    checkName r.name
    let model? ← readModel? d r.model?
    let properties := withModelProperties model? r.properties
    properties.forM fun p => checkName p.name
    return ⟨project, r.name, r.kind, model?, properties⟩

namespace Plan

/-- The files of the scene at the given time. -/
def render (d : Disk) (now : Date.LocalTime) (p : Plan) : Except Error (List RenderedFile) := do
  let kind ← Kind.resolve d (some p.project.templatesDirectory) p.kind
  let c ← context p.name p.properties p.project.config now
  Scene.render kind ((p.model?.map (bindModel c)).getD c)

/-- Writes the scene to a directory, and gives the directory of the scene with the files. -/
def generate {m : Type → Type} [Monad m] [MonadDisk m] [TemporaryNames] (now : Date.LocalTime)
    (out : Path) (overwrite : Bool) (p : Plan) : ExceptT Error m (Path × List RenderedFile) := do
  let files ← MonadExcept.ofExcept (p.render (← MonadDisk.look) now)
  return (← write out p.name files overwrite, files)

end Plan

end Scene

end Scaffold
