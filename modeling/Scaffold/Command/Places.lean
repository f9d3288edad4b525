import Scaffold.Command.Invocation

/-!
The places that a command looks at. Nothing else on the disk has to be known to carry it out.
-/

namespace Scaffold.Command

/-- Places on a disk: paths that are looked up, and directories that are read with all that is below
them. -/
structure Places where
  paths : List Path
  trees : List Path

/-- The configuration files that may be those of the project around a directory. -/
def configPaths (here : Path) : List Path :=
  here.ancestors.map Project.configPath

/-- The user's templates of a project, and those of one kind. -/
def templateTrees (d : Disk) (kind? : Option String) : List Path :=
  match Project.find d d.herePath with
  | .ok (some project) =>
    project.templatesDirectory ::
      (kind?.map fun kind => project.templatesDirectory.join (Path.ofString kind)).toList
  | _ => []

def modelPaths : Option ModelSource → List Path
  | some (.file p) => [p]
  | _ => []

/-- The places that a command looks at, as far as the disk already shows which ones these are: where
the templates are is known when the configuration is. -/
def places (d : Disk) : Command → Places
  | .init .. => ⟨[Project.configPath d.herePath], []⟩
  | .new request output? _ _ =>
    let target := (output?.getD d.herePath).join (Path.ofString request.name)
    ⟨target :: modelPaths request.model? ++ configPaths d.herePath,
      templateTrees d (some request.kind)⟩
  | .render e => ⟨e.template :: e.context?.toList ++ modelPaths e.model?, []⟩
  | .kinds _ => ⟨configPaths d.herePath, templateTrees d none⟩

end Scaffold.Command
