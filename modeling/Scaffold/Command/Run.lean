import Scaffold.Command.Invocation
import Scaffold.Template.Document
import Scaffold.Text.Json

/-!
Carrying out a command. What it prints is collected, and what was printed before a failure is kept.
The output takes whatever is written to it: that a closed pipe or a full device ends a command is
left out.
-/

namespace Scaffold

namespace Command

/-- What has been printed: the output, and notes besides it. -/
structure Console where
  output : String
  notes : String

/-- The actions of a command on a disk in `m`. -/
abbrev Action (m : Type → Type) := ExceptT Error (StateT Console m)

instance {m : Type → Type} [Monad m] [MonadDisk m] : MonadDisk (StateT Console m) where
  look := StateT.lift MonadDisk.look
  attempt operation := StateT.lift (MonadDisk.attempt operation)

variable {m : Type → Type} [Monad m] [MonadDisk m] [TemporaryNames]

def print (text : String) : Action m Unit :=
  modify fun c => { c with output := c.output ++ text }

def printLine (line : String) : Action m Unit :=
  print (line ++ "\n")

def noteLine (line : String) : Action m Unit :=
  modify fun c => { c with notes := c.notes ++ line ++ "\n" }

def lift {α : Type} (r : Except Error α) : Action m α :=
  MonadExcept.ofExcept r

/-- An action on the disk that prints nothing. -/
def silently {α : Type} (action : ExceptT Error m α) : Action m α :=
  ExceptT.mk (StateT.lift action.run)

/-- Writes a configuration file to the working directory. -/
def runInit (verbose : Bool) (config : Config) (force : Bool) : Action m Unit := do
  let d ← MonadDisk.look
  let path := Project.configPath d.herePath
  if d.pathExists path ∧ !force then
    throw (.configExists path)
  if verbose then
    printLine s!"→ Writing {path.text}"
  Config.write path config
  printLine s!"✓ Created {path.text}"
  print "\nNext steps:\n  scenegen new <SceneName>\n  scenegen kinds\n"

/-- A stored property with its type, and what the type says about it. -/
def propertyLine (p : Swift.StoredProperty) : String :=
  let marks := (if p.type.isOptional then ["optional"] else []) ++
    (if p.type.isArray then ["array"] else [])
  let line := s!"  - {p.name}: {p.type.text}"
  if marks.isEmpty then line else line ++ " (" ++ ", ".intercalate marks ++ ")"

def printPlan (plan : Scene.Plan) : Action m Unit := do
  printLine
    s!"→ Generating {plan.kind} scene '{plan.name}' with {plan.properties.length} properties"
  if let some model := plan.model? then
    printLine s!"→ Model '{model.name}':"
    model.properties.forM fun p => printLine (propertyLine p)

/-- Generates a scene in the given directory, or else in the working directory. -/
def runNew (now : Date.LocalTime) (verbose : Bool) (request : Scene.Request)
    (output? : Option Path) (force json : Bool) : Action m Unit := do
  let d ← MonadDisk.look
  let plan ← lift (request.plan d d.herePath)
  if verbose then
    printPlan plan
  let (directory, files) ← silently (plan.generate now (output?.getD d.herePath) force)
  let written := files.map fun file => (directory.join file.path).text
  if json then
    printLine (Text.JsonLines.array (written.map Text.JsonLines.string)).text
  else
    written.forM fun path => printLine s!"        new file:   {path}"
    printLine s!"✓ Generated {plan.kind} scene '{plan.name}' at {directory.text}"

/-- The context in a file, or an empty one. -/
def readContext (d : Disk) : Option Path → Except Error Template.Context
  | none => .ok .empty
  | some path => do
    let text ← (d.readText path).mapError (.contextUnreadable path)
    match Template.Context.parse? text with
    | some c => return c
    | none => .error (.contextInvalid path)

/-- The context in which a template is expanded. -/
def expansionContext (d : Disk) (e : Expansion) : Except Error Template.Context := do
  let c ← readContext d e.context?
  let model? ← readModel? d e.model?
  let c : Template.Context :=
    { c with
      name := e.name?.getD c.name
      properties := c.properties ++ withModelProperties model? e.properties }
  let c := (model?.map (Scene.bindModel c)).getD c
  return e.bindings.foldl (fun c (key, value) => c.bind key value) c

/-- Expands a template. Only what it expands to is printed. -/
def runRender (verbose : Bool) (e : Expansion) : Action m Unit := do
  let d ← MonadDisk.look
  let source ← lift ((d.readText e.template).mapError (.templateUnreadable e.template))
  let c ← lift (expansionContext d e)
  if verbose then
    noteLine (s!"→ Rendering {e.template.text} for '{c.name}' with {c.properties.length} " ++
      s!"properties and {c.bindings.length} vars")
  print (← lift ((expand source c).mapError (.template e.template.text)))

/-- Lists the scene kinds. Outside of a project there are the builtin ones. -/
def runKinds (verbose json : Bool) : Action m Unit := do
  let d ← MonadDisk.look
  let project? ← lift (Project.find d d.herePath)
  let templates? := project?.map (·.templatesDirectory)
  if verbose then
    match templates? with
    | some directory => printLine s!"→ User templates: {directory.text}"
    | none => printLine "→ Not in a project, builtin kinds only"
  let kinds ← lift (Kind.list d templates?)
  if json then
    let entries := kinds.map fun (name, source) =>
      Text.JsonLines.object [("name", .string name), ("source", .string source.label)]
    printLine (Text.JsonLines.object [("kinds", .array entries)]).text
  else
    printLine "Scene kinds:"
    kinds.forM fun (name, source) => printLine s!"  {name} ({source.label})"

/-- Carries out a command at the given time. -/
def run (now : Date.LocalTime) (i : Invocation) : Action m Unit :=
  match i.command with
  | .init config force => runInit i.verbose config force
  | .new request output? force json => runNew now i.verbose request output? force json
  | .render e => runRender i.verbose e
  | .kinds json => runKinds i.verbose json

/-! ### The program -/

inductive Ending where
  | success
  | failure (e : Error)
  | misuse (m : Misuse)

/-- What is left when the program has ended. -/
structure Outcome where
  ending : Ending
  console : Console

namespace Outcome

/-- The exit code. An invalid date format is a defect of the project and not of the command, so it
has a code of its own. -/
def code (o : Outcome) : UInt8 :=
  match o.ending with
  | .success => 0
  | .failure .dateFormatInvalid => 101
  | .failure _ => 1
  | .misuse _ => 2

/-- What is printed besides the output. -/
def errorText (o : Outcome) : String :=
  match o.ending with
  | .success => o.console.notes
  | .failure e => o.console.notes ++ s!"Error: {e.message}\n"
  | .misuse m => o.console.notes ++ s!"error: {m.message}\n"

end Outcome

def versionText : String := "scenegen 0.1.0\n"

def helpText : String :=
  "Usage: scenegen [-v] <COMMAND>\n\n" ++
    "  init --project <NAME> --developer <NAME> --company <NAME> [-f]\n" ++
    "  new <NAME> [-k <KIND>] [-p <NAME>]... [-m <FILE>] [-o <DIR>] [-f] [--json]\n" ++
    "  render <TEMPLATE> [-n <NAME>] [-p <NAME>]... [-m <FILE>] [-c <FILE>] " ++
    "[--var <KEY=VALUE>]...\n" ++
    "  kinds [--json]\n"

/-- Runs the program with the given arguments, environment and time. -/
def execute (arguments : List String) (environment : String → Option String)
    (now : Date.LocalTime) : m Outcome := do
  match Invocation.ofArguments environment arguments with
  | .error .help => return ⟨.success, ⟨helpText, ""⟩⟩
  | .error .version => return ⟨.success, ⟨versionText, ""⟩⟩
  | .error (.misuse misuse) => return ⟨.misuse misuse, ⟨"", ""⟩⟩
  | .ok invocation =>
    match ← (run now invocation).run.run ⟨"", ""⟩ with
    | (.ok (), console) => return ⟨.success, console⟩
    | (.error e, console) => return ⟨.failure e, console⟩

end Command

end Scaffold
