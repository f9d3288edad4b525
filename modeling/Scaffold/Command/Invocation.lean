import Scaffold.Command.Arguments
import Scaffold.Scene.Generation

/-!
What a command line asks for: one of four commands, and whether to say what is being done.
-/

namespace Scaffold

/-- What a template is to be expanded with: the context in a file, if there is one, and then the
name, the properties and the variables that are given besides. -/
structure Expansion where
  template : Path
  context? : Option Path
  name? : Option String
  properties : List Template.Property
  model? : Option ModelSource
  bindings : List (String × String)

inductive Command where
  | init (config : Config) (force : Bool)
  | new (request : Scene.Request) (output? : Option Path) (force json : Bool)
  | render (expansion : Expansion)
  | kinds (json : Bool)

namespace Command

structure Invocation where
  command : Command
  verbose : Bool

def defaultKind : String := "base"

def anyText (text : String) : Except Misuse String := .ok text

def path (name : String) (text : String) : Except Misuse Path :=
  if text = "" then .error (.emptyPath name) else .ok (Path.ofString text)

/-- A key and a value around the first equals sign. -/
def keyAndValue (text : String) : Except Misuse (String × String) :=
  match text.toList.dropWhile (· ≠ '=') with
  | [] => .error (.noEqualsSign text)
  | _ :: value =>
    match text.toList.takeWhile (· ≠ '=') with
    | [] => .error (.emptyKey text)
    | key => .ok (String.ofList key, String.ofList value)

/-- The value of an argument that has to be given. -/
def required {α : Type} (name : String) : Option α → Except Halt α
  | some a => .ok a
  | none => .error (.misuse (.missingArgument name))

/-- The options that every command has. -/
def commonParameters {σ : Type} (verbose : σ → Bool) (setVerbose : σ → σ) :
    List (Parameter σ) :=
  [.flag "verbose" (some 'v') verbose setVerbose, .halting "help" 'h' .help]

structure InitArguments where
  project? : Option String := none
  developer? : Option String := none
  company? : Option String := none
  force : Bool := false
  verbose : Bool := false

namespace InitArguments

def grammar : Grammar InitArguments where
  parameters := commonParameters (·.verbose) ({ · with verbose := true }) ++
    [.once "project" none anyText (·.project?) fun s a => { a with project? := some s },
      .once "developer" none anyText (·.developer?) fun s a => { a with developer? := some s },
      .once "company" none anyText (·.company?) fun s a => { a with company? := some s },
      .flag "force" (some 'f') (·.force) ({ · with force := true })]
  operand? := none

/-- What is not among the arguments is taken from the environment. -/
def invocation (environment : String → Option String) (a : InitArguments) :
    Except Halt Invocation := do
  let project ← required "project" (a.project?.or (environment "SCENEGEN_PROJECT"))
  let developer ← required "developer" (a.developer?.or (environment "SCENEGEN_DEVELOPER"))
  let company ← required "company" (a.company?.or (environment "SCENEGEN_COMPANY"))
  return ⟨.init ⟨project, developer, company, Config.defaultTemplatesDirectory,
    Config.defaultDateFormat⟩ a.force, a.verbose⟩

end InitArguments

structure NewArguments where
  name? : Option String := none
  kind? : Option String := none
  properties : List String := []
  model? : Option Path := none
  output? : Option Path := none
  force : Bool := false
  json : Bool := false
  verbose : Bool := false

namespace NewArguments

def grammar : Grammar NewArguments where
  parameters := commonParameters (·.verbose) ({ · with verbose := true }) ++
    [.once "kind" (some 'k') anyText (·.kind?) fun s a => { a with kind? := some s },
      .many "property" (some 'p') anyText fun s a => { a with properties := a.properties ++ [s] },
      .once "model" (some 'm') (path "model") (·.model?) fun p a => { a with model? := some p },
      .once "output" (some 'o') (path "output") (·.output?) fun p a =>
        { a with output? := some p },
      .flag "force" (some 'f') (·.force) ({ · with force := true }),
      .flag "json" none (·.json) ({ · with json := true })]
  operand? := some ⟨(·.name?.isSome), fun s a => .ok { a with name? := some s }⟩

def invocation (a : NewArguments) : Except Halt Invocation := do
  let name ← required "NAME" a.name?
  return ⟨.new ⟨name, a.kind?.getD defaultKind, a.properties.map (⟨·, none⟩),
    a.model?.map .file⟩ a.output? a.force a.json, a.verbose⟩

end NewArguments

structure RenderArguments where
  template? : Option Path := none
  name? : Option String := none
  properties : List String := []
  model? : Option Path := none
  context? : Option Path := none
  bindings : List (String × String) := []
  verbose : Bool := false

namespace RenderArguments

def grammar : Grammar RenderArguments where
  parameters := commonParameters (·.verbose) ({ · with verbose := true }) ++
    [.once "name" (some 'n') anyText (·.name?) fun s a => { a with name? := some s },
      .many "property" (some 'p') anyText fun s a => { a with properties := a.properties ++ [s] },
      .once "model" (some 'm') (path "model") (·.model?) fun p a => { a with model? := some p },
      .once "context" (some 'c') (path "context") (·.context?) fun p a =>
        { a with context? := some p },
      .many "var" none keyAndValue fun v a => { a with bindings := a.bindings ++ [v] }]
  operand? := some ⟨(·.template?.isSome), fun s a =>
    match path "TEMPLATE" s with
    | .ok p => .ok { a with template? := some p }
    | .error m => .error (.misuse m)⟩

def invocation (a : RenderArguments) : Except Halt Invocation := do
  let template ← required "TEMPLATE" a.template?
  return ⟨.render ⟨template, a.context?, a.name?, a.properties.map (⟨·, none⟩),
    a.model?.map .file, a.bindings⟩, a.verbose⟩

end RenderArguments

structure KindsArguments where
  json : Bool := false
  verbose : Bool := false

def KindsArguments.grammar : Grammar KindsArguments where
  parameters := commonParameters (·.verbose) ({ · with verbose := true }) ++
    [.flag "json" none (·.json) ({ · with json := true })]
  operand? := none

def names : List String :=
  ["init", "new", "render", "kinds", "help"]

/-- What the arguments of `help` lead to. They are the name of a command, or none. -/
def readHelp : List String → Halt
  | [] => .help
  | name :: others =>
    if name ∈ names then
      match others with
      | [] => .help
      | other :: _ => .misuse (.unknownCommand other)
    else .misuse (.unknownCommand name)

/-- Reads the arguments of the command of a name. -/
def readCommand (environment : String → Option String) (name : String)
    (arguments : List String) : Except Halt Invocation :=
  match name with
  | "init" => do
    (← InitArguments.grammar.read ⟨{}, none⟩ arguments).invocation environment
  | "new" => do (← NewArguments.grammar.read ⟨{}, none⟩ arguments).invocation
  | "render" => do (← RenderArguments.grammar.read ⟨{}, none⟩ arguments).invocation
  | "kinds" => do
    let a ← KindsArguments.grammar.read ⟨{}, none⟩ arguments
    return ⟨.kinds a.json, a.verbose⟩
  | "help" => .error (readHelp arguments)
  | name => .error (.misuse (.unknownCommand name))

/-- The options that may stand before the command, collected in whether it is to be verbose. -/
def globalGrammar : Grammar Bool where
  parameters := commonParameters (·) (fun _ => true) ++ [.halting "version" 'V' .version]
  operand? := none

/-- Reads a command line behind the name of the program. -/
def readArguments (environment : String → Option String) (r : Reading Bool) :
    List String → Except Halt Invocation
  | [] => .error (.misuse .noCommand)
  | argument :: arguments =>
    match Word.ofString argument with
    | .dashes => .error (.misuse .noCommand)
    | .long name value? => do
      readArguments environment (← globalGrammar.readLong r name value?) arguments
    | .letters cs => do readArguments environment (← globalGrammar.readLetters r cs) arguments
    | .plain name => do
      let invocation ← readCommand environment name arguments
      return { invocation with verbose := r.collected || invocation.verbose }

def Invocation.ofArguments (environment : String → Option String) (arguments : List String) :
    Except Halt Invocation :=
  readArguments environment ⟨false, none⟩ arguments

end Command

end Scaffold
