/-!
Reading the arguments of a command line. An option has a long name and may have a letter; its value
follows it, behind an equals sign or as the next argument, and letters may share a dash. Arguments
that belong to no option are operands, and after two dashes all arguments are.

Arguments are read from left to right, and the first one that does not fit is reported. A value that
is an argument of its own is looked at only when it is known what follows it, so an option that does
not exist is reported before the value in front of it.
-/

namespace Scaffold.Command

/-- Why the arguments do not fit. -/
inductive Misuse where
  | noCommand
  | unknownCommand (name : String)
  | unknownOption (text : String)
  | unexpectedArgument (text : String)
  | missingArgument (name : String)
  | missingValue (option : String)
  | unwantedValue (option : String)
  | repeated (option : String)
  | emptyPath (name : String)
  | noEqualsSign (text : String)
  | emptyKey (text : String)
  deriving DecidableEq, Repr

def Misuse.message : Misuse → String
  | .noCommand => "a command is required"
  | .unknownCommand name => s!"unrecognized command '{name}'"
  | .unknownOption text => s!"unexpected option '{text}'"
  | .unexpectedArgument text => s!"unexpected argument '{text}'"
  | .missingArgument name => s!"the argument '{name}' is required"
  | .missingValue option => s!"a value is required for '{option}'"
  | .unwantedValue option => s!"no value is allowed for '{option}'"
  | .repeated option => s!"'{option}' cannot be used more than once"
  | .emptyPath name => s!"the path for '{name}' is empty"
  | .noEqualsSign text => s!"invalid KEY=VALUE: no `=` found in `{text}`"
  | .emptyKey text => s!"invalid KEY=VALUE: empty key in `{text}`"

/-- What ends the reading before a command is known. -/
inductive Halt where
  | help
  | version
  | misuse (m : Misuse)
  deriving DecidableEq, Repr

/-- An argument as it looks. -/
inductive Word where
  | dashes
  | long (name : String) (value? : Option String)
  | letters (cs : List Char)
  | plain (text : String)
  deriving DecidableEq, Repr

/-- A lone dash is a plain word. -/
def Word.ofString (s : String) : Word :=
  match s.toList with
  | ['-', '-'] => .dashes
  | '-' :: '-' :: cs =>
    .long (String.ofList (cs.takeWhile (· ≠ '=')))
      (match cs.dropWhile (· ≠ '=') with
        | [] => none
        | _ :: value => some (String.ofList value))
  | '-' :: c :: cs => .letters (c :: cs)
  | _ => .plain s

/-- An option of a command whose arguments are collected in a `σ`. An option that takes no value is
given the empty text. -/
structure Parameter (σ : Type) where
  name : String
  letter? : Option Char
  takesValue : Bool
  give : String → σ → Except Halt σ

namespace Parameter

variable {σ α : Type}

/-- An option without a value, which may be given once. -/
def flag (name : String) (letter? : Option Char) (isSet : σ → Bool) (set : σ → σ) :
    Parameter σ :=
  ⟨name, letter?, false, fun _ s =>
    if isSet s then .error (.misuse (.repeated name)) else .ok (set s)⟩

/-- An option with a value, which may be given once. -/
def once (name : String) (letter? : Option Char) (read : String → Except Misuse α)
    (current? : σ → Option α) (set : α → σ → σ) : Parameter σ :=
  ⟨name, letter?, true, fun text s =>
    if (current? s).isSome then .error (.misuse (.repeated name))
    else
      match read text with
      | .ok a => .ok (set a s)
      | .error m => .error (.misuse m)⟩

/-- An option with a value, which may be given any number of times. -/
def many (name : String) (letter? : Option Char) (read : String → Except Misuse α)
    (add : α → σ → σ) : Parameter σ :=
  ⟨name, letter?, true, fun text s =>
    match read text with
    | .ok a => .ok (add a s)
    | .error m => .error (.misuse m)⟩

/-- An option that ends the reading. -/
def halting (name : String) (letter : Char) (halt : Halt) : Parameter σ :=
  ⟨name, some letter, false, fun _ _ => .error halt⟩

end Parameter

/-- The operand of a command. -/
structure Operand (σ : Type) where
  isGiven : σ → Bool
  give : String → σ → Except Halt σ

/-- The arguments that a command understands. -/
structure Grammar (σ : Type) where
  parameters : List (Parameter σ)
  operand? : Option (Operand σ)

/-- The arguments read so far, with the last option if its value may still follow or has just done
so. -/
structure Reading (σ : Type) where
  collected : σ
  pending? : Option (Parameter σ × Option String)

variable {σ : Type}

/-- Collects the value of the last option. -/
def Reading.settle (r : Reading σ) : Except Halt σ :=
  match r.pending? with
  | none => .ok r.collected
  | some (p, none) => .error (.misuse (.missingValue p.name))
  | some (p, some value) => p.give value r.collected

namespace Grammar

/-- Reads letters that share a dash. The text after the letter of an option that takes a value is
its value. -/
def readLetters (g : Grammar σ) (r : Reading σ) : List Char → Except Halt (Reading σ)
  | [] => .ok r
  | c :: cs =>
    match g.parameters.find? (·.letter? = some c) with
    | none => .error (.misuse (.unknownOption (String.ofList ['-', c])))
    | some p => do
      let collected ← r.settle
      if p.takesValue then
        match cs with
        | [] => return ⟨collected, some (p, none)⟩
        | '=' :: value => return ⟨← p.give (String.ofList value) collected, none⟩
        | value => return ⟨← p.give (String.ofList value) collected, none⟩
      else g.readLetters ⟨← p.give "" collected, none⟩ cs

/-- Reads an option that is written with its long name. -/
def readLong (g : Grammar σ) (r : Reading σ) (name : String) (value? : Option String) :
    Except Halt (Reading σ) :=
  match g.parameters.find? (·.name = name) with
  | none => .error (.misuse (.unknownOption ("--" ++ name)))
  | some p =>
    match p.takesValue, value? with
    | false, some _ => .error (.misuse (.unwantedValue name))
    | false, none => do return ⟨← p.give "" (← r.settle), none⟩
    | true, some value => do return ⟨← p.give value (← r.settle), none⟩
    | true, none => do return ⟨← r.settle, some (p, none)⟩

def readOperand (g : Grammar σ) (r : Reading σ) (text : String) : Except Halt (Reading σ) :=
  match g.operand? with
  | none => .error (.misuse (.unexpectedArgument text))
  | some operand =>
    if operand.isGiven r.collected then .error (.misuse (.unexpectedArgument text))
    else do return ⟨← operand.give text (← r.settle), none⟩

/-- Reads arguments that are all operands. -/
def readOperands (g : Grammar σ) (r : Reading σ) (arguments : List String) :
    Except Halt (Reading σ) :=
  arguments.foldlM g.readOperand r

/-- Reads the arguments of a command. -/
def read (g : Grammar σ) (r : Reading σ) : List String → Except Halt σ
  | [] => r.settle
  | argument :: arguments =>
    match Word.ofString argument with
    | .dashes => do (← g.readOperands r arguments).settle
    | .long name value? => do g.read (← g.readLong r name value?) arguments
    | .letters cs => do g.read (← g.readLetters r cs) arguments
    | .plain text =>
      match r.pending? with
      | some (p, none) => g.read ⟨r.collected, some (p, some text)⟩ arguments
      | _ => do g.read (← g.readOperand r text) arguments

end Grammar

end Scaffold.Command
