import Scaffold.Disk.Operations
import Scaffold.Error
import Scaffold.Kind.Builtin

/-!
The scene kinds of a project: a directory of the user's templates stands for a kind of its name,
and takes precedence over the builtin kind of that name.
-/

namespace Scaffold.Kind

inductive Source where
  | builtin
  | user
  deriving DecidableEq, Repr

def Source.label : Source → String
  | .builtin => "builtin"
  | .user => "user"

/-- The header among the user's templates, or the builtin one if there is none. -/
def readHeader (d : Disk) (templates : Path) : Except Error String :=
  let path := templates.join (Path.ofString headerFileName)
  if d.isFile path then
    (d.readText path).mapError fun e => .kindInvalid (.headerUnreadable path e)
  else .ok Builtin.header

/-- Reads a template file of a kind that is kept in a directory. -/
def readTemplate (directory : Path) (names : List Name) (content : ByteArray) :
    Except Error TemplateFile :=
  match String.fromUTF8? content with
  | some source => .ok ⟨.ofNames names, source⟩
  | none => .error (.kindInvalid (.fileUnreadable (directory.join (.ofNames names)) .notText))

/-- Reads what a walk meets below the directory of a kind, nothing unless it is a file. A directory
whose path is too long cannot be walked into, and such a file cannot be read. -/
def readVisited (directory : Path) (names : List Name) (e : Entry) :
    Except Error (Option TemplateFile) :=
  let path := directory.join (.ofNames names)
  let tooLong := Disk.longestPath < path.bytes.length
  match e with
  | .link _ => .ok none
  | .directory _ =>
    if tooLong then .error (.kindInvalid (.walkFailed directory path .nameTooLong)) else .ok none
  | .file content =>
    if tooLong then .error (.kindInvalid (.fileUnreadable path .nameTooLong))
    else (readTemplate directory names content).map some

/-- All files that a walk meets below a directory. -/
def readFiles (d : Disk) (name : String) (directory : Path) :
    Except Error (List TemplateFile) := do
  let entries ← (d.list directory).mapError fun e =>
    .kindInvalid (.walkFailed directory directory e)
  let visited ← (Entry.directory entries).descendants.mapM fun (names, e) =>
    readVisited directory names e
  let files := visited.filterMap id
  if files.isEmpty then .error (.kindInvalid (.noFiles name directory))
  else return files

/-- The templates of a kind. -/
def resolve (d : Disk) (templates? : Option Path) (name : String) :
    Except Error KindTemplates := do
  let builtin := match builtin? name with
    | some kind => .ok kind
    | none => .error (.kindNotFound name)
  match templates? with
  | none => builtin
  | some templates =>
    let directory := templates.join (Path.ofString name)
    if d.isDirectory directory then
      let header ← readHeader d templates
      return ⟨name, header, ← readFiles d name directory⟩
    else builtin

/-- Kinds as they are listed, with their sources. -/
abbrev Listed := List (String × Source)

/-- Takes the first kind of this name for the user's; none if there is no such kind. -/
def shadow? (name : String) : Listed → Option Listed
  | [] => none
  | (other, source) :: kinds =>
    if other = name then some ((other, .user) :: kinds)
    else (shadow? name kinds).map ((other, source) :: ·)

/-- What is known of the kinds while a directory is read: those that are listed, and the further
names of the user's kinds. -/
structure Listing where
  kinds : Listed
  others : List String

/-- Takes an entry of the user's templates into account. Only a directory counts, not a link to one,
and its name stands for a kind as it is shown. -/
def Listing.add (l : Listing) : Name × Entry → Listing
  | (name, e) =>
    if !e.isDirectory then l
    else if name.isHidden then l
    else
      match shadow? name.text l.kinds with
      | some kinds => { l with kinds }
      | none => { l with others := l.others ++ [name.text] }

def Builtin.listed : Listed :=
  Builtin.names.map fun name => (name, .builtin)

/-- The builtin kinds in their order, then the other kinds of the user in the order of names. -/
def listing (entries : Entries) : Listed :=
  let l := entries.foldl Listing.add ⟨Builtin.listed, []⟩
  l.kinds ++ (l.others.mergeSort (· ≤ ·)).map fun name => (name, .user)

/-- The kinds that can be generated, and where they come from. -/
def list (d : Disk) (templates? : Option Path) : Except Error Listed :=
  match templates?.filter d.isDirectory with
  | none => .ok Builtin.listed
  | some templates => do
    let entries ← (d.list templates).mapError .disk
    return listing entries

end Scaffold.Kind
