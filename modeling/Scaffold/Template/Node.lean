import Scaffold.Template.Tag

/-!
The tree of a template: literal text, placeholders, and loops around further nodes. It is read from
the segments of the text one by one, with the loops that are still open kept on a stack.
-/

namespace Scaffold.Template

/-- A node of a template. Placeholders and loops know the line of their tag. -/
inductive Node where
  | literal (text : String)
  | placeholder (reference : Reference) (line : Nat)
  | loop (var collection : String) (body : List Node) (line : Nat)
  deriving Repr

/-- A loop whose end has not been read yet, and the nodes that stand before it in the list it will
be part of, last one first. -/
structure OpenLoop where
  var : String
  collection : String
  line : Nat
  before : List Node
  deriving Repr

/-- A template that is read up to some point: the open loops, innermost first, and the nodes of the
innermost list, last one first. -/
structure Draft where
  loops : List OpenLoop
  nodes : List Node
  deriving Repr

namespace Draft

def empty : Draft := ⟨[], []⟩

/-- Puts a node behind the nodes of the innermost list. -/
def push (draft : Draft) (node : Node) : Draft :=
  { draft with nodes := node :: draft.nodes }

def addTag (draft : Draft) (line : Nat) : Tag → Except Error Draft
  | .placeholder reference => .ok (draft.push (.placeholder reference line))
  | .loopStart var collection =>
    .ok ⟨⟨var, collection, line, draft.nodes⟩ :: draft.loops, []⟩
  | .loopEnd =>
    match draft.loops with
    | [] => .error (.malformed .loopEndOutsideLoop line)
    | l :: loops =>
      .ok ⟨loops, .loop l.var l.collection draft.nodes.reverse l.line :: l.before⟩

def add (draft : Draft) : Segment → Except Error Draft
  | .literal text => .ok (draft.push (.literal (String.ofList text)))
  | .unclosed delimiter line => .error (.malformed (.unclosed delimiter) line)
  | .tag delimiter content line =>
    match Tag.read delimiter content with
    | .error fault => .error (.malformed fault line)
    | .ok tag => draft.addTag line tag

/-- The nodes of a template at its end. The innermost loop is reported when one is still open. -/
def finish (draft : Draft) : Except Error (List Node) :=
  match draft.loops with
  | [] => .ok draft.nodes.reverse
  | l :: _ => .error (.malformed (.loopNeverClosed l.var l.collection) l.line)

end Draft

end Scaffold.Template

namespace Scaffold

open Template

/-- A template that has been read, ready to be expanded in any context. -/
structure Template where
  nodes : List Node
  deriving Repr

/-- Reads a template. The first bad tag from the left is reported. -/
def Template.parse (text : String) : Except Template.Error Template := do
  let draft ← (segments text).foldlM Draft.add Draft.empty
  return ⟨← draft.finish⟩

end Scaffold
