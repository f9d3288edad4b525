import Scaffold.Proofs.Template.Expansion
import Scaffold.Proofs.Template.Segments
import Scaffold.Template.Node

/-!
Templates that start further down. A text that starts on a later line has the same segments, gives
the same tree and expands to the same, except that all lines are that much later.
-/

namespace Scaffold.Template

open Text

/-- The same error, at a tag that stands so many lines further down. -/
def Error.shift (k : Nat) : Error → Error
  | .unbound name line => .unbound name (line + k)
  | .malformed fault line => .malformed fault (line + k)

def Segment.shift (k : Nat) : Segment → Segment
  | .literal text => .literal text
  | .tag delimiter content line => .tag delimiter content (line + k)
  | .unclosed delimiter line => .unclosed delimiter (line + k)

mutual

def Node.shift (k : Nat) : Node → Node
  | .literal text => .literal text
  | .placeholder reference line => .placeholder reference (line + k)
  | .loop var collection body line => .loop var collection (shiftNodes k body) (line + k)

def shiftNodes (k : Nat) : List Node → List Node
  | [] => []
  | node :: nodes => node.shift k :: shiftNodes k nodes

end

def OpenLoop.shift (k : Nat) (l : OpenLoop) : OpenLoop :=
  ⟨l.var, l.collection, l.line + k, shiftNodes k l.before⟩

def Draft.shift (k : Nat) (draft : Draft) : Draft :=
  ⟨draft.loops.map (OpenLoop.shift k), shiftNodes k draft.nodes⟩

/-- A result of reading or expanding text that stands so many lines further down. -/
def shiftResult {α : Type} (k : Nat) (shift : α → α) : Except Error α → Except Error α
  | .ok a => .ok (shift a)
  | .error e => .error (e.shift k)

theorem shiftNodes_eq_map (k : Nat) (nodes : List Node) :
    shiftNodes k nodes = nodes.map (Node.shift k) := by
  induction nodes with
  | nil => rfl
  | cons node nodes ih => rw [shiftNodes, ih, List.map_cons]

theorem shiftNodes_reverse (k : Nat) (nodes : List Node) :
    shiftNodes k nodes.reverse = (shiftNodes k nodes).reverse := by
  rw [shiftNodes_eq_map, shiftNodes_eq_map, List.map_reverse]

theorem Segment.map_shift_ofText (k : Nat) (text : List Char) :
    (ofText text).map (shift k) = ofText text := by
  cases text <;> rfl

theorem cut_shift (k line : Nat) (cs : List Char) :
    cut (line + k) cs = (cut line cs).map (Segment.shift k) := by
  induction cs using cut_induction generalizing line with
  | text cs hopen =>
    rw [cut_of_splitOpening_none hopen, cut_of_splitOpening_none hopen, Segment.map_shift_ofText]
  | unclosed cs before d rest hopen hclose =>
    rw [cut_of_splitClosing_none hopen hclose, cut_of_splitClosing_none hopen hclose,
      List.map_append, Segment.map_shift_ofText, Nat.add_right_comm]
    rfl
  | tag cs before d rest content after hopen hclose ih =>
    rw [cut_of_split hopen hclose, cut_of_split hopen hclose, List.map_append,
      Segment.map_shift_ofText, List.map_cons, ← ih, Nat.add_right_comm line,
      Nat.add_right_comm _ k]
    rfl

namespace Draft

theorem addTag_shift (k line : Nat) (draft : Draft) (tag : Tag) :
    (draft.shift k).addTag (line + k) tag = shiftResult k (shift k) (draft.addTag line tag) := by
  cases tag with
  | placeholder reference => rfl
  | loopStart var collection => rfl
  | loopEnd =>
    rcases draft with ⟨_ | ⟨l, loops⟩, nodes⟩
    · rfl
    · simp only [addTag, shift, List.map_cons, shiftResult, OpenLoop.shift, shiftNodes, Node.shift,
        shiftNodes_reverse]

/-- One step of reading is the same on later lines. -/
theorem add_shift (k : Nat) (draft : Draft) (segment : Segment) :
    (draft.shift k).add (segment.shift k) = shiftResult k (shift k) (draft.add segment) := by
  cases segment with
  | literal text => rfl
  | unclosed d line => rfl
  | tag d content line =>
    rw [Segment.shift, add, add]
    cases Tag.read d content with
    | error fault => rfl
    | ok tag => exact addTag_shift k line draft tag

theorem finish_shift (k : Nat) (draft : Draft) :
    (draft.shift k).finish = shiftResult k (shiftNodes k) draft.finish := by
  rcases draft with ⟨_ | ⟨l, loops⟩, nodes⟩
  · simp only [finish, shift, List.map_nil, shiftResult, shiftNodes_reverse]
  · rfl

end Draft

/-- What a draft becomes with these segments behind what has been read, at the end of the text. -/
def Draft.read (draft : Draft) (segments : List Segment) : Except Error (List Node) := do
  (← segments.foldlM add draft).finish

theorem Draft.read_cons (draft : Draft) (segment : Segment) (segments : List Segment) :
    draft.read (segment :: segments) = draft.add segment >>= fun next => next.read segments := by
  rw [read, List.foldlM_cons]
  cases draft.add segment <;> rfl

theorem Draft.read_shift (k : Nat) (draft : Draft) (segments : List Segment) :
    (draft.shift k).read (segments.map (Segment.shift k)) =
      shiftResult k (shiftNodes k) (draft.read segments) := by
  induction segments generalizing draft with
  | nil => exact finish_shift k draft
  | cons segment segments ih =>
    rw [List.map_cons, read_cons, read_cons, add_shift]
    cases draft.add segment with
    | error e => rfl
    | ok next => exact ih next

/-- Reading the characters of a text that starts at the given line. -/
def readNodes (line : Nat) (cs : List Char) : Except Error (List Node) :=
  Draft.empty.read (cut line cs)

theorem parse_eq_readNodes (text : String) :
    Template.parse text = (readNodes 1 text.toList).map Template.mk := by
  rw [Template.parse, readNodes, Draft.read, segments_eq_cut]
  cases (cut 1 text.toList).foldlM Draft.add Draft.empty with
  | error e => rfl
  | ok draft => cases hfinish : draft.finish <;> simp [bind, Except.bind, hfinish] <;> rfl

theorem readNodes_shift (k line : Nat) (cs : List Char) :
    readNodes (line + k) cs = shiftResult k (shiftNodes k) (readNodes line cs) := by
  rw [readNodes, cut_shift, readNodes, ← Draft.read_shift]
  rfl

theorem joined_shift (k : Nat) (r s : Except Error String) :
    joined (shiftResult k id r) (shiftResult k id s) = shiftResult k id (joined r s) := by
  cases r <;> cases s <;> rfl

theorem joinResults_shift (k : Nat) (rs : List (Except Error String)) :
    joinResults (rs.map (shiftResult k id)) = shiftResult k id (joinResults rs) := by
  induction rs with
  | nil => rfl
  | cons r rs ih => rw [List.map_cons, joinResults_cons, ih, joined_shift, joinResults_cons]

mutual

theorem expand_shift (c : Context) (bindings : List Binding) (k : Nat) (node : Node) :
    (node.shift k).expand c bindings = shiftResult k id (node.expand c bindings) := by
  match node with
  | .literal text => rfl
  | .placeholder reference line =>
    rw [Node.shift, Node.expand, Node.expand]
    cases c.resolve? bindings reference <;> rfl
  | .loop var collection body line =>
    rw [Node.shift]
    cases hitems : c.collection? collection with
    | none =>
      rw [expand_loop_of_none hitems, expand_loop_of_none hitems]
      rfl
    | some items =>
      rw [expand_loop hitems, expand_loop hitems, ← joinResults_shift, List.map_map]
      congr 2
      funext item
      exact expandNodes_shift c (⟨var, item⟩ :: bindings) k body

theorem expandNodes_shift (c : Context) (bindings : List Binding) (k : Nat) (nodes : List Node) :
    expandNodes c bindings (shiftNodes k nodes) = shiftResult k id (expandNodes c bindings nodes) := by
  match nodes with
  | [] => rfl
  | node :: nodes =>
    rw [shiftNodes, expandNodes_cons, expand_shift c bindings k node,
      expandNodes_shift c bindings k nodes, joined_shift, expandNodes_cons]

end

end Scaffold.Template
