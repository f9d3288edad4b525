import Scaffold.Template.Context
import Scaffold.Template.Node

/-!
Expansion of a template in a context. A loop variable hides outer loop variables and global names
that are spelled the same, and only its fields can be asked for. The first name that nothing binds
ends the expansion; there is no partial output.
-/

namespace Scaffold.Template

/-- A loop variable and the property it stands for. -/
structure Binding where
  var : String
  property : Property
  deriving DecidableEq, Repr

/-- The value of a reference under some loops, the innermost first. -/
def Context.resolve? (c : Context) (bindings : List Binding) (r : Reference) : Option String :=
  match bindings.find? (·.var = r.head), r.fields with
  | some b, [field] => b.property.field? field
  | some _, _ => none
  | none, [] => c.scalar? r.head
  | none, _ :: _ => none

/-- The texts of some results, one after the other, or the first error among them. -/
def joinResults : List (Except Error String) → Except Error String
  | [] => .ok ""
  | r :: rs => do
    let first ← r
    let rest ← joinResults rs
    return first ++ rest

mutual

def Node.expand (c : Context) (bindings : List Binding) : Node → Except Error String
  | .literal text => .ok text
  | .placeholder reference line =>
    match c.resolve? bindings reference with
    | some value => .ok value
    | none => .error (.unbound reference.text line)
  | .loop var collection body line =>
    match c.collection? collection with
    | none => .error (.unbound collection line)
    | some items =>
      joinResults (items.map fun item => expandNodes c (⟨var, item⟩ :: bindings) body)

/-- Expands nodes one after the other and joins the results. -/
def expandNodes (c : Context) (bindings : List Binding) : List Node → Except Error String
  | [] => .ok ""
  | node :: nodes => do
    let first ← node.expand c bindings
    let rest ← expandNodes c bindings nodes
    return first ++ rest

end

end Scaffold.Template

namespace Scaffold

def Template.expand (t : Template) (c : Template.Context) : Except Template.Error String :=
  Template.expandNodes c [] t.nodes

/-- Reads a template and expands it. -/
def expand (text : String) (c : Template.Context) : Except Template.Error String := do
  (← Template.parse text).expand c

end Scaffold
