import Scaffold.Assoc
import Scaffold.Text.Search

/-!
The data a template is expanded with: the name of the scene, its properties in order, and further
variables. The fields of a property that concern its outlet are derived from its name.
-/

namespace Scaffold.Template

open Text

/-- A property of a scene, with its type if one was declared. -/
structure Property where
  name : String
  type? : Option String
  deriving DecidableEq, Repr

namespace Property

/-- A property is shown as an image if its name mentions an image or a URL, in any case. Of the
characters outside ASCII none has a lower-case form that these words could be made of, so the
ASCII case map decides. -/
def showsImage (p : Property) : Bool :=
  let name := p.name.toList.map Char.toLower
  hasInfix "image".toList name || hasInfix "url".toList name

/-- The property `id` identifies a value and is never displayed. -/
def isDisplayed (p : Property) : Bool :=
  p.name ≠ "id"

/-- The field `f` of a property, as in the placeholder `p.f`. -/
def field? (p : Property) : String → Option String
  | "name" => some p.name
  | "type" => p.type?
  | "outlet" => some (if p.showsImage then "ImageView" else "Label")
  | "outlet_type" => some (if p.showsImage then "UIImageView" else "UILabel")
  | "reset" => some (if p.showsImage then "image = nil" else "text = \"\"")
  | _ => none

end Property

structure Context where
  name : String
  properties : List Property
  bindings : List (String × String)
  deriving DecidableEq, Repr

namespace Context

/-- A context that binds nothing, with an empty name. -/
def empty : Context := ⟨"", [], []⟩

def bind (c : Context) (key value : String) : Context :=
  { c with bindings := Assoc.insert key value c.bindings }

/-- The value of a global name. `name` is always the name of the scene. -/
def scalar? (c : Context) (key : String) : Option String :=
  if key = "name" then some c.name else Assoc.find? key c.bindings

/-- The collection that a loop goes through. -/
def collection? (c : Context) : String → Option (List Property)
  | "properties" => some c.properties
  | "display_properties" => some (c.properties.filter Property.isDisplayed)
  | _ => none

end Context

end Scaffold.Template
