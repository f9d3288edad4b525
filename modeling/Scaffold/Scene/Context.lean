import Scaffold.Date.Format
import Scaffold.Error
import Scaffold.Swift.Model
import Scaffold.Template.Context

/-!
The context in which the templates of a scene are expanded.
-/

namespace Scaffold.Scene

/-- Binds what the configuration and the time say, next to the name and the properties. -/
def context (name : String) (properties : List Template.Property) (config : Config)
    (now : Date.LocalTime) : Except Error Template.Context := do
  let date ← match now.format? config.dateFormat with
    | some date => .ok date
    | none => .error .dateFormatInvalid
  let named : Template.Context := ⟨name, properties, []⟩
  return ((((named.bind "project" config.project).bind "developer" config.developer).bind
    "company" config.company).bind "date" date).bind "year" (toString now.year)

/-- Binds the model that a scene is built around. -/
def bindModel (c : Template.Context) (m : Swift.Model) : Template.Context :=
  (c.bind "model_name" m.name).bind "model_variable" m.variableName

end Scaffold.Scene
