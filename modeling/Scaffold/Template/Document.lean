import Scaffold.Template.Context
import Scaffold.Toml.Document

/-!
A context as a TOML document: a name, an array of properties, and a table of variables. Each may be
missing.
-/

namespace Scaffold.Template

/-- A property is a record of a name and a type, which need not be there. -/
def Property.ofValue? (v : Toml.Value) : Option Property := do
  let fields ← v.fields? ["name", "type"]
  let name ← Toml.text? "name" fields
  match Assoc.find? "type" fields with
  | none => some ⟨name, none⟩
  | some type => some ⟨name, some (← type.text?)⟩

def Property.listOfValue? : Toml.Value → Option (List Property)
  | .array items => items.mapM ofValue?
  | _ => none

namespace Context

def ofFields? (fields : List (String × Toml.Value)) : Option Context := do
  let name ← Toml.textOr? "" "name" fields
  let properties ← match Assoc.find? "properties" fields with
    | some v => Property.listOfValue? v
    | none => some []
  let bindings ← match Assoc.find? "vars" fields with
    | some v => (← v.entries?).mapM fun (key, value) => value.text?.map (key, ·)
    | none => some []
  some ⟨name, properties, bindings⟩

/-- The context that a document holds. -/
def parse? (text : String) : Option Context := do
  let document ← Toml.parse? text
  ofFields? (← document.fields? ["name", "properties", "vars"])

end Context

end Scaffold.Template
