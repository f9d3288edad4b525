import Scaffold.Config
import Scaffold.Toml.Document
import Scaffold.Toml.Quoting

/-!
The configuration as a TOML document: the tables `project`, `author` and `templates`, of which the
last and each of its entries may be missing.
-/

namespace Scaffold.Config

def ofFields? (fields : List (String × Toml.Value)) : Option Config := do
  let project ← (← Assoc.find? "project" fields).fields? ["name"]
  let author ← (← Assoc.find? "author" fields).fields? ["developer", "company"]
  let templates ← match Assoc.find? "templates" fields with
    | some v => v.fields? ["dir", "date_format"]
    | none => some []
  some {
    project := ← Toml.text? "name" project
    developer := ← Toml.text? "developer" author
    company := ← Toml.text? "company" author
    templatesDirectory := ← Toml.textOr? defaultTemplatesDirectory "dir" templates
    dateFormat := ← Toml.textOr? defaultDateFormat "date_format" templates }

/-- The configuration that a document holds. -/
def parse? (text : String) : Option Config := do
  let document ← Toml.parse? text
  ofFields? (← document.fields? ["project", "author", "templates"])

/-- One line of the document, with the text in quotes. -/
def line (key value : String) : List Char :=
  key.toList ++ " = ".toList ++ Toml.quote value.toList ++ ['\n']

/-- The document that holds a configuration. -/
def document (c : Config) : String :=
  String.ofList
    ("[project]\n".toList ++ line "name" c.project ++
      "\n[author]\n".toList ++ line "developer" c.developer ++ line "company" c.company ++
      "\n[templates]\n".toList ++ line "dir" c.templatesDirectory ++
        line "date_format" c.dateFormat)

end Scaffold.Config
