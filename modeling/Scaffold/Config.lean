/-!
The configuration of a project: what headers and imports are filled in with, where the user's
templates are, and how dates are written.
-/

namespace Scaffold

structure Config where
  project : String
  developer : String
  company : String
  templatesDirectory : String
  dateFormat : String
  deriving DecidableEq, Repr

namespace Config

/-- The file at the root of a project that holds its configuration. -/
def fileName : String := "scenegen.toml"

def defaultTemplatesDirectory : String := "templates"

def defaultDateFormat : String := "%-m/%-d/%y"

end Config

end Scaffold
