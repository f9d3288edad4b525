/-!
How the texts of the builtin templates are given, and the header they share.
-/

namespace Scaffold.Kind.Builtin

/-- The text of some lines, each with a line end. -/
def lines (ls : List String) : String :=
  String.join (ls.map (· ++ "\n"))

/-- The header of every file. -/
def header : String :=
  lines [
    "//",
    "// {{ file_name }}",
    "// {{ project }}",
    "//",
    "// Created by {{ developer }} on {{ date }}.",
    "// Copyright © {{ year }} {{ company }}. All rights reserved.",
    "//",
    ""]

end Scaffold.Kind.Builtin
