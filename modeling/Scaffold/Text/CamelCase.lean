/-!
The name of a variable that holds a value of a named type: `UserProfile` gives `userProfile`, and
a leading acronym is lowered as a whole, as in `urlItem` and `id`.
-/

namespace Scaffold.Text

/-- How many capitals at the start of a name are lowered: all of a leading run, except that the
last of several belongs to the next word unless the name ends there. -/
def loweredCapitals (name : List Char) : Nat :=
  let run := (name.takeWhile Char.isUpper).length
  if run ≤ 1 ∨ run = name.length then run else run - 1

def camelCase (name : List Char) : List Char :=
  let n := loweredCapitals name
  (name.take n).map Char.toLower ++ name.drop n

end Scaffold.Text
