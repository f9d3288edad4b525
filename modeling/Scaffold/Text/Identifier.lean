/-!
Identifiers: a letter or an underscore, then letters, digits and underscores, all of them ASCII.
Template tags use the yes-or-no form; names given by a user are refused with the rule they break.
-/

namespace Scaffold.Text

/-- The ASCII letters and the underscore. -/
def isIdentifierStart (c : Char) : Bool :=
  c.isAlpha || c = '_'

/-- The ASCII letters and digits and the underscore. -/
def isIdentifierPart (c : Char) : Bool :=
  c.isAlphanum || c = '_'

def isIdentifier : List Char → Bool
  | [] => false
  | c :: cs => isIdentifierStart c && cs.all isIdentifierPart

/-- The rules a name can break, in the order in which they are checked. -/
inductive IdentifierFault where
  | empty
  | start
  | part
  deriving DecidableEq, Repr

def IdentifierFault.message : IdentifierFault → String
  | .empty => "name cannot be empty"
  | .start => "must start with an ASCII letter or '_'"
  | .part => "may only contain ASCII letters, digits and '_'"

/-- The first rule that a name breaks. -/
def identifierFault? : List Char → Option IdentifierFault
  | [] => some .empty
  | c :: cs =>
    if !isIdentifierStart c then some .start
    else if !cs.all isIdentifierPart then some .part
    else none

theorem identifierFault?_eq_none_iff (cs : List Char) :
    identifierFault? cs = none ↔ isIdentifier cs = true := by
  cases cs with
  | nil => simp [identifierFault?, isIdentifier]
  | cons c cs =>
    simp only [identifierFault?, isIdentifier, Bool.and_eq_true]
    split
    · simp_all
    · split <;> simp_all

end Scaffold.Text
