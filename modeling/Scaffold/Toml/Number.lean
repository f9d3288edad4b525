import Scaffold.Text.Blank

/-!
Numbers. Digits may be grouped by single underscores. An integer has to fit into 64 bits, and a
float must not be so large that it rounds to positive infinity.
-/

namespace Scaffold.Toml

open Text

def isHexDigit (c : Char) : Bool :=
  c.isDigit || ('a' ≤ c && c ≤ 'f') || ('A' ≤ c && c ≤ 'F')

/-- The digits of a number without the underscores, each of which has to stand between two. -/
def digits? (isDigit : Char → Bool) (cs : List Char) : Option (List Char) :=
  let groups := splitWhere (· = '_') cs
  if groups.all fun group => !group.isEmpty && group.all isDigit then some groups.flatten else none

/-- The digits of a decimal number that has no superfluous zero in front. -/
def wholeDigits? (cs : List Char) : Option (List Char) := do
  let digits ← digits? Char.isDigit cs
  if digits.head? = some '0' && digits.length ≠ 1 then none else some digits

def digitValue (c : Char) : Nat :=
  if c.isDigit then c.toNat - '0'.toNat
  else if 'a' ≤ c then c.toNat - 'a'.toNat + 10
  else c.toNat - 'A'.toNat + 10

def valueOfDigits (radix : Nat) (digits : List Char) : Nat :=
  digits.foldl (fun n c => radix * n + digitValue c) 0

/-- Whether a number is negative, and its text without the sign. -/
def splitSign : List Char → Bool × List Char
  | '-' :: cs => (true, cs)
  | '+' :: cs => (false, cs)
  | cs => (false, cs)

def signed (negative : Bool) (n : Nat) : Int :=
  if negative then -n else n

/-- The value of a decimal number with an optional sign, of any size. -/
def decimal? (cs : List Char) : Option Int :=
  let (negative, body) := splitSign cs
  (wholeDigits? body).map fun digits => signed negative (valueOfDigits 10 digits)

/-- The least natural number that does not fit into 64 bits with a sign. -/
def integerBound : Int := 0x8000000000000000

/-- The value of an integer: a decimal number, or a number without a sign after its radix. -/
def integer? (cs : List Char) : Option Int := do
  let n ← match cs with
    | '0' :: 'x' :: cs => (digits? isHexDigit cs).map fun ds => (valueOfDigits 16 ds : Int)
    | '0' :: 'o' :: cs =>
      (digits? (fun c => '0' ≤ c && c ≤ '7') cs).map fun ds => (valueOfDigits 8 ds : Int)
    | '0' :: 'b' :: cs =>
      (digits? (fun c => c = '0' || c = '1') cs).map fun ds => (valueOfDigits 2 ds : Int)
    | cs => decimal? cs
  if -integerBound ≤ n ∧ n < integerBound then some n else none

/-- The least number that rounds to infinity as a double: half a unit in the last place more than
the largest finite one. -/
def infinityBound : Nat := Nat.pow 2 1024 - Nat.pow 2 970

/-- Whether the number with these decimal digits, scaled by a power of ten, rounds to infinity.
Numbers below 10 ^ 308 do not, numbers from 10 ^ 309 on do, and those between are compared. -/
def roundsToInfinity (digits : List Char) (scale : Int) : Bool :=
  let digits := digits.dropWhile (· = '0')
  let n := valueOfDigits 10 digits
  let magnitude := digits.length + scale
  if digits.isEmpty || magnitude < 309 then false
  else if magnitude > 309 then true
  else if 0 ≤ scale then infinityBound ≤ n * Nat.pow 10 scale.toNat
  else infinityBound * Nat.pow 10 (-scale).toNat ≤ n

/-- The exponent of a float, which need not be there. -/
def exponent? : List Char → Option Int
  | [] => some 0
  | c :: cs =>
    if c = 'e' || c = 'E' then
      let (negative, body) := splitSign cs
      (digits? Char.isDigit body).map fun digits => signed negative (valueOfDigits 10 digits)
    else none

/-- Whether text is a float. It has a fraction or an exponent, or is infinite or not a number. -/
def isFloat (cs : List Char) : Bool :=
  let (negative, body) := splitSign cs
  let isWhole := fun c : Char => c.isDigit || c = '_'
  if body = "inf".toList || body = "nan".toList then true
  else
    let finite : Option (List Char × Int) := do
      let whole ← wholeDigits? (body.takeWhile isWhole)
      match body.dropWhile isWhole with
      | [] => none
      | '.' :: rest =>
        let fraction ← digits? Char.isDigit (rest.takeWhile isWhole)
        let exponent ← exponent? (rest.dropWhile isWhole)
        some (whole ++ fraction, exponent - fraction.length)
      | rest => some (whole, ← exponent? rest)
    match finite with
    | none => false
    | some (digits, scale) => negative || !roundsToInfinity digits scale

end Scaffold.Toml
