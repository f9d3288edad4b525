import Scaffold.Date.Calendar
import Scaffold.Toml.Number

/-!
Dates: a day, a time of day, or both, and with both the distance from UTC. A date is read into its
normal spelling, with a capital T between day and time, a capital Z for UTC, and a fraction of a
second that has at most nine digits and does not end in zero.
-/

namespace Scaffold.Toml

/-- The value of two digits within bounds. -/
def twoDigits? (low high : Nat) (tens ones : Char) : Option Nat :=
  let n := valueOfDigits 10 [tens, ones]
  if tens.isDigit && ones.isDigit && low ≤ n && n ≤ high then some n else none

/-- The day at the start of a text, and what follows it. -/
def splitDay? : List Char → Option (List Char × List Char)
  | y1 :: y2 :: y3 :: y4 :: '-' :: m1 :: m2 :: '-' :: d1 :: d2 :: cs => do
    let year := [y1, y2, y3, y4]
    let month ← twoDigits? 1 12 m1 m2
    let _ ← twoDigits? 1 (Date.daysInMonth (valueOfDigits 10 year) month) d1 d2
    if year.all Char.isDigit then some (year ++ ['-', m1, m2, '-', d1, d2], cs) else none
  | _ => none

/-- A fraction of a second in its normal spelling. -/
def normalFraction (digits : List Char) : List Char :=
  match ((digits.take 9).reverse.dropWhile (· = '0')).reverse with
  | [] => []
  | digits => '.' :: digits

/-- The time of day at the start of a text in its normal spelling, and what follows it. -/
def splitTime? : List Char → Option (List Char × List Char)
  | h1 :: h2 :: ':' :: m1 :: m2 :: ':' :: s1 :: s2 :: cs => do
    let _ ← twoDigits? 0 23 h1 h2
    let _ ← twoDigits? 0 59 m1 m2
    let _ ← twoDigits? 0 60 s1 s2
    let clock := [h1, h2, ':', m1, m2, ':', s1, s2]
    match cs with
    | '.' :: rest =>
      let fraction := rest.takeWhile Char.isDigit
      if fraction.isEmpty then none
      else some (clock ++ normalFraction fraction, rest.dropWhile Char.isDigit)
    | cs => some (clock, cs)
  | _ => none

/-- A distance from UTC in its normal spelling. There need not be one, and nought has no minus. -/
def offset? : List Char → Option (List Char)
  | [] => some []
  | [c] => if c = 'Z' || c = 'z' then some ['Z'] else none
  | [sign, h1, h2, ':', m1, m2] => do
    let hours ← twoDigits? 0 23 h1 h2
    let minutes ← twoDigits? 0 59 m1 m2
    let sign ← if sign = '+' || (sign = '-' && hours = 0 && minutes = 0) then some '+'
      else if sign = '-' then some '-'
      else none
    some [sign, h1, h2, ':', m1, m2]
  | _ => none

/-- The normal spelling of a date. -/
def date? (cs : List Char) : Option (List Char) :=
  match splitDay? cs with
  | some (day, []) => some day
  | some (day, separator :: rest) =>
    if separator = 'T' || separator = 't' || separator = ' ' then do
      let (time, rest) ← splitTime? rest
      some (day ++ 'T' :: time ++ (← offset? rest))
    else none
  | none =>
    match splitTime? cs with
    | some (time, []) => some time
    | _ => none

end Scaffold.Toml
