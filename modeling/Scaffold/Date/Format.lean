import Scaffold.Date.Calendar
import Scaffold.Text.Search

/-!
Date formats: text in which a percent sign and a letter stand for a part of a local time, with an
optional flag that chooses how a number is filled up to its width. A format is read as a whole
before anything is written, so a bad specifier anywhere makes the whole format bad.
-/

namespace Scaffold.Date

/-- What a number is filled up with on the left, if at all. -/
inductive Padding where
  | bare
  | zero
  | space
  deriving DecidableEq, Repr

/-- The parts of a time that are written as numbers. -/
inductive Field where
  | year
  | century
  | yearOfCentury
  | isoYear
  | isoYearOfCentury
  | quarter
  | month
  | day
  | dayOfYear
  | weekFromSunday
  | weekFromMonday
  | isoWeek
  | daysFromSunday
  | weekday
  | hour
  | hour12
  | minute
  | second
  | nanosecond
  | timestamp
  deriving DecidableEq, Repr

/-- How the distance from UTC is written. -/
inductive OffsetStyle where
  | plain
  | minutes
  | seconds
  | hours
  | name
  deriving DecidableEq, Repr

inductive Item where
  | char (c : Char)
  | number (field : Field) (padding : Padding)
  | shortMonth
  | longMonth
  | shortWeekday
  | longWeekday
  | lowerHalf
  | upperHalf
  /-- The fraction of the second after a point, in groups of three digits; nothing for none. -/
  | fraction
  /-- That many digits of the fraction, after a point if `point`. -/
  | digits (point : Bool) (count : Nat)
  | offset (style : OffsetStyle)
  /-- Date, time and offset as in RFC 3339. -/
  | internetTimestamp
  deriving DecidableEq, Repr

abbrev Format := List Item

/-- A number filled with zeros. -/
def Item.zero (field : Field) : Item := .number field .zero

/-- A number filled with blanks. -/
def Item.blank (field : Field) : Item := .number field .space

/-- Hours, minutes and seconds with colons. -/
def Format.clock : Format :=
  [.zero .hour, .char ':', .zero .minute, .char ':', .zero .second]

/-- What may stand after a percent sign and its flag, and the items it stands for. No spelling
begins another one. -/
def Format.specifiers : List (String × Format) :=
  [("A", [.longWeekday]),
    ("B", [.longMonth]),
    ("C", [.zero .century]),
    ("D", [.zero .month, .char '/', .zero .day, .char '/', .zero .yearOfCentury]),
    ("F", [.zero .year, .char '-', .zero .month, .char '-', .zero .day]),
    ("G", [.zero .isoYear]),
    ("H", [.zero .hour]),
    ("I", [.zero .hour12]),
    ("M", [.zero .minute]),
    ("P", [.lowerHalf]),
    ("R", [.zero .hour, .char ':', .zero .minute]),
    ("S", [.zero .second]),
    ("T", clock),
    ("U", [.zero .weekFromSunday]),
    ("V", [.zero .isoWeek]),
    ("W", [.zero .weekFromMonday]),
    ("X", clock),
    ("Y", [.zero .year]),
    ("Z", [.offset .name]),
    ("a", [.shortWeekday]),
    ("b", [.shortMonth]),
    ("c", [.shortWeekday, .char ' ', .shortMonth, .char ' ', .blank .day, .char ' '] ++ clock ++
      [.char ' ', .zero .year]),
    ("d", [.zero .day]),
    ("e", [.blank .day]),
    ("f", [.zero .nanosecond]),
    ("g", [.zero .isoYearOfCentury]),
    ("h", [.shortMonth]),
    ("j", [.zero .dayOfYear]),
    ("k", [.blank .hour]),
    ("l", [.blank .hour12]),
    ("m", [.zero .month]),
    ("n", [.char '\n']),
    ("p", [.upperHalf]),
    ("q", [.number .quarter .bare]),
    ("r", [.zero .hour12, .char ':', .zero .minute, .char ':', .zero .second, .char ' ',
      .upperHalf]),
    ("s", [.number .timestamp .bare]),
    ("t", [.char '\t']),
    ("u", [.number .weekday .bare]),
    ("v", [.blank .day, .char '-', .shortMonth, .char '-', .zero .year]),
    ("w", [.number .daysFromSunday .bare]),
    ("x", [.zero .month, .char '/', .zero .day, .char '/', .zero .yearOfCentury]),
    ("y", [.zero .yearOfCentury]),
    ("z", [.offset .plain]),
    ("+", [.internetTimestamp]),
    ("%", [.char '%']),
    (":z", [.offset .minutes]),
    ("::z", [.offset .seconds]),
    (":::z", [.offset .hours]),
    (".f", [.fraction]),
    (".3f", [.digits true 3]),
    (".6f", [.digits true 6]),
    (".9f", [.digits true 9]),
    ("3f", [.digits false 3]),
    ("6f", [.digits false 6]),
    ("9f", [.digits false 9])]

/-- The items that stand after a percent sign and its flag, and the text after them. -/
def Format.specifier? (cs : List Char) : Option (Format × List Char) :=
  specifiers.findSome? fun (spelling, items) => (Text.after? spelling.toList cs).map (items, ·)

def Padding.ofFlag? : Char → Option Padding
  | '-' => some .bare
  | '0' => some .zero
  | '_' => some .space
  | _ => none

/-- The items that stand after a percent sign, and the text after them. A flag may stand only
before a single number. -/
def Format.flagged? : List Char → Option (Format × List Char)
  | [] => none
  | c :: cs =>
    match Padding.ofFlag? c with
    | none => specifier? (c :: cs)
    | some padding =>
      match specifier? cs with
      | some ([.number field _], rest) => some ([.number field padding], rest)
      | _ => none

theorem Format.spelling_ne_empty : ∀ entry ∈ specifiers, entry.1.toList ≠ [] := by
  decide

theorem Format.length_of_specifier? {cs rest : List Char} {items : Format}
    (h : specifier? cs = some (items, rest)) : rest.length < cs.length := by
  obtain ⟨⟨spelling, found⟩, hmem, hfound⟩ := List.exists_of_findSome?_eq_some h
  obtain ⟨rest', hrest, heq⟩ := Option.map_eq_some_iff.1 hfound
  cases heq
  rw [Text.after?_eq_some_iff.1 hrest, List.length_append]
  have : 0 < spelling.toList.length := List.length_pos_iff.2 (spelling_ne_empty _ hmem)
  omega

theorem Format.length_of_flagged? {cs rest : List Char} {items : Format}
    (h : flagged? cs = some (items, rest)) : rest.length < cs.length := by
  unfold flagged? at h
  split at h
  · cases h
  · split at h
    · exact length_of_specifier? h
    · split at h
      · next hs =>
        cases h
        exact Nat.lt_succ_of_lt (length_of_specifier? hs)
      · cases h

/-- Reads a format. There is none if a percent sign starts no specifier. -/
def Format.parse? (cs : List Char) : Option Format :=
  match cs with
  | [] => some []
  | c :: cs =>
    if c = '%' then
      match _hread : flagged? cs with
      | none => none
      | some (items, rest) => (parse? rest).map (items ++ ·)
    else (parse? cs).map (.char c :: ·)
termination_by cs.length
decreasing_by
  · exact Nat.lt_succ_of_lt (length_of_flagged? _hread)
  · simp

/-! ### Writing a time -/

def monthNames : List String :=
  ["January", "February", "March", "April", "May", "June", "July", "August", "September",
    "October", "November", "December"]

/-- The names of the days from Monday on. -/
def weekdayNames : List String :=
  ["Monday", "Tuesday", "Wednesday", "Thursday", "Friday", "Saturday", "Sunday"]

def LocalTime.monthName (t : LocalTime) : String :=
  monthNames.getD (t.month - 1) ""

def LocalTime.weekdayName (t : LocalTime) : String :=
  weekdayNames.getD t.daysFromMonday ""

/-- A number with its sign, filled up to a width. Zeros stand after the sign, blanks before it. -/
def fill (padding : Padding) (width : Nat) (sign digits : String) : String :=
  let missing := width - sign.length - digits.length
  match padding with
  | .bare => sign ++ digits
  | .zero => sign ++ String.ofList (List.replicate missing '0') ++ digits
  | .space => String.ofList (List.replicate missing ' ') ++ sign ++ digits

/-- A number filled up with zeros. -/
def zeros (width : Nat) (n : Nat) : String :=
  fill .zero width "" (toString n)

/-- A number of any size, with a sign if it is negative. -/
def integer (padding : Padding) (width : Nat) (n : Int) : String :=
  fill padding width (if n < 0 then "-" else "") (toString n.natAbs)

/-- A year has four digits at least; a year of more, or before the year 0, has a sign. -/
def yearText (padding : Padding) (year : Int) : String :=
  if 0 ≤ year ∧ year < 10000 then integer padding 4 year
  else fill padding 5 (if year < 0 then "-" else "+") (toString year.natAbs)

/-- A number of two places. It is held in a byte, and from 100 on its tens are written with the
characters that follow `9`. -/
def twoPlaces (padding : Padding) (n : Int) : String :=
  let byte := (n % 256).toNat
  let ones := String.singleton (Char.ofNat (48 + byte % 10))
  match padding, byte / 10 with
  | .bare, 0 => ones
  | .space, 0 => " " ++ ones
  | _, tens => String.singleton (Char.ofNat (48 + tens)) ++ ones

def Field.write (t : LocalTime) (padding : Padding) : Field → String
  | .year => yearText padding t.year
  | .century => twoPlaces padding (t.year / 100)
  | .yearOfCentury => twoPlaces padding (t.year % 100)
  | .isoYear => yearText padding t.isoWeek.1
  | .isoYearOfCentury => twoPlaces padding (t.isoWeek.1 % 100)
  | .quarter => toString ((t.month - 1) / 3 + 1)
  | .month => twoPlaces padding t.month
  | .day => twoPlaces padding t.day
  | .dayOfYear => integer padding 3 t.dayOfYear
  | .weekFromSunday => twoPlaces padding t.weekFromSunday
  | .weekFromMonday => twoPlaces padding t.weekFromMonday
  | .isoWeek => twoPlaces padding t.isoWeek.2
  | .daysFromSunday => toString t.daysFromSunday
  | .weekday => toString (t.daysFromMonday + 1)
  | .hour => twoPlaces padding t.hour
  | .hour12 => twoPlaces padding t.hour12
  | .minute => twoPlaces padding t.minute
  | .second => twoPlaces padding t.clockSecond
  | .nanosecond => integer padding 9 t.clockNanosecond
  | .timestamp => integer padding 9 t.timestamp

/-- The first three, six or nine digits of the fraction of the second. -/
def fractionDigits (t : LocalTime) (count : Nat) : String :=
  zeros count (t.clockNanosecond / Nat.pow 10 (9 - count))

/-- A point and as many groups of three digits as the fraction needs. -/
def fractionText (t : LocalTime) : String :=
  let n := t.clockNanosecond
  if n = 0 then ""
  else if n % 1000000 = 0 then "." ++ fractionDigits t 3
  else if n % 1000 = 0 then "." ++ fractionDigits t 6
  else "." ++ fractionDigits t 9

/-- Minutes are rounded where they come last, hours are cut. The name of a zone is its offset, with
seconds if there are any. -/
def OffsetStyle.write (offset : Int) (style : OffsetStyle) : String :=
  let sign := if offset < 0 then "-" else "+"
  let n := offset.natAbs
  let rounded := (n + 30) / 60
  match style with
  | .plain => sign ++ zeros 2 (rounded / 60) ++ zeros 2 (rounded % 60)
  | .minutes => sign ++ zeros 2 (rounded / 60) ++ ":" ++ zeros 2 (rounded % 60)
  | .seconds =>
    sign ++ zeros 2 (n / 3600) ++ ":" ++ zeros 2 (n / 60 % 60) ++ ":" ++ zeros 2 (n % 60)
  | .hours => sign ++ zeros 2 (n / 3600)
  | .name =>
    sign ++ zeros 2 (n / 3600) ++ ":" ++ zeros 2 (n / 60 % 60) ++
      if n % 60 = 0 then "" else ":" ++ zeros 2 (n % 60)

def Item.write (t : LocalTime) : Item → String
  | .char c => String.singleton c
  | .number field padding => field.write t padding
  | .shortMonth => (t.monthName.take 3).toString
  | .longMonth => t.monthName
  | .shortWeekday => (t.weekdayName.take 3).toString
  | .longWeekday => t.weekdayName
  | .lowerHalf => if t.hour < 12 then "am" else "pm"
  | .upperHalf => if t.hour < 12 then "AM" else "PM"
  | .fraction => fractionText t
  | .digits point count => (if point then "." else "") ++ fractionDigits t count
  | .offset style => style.write t.offset
  | .internetTimestamp =>
    yearText .zero t.year ++ "-" ++ zeros 2 t.month ++ "-" ++ zeros 2 t.day ++ "T" ++
      zeros 2 t.hour ++ ":" ++ zeros 2 t.minute ++ ":" ++ zeros 2 t.clockSecond ++
      fractionText t ++ OffsetStyle.minutes.write t.offset

/-- A time in a format. There is no text if the format is bad. -/
def LocalTime.format? (t : LocalTime) (format : String) : Option String :=
  (Format.parse? format.toList).map fun items => String.join (items.map (Item.write t))

end Scaffold.Date
