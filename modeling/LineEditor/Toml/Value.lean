/-!
# The values of a TOML document

Texts, integers, real numbers, truth values, moments, arrays and tables. Real numbers are kept as
they are written, in decimal digits. What has the form of an integer but writes none is a value too,
of which nobody can make use. A table remembers how it was defined, which decides what may
still be added to it, and an array of tables that headers have built is told apart from an array
that was written as a value.
-/

namespace LineEditor.Toml

/-- A key of a table. -/
abbrev Key := List Char

/-- A real number as it is written. -/
inductive RealNumber where
  /-- Digits, scaled by a power of ten. -/
  | decimal (negative : Bool) (digits : Nat) (exponent : Int)
  /-- An infinity. -/
  | infinity (negative : Bool)
  /-- No number. -/
  | notANumber
  deriving DecidableEq, Repr

/-- A day of the calendar. -/
structure Date where
  /-- The year. -/
  year : Nat
  /-- The month, from one. -/
  month : Nat
  /-- The day of the month, from one. -/
  day : Nat
  deriving DecidableEq, Repr

/-- A time of day. -/
structure Time where
  /-- The hour. -/
  hour : Nat
  /-- The minute. -/
  minute : Nat
  /-- The second. -/
  second : Nat
  /-- The digits of the fraction of a second, nine at most and without zeros at the end. -/
  fraction : List Char
  deriving DecidableEq, Repr

/-- The distance of a local time from universal time. -/
inductive Offset where
  /-- None: the time is universal time. -/
  | universal
  /-- So many minutes. -/
  | minutes (distance : Int)
  deriving DecidableEq, Repr

/-- A day, a time of day, or both, then perhaps with an offset. -/
structure Moment where
  /-- The day. -/
  date? : Option Date
  /-- The time. -/
  time? : Option Time
  /-- The offset. -/
  offset? : Option Offset
  deriving DecidableEq, Repr

/-- How a table was defined. -/
inductive TableKind where
  /-- By a header of its own. -/
  | header
  /-- As part of the path of a header. -/
  | implied
  /-- As part of a dotted key. -/
  | dotted
  /-- As a value in braces. -/
  | inlined
  deriving DecidableEq, Repr

/-- A value. -/
inductive Value where
  /-- A text. -/
  | text (s : List Char)
  /-- An integer. -/
  | integer (n : Int)
  /-- What has the form of an integer but writes none. -/
  | noInteger
  /-- A real number. -/
  | real (x : RealNumber)
  /-- A truth value. -/
  | boolean (b : Bool)
  /-- A moment. -/
  | moment (m : Moment)
  /-- An array. -/
  | array (items : List Value)
  /-- A table. -/
  | table (kind : TableKind) (entries : List (Key × Value))
  /-- An array of tables, one for each of its headers. -/
  | tables (items : List (List (Key × Value)))
  deriving Inhabited

/-- The entries of a table. -/
abbrev Entries := List (Key × Value)

end LineEditor.Toml
