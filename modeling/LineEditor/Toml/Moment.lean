import LineEditor.Toml.Number

/-!
# Moments

How days and times of day are written, and what makes them valid: a month of the year, a day of that
month, an hour of the day, a minute of the hour, and a second of the minute, with room for a leap
second. The second may be left out, and is zero then. `Moment.render` writes a moment in its one
full form.
-/

namespace LineEditor.Toml

/-- Whether a year has a leap day. -/
def isLeapYear (year : Nat) : Bool := year % 4 = 0 && (year % 100 ≠ 0 || year % 400 = 0)

/-- The number of days of a month. -/
def daysIn (year month : Nat) : Nat :=
  if month = 2 then (if isLeapYear year then 29 else 28)
  else if month = 4 ∨ month = 6 ∨ month = 9 ∨ month = 11 then 30
  else 31

/-- The number that the first characters of a text write in digits; and what follows. -/
def digits? (count : Nat) (text : List Char) : Option (Nat × List Char) :=
  let digits := text.take count
  if digits.length = count ∧ digits.all Char.isDigit then
    some (ofDigits 10 digits, text.drop count)
  else none

/-- What follows a character that a text must begin with. -/
def after? (c : Char) : List Char → Option (List Char)
  | [] => none
  | d :: rest => if c = d then some rest else none

/-- The day that a text begins with; and what follows. -/
def date? (text : List Char) : Option (Date × List Char) := do
  let (year, rest) ← digits? 4 text
  let (month, rest) ← digits? 2 (← after? '-' rest)
  let (day, rest) ← digits? 2 (← after? '-' rest)
  if 1 ≤ month ∧ month ≤ 12 ∧ 1 ≤ day ∧ day ≤ daysIn year month then
    some (⟨year, month, day⟩, rest)
  else none

/-- The digits of a fraction without the zeros at the end. -/
def trimFraction (digits : List Char) : List Char := (digits.reverse.dropWhile (· = '0')).reverse

/-- The fraction of a second that a text begins with, if it does; and what follows. Digits beyond
the ninth are dropped. -/
def secondFraction? (text : List Char) : Option (List Char × List Char) :=
  match text with
  | '.' :: rest =>
    let digits := rest.takeWhile Char.isDigit
    if digits.isEmpty then none
    else some (trimFraction (digits.take 9), rest.dropWhile Char.isDigit)
  | text => some ([], text)

/-- The time of day that a text begins with; and what follows. -/
def time? (text : List Char) : Option (Time × List Char) := do
  let (hour, rest) ← digits? 2 text
  let (minute, rest) ← digits? 2 (← after? ':' rest)
  if 23 < hour ∨ 59 < minute then none
  else
    match rest with
    | ':' :: rest =>
      let (second, rest) ← digits? 2 rest
      let (fraction, rest) ← secondFraction? rest
      if 60 < second then none else some (⟨hour, minute, second, fraction⟩, rest)
    | rest => some (⟨hour, minute, 0, []⟩, rest)

/-- The offset that a text is. -/
def offset? (text : List Char) : Option Offset :=
  match text with
  | ['Z'] | ['z'] => some .universal
  | sign :: rest => do
    let (hours, rest) ← digits? 2 rest
    let (minutes, rest) ← digits? 2 (← after? ':' rest)
    if 23 < hours ∨ 59 < minutes ∨ !rest.isEmpty then none
    else if sign = '+' then some (.minutes (hours * 60 + minutes))
    else if sign = '-' then some (.minutes (-(hours * 60 + minutes)))
    else none
  | [] => none

/-- The moment that a text is. -/
def moment? (text : List Char) : Option Moment :=
  match date? text with
  | some (date, []) => some ⟨some date, none, none⟩
  | some (date, separator :: rest) =>
    if separator = 'T' ∨ separator = 't' ∨ separator = ' ' then do
      let (time, rest) ← time? rest
      if rest.isEmpty then some ⟨some date, some time, none⟩
      else some ⟨some date, some time, some (← offset? rest)⟩
    else none
  | none =>
    match time? text with
    | some (time, []) => some ⟨none, some time, none⟩
    | _ => none

/-- A number in at least so many digits. -/
def zeroPadded (length n : Nat) : List Char :=
  let digits := Nat.toDigits 10 n
  List.replicate (length - digits.length) '0' ++ digits

/-- A day, as it is written. -/
def Date.render (d : Date) : List Char :=
  zeroPadded 4 d.year ++ '-' :: zeroPadded 2 d.month ++ '-' :: zeroPadded 2 d.day

/-- A time of day, as it is written. -/
def Time.render (t : Time) : List Char :=
  zeroPadded 2 t.hour ++ ':' :: zeroPadded 2 t.minute ++ ':' :: zeroPadded 2 t.second
    ++ (if t.fraction.isEmpty then [] else '.' :: t.fraction)

/-- An offset, as it is written. -/
def Offset.render : Offset → List Char
  | .universal => ['Z']
  | .minutes distance =>
    (if distance < 0 then '-' else '+') :: zeroPadded 2 (distance.natAbs / 60)
      ++ ':' :: zeroPadded 2 (distance.natAbs % 60)

/-- A moment, as it is written. -/
def Moment.render (m : Moment) : List Char :=
  m.date?.elim [] Date.render
    ++ (if m.date?.isSome && m.time?.isSome then ['T'] else [])
    ++ m.time?.elim [] Time.render
    ++ m.offset?.elim [] Offset.render

end LineEditor.Toml
