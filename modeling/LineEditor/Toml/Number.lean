import LineEditor.Toml.Value

/-!
# Numbers

How integers and real numbers are written. Digits may be grouped by underscores, each of which
stands between two digits; only the first may follow a sign instead. A sign is allowed before a
decimal number only, and a decimal number that begins with a zero has no other digits before its
point or exponent. A real number has a fraction, an exponent or both, each with a digit at least.

The form of an integer is wider than what integers are (`isInteger`): after the first underscore,
only the characters next to underscores must be digits, and those may be hexadecimal; and after the
mark of a base no digit need follow. Such a form may write no integer at all (`integer?`).

`RealNumber.fits` tells whether a real number lies within the range of double precision, that is,
whether rounding it to the nearest gives a finite number.
-/

namespace LineEditor.Toml

/-! ### Digits -/

/-- A hexadecimal digit. -/
def isHexDigit (c : Char) : Bool :=
  c.isDigit || ('a' ≤ c && c ≤ 'f') || ('A' ≤ c && c ≤ 'F')

/-- The value of a digit, in any base up to sixteen. -/
def digitValue (c : Char) : Nat :=
  if c.isDigit then c.toNat - '0'.toNat else (c.toNat ||| 0x20) - 'a'.toNat + 10

/-- A digit of a base up to sixteen. -/
def isDigitIn (base : Nat) (c : Char) : Bool := isHexDigit c && digitValue c < base

/-- The number that digits write in a base. -/
def ofDigits (base : Nat) (digits : List Char) : Nat :=
  digits.foldl (fun n c => n * base + digitValue c) 0

/-- Whether every underscore of a text stands between two digits. The flag tells whether a digit, or
what may take its place, comes before the text. -/
def isGrouped (isDigit : Char → Bool) : Bool → List Char → Bool
  | _, [] => true
  | before, '_' :: c :: rest => before && isDigit c && isGrouped isDigit true rest
  | _, ['_'] => false
  | _, c :: rest => isGrouped isDigit (isDigit c) rest

/-- A text without its underscores. -/
def ungrouped (text : List Char) : List Char := text.filter (· ≠ '_')

/-- The digits of a text that holds one at least, and otherwise only underscores. -/
def digitsIn? (base : Nat) (text : List Char) : Option (List Char) :=
  let digits := ungrouped text
  if !digits.isEmpty && digits.all (isDigitIn base) then some digits else none

/-- The number that a text writes in digits and underscores. -/
def natural? (base : Nat) (text : List Char) : Option Nat :=
  (digitsIn? base text).map (ofDigits base)

/-- The sign that a text begins with, if it does; and what follows. -/
def signOf : List Char → Option Char × List Char
  | '-' :: rest => (some '-', rest)
  | '+' :: rest => (some '+', rest)
  | text => (none, text)

/-- An integer of a given magnitude. -/
def signed (sign? : Option Char) (n : Nat) : Int := if sign? = some '-' then -(n : Int) else n

/-- Whether a decimal number begins with a zero that other characters follow. -/
def leadsWithZero (text : List Char) : Bool := text.head? = some '0' && text.length ≠ 1

/-! ### Integers -/

/-- The base that a text is marked with, if it is; and what follows the mark. -/
def base? : List Char → Option (Nat × List Char)
  | '0' :: 'x' :: rest => some (16, rest)
  | '0' :: 'o' :: rest => some (8, rest)
  | '0' :: 'b' :: rest => some (2, rest)
  | _ => none

/-- A mark of the fraction or of the exponent of a real number. -/
def isRealMark (c : Char) : Bool := c = '.' || c = 'e' || c = 'E'

/-- Whether a text has the form of an integer. -/
def isInteger (text : List Char) : Bool :=
  match base? text with
  | some (base, digits) =>
    (ungrouped digits).all (isDigitIn base) && isGrouped isHexDigit false digits
  | none =>
    let (sign?, body) := signOf text
    let rest := body.dropWhile Char.isDigit
    !body.isEmpty && !leadsWithZero body
      && (rest.isEmpty || (rest.head? = some '_' && !rest.any isRealMark))
      && isGrouped isHexDigit sign?.isSome body

/-- The integer that a text in the form of one writes, if it does. -/
def integer? (text : List Char) : Option Int :=
  match base? text with
  | some (base, digits) => (natural? base digits).map Int.ofNat
  | none =>
    let (sign?, body) := signOf text
    (natural? 10 body).map (signed sign?)

/-! ### Real numbers -/

/-- A character of a group of decimal digits. -/
def isGroupChar (c : Char) : Bool := c.isDigit || c = '_'

/-- The fraction that a text begins with, if it does; and what follows. -/
def fraction? (text : List Char) : Option (List Char × List Char) :=
  match text with
  | '.' :: rest =>
    (digitsIn? 10 (rest.takeWhile isGroupChar)).map (·, rest.dropWhile isGroupChar)
  | text => some ([], text)

/-- The exponent that a text is, if it is not empty. -/
def exponent? (text : List Char) : Option Int :=
  match text with
  | [] => some 0
  | c :: rest =>
    if c = 'e' || c = 'E' then
      let (sign?, digits) := signOf rest
      (natural? 10 digits).map (signed sign?)
    else none

/-- The real number that a text writes. -/
def real? (text : List Char) : Option RealNumber :=
  let (sign?, body) := signOf text
  let negative := sign? = some '-'
  if body = "inf".toList then some (.infinity negative)
  else if body = "nan".toList then some .notANumber
  else do
    let first := body.takeWhile isGroupChar
    let after := body.dropWhile isGroupChar
    let whole ← digitsIn? 10 first
    let (fraction, last) ← fraction? after
    let exponent ← exponent? last
    if after.isEmpty || leadsWithZero first || !isGrouped Char.isDigit sign?.isSome body then none
    else
      some (.decimal negative (ofDigits 10 (whole ++ fraction)) (exponent - fraction.length))

/-! ### Sizes -/

/-- The least magnitude that rounds to infinity in double precision. -/
def doubleLimit : Nat := Nat.pow 2 1024 - Nat.pow 2 970

/-- Whether a real number lies within the range of double precision, if it is a number at all. -/
def RealNumber.fits : RealNumber → Bool
  | .infinity _ | .notANumber => true
  | .decimal _ digits exponent =>
    let size : Int := (Nat.toDigits 10 digits).length + exponent
    if digits = 0 ∨ size < 300 then true
    else if 310 < size then false
    else if 0 ≤ exponent then digits * Nat.pow 10 exponent.toNat < doubleLimit
    else digits < doubleLimit * Nat.pow 10 (-exponent).toNat

/-- Whether an integer can be held in 128 bits, with or without a sign. -/
def integerFits (n : Int) : Bool :=
  match n with
  | .ofNat k => k < Nat.pow 2 128
  | .negSucc k => k < Nat.pow 2 127

end LineEditor.Toml
