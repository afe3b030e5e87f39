import LoggerLint.Data.Value
import LoggerLint.Text.Digit
import LoggerLint.Toml.Error

/-!
# Numbers and moments in TOML

Integers in four bases, floating-point numbers, dates and times. The digits of a number may be grouped by
single underscores. Of dates and times only their validity matters here: they are one kind of value.
-/

namespace LoggerLint.Toml

/-! ## Digits -/

/-- The digits at the head, between which single underscores may stand. -/
def digitRun (isDigit : Char → Bool) : List Char → List Char × List Char
  | '_' :: c :: rest =>
    if isDigit c then
      let (digits, rest) := digitRun isDigit rest
      (c :: digits, rest)
    else
      ([], '_' :: c :: rest)
  | c :: rest =>
    if isDigit c then
      let (digits, rest) := digitRun isDigit rest
      (c :: digits, rest)
    else
      ([], c :: rest)
  | [] => ([], [])

/-- One digit or more, the first of them without an underscore. -/
def digits? (isDigit : Char → Bool) : List Char → Option (List Char × List Char)
  | c :: rest => if isDigit c then some (digitRun isDigit (c :: rest)) else none
  | [] => none

/-- The number that digits spell in a base. -/
def ofDigits (base : Nat) (digits : List Char) : Nat :=
  digits.foldl (fun n c => n * base + (Digit.hex? c).getD 0) 0

/-! ## Numbers -/

/-- The most digits of a decimal integer. -/
def maxDigits : Nat := 4300

/-- The floating-point number nearest to `mantissa * 10 ^ exponent`, where the mantissa has `length`
digits. What is far out of range is not computed. -/
def nearest (mantissa length : Nat) (exponent : Int) : Float :=
  if mantissa = 0 || exponent + length < -400 then 0.0
  else if exponent + length > 400 then 1.0 / 0.0
  else Float.ofScientific mantissa (exponent < 0) exponent.natAbs

/-- An optional sign; is it a minus? -/
def sign : List Char → Bool × List Char
  | '-' :: rest => (true, rest)
  | '+' :: rest => (false, rest)
  | cs => (false, cs)

/-- The digits of a fraction, if one starts here. -/
def fraction? : List Char → Option (List Char × List Char)
  | '.' :: rest => digits? Char.isDigit rest
  | _ => none

/-- The value of an exponent, if one starts here. -/
def exponent? : List Char → Option (Int × List Char)
  | c :: rest =>
    if c = 'e' || c = 'E' then
      let (minus, rest) := sign rest
      (digits? Char.isDigit rest).map fun (digits, rest) =>
        (if minus then -(ofDigits 10 digits : Int) else ofDigits 10 digits, rest)
    else
      none
  | [] => none

/-- The whole part of a decimal number: a zero, or digits that do not start with one. -/
def whole? : List Char → Option (List Char × List Char)
  | '0' :: rest => some (['0'], rest)
  | cs => digits? Char.isDigit cs

/-- A decimal integer, or a floating-point number where a fraction or an exponent follows. -/
def decimal? (cs : List Char) : Option (Except Error Value × List Char) := do
  let (minus, rest) := sign cs
  let (whole, rest) ← whole? rest
  let fraction := fraction? rest
  let rest := (fraction.map (·.2)).getD rest
  let exponent := exponent? rest
  let rest := (exponent.map (·.2)).getD rest
  if fraction.isSome || exponent.isSome then
    let fraction := (fraction.map (·.1)).getD []
    let digits := whole ++ fraction
    let x := nearest (ofDigits 10 digits) digits.length
      ((exponent.map (·.1)).getD 0 - fraction.length)
    return (.ok (.float (if minus then -x else x)), rest)
  else if whole.length > maxDigits then
    return (.error .tooManyDigits, rest)
  else
    let n := ofDigits 10 whole
    return (.ok (.int (if minus then -n else n)), rest)

/-- The base that a letter after a zero names, and its digits. -/
def base? : Char → Option (Nat × (Char → Bool))
  | 'x' => some (16, Digit.isHex)
  | 'o' => some (8, fun c => '0' ≤ c && c ≤ '7')
  | 'b' => some (2, fun c => c = '0' || c = '1')
  | _ => none

/-- An integer in another base than ten. -/
def based? : List Char → Option (Value × List Char)
  | '0' :: letter :: rest => do
    let (base, isDigit) ← base? letter
    let (digits, rest) ← digits? isDigit rest
    return (.int (ofDigits base digits), rest)
  | _ => none

/-- A floating-point number that is not finite. -/
def special? (cs : List Char) : Option (Value × List Char) :=
  let (minus, rest) := sign cs
  match rest with
  | 'i' :: 'n' :: 'f' :: rest => some (.float (if minus then -1.0 / 0.0 else 1.0 / 0.0), rest)
  | 'n' :: 'a' :: 'n' :: rest => some (.float (0.0 / 0.0), rest)
  | _ => none

/-! ## Dates and times -/

/-- A number of two digits between two bounds. -/
def two? (low high : Nat) : List Char → Option (Nat × List Char)
  | a :: b :: rest =>
    let n := ofDigits 10 [a, b]
    if a.isDigit && b.isDigit && low ≤ n && n ≤ high then some (n, rest) else none
  | _ => none

/-- A given character. -/
def expect? (char : Char) : List Char → Option (List Char)
  | c :: rest => if c = char then some rest else none
  | [] => none

/-- The characters after a fraction of a second, if there is one. -/
def skipSecondFraction : List Char → List Char
  | '.' :: c :: rest => if c.isDigit then rest.dropWhile Char.isDigit else '.' :: c :: rest
  | cs => cs

/-- The characters after a time of day. -/
def time? (cs : List Char) : Option (List Char) := do
  let (_, rest) ← two? 0 23 cs
  let (_, rest) ← two? 0 59 (← expect? ':' rest)
  let (_, rest) ← two? 0 59 (← expect? ':' rest)
  return skipSecondFraction rest

/-- The characters after the distance of a local time from the universal one. -/
def offset? : List Char → Option (List Char)
  | c :: rest =>
    if c = 'Z' || c = 'z' then
      some rest
    else if c = '+' || c = '-' then do
      let (_, rest) ← two? 0 23 rest
      let (_, rest) ← two? 0 59 (← expect? ':' rest)
      return rest
    else
      none
  | [] => none

/-- How many days a month has. -/
def daysIn (year month : Nat) : Nat :=
  if month = 2 then
    if year % 4 = 0 && (year % 100 ≠ 0 || year % 400 = 0) then 29 else 28
  else if [4, 6, 9, 11].contains month then 30
  else 31

/-- The characters after a date, and whether there is such a day. -/
def date? : List Char → Option (Bool × List Char)
  | a :: b :: c :: d :: rest => do
    let year := ofDigits 10 [a, b, c, d]
    if [a, b, c, d].all Char.isDigit then
      let (month, rest) ← two? 1 12 (← expect? '-' rest)
      let (day, rest) ← two? 1 31 (← expect? '-' rest)
      return (0 < year && day ≤ daysIn year month, rest)
    else
      none
  | _ => none

/-- The characters after the time that can follow a date, and its offset. -/
def timeAfterDate? : List Char → Option (List Char)
  | c :: rest =>
    if c = 'T' || c = 't' || c = ' ' then
      (time? rest).map fun rest => (offset? rest).getD rest
    else
      none
  | [] => none

/-- A date, a time, or both. -/
def moment? (cs : List Char) : Option (Except Error Value × List Char) :=
  match date? cs with
  | some (exists?, rest) =>
    some (if exists? then .ok .moment else .error .malformed, (timeAfterDate? rest).getD rest)
  | none => (time? cs).map fun rest => (.ok .moment, rest)

end LoggerLint.Toml
