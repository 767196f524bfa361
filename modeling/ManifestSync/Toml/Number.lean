import ManifestSync.Text.Blank
import ManifestSync.Toml.Value

/-!
# Numbers, truth values and moments of TOML

Each of these is one word of letters, digits and the characters `+`, `-`, `_`, `.`, `:`; a date may
have a time behind one space. `ofWord?` reads a whole word.
-/

namespace ManifestSync.Toml

open Decimal (Binary64)

/-- Whether a character may occur in a word. -/
def isWordChar (c : Char) : Bool :=
  c.isAlphanum || c == '+' || c == '-' || c == '_' || c == '.' || c == ':'

/-- The value of a digit to a base up to sixteen. -/
def digitOf? (base : Nat) (c : Char) : Option Nat :=
  let value? : Option Nat :=
    if c.isDigit then some (c.toNat - '0'.toNat)
    else if 'a' ≤ c && c ≤ 'f' then some (c.toNat - 'a'.toNat + 10)
    else if 'A' ≤ c && c ≤ 'F' then some (c.toNat - 'A'.toNat + 10)
    else none
  value?.filter (· < base)

/-- The number that digits to a base denote; there must be one or more. -/
def natOf? (base : Nat) (digits : List Char) : Option Nat :=
  if digits.isEmpty then none
  else digits.foldlM (fun n c => (digitOf? base c).map (n * base + ·)) 0

/-- Digits without the underscores between them; each underscore stands between two digits. -/
def ungroup? (digits : List Char) : Option (List Char) :=
  let groups := Text.splitOn (· == '_') digits
  if groups.any (·.isEmpty) then none else some groups.flatten

/-- The number that grouped digits to a base denote. -/
def groupedNat? (base : Nat) (digits : List Char) : Option Nat :=
  (ungroup? digits).bind (natOf? base)

/-- The number that grouped decimal digits without a leading zero denote. -/
def decimal? (digits : List Char) : Option Nat :=
  match digits with
  | '0' :: _ :: _ => none
  | _ => groupedNat? 10 digits

/-- A sign and what stands behind it. -/
def splitSign (word : List Char) : Bool × List Char :=
  match word with
  | '+' :: rest => (false, rest)
  | '-' :: rest => (true, rest)
  | _ => (false, word)

/-- An integer: decimal with a sign, or hexadecimal, octal or binary without one, of 64 bits. -/
def integer? (word : List Char) : Option Int :=
  let value? : Option Int := match word with
    | '0' :: 'x' :: digits => (groupedNat? 16 digits).map Int.ofNat
    | '0' :: 'o' :: digits => (groupedNat? 8 digits).map Int.ofNat
    | '0' :: 'b' :: digits => (groupedNat? 2 digits).map Int.ofNat
    | _ =>
      let (negative, digits) := splitSign word
      (decimal? digits).map fun n => if negative then -(n : Int) else n
  value?.filter fun n => -(Nat.pow 2 63 : Int) ≤ n && n < Nat.pow 2 63

/-- Whether a character begins the exponent of a number. -/
def isExponentMark (c : Char) : Bool := c == 'e' || c == 'E'

/-- The exponent of a number, if there is one. -/
def exponent? : List Char → Option Int
  | [] => some 0
  | _ :: rest =>
    let (negative, digits) := splitSign rest
    (groupedNat? 10 digits).map fun n => if negative then -(n : Int) else n

/-- A floating-point number: a decimal integer with decimal places, an exponent, or both; or infinity
or NaN. A positive number that is out of range is refused. -/
def float? (word : List Char) : Option Binary64 := do
  let (negative, digits) := splitSign word
  if digits == ['i', 'n', 'f'] then return .infinity negative
  if digits == ['n', 'a', 'n'] then return .nan
  let inWhole (c : Char) : Bool := c != '.' && !isExponentMark c
  let whole := digits.takeWhile inWhole
  let rest := digits.dropWhile inWhole
  if rest.isEmpty then none
  let _ ← decimal? whole
  let (places, rest) ← match rest with
    | '.' :: rest => do
      let places := rest.takeWhile (!isExponentMark ·)
      let _ ← groupedNat? 10 places
      pure (← ungroup? places, rest.dropWhile (!isExponentMark ·))
    | _ => pure ([], rest)
  let exponent ← exponent? rest
  let n ← natOf? 10 ((← ungroup? whole) ++ places)
  let x := Binary64.ofDecimal negative n (exponent - places.length)
  if x == .infinity false then none else some x

/-- The number of two decimal digits, if it lies between two bounds. -/
def twoDigits? (low high : Nat) : List Char → Option (Nat × List Char)
  | a :: b :: rest => do
    let n ← natOf? 10 [a, b]
    if low ≤ n && n ≤ high then some (n, rest) else none
  | _ => none

/-- What stands behind a character at the start of a text. -/
def behind? (c : Char) : List Char → Option (List Char)
  | d :: rest => if d == c then some rest else none
  | [] => none

/-- The number of days of a month. -/
def daysIn (year month : Nat) : Nat :=
  if month = 2 then
    if year % 4 = 0 && (year % 100 ≠ 0 || year % 400 = 0) then 29 else 28
  else if month = 4 || month = 6 || month = 9 || month = 11 then 30
  else 31

/-- What stands behind a date. -/
def behindDate? (word : List Char) : Option (List Char) := do
  let year := word.take 4
  if year.length < 4 then none
  let year ← natOf? 10 year
  let rest ← behind? '-' (word.drop 4)
  let (month, rest) ← twoDigits? 1 12 rest
  let rest ← behind? '-' rest
  let (_, rest) ← twoDigits? 1 (daysIn year month) rest
  return rest

/-- What stands behind a time. -/
def behindTime? (word : List Char) : Option (List Char) := do
  let (_, rest) ← twoDigits? 0 23 word
  let (_, rest) ← twoDigits? 0 59 (← behind? ':' rest)
  let (_, rest) ← twoDigits? 0 60 (← behind? ':' rest)
  match rest with
  | '.' :: rest =>
    if rest.takeWhile (·.isDigit) |>.isEmpty then none else return rest.dropWhile (·.isDigit)
  | _ => return rest

/-- Whether a text is an offset from universal time, or nothing. -/
def isOffset (word : List Char) : Bool :=
  match word with
  | [] => true
  | ['Z'] => true
  | ['z'] => true
  | c :: rest =>
    (c == '+' || c == '-') && ((do
      let (_, rest) ← twoDigits? 0 23 rest
      let (_, rest) ← twoDigits? 0 59 (← behind? ':' rest)
      return rest.isEmpty) : Option Bool) == some true

/-- Whether a word is a time with or without an offset, as it may stand behind a date. -/
def isZonedTime (word : List Char) : Bool :=
  (behindTime? word).any isOffset

/-- Whether a word is a date. -/
def isDate (word : List Char) : Bool :=
  behindDate? word == some []

/-- Whether a word is a date, a time, or a date and a time. -/
def isMoment (word : List Char) : Bool :=
  behindTime? word == some [] ||
    match behindDate? word with
    | some [] => true
    | some (c :: time) => (c == 'T' || c == 't') && isZonedTime time
    | none => false

/-- The value that a word denotes. -/
def ofWord? (word : List Char) : Option Value :=
  if word == "true".toList then some (.boolean true)
  else if word == "false".toList then some (.boolean false)
  else if isMoment word then some (.moment (String.ofList word))
  else match integer? word with
    | some n => some (.integer n)
    | none => (float? word).map .float

end ManifestSync.Toml
