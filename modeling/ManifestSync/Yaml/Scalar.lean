import ManifestSync.Yaml.Value

/-!
# Plain scalars

What a scalar without quotes stands for: nothing, a truth value, a number or a text. Integers are
decimal, or hexadecimal, octal and binary behind `0x`, `0o` and `0b`; they must fit 64 bits, unsigned
or signed. Decimal digits behind a leading zero are text.
-/

namespace ManifestSync.Yaml

open Decimal (Binary64)

/-- A text that is one of some words. -/
def isWord (words : List String) (text : List Char) : Bool :=
  words.any (·.toList == text)

/-- Whether a plain scalar stands for nothing. -/
def isNull (text : List Char) : Bool :=
  isWord ["null", "Null", "NULL", "~"] text

/-- The truth value that a plain scalar stands for. -/
def bool? (text : List Char) : Option Bool :=
  if isWord ["true", "True", "TRUE"] text then some true
  else if isWord ["false", "False", "FALSE"] text then some false
  else none

/-- Whether a character is a digit to the base ten. -/
def isDecimal (c : Char) : Bool := '0' ≤ c && c ≤ '9'

/-- Whether a text begins with a sign. -/
def isSigned (text : List Char) : Bool :=
  match text with
  | '+' :: _ => true
  | '-' :: _ => true
  | _ => false

/-- Whether a text is a zero with more digits behind it, perhaps after a sign. -/
def hasLeadingZero (text : List Char) : Bool :=
  match (if isSigned text then text.drop 1 else text) with
  | '0' :: d :: rest => (d :: rest).all isDecimal
  | _ => false

/-- The value of a digit to a base up to sixteen. -/
def digitValue? (base : Nat) (c : Char) : Option Nat :=
  let value? : Option Nat :=
    if isDecimal c then some (c.toNat - '0'.toNat)
    else if 'a' ≤ c && c ≤ 'f' then some (c.toNat - 'a'.toNat + 10)
    else if 'A' ≤ c && c ≤ 'F' then some (c.toNat - 'A'.toNat + 10)
    else none
  value?.filter (· < base)

/-- The number that digits to a base denote, if there is at least one and there are only digits. -/
def number? (base : Nat) (digits : List Char) : Option Nat :=
  if digits.isEmpty then none
  else digits.foldlM (fun n c => (digitValue? base c).map (n * base + ·)) 0

/-- The base that the second character of an integer announces. -/
def base? : Char → Option Nat
  | 'x' => some 16
  | 'o' => some 8
  | 'b' => some 2
  | _ => none

/-- The number that digits denote, to the base that they announce, else to the base ten. -/
def magnitude? (digits : List Char) : Option Nat :=
  match digits with
  | '0' :: c :: rest =>
    match base? c with
    | some base => number? base rest
    | none => number? 10 digits
  | _ => number? 10 digits

/-- The integer that a plain scalar denotes, whatever its size. -/
def integer? (text : List Char) : Option Int :=
  if hasLeadingZero text then none
  else match text with
  | '-' :: digits => (magnitude? digits).map fun n => -(n : Int)
  | '+' :: digits => (magnitude? digits).map fun n => (n : Int)
  | digits => (magnitude? digits).map fun n => (n : Int)

/-- Whether an integer fits 64 bits, unsigned or signed. -/
def fits64 (n : Int) : Bool := -(Nat.pow 2 63 : Int) ≤ n && n < Nat.pow 2 64

/-- Whether an integer fits 128 bits, unsigned or signed. -/
def fits128 (n : Int) : Bool := -(Nat.pow 2 127 : Int) ≤ n && n < Nat.pow 2 128

/-- The digits of a decimal fraction without its sign, as one number, and the power of ten that it
is multiplied by: digits with a point among, before or behind them, and perhaps an exponent. -/
def fraction? (text : List Char) : Option (Nat × Int) := do
  let whole := text.takeWhile isDecimal
  let rest := text.dropWhile isDecimal
  let (places, rest) := match rest with
    | '.' :: rest => (rest.takeWhile isDecimal, rest.dropWhile isDecimal)
    | _ => ([], rest)
  let digits ← number? 10 (whole ++ places)
  let exponent : Int ← match rest with
    | [] => some 0
    | c :: rest =>
      if c == 'e' || c == 'E' then
        match rest with
        | '-' :: digits => (number? 10 digits).map fun n => -(n : Int)
        | '+' :: digits => (number? 10 digits).map fun n => (n : Int)
        | digits => (number? 10 digits).map fun n => (n : Int)
      else none
  return (digits, exponent - places.length)

/-- The floating-point number that a plain scalar denotes; one that is too large is text. -/
def float? (text : List Char) : Option Binary64 :=
  let unsigned := match text with
    | '+' :: rest => rest
    | _ => text
  if isWord [".inf", ".Inf", ".INF"] unsigned then some (.infinity false)
  else if isWord ["-.inf", "-.Inf", "-.INF"] text then some (.infinity true)
  else if isWord [".nan", ".NaN", ".NAN"] text then some .nan
  else
    let (negative, digits) := match text with
      | '-' :: rest => (true, rest)
      | _ => (false, unsigned)
    ((fraction? digits).map fun (n, exponent) => Binary64.ofDecimal negative n exponent).filter
      (·.isFinite)

/-- The value of an integer scalar; an integer that does not fit 64 bits has none. -/
def ofInteger (n : Int) : Option Value :=
  if fits64 n then some (.int n) else none

/-- What a plain scalar stands for. An integer between 64 and 128 bits is refused; a larger one is
read as a floating-point number. -/
def ofPlain (text : List Char) : Option Value :=
  if text.isEmpty || isNull text then some .null
  else match bool? text, (integer? text).filter fits128 with
  | some b, _ => some (.bool b)
  | none, some n => ofInteger n
  | none, none =>
    match if hasLeadingZero text then none else float? text with
    | some x => some (.float x)
    | none => some (.string (String.ofList text))

/-- Whether a text would be read as something else than text if it were written without quotes. -/
def needsQuotes (text : List Char) : Bool :=
  hasLeadingZero text ||
    match ofPlain text with
    | some (.string _) => false
    | _ => true

end ManifestSync.Yaml
