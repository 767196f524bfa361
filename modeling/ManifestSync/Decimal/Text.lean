import ManifestSync.Decimal.Binary64

/-!
# Numbers as decimal text

`shortest` finds the fewest significant digits that read back as a given number, and of these the
ones closest to it. `render` writes them in positional notation between 10^-5 and 10^16 and with an
exponent outside, so that every finite number has a point or an exponent. `fixedTwo` writes two
places, rounding the exact value.
-/

namespace ManifestSync.Decimal

open Binary64 (ratio)

/-- The decimal digits of a number. -/
def digitsOf (n : Nat) : List Char := Nat.toDigits 10 n

/-- The value `digits * 10 ^ exponent`. -/
structure Scientific where
  digits : Nat
  exponent : Int
  deriving DecidableEq, Repr, Inhabited

/-- The same value without zeros at the end of its digits. -/
def Scientific.strip (s : Scientific) : Scientific :=
  let zeros := ((digitsOf s.digits).reverse.takeWhile (· == '0')).length
  ⟨s.digits / Nat.pow 10 zeros, s.exponent + zeros⟩

/-- The numerator and denominator of `num / den * 10 ^ (-exponent)`. -/
def scaleDecimal (num den : Nat) (exponent : Int) : Nat × Nat :=
  if exponent < 0 then (num * Nat.pow 10 exponent.natAbs, den)
  else (num, den * Nat.pow 10 exponent.natAbs)

/-- An exponent `p` with `10 ^ p ≤ num / den < 10 ^ (p + 1)`, found from the numbers of digits. -/
def leadingPlace (num den : Nat) : Int :=
  let guess : Int := Int.ofNat (digitsOf num).length - Int.ofNat (digitsOf den).length
  let (n, d) := scaleDecimal num den guess
  if n < d then guess - 1 else guess

/-- The two neighbours of `num / den` among the multiples of `10 ^ exponent`, the nearer one
first; of two at the same distance the even one is first. -/
def neighbours (num den : Nat) (exponent : Int) : List Nat :=
  let (n, d) := scaleDecimal num den exponent
  let below := n / d
  if roundDiv n d = below then [below, below + 1] else [below + 1, below]

/-- The neighbour with the given number of digits that reads back as `x`. -/
def readsBack? (x : Binary64) (num den : Nat) (count : Nat) : Option Scientific :=
  let exponent := leadingPlace num den - Int.ofNat count + 1
  ((neighbours num den exponent).find? fun d => Binary64.ofDecimal false d exponent == x).map
    fun d => ⟨d, exponent⟩

/-- The fewest digits that read back as `mantissa * 2 ^ exponent`; seventeen always do. -/
def shortest (mantissa : Nat) (exponent : Int) : Scientific :=
  let (num, den) := ratio mantissa exponent
  let x := Binary64.finite false mantissa exponent
  (((List.range 17).findSome? fun n => readsBack? x num den (n + 1)).getD ⟨0, 0⟩).strip

/-- Digits with the point behind the first `point` of them. -/
def positional (digits : List Char) (point : Int) : List Char :=
  if point ≤ 0 then '0' :: '.' :: List.replicate point.natAbs '0' ++ digits
  else if Int.ofNat digits.length ≤ point then
    digits ++ List.replicate (point.natAbs - digits.length) '0' ++ ['.', '0']
  else digits.take point.natAbs ++ '.' :: digits.drop point.natAbs

/-- Digits with the point behind the first one and an exponent. -/
def exponential (digits : List Char) (point : Int) : List Char :=
  let fraction := if digits.length ≤ 1 then [] else '.' :: digits.drop 1
  digits.take 1 ++ fraction ++ 'e' :: (toString (point - 1)).toList

/-- A positive number of decimal form in words. -/
def Scientific.render (s : Scientific) : List Char :=
  let digits := digitsOf s.digits
  let point := s.exponent + Int.ofNat digits.length
  if -5 < point ∧ point ≤ 16 then positional digits point else exponential digits point

/-- A sign for negative numbers. -/
def sign (negative : Bool) : List Char := if negative then ['-'] else []

/-- A number as text: the fewest digits that read back, or `.inf`, `-.inf`, `.nan`. -/
def Binary64.render : Binary64 → List Char
  | .finite negative 0 _ => sign negative ++ ['0', '.', '0']
  | .finite negative mantissa exponent => sign negative ++ (shortest mantissa exponent).render
  | .infinity negative => sign negative ++ ['.', 'i', 'n', 'f']
  | .nan => ['.', 'n', 'a', 'n']

/-- A number in positional notation, whatever its size. -/
def Binary64.renderPlain : Binary64 → List Char
  | .finite negative 0 _ => sign negative ++ ['0', '.', '0']
  | .finite negative mantissa exponent =>
    let s := shortest mantissa exponent
    let digits := digitsOf s.digits
    sign negative ++ positional digits (s.exponent + Int.ofNat digits.length)
  | .infinity negative => sign negative ++ ['i', 'n', 'f']
  | .nan => ['N', 'a', 'N']

/-- A ratio with two decimal places, rounded to the nearest; a tie goes to the even digit. -/
def fixedTwo (num den : Nat) : List Char :=
  let hundredths := roundDiv (num * 100) den
  let fraction := digitsOf (hundredths % 100)
  digitsOf (hundredths / 100) ++ '.' :: List.replicate (2 - fraction.length) '0' ++ fraction

end ManifestSync.Decimal
