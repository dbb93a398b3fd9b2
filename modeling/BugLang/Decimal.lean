/-!
# Decimal numbers

A decimal is a natural number times a power of ten.  It is read from the digits
of a literal, and it is written either positionally or with an exponent; which of
the two is a matter of the `Layout` that the writer chooses.
-/

namespace BugLang

/-- The number `coefficient * 10 ^ exponent`. -/
structure Decimal where
  coefficient : Nat
  exponent : Int
deriving DecidableEq, Repr

namespace Decimal

/-- A decimal is the quotient of its `numerator` and its `denominator`. -/
def numerator (d : Decimal) : Nat :=
  d.coefficient * Nat.pow 10 d.exponent.toNat

/-- The power of ten that divides the `numerator`. -/
def denominator (d : Decimal) : Nat :=
  Nat.pow 10 (-d.exponent).toNat

/-- The denominator is a power of ten, hence not zero. -/
theorem denominator_pos (d : Decimal) : 0 < d.denominator :=
  Nat.pow_pos (by decide)

/-- The number that a run of decimal digits denotes. -/
def valueOfDigits (digits : List Char) : Nat :=
  digits.foldl (fun value c => 10 * value + (c.toNat - '0'.toNat)) 0

/-- The decimal with the given digits before and after the point.  Either run may
be empty. -/
def ofDigits (whole fraction : List Char) : Decimal where
  coefficient := valueOfDigits (whole ++ fraction)
  exponent := -fraction.length

/-- The range of decimals that are written positionally.  A decimal is placed by
the exponent of its leading digit: `0` for the units, `-1` for the tenths. -/
structure Layout where
  least : Int
  greatest : Int
deriving DecidableEq, Repr

/-- The digits of a coefficient, the leading one first. -/
def digits (d : Decimal) : List Char :=
  Nat.toDigits 10 d.coefficient

/-- The exponent of the leading digit. -/
def leadingExponent (d : Decimal) : Int :=
  d.exponent + d.digits.length - 1

/-- A decimal written with a point and at least one digit on either side of it. -/
def positional (d : Decimal) : List Char :=
  match d.exponent with
  | .ofNat zeros => d.digits ++ List.replicate zeros '0' ++ ['.', '0']
  | .negSucc n =>
    let places := n + 1
    let whole := d.digits.length - places
    if places < d.digits.length then
      d.digits.take whole ++ '.' :: d.digits.drop whole
    else
      '0' :: '.' :: (List.replicate (places - d.digits.length) '0' ++ d.digits)

/-- An integer written with a sign only if it is negative. -/
def signedDigits : Int → List Char
  | .ofNat n => Nat.toDigits 10 n
  | .negSucc n => '-' :: Nat.toDigits 10 (n + 1)

/-- A decimal written as one digit, the further digits after a point if there are
any, and the exponent. -/
def scientific (d : Decimal) : List Char :=
  let further := d.digits.drop 1
  d.digits.take 1 ++ (if further.isEmpty then [] else '.' :: further) ++
    'e' :: signedDigits d.leadingExponent

/-- A decimal as a layout writes it. -/
def written (layout : Layout) (d : Decimal) : List Char :=
  if layout.least ≤ d.leadingExponent ∧ d.leadingExponent ≤ layout.greatest then
    d.positional
  else
    d.scientific

end Decimal

end BugLang
