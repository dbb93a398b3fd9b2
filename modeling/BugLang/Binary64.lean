import BugLang.Decimal

/-!
# Binary floating point with 64 bits

A finite number is a sign and a `Magnitude`: a whole number of units of `2 ^ -1074`
with at most 53 significant bits.  Everything is computed with natural numbers, so
nothing depends on the floating point of the machine.

The main function is `Magnitude.ofRatio?`, which rounds a quotient to the nearest
magnitude and lets a tie go to the even mantissa.  `Binary64.ofDecimal` reads a
decimal with it, and `Binary64.ofBits` decodes the interchange format.
-/

namespace BugLang

/-- A quotient rounded to the nearest natural number, a half to the even one. -/
def roundHalfEven (num den : Nat) : Nat :=
  let quotient := num / den
  let rest := num % den
  if 2 * rest < den then quotient
  else if den < 2 * rest then quotient + 1
  else quotient + quotient % 2

/-- Rounding never falls below the quotient. -/
theorem div_le_roundHalfEven (num den : Nat) : num / den ≤ roundHalfEven num den := by
  unfold roundHalfEven
  dsimp only
  split
  · exact Nat.le_refl _
  · split <;> omega

/-- Rounding adds at most one to the quotient. -/
theorem roundHalfEven_le_div_add_one (num den : Nat) :
    roundHalfEven num den ≤ num / den + 1 := by
  unfold roundHalfEven
  dsimp only
  split
  · omega
  · split <;> omega

/-- A finite number without its sign: `mantissa * 2 ^ shift` units of `2 ^ -1074`.
The mantissa has 53 bits, and fewer only where the shift is zero, so that each
number has one form. -/
structure Magnitude where
  mantissa : Nat
  shift : Nat
  mantissa_lt : mantissa < Nat.pow 2 53
  shift_le : shift ≤ 2045
  normalized : shift = 0 ∨ Nat.pow 2 52 ≤ mantissa
deriving DecidableEq, Repr

namespace Magnitude

/-- The number of units of `2 ^ -1074` in one. -/
def unitsInOne : Nat := Nat.pow 2 1074

/-- A magnitude as a number of units. -/
def units (x : Magnitude) : Nat :=
  x.mantissa * Nat.pow 2 x.shift

/-- The number zero. -/
def zero : Magnitude where
  mantissa := 0
  shift := 0
  mantissa_lt := by decide
  shift_le := by decide
  normalized := .inl rfl

/-- The shift that leaves 53 bits of a number of units, or zero if it has no more. -/
def shiftFor (units : Nat) : Nat :=
  units.log2 - 52

/-- A mantissa that is rounded at its own shift has all of its 53 bits, unless the
shift is zero. -/
theorem shiftFor_normalized (num den : Nat) :
    shiftFor (num / den) = 0 ∨
      Nat.pow 2 52 ≤ roundHalfEven num (den * Nat.pow 2 (shiftFor (num / den))) := by
  by_cases hshift : shiftFor (num / den) = 0
  · exact .inl hshift
  · right
    have hlog : (num / den).log2 = 52 + shiftFor (num / den) := by
      unfold shiftFor at hshift ⊢
      omega
    have hne : num / den ≠ 0 := by
      intro hzero
      simp [shiftFor, hzero] at hshift
    have hself := Nat.log2_self_le hne
    rw [hlog, Nat.pow_add] at hself
    have hpow : 0 < Nat.pow 2 (shiftFor (num / den)) := Nat.pow_pos (by decide)
    refine Nat.le_trans ?_ (div_le_roundHalfEven _ _)
    rw [← Nat.div_div_eq_div_mul]
    exact (Nat.le_div_iff_mul_le hpow).mpr hself

/-- The magnitude nearest to the quotient `num / den`, a tie going to the even
mantissa.  There is none if the quotient rounds to `2 ^ 1024` or more. -/
def ofRatio? (num den : Nat) : Option Magnitude :=
  let scaled := num * unitsInOne
  let shift := shiftFor (scaled / den)
  let mantissa := roundHalfEven scaled (den * Nat.pow 2 shift)
  if hlt : mantissa < Nat.pow 2 53 then
    if hle : shift ≤ 2045 then
      some ⟨mantissa, shift, hlt, hle, shiftFor_normalized scaled den⟩
    else
      none
  else
    if hle : shift + 1 ≤ 2045 then
      some ⟨Nat.pow 2 52, shift + 1, by decide, hle, .inr (Nat.le_refl _)⟩
    else
      none

/-- The magnitude nearest to a decimal. -/
def ofDecimal? (d : Decimal) : Option Magnitude :=
  ofRatio? d.numerator d.denominator

end Magnitude

/-- A floating point number of 64 bits. -/
inductive Binary64
  | nan
  | infinity (negative : Bool)
  | finite (negative : Bool) (magnitude : Magnitude)
deriving DecidableEq, Repr

namespace Binary64

/-- The number nearest to a decimal; infinity beyond the greatest finite number. -/
def ofDecimal (d : Decimal) : Binary64 :=
  (Magnitude.ofDecimal? d).elim (.infinity false) (.finite false)

/-- The number that 64 bits denote: one bit of sign, 11 bits of exponent and 52
bits of fraction. -/
def ofBits (bits : UInt64) : Binary64 :=
  let negative := decide (Nat.pow 2 63 ≤ bits.toNat)
  let exponent := bits.toNat / Nat.pow 2 52 % 2048
  let fraction := bits.toNat % Nat.pow 2 52
  have hfraction : fraction < Nat.pow 2 52 := Nat.mod_lt _ (by decide)
  have htwice : Nat.pow 2 53 = Nat.pow 2 52 + Nat.pow 2 52 := by decide
  if hexponent : exponent = 0 then
    .finite negative ⟨fraction, 0, by omega, by decide, .inl rfl⟩
  else if htop : exponent = 2047 then
    if fraction = 0 then .infinity negative else .nan
  else
    have hlt : exponent < 2048 := Nat.mod_lt _ (by decide)
    .finite negative
      ⟨Nat.pow 2 52 + fraction, exponent - 1, by omega, by omega, .inr (Nat.le_add_right _ _)⟩

end Binary64

end BugLang
