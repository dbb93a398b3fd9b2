import BugLang.Binary64

/-!
# The shortest decimal that reads back

`Magnitude.shortest` finds the decimal with the fewest digits that rounds back to
a magnitude.  It tries the grids of decimals from the coarsest to the finest.  On
a grid only the two neighbours of the number come into question, since the
decimals that read back form an interval around it.  The first grid with a hit
wins; of two hits the nearer one is taken, and the greater one if they are equally
near.  The search ends at the grid of `10 ^ -1074`, which every magnitude is on.
-/

namespace BugLang.Magnitude

/-- Whether a decimal rounds to a magnitude. -/
def ReadsBack (x : Magnitude) (d : Decimal) : Prop :=
  ofDecimal? d = some x

instance (x : Magnitude) (d : Decimal) : Decidable (x.ReadsBack d) :=
  inferInstanceAs (Decidable (ofDecimal? d = some x))

/-- The neighbour on the grid of `10 ^ exponent` that reads back, if there is one. -/
def readBackOn (x : Magnitude) (exponent : Int) : Option Decimal :=
  let num := x.units * Nat.pow 10 (-exponent).toNat
  let den := unitsInOne * Nat.pow 10 exponent.toNat
  let below : Decimal := ⟨num / den, exponent⟩
  let above : Decimal := ⟨num / den + 1, exponent⟩
  if x.ReadsBack below then
    if den ≤ 2 * (num % den) ∧ x.ReadsBack above then some above else some below
  else
    if x.ReadsBack above then some above else none

/-- The exponent of the finest grid, on which every magnitude lies. -/
def finestExponent : Int := -1074

/-- A magnitude as a decimal on the finest grid. -/
def exact (x : Magnitude) : Decimal :=
  ⟨x.units * Nat.pow 5 1074, finestExponent⟩

/-- The first decimal that reads back on the grids from `10 ^ (steps - 1074)` down. -/
def shortestWithin (x : Magnitude) : Nat → Decimal
  | 0 => x.exact
  | steps + 1 =>
    (x.readBackOn (finestExponent + (steps + 1 : Nat))).getD (x.shortestWithin steps)

/-- The number of grids between the finest one and one that is coarser than the
magnitude itself.  The decimal logarithm of two is a little less than
`30103 / 100000`, and that of `2 ^ 1074` is more than 323. -/
def coarsestStep (x : Magnitude) : Nat :=
  (x.units.log2 + 1) * 30103 / 100000 + 1 + (1074 - 323)

/-- The decimal with the fewest digits that reads back, the nearest one if there
are several. -/
def shortest (x : Magnitude) : Decimal :=
  if x.mantissa = 0 then ⟨0, 0⟩ else x.shortestWithin x.coarsestStep

/-- A decimal found on a grid reads back. -/
theorem readsBack_of_readBackOn {x : Magnitude} {exponent : Int} {d : Decimal}
    (h : x.readBackOn exponent = some d) : x.ReadsBack d := by
  unfold readBackOn at h
  extract_lets num den below above at h
  split at h
  · rename_i hbelow
    split at h
    · rename_i habove
      exact Option.some.inj h ▸ habove.2
    · exact Option.some.inj h ▸ hbelow
  · split at h
    · rename_i habove
      exact Option.some.inj h ▸ habove
    · exact absurd h (by simp)

end BugLang.Magnitude
