import BugLang.Binary64.Shortest

/-!
# Rounding a decimal and reading it back

Rounding to a magnitude respects the order of quotients, does not depend on how a quotient is
written, and leaves what is a magnitude already.  So a magnitude and its shortest decimal, which
are different numbers as a rule, stand on the same side of every decimal that is rounded up.

* `Magnitude.ofRatio?_mul_right`: a quotient may be written in other terms.
* `Magnitude.ofRatio?_units`: a magnitude rounds to itself.
* `Magnitude.units_le_of_le`: a greater decimal does not round to a lesser magnitude.
* `Magnitude.readsBack_shortest`: the shortest decimal reads back.
* `Magnitude.shortest_lt_iff`: it is below the same bounds as the magnitude.
-/

namespace BugLang

/-! ### The nearest natural number -/

/-- The nearest number to a quotient does not depend on its terms. -/
theorem roundHalfEven_mul_right (num den : Nat) {k : Nat} (hk : 0 < k) :
    roundHalfEven (num * k) (den * k) = roundHalfEven num den := by
  have hbelow : 2 * (num % den * k) < den * k ↔ 2 * (num % den) < den := by
    rw [← Nat.mul_assoc, Nat.mul_lt_mul_right hk]
  have habove : den * k < 2 * (num % den * k) ↔ den < 2 * (num % den) := by
    rw [← Nat.mul_assoc, Nat.mul_lt_mul_right hk]
  simp only [roundHalfEven, Nat.mul_div_mul_right _ _ hk, Nat.mul_mod_mul_right, hbelow, habove]

/-- A number is nearest to itself. -/
theorem roundHalfEven_mul_self (n : Nat) {den : Nat} (hden : 0 < den) :
    roundHalfEven (n * den) den = n := by
  simp [roundHalfEven, Nat.mul_div_cancel _ hden, hden]

/-- The nearest number to a greater quotient is not less. -/
theorem roundHalfEven_mono {num num' : Nat} (h : num ≤ num') (den : Nat) :
    roundHalfEven num den ≤ roundHalfEven num' den := by
  rcases Nat.lt_or_eq_of_le (Nat.div_le_div_right (c := den) h) with hlt | heq
  · have habove := roundHalfEven_le_div_add_one num den
    have hbelow := div_le_roundHalfEven num' den
    omega
  · -- With the same whole part, the rests decide.
    have hnum := Nat.div_add_mod num den
    have hnum' := Nat.div_add_mod num' den
    rw [heq] at hnum
    simp only [roundHalfEven, heq]
    generalize num' / den = quotient at *
    generalize num % den = rest at *
    generalize num' % den = rest' at *
    generalize den * quotient = whole at *
    split <;> split <;> (try split) <;> (try split) <;> omega

namespace Decimal

/-- A decimal with places after the point is its coefficient over a power of ten. -/
@[simp]
theorem numerator_neg (coefficient places : Nat) :
    (⟨coefficient, -places⟩ : Decimal).numerator = coefficient := by
  simp [numerator]

@[simp]
theorem denominator_neg (coefficient places : Nat) :
    (⟨coefficient, -places⟩ : Decimal).denominator = Nat.pow 10 places := by
  simp [denominator]

/-- A decimal with zeros before the point is a whole number. -/
@[simp]
theorem numerator_ofNat (coefficient zeros : Nat) :
    (⟨coefficient, .ofNat zeros⟩ : Decimal).numerator = coefficient * Nat.pow 10 zeros :=
  rfl

@[simp]
theorem denominator_ofNat (coefficient zeros : Nat) :
    (⟨coefficient, .ofNat zeros⟩ : Decimal).denominator = 1 := by
  simp [denominator]

/-! ### The order of decimals -/

/-- Decimals are compared by their numbers, whatever grids they are on. -/
instance : LE Decimal where
  le d e := d.numerator * e.denominator ≤ e.numerator * d.denominator

instance : LT Decimal where
  lt d e := d.numerator * e.denominator < e.numerator * d.denominator

theorem lt_def {d e : Decimal} :
    d < e ↔ d.numerator * e.denominator < e.numerator * d.denominator :=
  Iff.rfl

@[simp]
theorem not_lt {d e : Decimal} : ¬d < e ↔ e ≤ d :=
  Nat.not_lt

theorem le_of_lt {d e : Decimal} (h : d < e) : d ≤ e :=
  Nat.le_of_lt h

instance (d e : Decimal) : Decidable (d ≤ e) :=
  inferInstanceAs (Decidable (d.numerator * e.denominator ≤ e.numerator * d.denominator))

end Decimal

namespace Magnitude

/-! ### The nearest magnitude -/

/-- The number of units that a quotient of units is rounded to, if there is no bound. -/
def roundedUnits (num den : Nat) : Nat :=
  roundHalfEven num (den * Nat.pow 2 (shiftFor (num / den))) * Nat.pow 2 (shiftFor (num / den))

/-- A mantissa that is rounded at its own shift has 53 bits, or it is the next power of two. -/
theorem roundHalfEven_shiftFor_le (num den : Nat) :
    roundHalfEven num (den * Nat.pow 2 (shiftFor (num / den))) ≤ Nat.pow 2 53 := by
  have hlog : num / den < 2 ^ (53 + shiftFor (num / den)) := by
    refine Nat.lt_of_lt_of_le Nat.lt_log2_self (Nat.pow_le_pow_right (by decide) ?_)
    rw [shiftFor]
    omega
  have hquotient : num / (den * Nat.pow 2 (shiftFor (num / den))) < Nat.pow 2 53 := by
    have hpow : 0 < Nat.pow 2 (shiftFor (num / den)) := Nat.pow_pos (by decide)
    rw [← Nat.div_div_eq_div_mul, Nat.div_lt_iff_lt_mul hpow]
    rwa [Nat.pow_add] at hlog
  exact Nat.le_trans (roundHalfEven_le_div_add_one _ _) hquotient

/-- The nearest magnitude has the rounded number of units. -/
theorem units_of_ofRatio? {num den : Nat} {x : Magnitude} (h : ofRatio? num den = some x) :
    x.units = roundedUnits (num * unitsInOne) den := by
  have hle := roundHalfEven_shiftFor_le (num * unitsInOne) den
  unfold ofRatio? at h
  extract_lets scaled shift mantissa at h
  rw [roundedUnits]
  split at h
  · split at h
    · obtain rfl := Option.some.inj h
      rfl
    · cases h
  · rename_i hlt
    have hmantissa : mantissa = Nat.pow 2 53 := Nat.le_antisymm hle (Nat.not_lt.mp hlt)
    split at h
    · obtain rfl := Option.some.inj h
      change Nat.pow 2 52 * Nat.pow 2 (shift + 1) = mantissa * Nat.pow 2 shift
      rw [hmantissa]
      simp only [Nat.pow_eq, ← Nat.pow_add]
      congr 1
      omega
    · cases h

/-- More units do not have a lesser shift. -/
theorem shiftFor_mono {units units' : Nat} (h : units ≤ units') :
    shiftFor units ≤ shiftFor units' := by
  by_cases hzero : units = 0
  · subst hzero
    exact Nat.zero_le _
  · have hlog : units.log2 ≤ units'.log2 :=
      (Nat.le_log2 (by omega)).mpr (Nat.le_trans (Nat.log2_self_le hzero) h)
    rw [shiftFor, shiftFor]
    omega

/-- More units are not rounded to fewer. -/
theorem roundedUnits_mono {num num' : Nat} (h : num ≤ num') (den : Nat) :
    roundedUnits num den ≤ roundedUnits num' den := by
  have hshift : shiftFor (num / den) ≤ shiftFor (num' / den) :=
    shiftFor_mono (Nat.div_le_div_right h)
  rcases Nat.lt_or_eq_of_le hshift with hlt | heq
  · -- The lesser one is at most the power of two that the greater one starts at.
    have hmantissa := (shiftFor_normalized num' den).resolve_left (by omega)
    calc roundedUnits num den
        ≤ Nat.pow 2 53 * Nat.pow 2 (shiftFor (num / den)) :=
          Nat.mul_le_mul_right _ (roundHalfEven_shiftFor_le num den)
      _ = 2 ^ (53 + shiftFor (num / den)) := (Nat.pow_add _ _ _).symm
      _ ≤ 2 ^ (52 + shiftFor (num' / den)) := Nat.pow_le_pow_right (by decide) (by omega)
      _ = Nat.pow 2 52 * Nat.pow 2 (shiftFor (num' / den)) := Nat.pow_add _ _ _
      _ ≤ roundedUnits num' den := Nat.mul_le_mul_right _ hmantissa
  · rw [roundedUnits, roundedUnits, heq]
    exact Nat.mul_le_mul_right _ (roundHalfEven_mono h _)

/-- The nearest magnitude to a quotient does not depend on its terms. -/
theorem ofRatio?_mul_right (num den : Nat) {k : Nat} (hk : 0 < k) :
    ofRatio? (num * k) (den * k) = ofRatio? num den := by
  have hscaled : num * k * unitsInOne = num * unitsInOne * k := Nat.mul_right_comm _ _ _
  have hden : ∀ power, den * k * power = den * power * k := fun _ => Nat.mul_right_comm _ _ _
  unfold ofRatio?
  simp only [hscaled, Nat.mul_div_mul_right _ _ hk, hden, roundHalfEven_mul_right _ _ hk]

/-- Equal quotients have the same nearest magnitude. -/
theorem ofRatio?_congr {num den num' den' : Nat} (hden : 0 < den) (hden' : 0 < den')
    (h : num * den' = num' * den) : ofRatio? num den = ofRatio? num' den' := by
  rw [← ofRatio?_mul_right num den hden', h, Nat.mul_comm den, ofRatio?_mul_right _ _ hden]

/-- A greater quotient is not rounded to a lesser magnitude. -/
theorem units_le_of_mul_le {num den num' den' : Nat} {x y : Magnitude} (hden : 0 < den)
    (hden' : 0 < den') (h : num * den' ≤ num' * den) (hx : ofRatio? num den = some x)
    (hy : ofRatio? num' den' = some y) : x.units ≤ y.units := by
  rw [← ofRatio?_mul_right num den hden'] at hx
  rw [← ofRatio?_mul_right num' den' hden, Nat.mul_comm den' den] at hy
  rw [units_of_ofRatio? hx, units_of_ofRatio? hy]
  exact roundedUnits_mono (Nat.mul_le_mul_right _ h) _

/-- There is one unit at least in one. -/
theorem unitsInOne_pos : 0 < unitsInOne := by
  decide +kernel

/-- A magnitude has the shift of its number of units. -/
theorem shiftFor_units (x : Magnitude) : shiftFor x.units = x.shift := by
  rw [shiftFor, units]
  rcases x.normalized with hzero | hbits
  · rw [hzero]
    change (x.mantissa * 1).log2 - 52 = 0
    rw [Nat.mul_one]
    by_cases hmantissa : x.mantissa = 0
    · rw [hmantissa]
      rfl
    · have hlog : x.mantissa.log2 < 53 := (Nat.log2_lt hmantissa).mpr x.mantissa_lt
      omega
  · have hpow : 0 < Nat.pow 2 x.shift := Nat.pow_pos (by decide)
    have hne : x.mantissa * Nat.pow 2 x.shift ≠ 0 :=
      Nat.ne_of_gt (Nat.mul_pos (Nat.lt_of_lt_of_le (by decide) hbits) hpow)
    have hlog : (x.mantissa * Nat.pow 2 x.shift).log2 = 52 + x.shift := by
      refine (Nat.log2_eq_iff hne).mpr ⟨?_, ?_⟩
      · rw [Nat.pow_add]
        exact Nat.mul_le_mul_right _ hbits
      · rw [Nat.add_right_comm, Nat.pow_add]
        exact Nat.mul_lt_mul_of_pos_right x.mantissa_lt hpow
    omega

/-- **A magnitude rounds to itself.** -/
theorem ofRatio?_units (x : Magnitude) : ofRatio? x.units unitsInOne = some x := by
  have hquotient : x.units * unitsInOne / unitsInOne = x.units :=
    Nat.mul_div_cancel _ unitsInOne_pos
  have hmantissa :
      roundHalfEven (x.units * unitsInOne) (unitsInOne * Nat.pow 2 x.shift) = x.mantissa := by
    have hunits : x.units * unitsInOne = x.mantissa * (unitsInOne * Nat.pow 2 x.shift) := by
      rw [units, Nat.mul_assoc, Nat.mul_comm (Nat.pow 2 x.shift)]
    rw [hunits]
    exact roundHalfEven_mul_self _ (Nat.mul_pos unitsInOne_pos (Nat.pow_pos (by decide)))
  unfold ofRatio?
  simp only [hquotient, shiftFor_units, hmantissa, x.mantissa_lt, x.shift_le, dite_true]

/-- A magnitude is settled by its number of units. -/
theorem eq_of_units_eq {x y : Magnitude} (h : x.units = y.units) : x = y := by
  have hround := ofRatio?_units x
  rw [h, ofRatio?_units y] at hround
  exact (Option.some.inj hround).symm

/-! ### Reading decimals -/

/-- A greater decimal does not round to a lesser magnitude. -/
theorem units_le_of_le {d e : Decimal} {x y : Magnitude} (h : d ≤ e) (hx : x.ReadsBack d)
    (hy : y.ReadsBack e) : x.units ≤ y.units :=
  units_le_of_mul_le d.denominator_pos e.denominator_pos h hx hy

/-- Ten is two times five, so powers of two are on the grids of decimals. -/
theorem ofDecimal?_mul_pow_five (num places : Nat) :
    ofDecimal? ⟨num * Nat.pow 5 places, -places⟩ = ofRatio? num (Nat.pow 2 places) := by
  have hpow : Nat.pow 10 places = Nat.pow 2 places * Nat.pow 5 places := Nat.mul_pow 2 5 places
  rw [ofDecimal?, Decimal.numerator_neg, Decimal.denominator_neg, hpow]
  exact ofRatio?_mul_right _ _ (Nat.pow_pos (by decide))

/-- Zero reads back. -/
theorem readsBack_zero : zero.ReadsBack ⟨0, 0⟩ := by
  have hunits : 0 * unitsInOne = zero.units * 1 := by
    rw [units, zero, Nat.zero_mul, Nat.zero_mul, Nat.zero_mul]
  exact (ofRatio?_congr Nat.one_pos unitsInOne_pos hunits).trans (ofRatio?_units zero)

/-- A magnitude is on the finest grid. -/
theorem readsBack_exact (x : Magnitude) : x.ReadsBack x.exact :=
  (ofDecimal?_mul_pow_five x.units 1074).trans (ofRatio?_units x)

/-- Whatever the search finds reads back. -/
theorem readsBack_shortestWithin (x : Magnitude) (steps : Nat) :
    x.ReadsBack (x.shortestWithin steps) := by
  induction steps with
  | zero =>
    rw [shortestWithin]
    exact readsBack_exact x
  | succ steps ih =>
    rw [shortestWithin]
    cases hfound : x.readBackOn (finestExponent + (steps + 1 : Nat)) with
    | none => exact ih
    | some d => exact readsBack_of_readBackOn hfound

/-- **The shortest decimal of a magnitude reads back.** -/
theorem readsBack_shortest (x : Magnitude) : x.ReadsBack x.shortest := by
  rw [shortest]
  split
  · rename_i hmantissa
    have hzero : x = zero := eq_of_units_eq (by simp [units, hmantissa, zero])
    rw [hzero]
    exact readsBack_zero
  · exact readsBack_shortestWithin x _

/-- Decimals that read back are in the order of the numbers, if the number of both is the same
only where the first one is not less. -/
theorem lt_iff_units_lt {d e : Decimal} {x y : Magnitude} (hx : x.ReadsBack d)
    (hy : y.ReadsBack e) (hself : x = y → e ≤ d) : d < e ↔ x.units < y.units := by
  constructor
  · intro hlt
    refine Nat.lt_of_le_of_ne (units_le_of_le (Decimal.le_of_lt hlt) hx hy) fun heq => ?_
    exact Decimal.not_lt.mpr (hself (eq_of_units_eq heq)) hlt
  · intro hlt
    refine Nat.lt_of_not_le fun hge => ?_
    exact Nat.not_le.mpr hlt (units_le_of_le hge hy hx)

/-- Whether neither the magnitude nearest to a decimal nor the shortest decimal of that magnitude
is less than the decimal. -/
def RoundsUp (e : Decimal) : Prop :=
  ∃ y : Magnitude, y.ReadsBack e ∧ e ≤ y.shortest ∧ e ≤ y.exact

/-- **The shortest decimal of a magnitude is below a bound if the magnitude is.** -/
theorem shortest_lt_iff (x : Magnitude) {e : Decimal} (h : RoundsUp e) :
    x.shortest < e ↔ x.exact < e := by
  obtain ⟨y, hread, hshortest, hexact⟩ := h
  calc x.shortest < e
      ↔ x.units < y.units :=
        lt_iff_units_lt (readsBack_shortest x) hread (by rintro rfl; exact hshortest)
    _ ↔ x.exact < e :=
        (lt_iff_units_lt (readsBack_exact x) hread (by rintro rfl; exact hexact)).symm

end Magnitude

end BugLang
