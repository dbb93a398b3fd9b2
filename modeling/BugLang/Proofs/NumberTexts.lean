import BugLang.Proofs.Rounding
import BugLang.Proofs.Segmentation

/-!
# The texts of numbers

A number that is zero, or at least a ten-thousandth and less than ten to the sixteenth, has a
text of digits, a point and digits, and that text is read as the same number again.  A number
beyond these bounds has an exponent in its text, or no digits at all if it is infinite.  The
exponent is read as a word behind another number.

* `Decimal.hasText_positional`: a decimal is written with a point without loss.
* `Decimal.lt_power_iff`: the leading digit of a decimal places it among the powers of ten.
* `Magnitude.leadingExponent_iff`: which magnitudes are written with a point.
* `Decimal.HasText.ofText_eq`, `Decimal.ofText_scientific_ne`: how the texts are read.
* `number_text_iff_moderate`: the texts of the numbers of a source.
-/

namespace BugLang

/-- A run of digits, at least one. -/
def IsDigits (text : List Char) : Prop :=
  text ≠ [] ∧ ∀ c ∈ text, c.isDigit = true

/-- A text of digits, a point and digits. -/
def IsPositional (text : List Char) : Prop :=
  ∃ whole places, text = whole ++ '.' :: places ∧ IsDigits whole ∧ IsDigits places

/-- Digits may be added to digits. -/
theorem IsDigits.append {text text' : List Char} (h : IsDigits text)
    (h' : ∀ c ∈ text', c.isDigit = true) : IsDigits (text ++ text') :=
  ⟨List.append_ne_nil_of_left_ne_nil h.1 _, List.forall_mem_append.mpr ⟨h.2, h'⟩⟩

/-- Zero is a digit. -/
theorem isDigits_zero : IsDigits ['0'] :=
  ⟨List.cons_ne_nil _ _, List.forall_mem_singleton.mpr rfl⟩

/-- Zeros are digits. -/
theorem isDigit_of_mem_zeros {zeros : Nat} {c : Char} (h : c ∈ List.replicate zeros '0') :
    c.isDigit = true := by
  obtain rfl := List.eq_of_mem_replicate h
  decide

/-- A positional text has digits and a point only. -/
theorem IsPositional.eq_point_of_mem {text : List Char} (h : IsPositional text) {c : Char}
    (hc : c ∈ text) (hdigit : c.isDigit = false) : c = '.' := by
  obtain ⟨whole, places, rfl, hwhole, hplaces⟩ := h
  rcases List.mem_append.mp hc with hmem | hmem
  · exact absurd (hwhole.2 c hmem) (by simp [hdigit])
  · rcases List.mem_cons.mp hmem with rfl | hmem
    · rfl
    · exact absurd (hplaces.2 c hmem) (by simp [hdigit])

/-- A text that starts with a letter starts with a word. -/
theorem Piece.all_of_isAlphabetic {c : Char} (hc : Unicode.isAlphabetic c = true)
    (rest : List Char) :
    all (c :: rest) = ⟨.word, c :: (splitWord rest).1⟩ :: all (splitWord rest).2 := by
  rw [all, cut_of_isAlphabetic hc]
  rfl

/-- Such a text is not read as a number. -/
theorem Located.ofText_letter_ne {c : Char} (hc : Unicode.isAlphabetic c = true)
    (rest : List Char) (line : Nat) (d : Decimal) :
    ofText line (c :: rest) ≠ [⟨line, .number d⟩, ⟨line, .endOfInput⟩] := by
  intro h
  let word : Piece := ⟨.word, c :: (Piece.splitWord rest).1⟩
  have hword : word.token? = some (.word (String.ofList word.text)) := rfl
  have htokens := congrArg (List.map Located.token) h
  rw [ofText, map_token_ofPieces, Piece.all_of_isAlphabetic hc,
    List.filterMap_cons_some hword] at htokens
  have hkind := congrArg Token.kind (List.cons.inj htokens).1
  rcases Token.kind_word (String.ofList word.text) with hkeyword | hname
  · exact Kind.noConfusion (hkeyword.symm.trans hkind)
  · exact Kind.noConfusion (hname.symm.trans hkind)

namespace Binary64

/-- Decimals with the same nearest magnitude are the same number. -/
theorem ofDecimal_congr {d e : Decimal}
    (h : Magnitude.ofDecimal? d = Magnitude.ofDecimal? e) : ofDecimal d = ofDecimal e := by
  rw [ofDecimal, h, ofDecimal]

/-- A decimal with a nearest magnitude is a finite number. -/
theorem ofDecimal_of_readsBack {d : Decimal} {x : Magnitude} (h : x.ReadsBack d) :
    ofDecimal d = .finite false x := by
  rw [ofDecimal, h]
  rfl

/-- A decimal beyond all magnitudes is infinite. -/
theorem ofDecimal_of_none {d : Decimal} (h : Magnitude.ofDecimal? d = none) :
    ofDecimal d = .infinity false := by
  rw [ofDecimal, h]
  rfl

end Binary64

namespace Decimal

/-! ### Digits -/

/-- A number has digits. -/
theorem isDigits_toDigits (n : Nat) : IsDigits (Nat.toDigits 10 n) :=
  ⟨Nat.toDigits_ne_nil, fun _ hc => Nat.isDigit_of_mem_toDigits (by decide) (by decide) hc⟩

/-- The digits of a number denote it. -/
theorem valueOfDigits_toDigits (n : Nat) : valueOfDigits (Nat.toDigits 10 n) = n :=
  Nat.ofDigitChars_ten_toDigits

/-- Zeros in front of the digits do not count. -/
theorem valueOfDigits_zeros_append (zeros : Nat) (digits : List Char) :
    valueOfDigits (List.replicate zeros '0' ++ digits) = valueOfDigits digits := by
  change Nat.ofDigitChars 10 _ 0 = Nat.ofDigitChars 10 digits 0
  rw [Nat.ofDigitChars_append, Nat.ofDigitChars_replicate_zero, Nat.mul_zero]

/-- Each zero behind the digits makes the number ten times as great. -/
theorem valueOfDigits_append_zeros (digits : List Char) (zeros : Nat) :
    valueOfDigits (digits ++ List.replicate zeros '0') =
      Nat.pow 10 zeros * valueOfDigits digits := by
  change Nat.ofDigitChars 10 _ 0 = Nat.pow 10 zeros * Nat.ofDigitChars 10 digits 0
  rw [Nat.ofDigitChars_append, Nat.ofDigitChars_replicate_zero]
  rfl

/-- Digits behind the point are as many places. -/
theorem ofDigits_of_length {whole places : List Char} {n : Nat} (h : places.length = n + 1) :
    ofDigits whole places = ⟨valueOfDigits (whole ++ places), .negSucc n⟩ := by
  rw [ofDigits, h]
  rfl

/-! ### Texts with a point -/

/-- Whether a text of digits, a point and digits rounds to the number that a decimal rounds to. -/
def HasText (d : Decimal) (text : List Char) : Prop :=
  ∃ whole places, text = whole ++ '.' :: places ∧ IsDigits whole ∧ IsDigits places ∧
    Magnitude.ofDecimal? (ofDigits whole places) = Magnitude.ofDecimal? d

/-- A whole number is written with its zeros up to the point. -/
theorem hasText_ofNat (coefficient zeros : Nat) :
    HasText ⟨coefficient, .ofNat zeros⟩ (positional ⟨coefficient, .ofNat zeros⟩) := by
  refine ⟨Nat.toDigits 10 coefficient ++ List.replicate zeros '0', ['0'], rfl,
    (isDigits_toDigits coefficient).append fun _ => isDigit_of_mem_zeros, isDigits_zero, ?_⟩
  have hvalue : valueOfDigits (Nat.toDigits 10 coefficient ++ List.replicate zeros '0' ++ ['0']) =
      Nat.pow 10 (zeros + 1) * coefficient := by
    rw [List.append_assoc, ← List.replicate_succ', valueOfDigits_append_zeros,
      valueOfDigits_toDigits]
  rw [ofDigits, hvalue]
  refine Magnitude.ofRatio?_congr (denominator_pos _) (denominator_pos _) ?_
  rw [numerator_neg, denominator_neg, numerator_ofNat, denominator_ofNat, Nat.mul_one,
    Nat.mul_comm, Nat.mul_assoc]
  rfl

/-- A decimal with fewer places than digits is written with its digits only. -/
theorem hasText_of_lt_length {coefficient n : Nat}
    (h : n + 1 < (Nat.toDigits 10 coefficient).length) :
    HasText ⟨coefficient, .negSucc n⟩ (positional ⟨coefficient, .negSucc n⟩) := by
  have hdigits := isDigits_toDigits coefficient
  have hvalue := valueOfDigits_toDigits coefficient
  have htext : positional ⟨coefficient, .negSucc n⟩ =
      (Nat.toDigits 10 coefficient).take ((Nat.toDigits 10 coefficient).length - (n + 1)) ++
        '.' :: (Nat.toDigits 10 coefficient).drop
          ((Nat.toDigits 10 coefficient).length - (n + 1)) :=
    if_pos h
  generalize Nat.toDigits 10 coefficient = digits at *
  have hwhole : 0 < (digits.take (digits.length - (n + 1))).length := by
    rw [List.length_take]
    omega
  have hplaces : (digits.drop (digits.length - (n + 1))).length = n + 1 := by
    rw [List.length_drop]
    omega
  refine ⟨_, _, htext, ⟨List.ne_nil_of_length_pos hwhole, fun c hc => ?_⟩,
    ⟨List.ne_nil_of_length_pos (by omega), fun c hc => ?_⟩, ?_⟩
  · exact hdigits.2 c (List.mem_of_mem_take hc)
  · exact hdigits.2 c (List.mem_of_mem_drop hc)
  · rw [ofDigits_of_length hplaces, List.take_append_drop, hvalue]

/-- A decimal that is less than one is written with zeros behind the point. -/
theorem hasText_of_length_le {coefficient n : Nat}
    (h : (Nat.toDigits 10 coefficient).length ≤ n + 1) :
    HasText ⟨coefficient, .negSucc n⟩ (positional ⟨coefficient, .negSucc n⟩) := by
  have hdigits := isDigits_toDigits coefficient
  have hvalue := valueOfDigits_toDigits coefficient
  have htext : positional ⟨coefficient, .negSucc n⟩ =
      ['0'] ++ '.' :: (List.replicate (n + 1 - (Nat.toDigits 10 coefficient).length) '0' ++
        Nat.toDigits 10 coefficient) :=
    if_neg (Nat.not_lt.mpr h)
  generalize Nat.toDigits 10 coefficient = digits at *
  have hplaces : (List.replicate (n + 1 - digits.length) '0' ++ digits).length = n + 1 := by
    rw [List.length_append, List.length_replicate]
    omega
  refine ⟨_, _, htext, isDigits_zero, ⟨?_, ?_⟩, ?_⟩
  · exact List.append_ne_nil_of_right_ne_nil _ hdigits.1
  · exact List.forall_mem_append.mpr ⟨fun _ => isDigit_of_mem_zeros, hdigits.2⟩
  · rw [ofDigits_of_length hplaces, List.singleton_append, ← List.cons_append,
      ← List.replicate_succ, valueOfDigits_zeros_append, hvalue]

/-- **A decimal is written with a point without loss.** -/
theorem hasText_positional (d : Decimal) : d.HasText d.positional := by
  obtain ⟨coefficient, zeros | n⟩ := d
  · exact hasText_ofNat coefficient zeros
  · rcases Nat.lt_or_ge (n + 1) (Nat.toDigits 10 coefficient).length with hlt | hle
    · exact hasText_of_lt_length hlt
    · exact hasText_of_length_le hle

namespace HasText

variable {d : Decimal} {text : List Char}

/-- Such a text is positional. -/
theorem isPositional (h : d.HasText text) : IsPositional text := by
  obtain ⟨whole, places, htext, hwhole, hplaces, -⟩ := h
  exact ⟨whole, places, htext, hwhole, hplaces⟩

/-- **Such a text is read as the number.** -/
theorem ofText_eq (h : d.HasText text) (line : Nat) :
    Located.ofText line text = [⟨line, .number d⟩, ⟨line, .endOfInput⟩] := by
  obtain ⟨whole, places, rfl, hwhole, hplaces, hround⟩ := h
  have hsegment : Segment ⟨.number, whole ++ '.' :: places⟩
      (some (.number (ofDigits whole places))) [] := .fraction hwhole.1 hwhole.2 ⟨hplaces.2, nofun⟩
  have hall := (Segmented.cons hsegment .nil).eq_all.1
  have hnumber : Token.number (ofDigits whole places) = .number d := by
    rw [Token.number, Binary64.ofDecimal_congr hround, Token.number]
  rw [List.append_nil] at hall
  rw [Located.ofText, ← hall, Located.ofPieces, ← hsegment.token_eq, hnumber]
  rfl

end HasText

/-! ### Texts with an exponent -/

/-- A text with an exponent has the letter before it, so that it is not positional. -/
theorem not_isPositional_scientific (d : Decimal) : ¬ IsPositional d.scientific := by
  intro h
  have hmem : 'e' ∈ d.scientific := by simp [scientific]
  exact absurd (h.eq_point_of_mem hmem (by decide)) (by decide)

/-- The characters before the exponent are a number. -/
theorem segment_scientific (d : Decimal) : ∃ piece token rest,
    d.scientific = piece.text ++ 'e' :: rest ∧ Segment piece (some token) ('e' :: rest) := by
  obtain ⟨hne, hdigits⟩ : IsDigits d.digits := isDigits_toDigits d.coefficient
  match hdigit : d.digits with
  | [] => exact absurd hdigit hne
  | [c] =>
    refine ⟨⟨.number, [c]⟩, _, signedDigits d.leadingExponent, ?_,
      .whole (by simp) (.of_next (hdigit ▸ hdigits) rfl) (by simp)⟩
    simp [scientific, hdigit]
  | c :: place :: places =>
    rw [hdigit] at hdigits
    have hfurther := List.forall_mem_cons.mp hdigits
    refine ⟨⟨.number, [c] ++ '.' :: place :: places⟩, _, signedDigits d.leadingExponent, ?_,
      .fraction (by simp) (List.forall_mem_singleton.mpr hfurther.1) (.of_next hfurther.2 rfl)⟩
    simp [scientific, hdigit]

/-- **A text with an exponent is not read as a number.**  There is a word behind the number. -/
theorem ofText_scientific_ne (d : Decimal) (line : Nat) (a : Token) :
    Located.ofText line d.scientific ≠ [⟨line, a⟩, ⟨line, .endOfInput⟩] := by
  intro h
  obtain ⟨piece, token, rest, htext, hpiece⟩ := segment_scientific d
  let word : Piece := ⟨.word, 'e' :: (Piece.splitWord rest).1⟩
  have hall : Piece.all ('e' :: rest) = word :: Piece.all (Piece.splitWord rest).2 :=
    Piece.all_of_isAlphabetic (by decide) rest
  have hword : word.token? = some (.word (String.ofList word.text)) := rfl
  have hpieces := (Segmented.cons hpiece (Segmented.all ('e' :: rest))).eq_all.1
  have htokens := congrArg (List.map Located.token) h
  rw [Located.ofText, Located.map_token_ofPieces, htext, ← hpieces, hall,
    List.filterMap_cons_some hpiece.token_eq.symm, List.filterMap_cons_some hword] at htokens
  simpa using congrArg List.length htokens

/-! ### The leading digit -/

/-- A number of so many digits is less than a power of ten. -/
theorem mul_pow_lt_iff {n : Nat} (hn : 0 < n) (j k : Nat) :
    n * Nat.pow 10 j < Nat.pow 10 k ↔ (Nat.toDigits 10 n).length + j ≤ k := by
  have hlength : 0 < (Nat.toDigits 10 n).length := Nat.length_toDigits_pos
  rcases Nat.lt_or_ge j k with hlt | hge
  · obtain ⟨places, rfl⟩ : ∃ places, k = places + j := ⟨k - j, by omega⟩
    have hpow : Nat.pow 10 (places + j) = Nat.pow 10 places * Nat.pow 10 j := Nat.pow_add 10 _ _
    have hdigits : (Nat.toDigits 10 n).length ≤ places ↔ n < Nat.pow 10 places :=
      Nat.length_toDigits_le_iff (by decide) (by omega)
    have hpos : 0 < Nat.pow 10 j := Nat.pow_pos (by decide)
    rw [hpow, Nat.mul_lt_mul_right hpos, ← hdigits]
    omega
  · have hpow : Nat.pow 10 k ≤ n * Nat.pow 10 j :=
      Nat.le_trans (Nat.pow_le_pow_right (by decide) hge) (Nat.le_mul_of_pos_left _ hn)
    omega

/-- **The leading digit places a decimal among the powers of ten.** -/
theorem lt_power_iff {d : Decimal} (h : 0 < d.coefficient) (exponent : Int) :
    d < ⟨1, exponent⟩ ↔ d.leadingExponent < exponent := by
  rw [lt_def]
  change d.coefficient * Nat.pow 10 d.exponent.toNat * Nat.pow 10 (-exponent).toNat <
    1 * Nat.pow 10 exponent.toNat * Nat.pow 10 (-d.exponent).toNat ↔ _
  have hpow (j k : Nat) : Nat.pow 10 j * Nat.pow 10 k = Nat.pow 10 (j + k) :=
    (Nat.pow_add 10 j k).symm
  rw [Nat.one_mul, Nat.mul_assoc, hpow, hpow, mul_pow_lt_iff h, leadingExponent, digits]
  omega

end Decimal

/-! ### Moderate numbers -/

/-- Whether a number is zero, or at least a ten-thousandth and less than ten to the sixteenth. -/
def Binary64.IsModerate : Binary64 → Prop
  | .finite _ x => x.mantissa = 0 ∨ ⟨1, -4⟩ ≤ x.exact ∧ x.exact < ⟨1, 16⟩
  | _ => False

namespace Magnitude

/-- Both bounds of moderate numbers are rounded up.  A ten-thousandth is the shortest decimal of a
magnitude that is a little greater, and ten to the sixteenth is a magnitude itself. -/
theorem roundsUp_bounds : RoundsUp ⟨1, -4⟩ ∧ RoundsUp ⟨1, 16⟩ := by
  constructor
  · exact ⟨⟨7378697629483821, 1008, by decide, by decide, .inr (by decide)⟩, by decide +kernel⟩
  · exact ⟨⟨5000000000000000, 1075, by decide, by decide, .inr (by decide)⟩, by decide +kernel⟩

/-- The shortest decimal of a magnitude that is not zero is not zero either. -/
theorem coefficient_shortest_pos {x : Magnitude} (h : x.mantissa ≠ 0) :
    0 < x.shortest.coefficient := by
  refine Nat.pos_of_ne_zero fun hcoefficient => h ?_
  have hread : ofDecimal? x.shortest = some x := readsBack_shortest x
  have hround : ofDecimal? x.shortest = ofDecimal? ⟨0, 0⟩ := by
    refine ofRatio?_congr (Decimal.denominator_pos _) (Decimal.denominator_pos _) ?_
    rw [Decimal.numerator, hcoefficient, Decimal.numerator, Nat.zero_mul, Nat.zero_mul,
      Nat.zero_mul, Nat.zero_mul]
  rw [hround, readsBack_zero] at hread
  rw [← Option.some.inj hread]
  rfl

/-- **The magnitudes that are written with a point.** -/
theorem leadingExponent_iff (x : Magnitude) (negative : Bool) :
    Token.numberLayout.least ≤ x.shortest.leadingExponent ∧
        x.shortest.leadingExponent ≤ Token.numberLayout.greatest ↔
      (Binary64.finite negative x).IsModerate := by
  change -4 ≤ x.shortest.leadingExponent ∧ x.shortest.leadingExponent ≤ 15 ↔
    x.mantissa = 0 ∨ ⟨1, -4⟩ ≤ x.exact ∧ x.exact < ⟨1, 16⟩
  by_cases hzero : x.mantissa = 0
  · have hshortest : x.shortest = ⟨0, 0⟩ := if_pos hzero
    rw [hshortest]
    exact iff_of_true (by decide) (.inl hzero)
  · have hpos := coefficient_shortest_pos hzero
    obtain ⟨hleast, hgreatest⟩ := roundsUp_bounds
    rw [or_iff_right hzero, ← Decimal.not_lt, ← shortest_lt_iff x hleast,
      ← shortest_lt_iff x hgreatest, Decimal.lt_power_iff hpos, Decimal.lt_power_iff hpos]
    omega

end Magnitude

/-! ### Numbers of a source -/

namespace Token

/-- The characters of a finite number are those of its shortest decimal. -/
theorem toList_text_number {d : Decimal} {x : Magnitude} (h : x.ReadsBack d) :
    (number d).text.toList = x.shortest.written numberLayout := by
  rw [number, numberText, Binary64.ofDecimal_of_readsBack h, String.toList_ofList]
  rfl

/-- A number beyond the greatest finite one has a word. -/
theorem text_number_of_none {d : Decimal} (h : Magnitude.ofDecimal? d = none) :
    (number d).text = "inf" := by
  rw [number, numberText, Binary64.ofDecimal_of_none h]
  rfl

/-- **The text of a number.**  It is positional, and it is read as the same number on its own, if
and only if the number is moderate. -/
theorem text_number_iff (d : Decimal) :
    (IsPositional (number d).text.toList ↔ (Binary64.ofDecimal d).IsModerate) ∧
      (Located.ofSource (number d).text = [⟨1, number d⟩, ⟨1, .endOfInput⟩] ↔
        (Binary64.ofDecimal d).IsModerate) := by
  cases hround : Magnitude.ofDecimal? d with
  | none =>
    have hinfinite : ¬(Binary64.ofDecimal d).IsModerate := by
      rw [Binary64.ofDecimal_of_none hround]
      exact id
    rw [text_number_of_none hround]
    refine ⟨iff_of_false (fun h => ?_) hinfinite, iff_of_false (fun h => ?_) hinfinite⟩
    · exact absurd (h.eq_point_of_mem (c := 'i') (by decide) (by decide)) (by decide)
    · exact Located.ofText_letter_ne (by decide) ['n', 'f'] 1 d h
  | some x =>
    have htext := toList_text_number hround
    have hnumber : number x.shortest = number d := by
      have hread : Magnitude.ofDecimal? x.shortest = some x := x.readsBack_shortest
      rw [number, Binary64.ofDecimal_congr (hread.trans hround.symm), number]
    rw [Located.ofSource, htext, Binary64.ofDecimal_of_readsBack hround, ← x.leadingExponent_iff,
      Decimal.written]
    split
    · rename_i hleading
      have hpositional := x.shortest.hasText_positional
      refine ⟨iff_of_true hpositional.isPositional hleading, iff_of_true ?_ hleading⟩
      rw [hpositional.ofText_eq, hnumber]
    · rename_i hleading
      exact ⟨iff_of_false x.shortest.not_isPositional_scientific hleading,
        iff_of_false (x.shortest.ofText_scientific_ne 1 _) hleading⟩

/-- A half is written with one digit on each side of the point, and read again from this text. -/
example :
    (number ⟨50, -2⟩).text = "0.5" ∧
      Located.ofSource "0.5" = [⟨1, number ⟨50, -2⟩⟩, ⟨1, .endOfInput⟩] := by
  decide +kernel

end Token

/-- Only a number piece stands for a number. -/
theorem Piece.kind_of_token?_number {piece : Piece} {token : Token}
    (h : piece.token? = some token) (hkind : token.kind = .number) :
    piece.kind = .number ∧ token = .number piece.decimal := by
  unfold token? at h
  split at h <;> simp only [Option.some.injEq, reduceCtorEq] at h <;> subst h
  case h_5 hnumber => exact ⟨hnumber, rfl⟩
  case h_6 =>
    rcases Token.kind_word (String.ofList piece.text) with hword | hword <;>
      exact Kind.noConfusion (hword.symm.trans hkind)
  all_goals exact Kind.noConfusion hkind

/-- **The texts of the numbers of a source.**  The token of each number has a text of digits, a
point and digits if and only if the number that its literal is rounded to is moderate: zero, or at
least a ten-thousandth and less than ten to the sixteenth.  For the same numbers, and for no
others, the text on its own is read as the same token and the end of the input. -/
theorem number_text_iff_moderate (source : String) (a : Located)
    (ha : a ∈ Located.ofSource source) (hkind : a.token.kind = .number) :
    ∃ piece ∈ Piece.all source.toList, piece.kind = .number ∧ a.token = .number piece.decimal ∧
      (IsPositional a.token.text.toList ↔ (Binary64.ofDecimal piece.decimal).IsModerate) ∧
      (Located.ofSource a.token.text = [⟨1, a.token⟩, ⟨1, .endOfInput⟩] ↔
        (Binary64.ofDecimal piece.decimal).IsModerate) := by
  have hmem : a.token ∈ (Located.ofSource source).map Located.token := List.mem_map_of_mem ha
  rw [Located.ofSource, Located.ofText, Located.map_token_ofPieces] at hmem
  rcases List.mem_append.mp hmem with hpiece | hend
  · obtain ⟨piece, hpiece, htoken⟩ := List.mem_filterMap.mp hpiece
    obtain ⟨hnumber, hdecimal⟩ := Piece.kind_of_token?_number htoken hkind
    refine ⟨piece, hpiece, hnumber, hdecimal, ?_⟩
    rw [hdecimal]
    exact Token.text_number_iff piece.decimal
  · rw [List.mem_singleton.mp hend] at hkind
    exact Kind.noConfusion hkind

/-- A number with a point in the source, and its text. -/
theorem number_text_of_half :
    let source := "wait 0.50 s"
    let a : Located := ⟨1, ⟨.number, "0.5"⟩⟩
    a ∈ Located.ofSource source ∧ ∃ piece ∈ Piece.all source.toList, piece.kind = .number ∧
      a.token = .number piece.decimal ∧
      (IsPositional a.token.text.toList ↔ (Binary64.ofDecimal piece.decimal).IsModerate) ∧
      (Located.ofSource a.token.text = [⟨1, a.token⟩, ⟨1, .endOfInput⟩] ↔
        (Binary64.ofDecimal piece.decimal).IsModerate) := by
  intro source a
  have ha : a ∈ Located.ofSource source := by decide +kernel
  exact ⟨ha, number_text_iff_moderate source a ha rfl⟩

/-- The text of ten to the sixteenth has no point, and it is read as a number and a name. -/
theorem tenToSixteenth_text :
    let a : Token := ⟨.number, "1e16"⟩
    Located.ofSource "10000000000000000" = [⟨1, a⟩, ⟨1, .endOfInput⟩] ∧
      ¬ IsPositional a.text.toList ∧
      Located.ofSource a.text = [⟨1, ⟨.number, "1.0"⟩⟩, ⟨1, ⟨.name, "e16"⟩⟩, ⟨1, .endOfInput⟩] := by
  refine ⟨by decide +kernel, fun h => ?_, by decide +kernel⟩
  exact absurd (h.eq_point_of_mem (c := 'e') (by decide) (by decide)) (by decide)

end BugLang
