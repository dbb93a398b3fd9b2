import BugLang.Unicode.Alphabetic

/-!
# White space

The characters with the Unicode property White_Space.  Between two tokens they
mean nothing, apart from the line ends, which the language reads as tokens.
-/

namespace BugLang.Unicode

/-- The ranges of the property White_Space. -/
def whiteSpaceRanges : RangeTable :=
  [(0x9, 0xD), (0x20, 0x20), (0x85, 0x85), (0xA0, 0xA0), (0x1680, 0x1680), (0x2000, 0x200A),
   (0x2028, 0x2029), (0x202F, 0x202F), (0x205F, 0x205F), (0x3000, 0x3000)]

/-- Whether a character has the Unicode property White_Space. -/
def isWhiteSpace (c : Char) : Bool :=
  whiteSpaceRanges.covers c.toNat

/-- The white space of ASCII is white space. -/
theorem isWhiteSpace_of_isWhitespace {c : Char} (h : c.isWhitespace = true) :
    isWhiteSpace c = true := by
  simp only [Char.isWhitespace, Bool.or_eq_true, decide_eq_true_eq] at h
  rcases h with ((rfl | rfl) | rfl) | rfl <;> decide

/-- No ASCII letter is white space. -/
theorem isAlpha_eq_false_of_isWhiteSpace {c : Char} (h : isWhiteSpace c = true) :
    c.isAlpha = false := by
  obtain ⟨range, hrange, hfirst, hlast⟩ := RangeTable.covers_iff.mp h
  have houtside : ∀ range ∈ whiteSpaceRanges,
      range.2 < 65 ∨ 90 < range.1 ∧ range.2 < 97 ∨ 122 < range.1 := by decide
  have hbetween := houtside range hrange
  exact isAlpha_eq_false (by omega)

/-- No digit is white space. -/
theorem isDigit_eq_false_of_isWhiteSpace {c : Char} (h : isWhiteSpace c = true) :
    c.isDigit = false := by
  obtain ⟨range, hrange, hfirst, hlast⟩ := RangeTable.covers_iff.mp h
  have houtside : ∀ range ∈ whiteSpaceRanges, range.2 < 48 ∨ 57 < range.1 := by decide
  have hbetween := houtside range hrange
  have hcode : c.toNat = c.val.toNat := rfl
  simp only [Char.isDigit, Bool.and_eq_false_iff, decide_eq_false_iff_not, ge_iff_le,
    UInt32.le_iff_toNat_le, Char.reduceVal, UInt32.reduceToNat]
  omega

/-- **White space is not part of words.**  No alphabetic character is white space. -/
theorem isAlphabetic_eq_false_of_isWhiteSpace {c : Char} (h : isWhiteSpace c = true) :
    isAlphabetic c = false := by
  have hbelow : whiteSpaceRanges.apart alphabeticBelow1000 = true := by decide
  have hmiddle : whiteSpaceRanges.apart alphabeticBelow10000 = true := by decide
  have habove : whiteSpaceRanges.apart alphabeticSupplementary = true := by decide +kernel
  rw [isAlphabetic, isAlpha_eq_false_of_isWhiteSpace h, RangeTable.not_covers_of_apart hbelow h,
    RangeTable.not_covers_of_apart hmiddle h, RangeTable.not_covers_of_apart habove h]
  simp

end BugLang.Unicode
