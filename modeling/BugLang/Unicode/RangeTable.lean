/-!
# Tables of code points

A property of characters is given as a list of ranges of code points.  Each range
names its first and its last member, and the ranges of a table ascend.
-/

namespace BugLang.Unicode

/-- Ranges of code points, each given by its first and its last member. -/
abbrev RangeTable := List (Nat × Nat)

/-- Whether a code point lies in one of the ranges of a table. -/
def RangeTable.covers (table : RangeTable) (codePoint : Nat) : Bool :=
  table.any fun (first, last) => first ≤ codePoint && codePoint ≤ last

/-- A table covers exactly the members of its ranges. -/
theorem RangeTable.covers_iff {table : RangeTable} {codePoint : Nat} :
    table.covers codePoint = true ↔
      ∃ range ∈ table, range.1 ≤ codePoint ∧ codePoint ≤ range.2 := by
  simp [RangeTable.covers]

/-- Whether no range of one table meets a range of another. -/
def RangeTable.apart (table other : RangeTable) : Bool :=
  table.all fun range => other.all fun range' => range.2 < range'.1 || range'.2 < range.1

/-- Tables that are apart have no code point in common. -/
theorem RangeTable.not_covers_of_apart {table other : RangeTable} {codePoint : Nat}
    (happart : table.apart other = true) (h : table.covers codePoint = true) :
    other.covers codePoint = false := by
  rw [← Bool.not_eq_true, covers_iff]
  intro hother
  obtain ⟨range', hrange', hfirst', hlast'⟩ := hother
  obtain ⟨range, hrange, hfirst, hlast⟩ := covers_iff.mp h
  have hbetween := List.all_eq_true.mp (List.all_eq_true.mp happart range hrange) range' hrange'
  simp only [Bool.or_eq_true, decide_eq_true_eq] at hbetween
  omega

end BugLang.Unicode
