import BugLang.Binary64.Shortest

/-!
# Floating point numbers as text

A finite number is written as its shortest decimal after a sign if it is negative,
zero included.  The other numbers have words.
-/

namespace BugLang.Binary64

/-- The sign that is written before a number. -/
def signText (negative : Bool) : List Char :=
  if negative then ['-'] else []

/-- A number as a layout writes it. -/
def written (layout : Decimal.Layout) : Binary64 → List Char
  | .nan => ['N', 'a', 'N']
  | .infinity negative => signText negative ++ ['i', 'n', 'f']
  | .finite negative magnitude => signText negative ++ magnitude.shortest.written layout

end BugLang.Binary64
