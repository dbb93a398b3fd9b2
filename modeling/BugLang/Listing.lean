import BugLang.Json
import BugLang.Token.Located

/-!
# Listings of tokens

The tokens of a source, with their lines, one below the other: as rows of text in
columns, or as an array of JSON objects.
-/

namespace BugLang.Listing

/-- A text pushed to the right end of a column. -/
def padLeft (width : Nat) (text : List Char) : List Char :=
  List.replicate (width - text.length) ' ' ++ text

/-- A text at the left end of a column. -/
def padRight (width : Nat) (text : List Char) : List Char :=
  text ++ List.replicate (width - text.length) ' '

/-- The text of a token as it stands in a row, where a line end is written out. -/
def shownText (text : String) : String :=
  if text = "\n" then "\\n" else text

/-- The row of a token: the line, the kind and the text. -/
def row (located : Located) : List Char :=
  padLeft 4 (Nat.toDigits 10 located.line) ++ ' ' ::
    (padRight 7 located.token.kind.label.toList ++ ' ' ::
      ((shownText located.token.text).toList ++ ['\n']))

/-- The rows of some tokens. -/
def text (tokens : List Located) : List Char :=
  tokens.flatMap row

/-- The object of a token. -/
def object (located : Located) : Json :=
  .object
    [("line", .number located.line),
     ("kind", .string located.token.kind.label),
     ("text", .string located.token.text)]

/-- The objects of some tokens. -/
def json (tokens : List Located) : Json :=
  .array (tokens.map object)

end BugLang.Listing
