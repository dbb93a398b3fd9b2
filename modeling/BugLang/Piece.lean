import BugLang.Token
import BugLang.Unicode.Numeric
import BugLang.Unicode.WhiteSpace

/-!
# The pieces of a source text

A source text falls into pieces, each of which is settled by where it starts: line
ends, comments, blanks, numbers, words, quoted runs and single other characters.
`Piece.cut` takes the piece off the front of a text, and `Piece.all` takes a whole
text apart.

* `Piece.cut_append`: a piece and what is left of the text are the text.
* `Piece.cut_text_ne_nil`: a piece is never empty, so that the cutting ends.
* `Piece.flatten_all`: the pieces of a text make up the text.
-/

namespace BugLang

/-- What a piece of a source text is. -/
inductive PieceKind
  | lineEnd
  | lineComment
  | blockComment
  | blank
  | number
  | word
  | quoted
  | other
deriving DecidableEq, Repr

/-- A run of characters of a source text that belong together. -/
structure Piece where
  kind : PieceKind
  text : List Char
deriving DecidableEq, Repr

/-- A piece, and the text that follows it. -/
structure Cut where
  piece : Piece
  rest : List Char
deriving DecidableEq, Repr

namespace Piece

/-- Whether a character ends a line.  Comments that take one line, and quoted runs,
stop before it. -/
def isLineBreak (c : Char) : Bool :=
  c = '\n' || c = '\r'

/-- The characters up to the next line break, and the rest. -/
def splitLine (text : List Char) : List Char × List Char :=
  (text.takeWhile (fun c => !isLineBreak c), text.dropWhile (fun c => !isLineBreak c))

/-- The characters through the first `*/`, and the rest.  Without a `*/` these are
all characters. -/
def splitComment : List Char → List Char × List Char
  | [] => ([], [])
  | c :: text =>
    if c = '*' ∧ text.head? = some '/' then
      ([c, '/'], text.tail)
    else
      (c :: (splitComment text).1, (splitComment text).2)

/-- The characters through the next quotation mark, and the rest.  A line break
comes first if there is one on the way. -/
def splitQuote (text : List Char) : List Char × List Char :=
  let inner := text.takeWhile (fun c => !(c = '"' || isLineBreak c))
  let after := text.dropWhile (fun c => !(c = '"' || isLineBreak c))
  if after.head? = some '"' then (inner ++ ['"'], after.tail) else (inner, after)

/-- The digits at the front with the point that follows them and the digits behind
the point, and the rest.  A point belongs to the number also if no digit follows. -/
def splitNumber (text : List Char) : List Char × List Char :=
  let whole := text.takeWhile Char.isDigit
  let after := text.dropWhile Char.isDigit
  if after.head? = some '.' then
    (whole ++ '.' :: after.tail.takeWhile Char.isDigit, after.tail.dropWhile Char.isDigit)
  else
    (whole, after)

/-- The letters and numbers at the front, and the rest. -/
def splitWord (text : List Char) : List Char × List Char :=
  (text.takeWhile Unicode.isAlphanumeric, text.dropWhile Unicode.isAlphanumeric)

/-- The cut after some characters that are split off behind the first one. -/
def cutAfter (kind : PieceKind) (c : Char) (split : List Char × List Char) : Cut :=
  ⟨⟨kind, c :: split.1⟩, split.2⟩

/-- The piece at the front of the text `c :: text`, and what follows it. -/
def cut (c : Char) (text : List Char) : Cut :=
  if c = '\n' then
    cutAfter .lineEnd c ([], text)
  else if c = '\r' then
    cutAfter .lineEnd c (if text.head? = some '\n' then (['\n'], text.tail) else ([], text))
  else if c = '/' ∧ text.head? = some '/' then
    cutAfter .lineComment c (splitLine text)
  else if c = '/' ∧ text.head? = some '*' then
    cutAfter .blockComment c ('*' :: (splitComment text.tail).1, (splitComment text.tail).2)
  else if Unicode.isWhiteSpace c then
    cutAfter .blank c ([], text)
  else if c.isDigit then
    cutAfter .number c (splitNumber text)
  else if Unicode.isAlphabetic c then
    cutAfter .word c (splitWord text)
  else if c = '"' then
    cutAfter .quoted c (splitQuote text)
  else
    cutAfter .other c ([], text)

private theorem cons_tail_of_head? {c : Char} {text : List Char} (h : text.head? = some c) :
    c :: text.tail = text := by
  cases text with
  | nil => simp at h
  | cons d rest => simp_all

/-- A line is split without loss. -/
theorem splitLine_append (text : List Char) : (splitLine text).1 ++ (splitLine text).2 = text :=
  List.takeWhile_append_dropWhile

/-- A comment is split without loss. -/
theorem splitComment_append (text : List Char) :
    (splitComment text).1 ++ (splitComment text).2 = text := by
  induction text with
  | nil => rfl
  | cons c text ih =>
    unfold splitComment
    split
    · rename_i h
      simp [cons_tail_of_head? h.2]
    · simp [ih]

/-- A quoted run is split without loss. -/
theorem splitQuote_append (text : List Char) :
    (splitQuote text).1 ++ (splitQuote text).2 = text := by
  unfold splitQuote
  dsimp only
  split
  · rename_i h
    rw [List.append_assoc, List.singleton_append, cons_tail_of_head? h,
      List.takeWhile_append_dropWhile]
  · exact List.takeWhile_append_dropWhile

/-- A number is split without loss. -/
theorem splitNumber_append (text : List Char) :
    (splitNumber text).1 ++ (splitNumber text).2 = text := by
  unfold splitNumber
  dsimp only
  split
  · rename_i h
    rw [List.append_assoc, List.cons_append, List.takeWhile_append_dropWhile,
      cons_tail_of_head? h, List.takeWhile_append_dropWhile]
  · exact List.takeWhile_append_dropWhile

/-- A word is split without loss. -/
theorem splitWord_append (text : List Char) : (splitWord text).1 ++ (splitWord text).2 = text :=
  List.takeWhile_append_dropWhile

private theorem cutAfter_append {kind : PieceKind} {c : Char} {split : List Char × List Char}
    {text : List Char} (h : split.1 ++ split.2 = text) :
    (cutAfter kind c split).piece.text ++ (cutAfter kind c split).rest = c :: text := by
  simp [cutAfter, h]

/-- **Nothing is lost.**  A piece and what follows it make up the text. -/
theorem cut_append (c : Char) (text : List Char) :
    (cut c text).piece.text ++ (cut c text).rest = c :: text := by
  unfold cut
  repeat' split
  · exact cutAfter_append rfl
  · rename_i h
    exact cutAfter_append (cons_tail_of_head? h)
  · exact cutAfter_append rfl
  · exact cutAfter_append (splitLine_append text)
  · rename_i h
    refine cutAfter_append ?_
    rw [List.cons_append, splitComment_append]
    exact cons_tail_of_head? h.2
  · exact cutAfter_append rfl
  · exact cutAfter_append (splitNumber_append text)
  · exact cutAfter_append (splitWord_append text)
  · exact cutAfter_append (splitQuote_append text)
  · exact cutAfter_append rfl

/-- A piece starts with the character that it is cut at. -/
theorem head?_cut_text (c : Char) (text : List Char) :
    (cut c text).piece.text.head? = some c := by
  unfold cut
  repeat' split
  all_goals rfl

/-- A piece is not empty. -/
theorem cut_text_ne_nil (c : Char) (text : List Char) : (cut c text).piece.text ≠ [] := by
  intro h
  have := head?_cut_text c text
  simp [h] at this

/-- What follows a piece is no longer than what follows its first character. -/
theorem length_cut_rest_le (c : Char) (text : List Char) :
    (cut c text).rest.length ≤ text.length := by
  have hall := congrArg List.length (cut_append c text)
  have hpos := List.length_pos_iff.mpr (cut_text_ne_nil c text)
  simp only [List.length_append, List.length_cons] at hall
  omega

/-- The pieces of a text, in order. -/
def all : List Char → List Piece
  | [] => []
  | c :: text => (cut c text).piece :: all (cut c text).rest
termination_by text => text.length
decreasing_by
  have := length_cut_rest_le c text
  simp only [List.length_cons]
  omega

/-- The pieces of a text make up the text. -/
theorem flatten_all (text : List Char) : ((all text).map Piece.text).flatten = text := by
  fun_induction all text with
  | case1 => rfl
  | case2 c text ih => rw [List.map_cons, List.flatten_cons, ih, cut_append]

/-- The number of lines that end within a piece.  Inside a block comment only line
feeds count. -/
def lineCount (piece : Piece) : Nat :=
  match piece.kind with
  | .lineEnd => 1
  | .blockComment => piece.text.count '\n'
  | _ => 0

/-- The decimal that a number piece denotes. -/
def decimal (piece : Piece) : Decimal :=
  .ofDigits (piece.text.takeWhile Char.isDigit) ((piece.text.dropWhile Char.isDigit).drop 1)

/-- The token of a piece.  Comments and blanks have none, and of a quoted run only
the quotation mark is kept, which no rule of the language accepts. -/
def token? (piece : Piece) : Option Token :=
  match piece.kind with
  | .lineEnd => some .lineEnd
  | .lineComment => none
  | .blockComment => none
  | .blank => none
  | .number => some (.number piece.decimal)
  | .word => some (.word (String.ofList piece.text))
  | .quoted => some (.symbol "\"")
  | .other => some (.symbol (String.ofList piece.text))

end Piece

end BugLang
