import BugLang.Binary64.Text
import BugLang.Unicode.Alphabetic

/-!
# Tokens

A token is a kind and a text.  Names, keywords, numbers and symbols carry the text
that they are read from, numbers in a canonical form that always has a fraction or
an exponent.  Two tokens stand for no text of their own: the end of a line and the
end of the input.

`Token.ofText` gives the token of a node that a tree needs and the source does not
spell out; its kind follows from the text alone.
-/

namespace BugLang

/-- The kinds of tokens. -/
inductive Kind
  | name
  | keyword
  | number
  | symbol
  | lineEnd
  | endOfInput
deriving DecidableEq, Repr

namespace Kind

/-- All kinds. -/
def all : List Kind :=
  [.name, .keyword, .number, .symbol, .lineEnd, .endOfInput]

/-- The label of a kind in listings. -/
def label : Kind → String
  | .name => "NAME"
  | .keyword => "KEYWORD"
  | .number => "NUMBER"
  | .symbol => "SYMBOL"
  | .lineEnd => "EOL"
  | .endOfInput => "EOF"

/-- The kind with a given label. -/
def ofLabel? (label : String) : Option Kind :=
  all.find? fun kind => kind.label = label

/-- A label stands for one kind only. -/
theorem ofLabel?_label (kind : Kind) : ofLabel? kind.label = some kind := by
  cases kind <;> decide

end Kind

/-- The reserved words of statements and definitions, then the colors. -/
def keywords : List String :=
  ["Allbugs", "Bug", "case", "color", "define", "do", "exit", "if", "initially", "line", "loop",
   "move", "moveto", "return", "switch", "turn", "turnto", "using", "var",
   "black", "blue", "brown", "cyan", "darkGray", "gray", "green", "lightGray", "magenta",
   "orange", "pink", "purple", "red", "white", "yellow", "none"]

/-- Whether a word is reserved.  Case matters. -/
def isKeyword (word : String) : Bool :=
  keywords.contains word

/-- A kind and a text. -/
structure Token where
  kind : Kind
  text : String
deriving DecidableEq, Repr

namespace Token

/-- The end of a line. -/
def lineEnd : Token := ⟨.lineEnd, "\n"⟩

/-- The end of the input. -/
def endOfInput : Token := ⟨.endOfInput, "EOF"⟩

/-- A reserved word. -/
def keyword (word : String) : Token := ⟨.keyword, word⟩

/-- A symbol. -/
def symbol (text : String) : Token := ⟨.symbol, text⟩

/-- A word of the source: a keyword if it is reserved, else a name. -/
def word (text : String) : Token :=
  ⟨if isKeyword text then .keyword else .name, text⟩

/-- A word has the kind of a keyword or of a name. -/
theorem kind_word (text : String) :
    (word text).kind = .keyword ∨ (word text).kind = .name := by
  unfold word
  dsimp only
  split
  · exact .inl rfl
  · exact .inr rfl

/-- Numbers are written positionally from a ten-thousandth up to sixteen digits
before the point, and with an exponent elsewhere. -/
def numberLayout : Decimal.Layout := ⟨-4, 15⟩

/-- The canonical text of a floating point number. -/
def numberText (x : Binary64) : String :=
  String.ofList (x.written numberLayout)

/-- The number token of a decimal, which is first rounded to floating point. -/
def number (d : Decimal) : Token :=
  ⟨.number, numberText (.ofDecimal d)⟩

/-- The kind that a text would have by its looks. -/
def kindOfText (text : String) : Kind :=
  if isKeyword text then .keyword
  else
    match text.toList with
    | [] => .symbol
    | c :: _ =>
      if Unicode.isAlphabetic c then .name
      else if c.isDigit then .number
      else if c = '\n' then .lineEnd
      else .symbol

/-- The token of a node that is made without one from the source. -/
def ofText (text : String) : Token :=
  ⟨kindOfText text, text⟩

end Token

end BugLang
