import BugLang.Piece

/-!
# The tokens of a source text

The tokens of a text are those of its pieces, each with the line it stands on, and
the end of the input behind them.  Lines count from one, and the end of a line
stands on the line that it ends.

`Located.ofText_eq` reads a text token by token: `Reading.ofText` finds the first
token and the text behind it, and the tokens of that text follow.
-/

namespace BugLang

/-- A token and the line that it stands on. -/
structure Located where
  line : Nat
  token : Token
deriving DecidableEq, Repr

namespace Located

/-- The tokens of some pieces, the first of which starts on the given line. -/
def ofPieces (line : Nat) : List Piece → List Located
  | [] => [⟨line, .endOfInput⟩]
  | piece :: pieces =>
    match piece.token? with
    | some token => ⟨line, token⟩ :: ofPieces (line + piece.lineCount) pieces
    | none => ofPieces (line + piece.lineCount) pieces

/-- The tokens of a text that starts on the given line. -/
def ofText (line : Nat) (text : List Char) : List Located :=
  ofPieces line (Piece.all text)

/-- The tokens of a source. -/
def ofSource (source : String) : List Located :=
  ofText 1 source.toList

end Located

/-- The number of lines that a token ends. -/
def Token.lineCount (token : Token) : Nat :=
  if token.kind = .lineEnd then 1 else 0

/-- The first token of a text, the line that it stands on, and the text behind it. -/
structure Reading where
  token : Token
  line : Nat
  rest : List Char
deriving DecidableEq, Repr

/-- Passes over the pieces without a token, counting the lines that end in them. -/
def Reading.ofText (line : Nat) : List Char → Reading
  | [] => ⟨.endOfInput, line, []⟩
  | c :: text =>
    let cut := Piece.cut c text
    match cut.piece.token? with
    | some token => ⟨token, line, cut.rest⟩
    | none => Reading.ofText (line + cut.piece.lineCount) cut.rest
termination_by text => text.length
decreasing_by
  have := Piece.length_cut_rest_le c text
  simp only [List.length_cons]
  omega

namespace Piece

/-- No piece is the end of the input. -/
theorem kind_ne_endOfInput {piece : Piece} {token : Token} (h : piece.token? = some token) :
    token.kind ≠ .endOfInput := by
  unfold token? at h
  split at h <;> simp only [Option.some.injEq, reduceCtorEq] at h <;> subst h
  · exact Kind.noConfusion
  · exact Kind.noConfusion
  · rcases Token.kind_word (String.ofList piece.text) with hkind | hkind <;> rw [hkind] <;> decide
  · exact Kind.noConfusion
  · exact Kind.noConfusion

/-- A piece with a token ends as many lines as its token does. -/
theorem lineCount_eq_of_token? {piece : Piece} {token : Token} (h : piece.token? = some token) :
    token.lineCount = piece.lineCount := by
  unfold token? at h
  unfold lineCount Token.lineCount
  split at h <;> rename_i hpiece <;> simp only [Option.some.injEq, reduceCtorEq] at h <;>
    subst h <;> simp only [hpiece]
  · rfl
  · rfl
  · rcases Token.kind_word (String.ofList piece.text) with hkind | hkind <;> rw [hkind] <;> decide
  · rfl
  · rfl

end Piece

namespace Reading

/-- Reading ends where the text does: the end of the input leaves nothing behind. -/
theorem rest_eq_nil_of_endOfInput {line : Nat} {text : List Char}
    (h : (ofText line text).token.kind = .endOfInput) :
    (ofText line text).token = .endOfInput ∧ (ofText line text).rest = [] := by
  fun_induction ofText line text with
  | case1 line => exact ⟨rfl, rfl⟩
  | case2 line c text cut token htoken => exact absurd h (Piece.kind_ne_endOfInput htoken)
  | case3 line c text cut htoken ih => exact ih h

/-- Every token but the end of the input takes characters off the text. -/
theorem length_rest_lt {line : Nat} {text : List Char}
    (h : (ofText line text).token.kind ≠ .endOfInput) :
    (ofText line text).rest.length < text.length := by
  fun_induction ofText line text with
  | case1 line => exact absurd rfl h
  | case2 line c text cut token htoken =>
    exact Nat.lt_succ_of_le (Piece.length_cut_rest_le c text)
  | case3 line c text cut htoken ih =>
    exact Nat.lt_of_lt_of_le (ih h) (Nat.le_succ_of_le (Piece.length_cut_rest_le c text))

/-- Reading never adds to the text. -/
theorem length_rest_le (line : Nat) (text : List Char) :
    (ofText line text).rest.length ≤ text.length := by
  by_cases h : (ofText line text).token.kind = .endOfInput
  · simp [(rest_eq_nil_of_endOfInput h).2]
  · exact Nat.le_of_lt (length_rest_lt h)

/-- The first token of a text, and what follows it, do not depend on the line. -/
theorem ofText_congr (line line' : Nat) (text : List Char) :
    (ofText line text).token = (ofText line' text).token ∧
      (ofText line text).rest = (ofText line' text).rest := by
  fun_induction ofText line text generalizing line' with
  | case1 line => simp [ofText]
  | case2 line c text cut token htoken =>
    rw [ofText]
    simp only [cut] at htoken
    simp [htoken, cut]
  | case3 line c text cut htoken ih =>
    rw [ofText]
    simp only [cut] at htoken
    simp only [htoken]
    exact ih _

end Reading

/-- **Token by token.**  The tokens of a text are the first one that is read and the
tokens of the text behind it. -/
theorem Located.ofText_eq (line : Nat) (text : List Char) :
    Located.ofText line text =
      ⟨(Reading.ofText line text).line, (Reading.ofText line text).token⟩ ::
        if (Reading.ofText line text).token.kind = .endOfInput then []
        else
          Located.ofText
            ((Reading.ofText line text).line + (Reading.ofText line text).token.lineCount)
            (Reading.ofText line text).rest := by
  fun_induction Reading.ofText line text with
  | case1 line => simp [ofText, Piece.all, ofPieces, Token.endOfInput]
  | case2 line c text cut token htoken =>
    rw [if_neg (Piece.kind_ne_endOfInput htoken), Piece.lineCount_eq_of_token? htoken]
    unfold ofText
    rw [Piece.all, ofPieces]
    simp only [cut] at htoken
    simp only [htoken, cut]
  | case3 line c text cut htoken ih =>
    rw [← ih]
    unfold ofText
    rw [Piece.all, ofPieces]
    simp only [cut] at htoken
    simp only [htoken, cut]

end BugLang
