import BugLang.Proofs.Segmentation

/-!
# The literals of numbers

A number starts with all the digits that there are.  `pointedLiteral` takes a point after them
only with digits behind it, as the literal of a number is usually written.  The numbers of a
source are these literals, except that the point of a `3.` belongs to the number as well.  Such
a lone point changes nothing about the value of the number.  It is only that the symbol is
missing which the point would be on its own.

* `Segmented.exists_segment`: the pieces of a text from some piece on.
* `Segment.text_eq_pointedLiteral`: the number at the front of a text.
* `number_takes_lone_point`: the numbers of a source, their tokens, and the tokens behind them.
-/

namespace BugLang

/-- The digits at the front of a text, with a point and the digits behind it if there are
any. -/
def pointedLiteral (text : List Char) : List Char :=
  let whole := text.takeWhile Char.isDigit
  let places := (text.dropWhile Char.isDigit).tail.takeWhile Char.isDigit
  if (text.dropWhile Char.isDigit).head? = some '.' ∧ places ≠ [] then whole ++ '.' :: places
  else whole

/-- The point behind the digits at the front of a text, if no digit follows it. -/
def lonePoint (text : List Char) : List Char :=
  if (text.dropWhile Char.isDigit).head? = some '.' ∧
      (text.dropWhile Char.isDigit).tail.takeWhile Char.isDigit = [] then ['.']
  else []

/-- From some piece on, a text falls into the pieces that it falls into on its own. -/
theorem Segmented.exists_segment {text : List Char} {before after : List Piece} {piece : Piece}
    {tokens : List Token} (h : Segmented text (before ++ piece :: after) tokens) :
    ∃ token rest, text = (before.map Piece.text).flatten ++ (piece.text ++ rest) ∧
      Segment piece token rest ∧ after = Piece.all rest := by
  induction before generalizing text tokens with
  | nil =>
    cases h with
    | @cons _ token rest _ _ hpiece hrest => exact ⟨token, rest, rfl, hpiece, hrest.eq_all.1⟩
  | cons first before ih =>
    cases h with
    | cons _ hrest =>
      obtain ⟨token, rest, rfl, hpiece, hafter⟩ := ih hrest
      exact ⟨token, rest, by simp, hpiece, hafter⟩

namespace Segment

variable {piece : Piece} {token : Option Token} {rest : List Char}

/-- **The number at the front of a text.**  It is the literal there, with a lone point if there is
one, and it has the token of the literal. -/
theorem text_eq_pointedLiteral (h : Segment piece token rest) (hkind : piece.kind = .number) :
    piece.text = pointedLiteral (piece.text ++ rest) ++ lonePoint (piece.text ++ rest) ∧
      token = (⟨.number, pointedLiteral (piece.text ++ rest)⟩ : Piece).token? := by
  cases h with
  | @whole digits _ hne hdigits hpoint =>
    have hliteral : pointedLiteral (digits ++ rest) = digits := by
      rw [pointedLiteral, hdigits.takeWhile_append, hdigits.dropWhile_append,
        if_neg fun h => hpoint h.1]
    have hlone : lonePoint (digits ++ rest) = [] := by
      rw [lonePoint, hdigits.dropWhile_append, if_neg fun h => hpoint h.1]
    rw [hliteral, hlone, List.append_nil]
    exact ⟨rfl, by rw [Piece.token?, Piece.decimal_of_digits hdigits.1]⟩
  | @fraction digits places _ hne hdigits hplaces =>
    have hrun : IsRun Char.isDigit digits ('.' :: (places ++ rest)) := .of_next hdigits rfl
    have htake : (digits ++ '.' :: places ++ rest).takeWhile Char.isDigit = digits := by
      rw [List.append_assoc]
      exact hrun.takeWhile_append
    have hdrop : (digits ++ '.' :: places ++ rest).dropWhile Char.isDigit =
        '.' :: (places ++ rest) := by
      rw [List.append_assoc]
      exact hrun.dropWhile_append
    rw [pointedLiteral, lonePoint, htake, hdrop, List.tail_cons, hplaces.takeWhile_append]
    by_cases hlone : places = []
    · subst hlone
      refine ⟨rfl, ?_⟩
      simp [Piece.token?, Piece.decimal_of_digits hdigits]
    · simp [hlone, Piece.token?, Piece.decimal_of_point hdigits]
  | _ => exact PieceKind.noConfusion hkind

end Segment

/-- The tokens of a text behind a lone point are those behind the symbol of the point. -/
theorem Located.map_token_lonePoint (text rest : List Char) :
    (ofText 1 (lonePoint text ++ rest)).map token =
      (lonePoint text).map (fun c => .symbol (String.ofList [c])) ++ (ofText 1 rest).map token := by
  have hpoint : Piece.all ('.' :: rest) = ⟨.other, ['.']⟩ :: Piece.all rest := by
    have hcut : Piece.cut '.' rest = ⟨⟨.other, ['.']⟩, rest⟩ :=
      Piece.cut_other (by decide) (by decide) (by decide) (by decide) (by decide)
        fun h => absurd h (by decide)
    rw [Piece.all, hcut]
  rw [lonePoint]
  split
  · rw [ofText, List.singleton_append, hpoint]
    rfl
  · rfl

/-- **The numbers of a source.**  Each number is the literal with its point that stands in the
source from there on, and a lone point behind it if there is one.  Its token is that of the
literal.  So the number is the literal if and only if no lone point follows, and where one
follows, the symbol of the point is the only token that is missing: the tokens of the source are
those before the number, that of the literal, and those of the text behind the number, while the
text behind the literal has the symbol in front of them. -/
theorem number_takes_lone_point (source : String) (before after : List Piece) (piece : Piece)
    (hall : Piece.all source.toList = before ++ piece :: after) (hkind : piece.kind = .number) :
    ∃ rest, source.toList = (before.map Piece.text).flatten ++ (piece.text ++ rest) ∧
      let literal := pointedLiteral (piece.text ++ rest)
      let point := lonePoint (piece.text ++ rest)
      piece.text = literal ++ point ∧ (piece.text = literal ↔ point = []) ∧
        (Located.ofSource source).map Located.token =
          before.filterMap Piece.token? ++
            .number (Piece.decimal ⟨.number, literal⟩) ::
              (Located.ofText 1 rest).map Located.token ∧
        (Located.ofText 1 ((piece.text ++ rest).drop literal.length)).map Located.token =
          point.map (fun c => .symbol (String.ofList [c])) ++
            (Located.ofText 1 rest).map Located.token := by
  have hsegmented := Segmented.all source.toList
  rw [hall] at hsegmented
  obtain ⟨token, rest, htext, hpiece, hafter⟩ := hsegmented.exists_segment
  refine ⟨rest, htext, ?_⟩
  intro literal point
  obtain ⟨hliteral, htoken⟩ := hpiece.text_eq_pointedLiteral hkind
  have hliteral : piece.text = literal ++ point := hliteral
  refine ⟨hliteral, ?_, ?_, ?_⟩
  · rw [hliteral, List.append_right_eq_self]
  · rw [hpiece.token_eq] at htoken
    have hnumber : piece.token? = some (.number (Piece.decimal ⟨.number, literal⟩)) := htoken
    rw [Located.ofSource, Located.ofText, Located.map_token_ofPieces, hall, List.filterMap_append,
      List.filterMap_cons_some hnumber, hafter, Located.ofText, Located.map_token_ofPieces,
      List.append_assoc, List.cons_append]
  · rw [← Located.map_token_lonePoint]
    have hdrop : (piece.text ++ rest).drop literal.length = point ++ rest := by
      rw [hliteral, List.append_assoc, List.drop_left]
    rw [hdrop]

/-- Of three numbers, the second one takes a lone point, and the third one takes its point and
leaves the next one. -/
theorem number_takes_point_before_name :
    let source := "1 3.x 2.5."
    let before : List Piece := [⟨.number, ['1']⟩, ⟨.blank, [' ']⟩]
    let after : List Piece :=
      [⟨.word, ['x']⟩, ⟨.blank, [' ']⟩, ⟨.number, ['2', '.', '5']⟩, ⟨.other, ['.']⟩]
    Piece.all source.toList = before ++ ⟨.number, ['3', '.']⟩ :: after ∧
      ∃ rest, source.toList = (before.map Piece.text).flatten ++ (['3', '.'] ++ rest) ∧
        ['3', '.'] = pointedLiteral (['3', '.'] ++ rest) ++ lonePoint (['3', '.'] ++ rest) ∧
        (Located.ofSource source).map Located.token =
          before.filterMap Piece.token? ++
            .number (Piece.decimal ⟨.number, pointedLiteral (['3', '.'] ++ rest)⟩) ::
              (Located.ofText 1 rest).map Located.token := by
  intro source before after
  have hall : Piece.all source.toList = before ++ ⟨.number, ['3', '.']⟩ :: after := by
    decide +kernel
  obtain ⟨rest, htext, hpiece, -, htokens, -⟩ :=
    number_takes_lone_point source before after ⟨.number, ['3', '.']⟩ hall rfl
  exact ⟨hall, rest, htext, hpiece, htokens⟩

/-- A point that no digit follows belongs to the number before it, and it is no token. -/
theorem lone_point_is_no_symbol :
    let source := "3.x"
    pointedLiteral source.toList = ['3'] ∧
      Piece.all source.toList = [⟨.number, ['3', '.']⟩, ⟨.word, ['x']⟩] ∧
      (Located.ofSource source).map Located.token =
        [⟨.number, "3.0"⟩, ⟨.name, "x"⟩, .endOfInput] ∧
      .symbol "." ∉ (Located.ofSource source).map Located.token := by
  decide +kernel

end BugLang
