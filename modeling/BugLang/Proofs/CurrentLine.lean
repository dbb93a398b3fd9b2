import BugLang.Proofs.Contract
import BugLang.Proofs.Bookmark

/-!
# The current line

A cursor counts the lines of a comment when it reads past the comment, and not before.  So its
line is the line of the next token once it has looked at the token.  Until then the line falls
short by the line feeds in the comments ahead of the token.

* `Cursor.line_add_commentLines`: the line of a cursor and the lines of the comments ahead make
  up the line of the next token.
* `Cursor.Reached.pieces_suffix`: these comments are pieces of the source.
* `Builder.line_apply_of_declined`: a rule that is declined has looked at the next token.
* `line_of_next_token`: the current line in all states of a builder.
-/

namespace BugLang

/-- The pieces at the front that have no token. -/
def Piece.skipped (pieces : List Piece) : List Piece :=
  pieces.takeWhile fun piece => piece.token?.isNone

/-- A piece with a token is not skipped. -/
theorem Piece.skipped_cons_of_some {piece : Piece} {token : Token} (pieces : List Piece)
    (h : piece.token? = some token) : skipped (piece :: pieces) = [] :=
  List.takeWhile_cons_of_neg (by simp [h])

/-- A piece without a token is skipped. -/
theorem Piece.skipped_cons_of_none {piece : Piece} (pieces : List Piece)
    (h : piece.token? = none) : skipped (piece :: pieces) = piece :: skipped pieces :=
  List.takeWhile_cons_of_pos (by simp [h])

/-- The number of lines that end within some pieces. -/
def Piece.lineCounts (pieces : List Piece) : Nat :=
  pieces.foldr (fun piece lines => piece.lineCount + lines) 0

/-- Where no line ends within any piece, none ends within the pieces. -/
theorem Piece.lineCounts_eq_zero {pieces : List Piece}
    (h : ∀ piece ∈ pieces, piece.lineCount = 0) : lineCounts pieces = 0 := by
  induction pieces with
  | nil => rfl
  | cons piece pieces ih =>
    obtain ⟨hpiece, hpieces⟩ := List.forall_mem_cons.mp h
    rw [lineCounts, List.foldr_cons, hpiece, Nat.zero_add]
    exact ih hpieces

namespace Reading

/-- Reading passes the lines of the pieces that it skips. -/
theorem line_eq (line : Nat) (text : List Char) :
    (ofText line text).line = line + Piece.lineCounts (Piece.skipped (Piece.all text)) := by
  fun_induction ofText line text with
  | case1 line => rw [Piece.all]; rfl
  | case2 line c text cut token htoken =>
    rw [Piece.all, Piece.skipped_cons_of_some _ htoken]
    rfl
  | case3 line c text cut htoken ih =>
    rw [ih, Piece.all, Piece.skipped_cons_of_none _ htoken, Nat.add_assoc]
    rfl

/-- The pieces behind the first token of a text are the last ones of the text. -/
theorem pieces_suffix (line : Nat) (text : List Char) :
    Piece.all (ofText line text).rest <:+ Piece.all text := by
  fun_induction ofText line text with
  | case1 line => exact List.suffix_rfl
  | case2 line c text cut token htoken =>
    rw [Piece.all.eq_2]
    exact List.suffix_cons _ _
  | case3 line c text cut htoken ih =>
    rw [Piece.all.eq_2]
    exact ih.trans (List.suffix_cons _ _)

end Reading

namespace Cursor

/-- The number of lines that end within the comments between a cursor and the next token.  Where
the cursor has looked at the token, it has counted them. -/
def commentLines (c : Cursor) : Nat :=
  match c.slot with
  | .ahead _ => 0
  | _ => Piece.lineCounts (Piece.skipped (Piece.all c.rest))

/-- **The line of the next token.**  It is that of the cursor, and the lines of the comments
ahead. -/
theorem line_add_commentLines (c : Cursor) : c.line + c.commentLines = c.nextLocated.line := by
  have hadd := c.line_next
  cases hslot : c.slot with
  | ahead token =>
    rw [commentLines, hslot]
    exact line_of_isAhead ⟨token, hslot⟩
  | empty | behind token =>
    simp only [next, hslot, Reading.line_eq] at hadd
    rw [commentLines, hslot]
    dsimp only
    omega

/-- The pieces of the text that is left are the last pieces of the source. -/
theorem Reached.pieces_suffix {source : String} {c : Cursor} (h : Reached source c) :
    Piece.all c.rest <:+ Piece.all source.toList := by
  induction h with
  | start => exact List.suffix_rfl
  | @next c _ ih =>
    cases hslot : c.slot with
    | ahead token => rwa [next_of_ahead hslot]
    | empty | behind token =>
      simp only [Cursor.next, hslot]
      exact (Reading.pieces_suffix c.line c.rest).trans ih
  | @putBack c _ ih =>
    cases hslot : c.slot with
    | behind token => rwa [putBack_of_behind hslot]
    | empty | ahead token => simpa [Cursor.putBack, hslot] using ih

/-- Where no comment of a source goes over lines, there are no such comments ahead. -/
theorem Reached.commentLines_eq_zero {source : String} {c : Cursor} (h : Reached source c)
    (hcomments : ∀ piece ∈ Piece.all source.toList, piece.kind = .blockComment →
      '\n' ∉ piece.text) : c.commentLines = 0 := by
  have hskipped :
      ∀ piece ∈ Piece.skipped (Piece.all c.rest), piece.lineCount = 0 := by
    intro piece hpiece
    have hmem := h.pieces_suffix.mem ((List.takeWhile_prefix _).mem hpiece)
    have hnone : piece.token? = none := by simpa using List.mem_takeWhile_imp hpiece
    unfold Piece.lineCount
    split
    · rename_i hkind
      simp [Piece.token?, hkind] at hnone
    · rename_i hkind
      exact List.count_eq_zero.mpr (hcomments piece hmem hkind)
    · rfl
  rw [commentLines]
  split
  · rfl
  · exact Piece.lineCounts_eq_zero hskipped

end Cursor

/-- Behind a rule that is declined, the line of the next token is the current one. -/
theorem Builder.line_apply_of_declined {b : Builder} (hsound : b.cursor.Sound) {rule : Rule}
    (hdeclined : (b.apply rule).verdict = .declined) :
    (b.apply rule).builder.line = b.cursor.nextLocated.line := by
  obtain ⟨taken, htaken, hrun, hahead⟩ := follows_apply hsound rule
  rw [hdeclined] at hrun hahead
  obtain ⟨rfl, -, -⟩ := hrun.of_declined rfl
  have hnext : (b.apply rule).builder.cursor.nextLocated = b.cursor.nextLocated := by
    rw [← Cursor.head_supply, ← Cursor.head_supply, htaken]
    rfl
  rw [Builder.line, Cursor.line_of_isAhead (hahead trivial), hnext]

/-- **The current line.**  Whatever is done with a builder, the token that is handed out next is
the first one that remains of the tokens of the source, and its line there is the current line
and the lines within the comments ahead.  So the current line is the right one if and only if
these comments have no line feeds, as in a source whose comments have none.  Looking at the
next token, and a rule that is declined, turn the current line into the line of this token, and
so they leave it as it is if and only if it was right. -/
theorem line_of_next_token (source : String) (stack : Stack) (operations : List Operation) :
    let b := (⟨.start source, stack⟩ : Builder).after operations
    ∃ a rest, a :: rest <:+ Located.ofSource source ∧ b.cursor.remaining = a :: rest ∧
      b.cursor.next.1 = a.token ∧ b.line + b.cursor.commentLines = a.line ∧
      (b.line = a.line ↔ b.cursor.commentLines = 0) ∧
      ((∀ piece ∈ Piece.all source.toList, piece.kind = .blockComment → '\n' ∉ piece.text) →
        b.line = a.line) ∧
      (Operation.peek.perform b).line = a.line ∧
      ∀ rule, (b.apply rule).verdict = .declined → (b.apply rule).builder.line = a.line := by
  intro b
  have hreached : Cursor.Reached source b.cursor :=
    Builder.reached_after Cursor.Reached.start operations
  obtain ⟨rest, hrest⟩ : ∃ rest, b.cursor.remaining = b.cursor.nextLocated :: rest := by
    rw [Cursor.remaining]
    exact ⟨_, rfl⟩
  have hline : b.line + b.cursor.commentLines = b.cursor.nextLocated.line :=
    b.cursor.line_add_commentLines
  have hright : b.line = b.cursor.nextLocated.line ↔ b.cursor.commentLines = 0 := by omega
  exact ⟨b.cursor.nextLocated, rest, hrest ▸ hreached.remaining_suffix, hrest, rfl, hline, hright,
    fun hcomments => hright.mpr (hreached.commentLines_eq_zero hcomments), b.cursor.line_peek,
    fun rule => Builder.line_apply_of_declined hreached.sound⟩

/-- Behind the first name, the current line is still its line, although a comment leads to the
next one.  A rule that is declined there moves the current line. -/
theorem line_before_second_name :
    let source := "a /*\n*/ b"
    let b := (⟨.start source, []⟩ : Builder).after [.next]
    (b.apply .moveAction).verdict = .declined ∧ b.line = 1 ∧
      (b.apply .moveAction).builder.line = 2 ∧ b.cursor.commentLines = 1 := by
  intro source b
  have hdeclined : (b.apply .moveAction).verdict = .declined := by decide +kernel
  obtain ⟨a, rest, -, hremaining, -, hline, -, -, -, hrule⟩ := line_of_next_token source [] [.next]
  have hall : b.cursor.remaining = [⟨2, ⟨.name, "b"⟩⟩, ⟨2, .endOfInput⟩] := by decide +kernel
  obtain ⟨rfl, -⟩ := List.cons.inj (hremaining.symm.trans hall)
  have hfirst : b.line = 1 := by decide +kernel
  have hadd : b.line + b.cursor.commentLines = 2 := hline
  exact ⟨hdeclined, hfirst, hrule .moveAction hdeclined, by omega⟩

/-- Ahead of a comment over two lines, the current line is not that of the next token.  Looking at
the token moves the line, and so does a rule that is declined. -/
theorem line_before_comment :
    let source := "/*\n*/x"
    let b := Builder.start source
    Located.ofSource source = [⟨2, ⟨.name, "x"⟩⟩, ⟨2, .endOfInput⟩] ∧
      b.cursor.next.1 = ⟨.name, "x"⟩ ∧ b.line = 1 ∧ b.cursor.peek.2.line = 2 ∧
      (b.apply .moveAction).verdict = .declined ∧ (b.apply .moveAction).builder.line = 2 := by
  decide +kernel

end BugLang
