import BugLang.Proofs.Supply
import Mathlib.Algebra.Group.Nat.Defs

/-!
# Reading with a bookmark

A cursor takes a text apart while it reads.  A reader who has all tokens in a list gets by
with less: a `Bookmark` counts the tokens that were read, and notes whether the last one
is to be read again.  No use of a cursor shows a difference between the two, neither in the
tokens nor in the lines.

* `Cursor.nextLocated_behind`: behind some tokens of a source comes the next one of its list,
  and behind the list its last one again.
* `Bookmark.Marks.perform`, `Bookmark.Marks.line_eq`: every move keeps a cursor and a bookmark
  together, and together they stand on the same line.
* `Cursor.line_behind_add_length_le`: a cursor passes no more lines than characters.
-/

namespace BugLang

namespace Located

/-- The token at a place of a list.  Behind the list comes its last token again. -/
def atPlace (tokens : List Located) (place : Nat) : Located :=
  tokens.getD place (tokens.getLastD ⟨1, .endOfInput⟩)

/-- A list of one token has that token at every place. -/
theorem atPlace_singleton (a : Located) (place : Nat) : atPlace [a] place = a := by
  cases place <;> rfl

/-- Behind the first token, the places are those of the other tokens. -/
theorem atPlace_cons_succ (a : Located) {tokens : List Located} (h : tokens ≠ []) (place : Nat) :
    atPlace (a :: tokens) (place + 1) = atPlace tokens place := by
  obtain ⟨b, tokens, rfl⟩ := List.exists_cons_of_ne_nil h
  rfl

/-- The tokens of some pieces end with the end of the input, which comes nowhere else. -/
theorem exists_ofPieces_eq (line : Nat) (pieces : List Piece) :
    ∃ front last, ofPieces line pieces = front ++ [⟨last, .endOfInput⟩] ∧
      ∀ a ∈ front, a.token.kind ≠ .endOfInput := by
  fun_induction ofPieces line pieces with
  | case1 line => exact ⟨[], line, rfl, nofun⟩
  | case2 line piece pieces token htoken ih =>
    obtain ⟨front, last, hpieces, hfront⟩ := ih
    refine ⟨⟨line, token⟩ :: front, last, by rw [hpieces, List.cons_append], ?_⟩
    exact List.forall_mem_cons.mpr ⟨Piece.kind_ne_endOfInput htoken, hfront⟩
  | case3 line piece pieces htoken ih => exact ih

end Located

namespace Reading

/-- Reading goes on to the line of the token or stays where it is. -/
theorem line_le (line : Nat) (text : List Char) : line ≤ (ofText line text).line := by
  fun_induction ofText line text with
  | case1 line => exact Nat.le_refl line
  | case2 line c text cut token htoken => exact Nat.le_refl line
  | case3 line c text cut htoken ih => exact Nat.le_trans (Nat.le_add_right _ _) ih

end Reading

/-- A piece ends no more lines than it has characters. -/
theorem Piece.lineCount_cut_add_length_le (c : Char) (text : List Char) :
    (cut c text).piece.lineCount + (cut c text).rest.length ≤ (c :: text).length := by
  have hall := congrArg List.length (cut_append c text)
  have hpos := List.length_pos_iff.mpr (cut_text_ne_nil c text)
  have hcount : (cut c text).piece.lineCount ≤ (cut c text).piece.text.length := by
    unfold lineCount
    split
    · exact hpos
    · exact List.count_le_length
    · exact Nat.zero_le _
  rw [List.length_append] at hall
  omega

/-- Reading passes no more lines than characters. -/
theorem Reading.line_add_length_le (line : Nat) (text : List Char) :
    (ofText line text).line + (ofText line text).token.lineCount + (ofText line text).rest.length ≤
      line + text.length := by
  fun_induction ofText line text with
  | case1 line => exact Nat.le_refl _
  | case2 line c text cut token htoken =>
    have hcut : cut.piece.lineCount + cut.rest.length ≤ (c :: text).length :=
      Piece.lineCount_cut_add_length_le c text
    have htokens : token.lineCount = cut.piece.lineCount := Piece.lineCount_eq_of_token? htoken
    dsimp only
    omega
  | case3 line c text cut htoken ih =>
    have hcut : cut.piece.lineCount + cut.rest.length ≤ (c :: text).length :=
      Piece.lineCount_cut_add_length_le c text
    omega

namespace Cursor

/-- Behind the next token, the lines that it ends are added to its line. -/
theorem line_next (c : Cursor) : c.next.2.line = c.nextLocated.line + c.next.1.lineCount :=
  (Nat.sub_add_cancel c.lineCount_le_line_next).symm

/-- A cursor does not stand behind the line of the next token. -/
theorem line_le_nextLocated (c : Cursor) : c.line ≤ c.nextLocated.line := by
  have hadd := c.line_next
  cases hslot : c.slot with
  | ahead token => exact Nat.le_of_eq (line_of_isAhead ⟨token, hslot⟩)
  | empty | behind token =>
    have hle := Reading.line_le c.line c.rest
    simp only [next, hslot] at hadd
    omega

/-- The tokens that remain are never none. -/
theorem remaining_ne_nil (c : Cursor) : c.remaining ≠ [] := by
  rw [remaining]
  exact List.cons_ne_nil _ _

/-- The supply hands out the tokens that remain, and then the last one again and again. -/
theorem Sound.get_supply {c : Cursor} (h : c.Sound) (place : Nat) :
    c.supply.get place = Located.atPlace c.remaining place := by
  by_cases hend : c.nextLocated.token.kind = .endOfInput
  · rw [h.supply_eq_const hend, remaining_of_eq hend, Located.atPlace_singleton, Stream'.get_const]
  · rw [supply_eq, remaining_of_ne hend]
    cases place with
    | zero => rfl
    | succ place =>
      rw [Stream'.get_succ_cons, h.next.get_supply place,
        Located.atPlace_cons_succ _ (remaining_ne_nil _)]

/-- The supply behind some tokens of a source is what is left of the whole supply. -/
theorem supply_behind (source : String) (count : Nat) :
    (behind source count).supply = (start source).supply.drop count := by
  induction count with
  | zero => rfl
  | succ count ih =>
    rw [← Stream'.tail_drop', ← ih, (behind source count).supply_eq, Stream'.tail_cons]
    rfl

/-- **The next token.**  Behind some tokens of a source comes the next one of its list. -/
theorem nextLocated_behind (source : String) (count : Nat) :
    (behind source count).nextLocated = Located.atPlace (Located.ofSource source) count := by
  rw [← head_supply, supply_behind, Stream'.head_drop, (sound_start source).get_supply,
    remaining_start]

/-- A cursor that has taken no token back is not ahead of one. -/
theorem slot_behind_ne_ahead (source : String) (count : Nat) (token : Token) :
    (behind source count).slot ≠ .ahead token := by
  cases count with
  | zero => exact Slot.noConfusion
  | succ count =>
    intro hslot
    exact Slot.noConfusion ((slot_next (behind source count)).symm.trans hslot)

/-- **Lines are no more than characters.**  The lines that a cursor has passed and the characters
that are left are no more than the characters of the source. -/
theorem line_behind_add_length_le (source : String) (count : Nat) :
    (behind source count).line + (behind source count).rest.length ≤ 1 + source.length := by
  induction count with
  | zero => exact Nat.le_of_eq (congrArg (1 + ·) String.length_toList)
  | succ count ih =>
    have hread := Reading.line_add_length_le (behind source count).line (behind source count).rest
    have hslot := slot_behind_ne_ahead source count
    change (behind source count).next.2.line + (behind source count).next.2.rest.length ≤ _
    cases h : (behind source count).slot with
    | ahead token => exact absurd h (hslot token)
    | empty | behind token =>
      simp only [next, h]
      omega

/-- Lines count from one. -/
theorem one_le_line_behind (source : String) (count : Nat) : 1 ≤ (behind source count).line := by
  induction count with
  | zero => exact Nat.le_refl 1
  | succ count ih =>
    have hle := (behind source count).line_le_nextLocated
    have hadd := (behind source count).line_next
    change 1 ≤ (behind source count).next.2.line
    omega

/-- The uses of a cursor. -/
inductive Move
  /-- Read a token. -/
  | next
  /-- Look at the next token. -/
  | peek
  /-- Take the last token back. -/
  | putBack
deriving DecidableEq, Repr

namespace Move

/-- What a use hands out, and the cursor behind it. -/
def perform : Move → Cursor → Option Token × Cursor
  | .next, c => (some c.next.1, c.next.2)
  | .peek, c => (some c.peek.1, c.peek.2)
  | .putBack, c => (none, c.putBack)

/-- What a reader shows while it is used: what each use hands out, and the line behind it. -/
def shown {Reader : Type} (perform : Move → Reader → Option Token × Reader)
    (line : Reader → Nat) : Reader → List Move → List (Option Token × Nat)
  | _, [] => []
  | reader, move :: moves =>
    let step := perform move reader
    (step.1, line step.2) :: shown perform line step.2 moves

end Move

/-- The cursor behind some uses. -/
def afterMoves (c : Cursor) (moves : List Move) : Cursor :=
  moves.foldl (fun c move => (move.perform c).2) c

end Cursor

/-- The number of tokens of a list that were read, and whether the last one of them is to be
read again. -/
structure Bookmark where
  count : Nat
  again : Bool
deriving DecidableEq, Repr

namespace Bookmark

/-- The bookmark before all tokens. -/
def start : Bookmark := ⟨0, false⟩

/-- Reads the last token again or the next one. -/
def next (tokens : List Located) (b : Bookmark) : Token × Bookmark :=
  if b.again then ((Located.atPlace tokens (b.count - 1)).token, ⟨b.count, false⟩)
  else ((Located.atPlace tokens b.count).token, ⟨b.count + 1, false⟩)

/-- Notes that the last token is to be read again, if there is one. -/
def putBack (b : Bookmark) : Bookmark :=
  if 0 < b.count then ⟨b.count, true⟩ else b

/-- Reads a token that is to be read again. -/
def peek (tokens : List Located) (b : Bookmark) : Token × Bookmark :=
  ((b.next tokens).1, (b.next tokens).2.putBack)

/-- What a use hands out, and the bookmark behind it. -/
def perform (tokens : List Located) : Cursor.Move → Bookmark → Option Token × Bookmark
  | .next, b => (some (b.next tokens).1, (b.next tokens).2)
  | .peek, b => (some (b.peek tokens).1, (b.peek tokens).2)
  | .putBack, b => (none, b.putBack)

/-- The line of the last token that was read, or the line behind it if it is the end of a line
that is not to be read again. -/
def line (tokens : List Located) (b : Bookmark) : Nat :=
  if b.count = 0 then 1
  else
    let last := Located.atPlace tokens (b.count - 1)
    if last.token.kind = .lineEnd ∧ b.again = false then last.line + 1 else last.line

/-- Whether a bookmark stands where a cursor does. -/
inductive Marks (source : String) : Bookmark → Cursor → Prop
  | behind {count : Nat} : Marks source ⟨count, false⟩ (Cursor.behind source count)
  | ahead {count : Nat} : Marks source ⟨count + 1, true⟩ (Cursor.behind source count).peek.2

variable {source : String} {b : Bookmark} {c : Cursor}

/-- Reading a token moves both in the same way. -/
theorem Marks.next (h : Marks source b c) :
    c.next.1 = (b.next (Located.ofSource source)).1 ∧
      Marks source (b.next (Located.ofSource source)).2 c.next.2 := by
  cases h with
  | @behind count =>
    exact ⟨congrArg Located.token (Cursor.nextLocated_behind source count), .behind⟩
  | @ahead count =>
    rw [Cursor.next_peek]
    exact ⟨congrArg Located.token (Cursor.nextLocated_behind source count), .behind⟩

/-- Taking a token back moves both in the same way. -/
theorem Marks.putBack (h : Marks source b c) : Marks source b.putBack c.putBack := by
  cases h with
  | @behind count =>
    cases count with
    | zero => exact .behind
    | succ count => exact .ahead
  | @ahead count =>
    have hstays : (Cursor.behind source count).peek.2.putBack =
        (Cursor.behind source count).peek.2 := Cursor.putBack_putBack _
    rw [hstays]
    exact .ahead

/-- **One step.**  Every use hands out the same, and moves both in the same way. -/
theorem Marks.perform (h : Marks source b c) (move : Cursor.Move) :
    (move.perform c).1 = (b.perform (Located.ofSource source) move).1 ∧
      Marks source (b.perform (Located.ofSource source) move).2 (move.perform c).2 := by
  obtain ⟨htoken, hbehind⟩ := h.next
  cases move with
  | next => exact ⟨congrArg some htoken, hbehind⟩
  | peek => exact ⟨congrArg some htoken, hbehind.putBack⟩
  | putBack => exact ⟨rfl, h.putBack⟩

/-- Both stand on the same line. -/
theorem Marks.line_eq (h : Marks source b c) : c.line = b.line (Located.ofSource source) := by
  cases h with
  | @behind count =>
    cases count with
    | zero => rfl
    | succ count =>
      have hline := (Cursor.behind source count).line_next
      have htoken : (Cursor.behind source count).next.1 =
          (Cursor.behind source count).nextLocated.token := rfl
      rw [htoken, Cursor.nextLocated_behind, Token.lineCount] at hline
      change (Cursor.behind source count).next.2.line = _
      rw [hline, line, if_neg (Nat.succ_ne_zero count)]
      by_cases hend : (Located.atPlace (Located.ofSource source) count).token.kind = .lineEnd
      · simp [hend]
      · simp [hend]
  | @ahead count =>
    have hline := (Cursor.behind source count).line_peek
    rw [hline, Cursor.nextLocated_behind, line, if_neg (Nat.succ_ne_zero count)]
    simp

/-- **A whole run.**  However the two are used, they show the same. -/
theorem Marks.shown_eq (h : Marks source b c) (moves : List Cursor.Move) :
    Cursor.Move.shown Cursor.Move.perform Cursor.line c moves =
      Cursor.Move.shown (Bookmark.perform (Located.ofSource source))
        (Bookmark.line (Located.ofSource source)) b moves := by
  induction moves generalizing b c with
  | nil => rfl
  | cons move moves ih =>
    obtain ⟨htoken, hbehind⟩ := h.perform move
    rw [Cursor.Move.shown, Cursor.Move.shown, htoken, hbehind.line_eq, ih hbehind]

/-- However a cursor is used, there is a bookmark that stands where it does. -/
theorem Marks.exists_afterMoves (h : Marks source b c) (moves : List Cursor.Move) :
    ∃ b', Marks source b' (c.afterMoves moves) := by
  induction moves generalizing b c with
  | nil => exact ⟨b, h⟩
  | cons move moves ih => exact ih (h.perform move).2

/-- The count of lines starts at one, and it stays above the lines that the last token ends. -/
theorem Marks.lineCount_lt_line (h : Marks source b c) :
    1 ≤ c.line ∧ ∀ token, c.slot = .behind token → token.lineCount < c.line := by
  cases h with
  | @behind count =>
    refine ⟨Cursor.one_le_line_behind source count, ?_⟩
    intro token hslot
    cases count with
    | zero => exact Slot.noConfusion hslot
    | succ count =>
      obtain rfl := Slot.behind.inj ((Cursor.slot_next _).symm.trans hslot)
      have hone := Cursor.one_le_line_behind source count
      have hle := (Cursor.behind source count).line_le_nextLocated
      have hadd := (Cursor.behind source count).line_next
      change (Cursor.behind source count).next.1.lineCount <
        (Cursor.behind source count).next.2.line
      omega
  | @ahead count =>
    have hahead := Cursor.isAhead_peek (Cursor.behind source count)
    have hone := Cursor.one_le_line_behind source count
    have hle := (Cursor.behind source count).line_le_nextLocated
    have hline := (Cursor.behind source count).line_peek
    refine ⟨by omega, ?_⟩
    intro token hslot
    obtain ⟨token', hslot'⟩ := hahead
    exact Slot.noConfusion (hslot'.symm.trans hslot)

/-- The count of lines only goes up while a token is read, and not beyond the number of
characters of the source and one. -/
theorem Marks.line_next_le (h : Marks source b c) :
    c.line ≤ c.next.2.line ∧ c.next.2.line ≤ 1 + source.length := by
  have hle := c.line_le_nextLocated
  have hadd := c.line_next
  refine ⟨by omega, ?_⟩
  have hnext : ∃ count, c.next.2 = Cursor.behind source (count + 1) := by
    cases h with
    | @behind count => exact ⟨count, rfl⟩
    | @ahead count => exact ⟨count, congrArg Prod.snd (Cursor.next_peek _)⟩
  obtain ⟨count, hcount⟩ := hnext
  have hlength := Cursor.line_behind_add_length_le source (count + 1)
  rw [hcount]
  omega

end Bookmark

/-- **A cursor reads a list.**  The list of the tokens of a source ends with the only end of the
input in it.  However a cursor over the source is used, it shows the same tokens and the same
lines as a bookmark in that list.  If the characters of the source and one more can be counted
with 32 bits, then the lines can: the count is never less than one, it covers the line ends
that may be taken back, and while a token is read it goes up, but not out of range. -/
theorem cursor_reads_as_bookmark (source : String) (hlength : source.length < 2 ^ 32 - 1) :
    (∃ front last, Located.ofSource source = front ++ [⟨last, .endOfInput⟩] ∧
      ∀ a ∈ front, a.token.kind ≠ .endOfInput) ∧
    ∀ moves : List Cursor.Move,
      Cursor.Move.shown Cursor.Move.perform Cursor.line (Cursor.start source) moves =
        Cursor.Move.shown (Bookmark.perform (Located.ofSource source))
          (Bookmark.line (Located.ofSource source)) Bookmark.start moves ∧
      let c := (Cursor.start source).afterMoves moves
      1 ≤ c.line ∧ (∀ token, c.slot = .behind token → token.lineCount < c.line) ∧
        c.line ≤ c.next.2.line ∧ c.next.2.line < 2 ^ 32 := by
  have hstart : Bookmark.Marks source .start (Cursor.start source) :=
    @Bookmark.Marks.behind source 0
  refine ⟨Located.exists_ofPieces_eq 1 (Piece.all source.toList), fun moves => ?_⟩
  refine ⟨hstart.shown_eq moves, ?_⟩
  obtain ⟨b, hmarks⟩ := hstart.exists_afterMoves moves
  obtain ⟨hone, hlast⟩ := hmarks.lineCount_lt_line
  obtain ⟨hup, hbound⟩ := hmarks.line_next_le
  have hrange : 1 + source.length < 2 ^ 32 := by omega
  exact ⟨hone, hlast, hup, Nat.lt_of_le_of_lt hbound hrange⟩

/-- A comment over two lines counts when the cursor reads past it.  A line end that is taken back
twice is taken back once, and the end of the input comes again and again. -/
theorem reading_past_comment :
    let source := "a\n/*\n*/b"
    let moves : List Cursor.Move :=
      [.putBack, .next, .next, .putBack, .putBack, .peek, .next, .peek, .next, .next, .next]
    source.length < 2 ^ 32 - 1 ∧
      Cursor.Move.shown Cursor.Move.perform Cursor.line (Cursor.start source) moves =
        [(none, 1), (some ⟨.name, "a"⟩, 1), (some .lineEnd, 2), (none, 1), (none, 1),
         (some .lineEnd, 1), (some .lineEnd, 2), (some ⟨.name, "b"⟩, 3), (some ⟨.name, "b"⟩, 3),
         (some .endOfInput, 3), (some .endOfInput, 3)] ∧
      1 ≤ ((Cursor.start source).afterMoves moves).line := by
  intro source moves
  have hlength : source.length < 2 ^ 32 - 1 := by decide
  obtain ⟨hshown, hone, -⟩ := (cursor_reads_as_bookmark source hlength).2 moves
  refine ⟨hlength, hshown.trans ?_, hone⟩
  decide +kernel

end BugLang
