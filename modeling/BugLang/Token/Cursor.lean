import BugLang.Token.Located

/-!
# A cursor over the tokens of a source

A cursor hands out the tokens of a text one by one and can take the last one back,
so that it is handed out again.  It keeps count of the lines: the count moves on
with each line end that is handed out, and back with each one that is taken back.
The lines inside a comment count when the cursor reads past the comment.

`Cursor.unread` measures what is left to hand out.  It shrinks with every token
but the end of the input, which the cursor hands out again and again.  The view of a
cursor is `Cursor.upcoming`, the tokens that it will hand out.

* `Cursor.upcoming_start`: at first these are the tokens of the source.
* `Cursor.upcoming_eq`: they are the next token and those behind it.
* `Cursor.upcoming_peek`: looking at the next token changes none of them.
-/

namespace BugLang

/-- The last token that was handed out, if there is one, and whether the cursor
stands behind it or, after taking it back, ahead of it. -/
inductive Slot
  | empty
  | behind (token : Token)
  | ahead (token : Token)
deriving DecidableEq, Repr

/-- The text that is left, the current line, and the last token. -/
structure Cursor where
  rest : List Char
  line : Nat
  slot : Slot
deriving DecidableEq, Repr

namespace Cursor

/-- The cursor at the start of a source. -/
def start (source : String) : Cursor :=
  ⟨source.toList, 1, .empty⟩

/-- The next token. -/
def next (c : Cursor) : Token × Cursor :=
  match c.slot with
  | .ahead token => (token, { c with line := c.line + token.lineCount, slot := .behind token })
  | _ =>
    let reading := Reading.ofText c.line c.rest
    (reading.token,
      ⟨reading.rest, reading.line + reading.token.lineCount, .behind reading.token⟩)

/-- Takes the last token back, if it was not taken back yet. -/
def putBack (c : Cursor) : Cursor :=
  match c.slot with
  | .behind token => { c with line := c.line - token.lineCount, slot := .ahead token }
  | _ => c

/-- The next token, which stays the next one. -/
def peek (c : Cursor) : Token × Cursor :=
  let (token, after) := c.next
  (token, after.putBack)

/-- What is left: the characters of the text, and the token that was taken back. -/
def unread (c : Cursor) : Nat :=
  match c.slot with
  | .ahead _ => c.rest.length + 1
  | _ => c.rest.length

/-- A cursor that has handed out a token stands behind it. -/
theorem slot_next (c : Cursor) : c.next.2.slot = .behind c.next.1 := by
  unfold next
  split <;> rfl

/-- Behind a token, what is left is the text. -/
theorem unread_of_behind {c : Cursor} {token : Token} (h : c.slot = .behind token) :
    c.unread = c.rest.length := by
  simp [unread, h]

/-- What is left behind the next token is the text behind it. -/
theorem unread_next (c : Cursor) : c.next.2.unread = c.next.2.rest.length :=
  unread_of_behind (slot_next c)

/-- Every token but the end of the input leaves less to hand out. -/
theorem unread_next_lt {c : Cursor} (h : c.next.1.kind ≠ .endOfInput) :
    c.next.2.unread < c.unread := by
  rw [unread_next]
  cases hslot : c.slot with
  | ahead token => simp [next, unread, hslot]
  | empty =>
    simp only [next, hslot] at h
    simpa [next, unread, hslot] using Reading.length_rest_lt h
  | behind token =>
    simp only [next, hslot] at h
    simpa [next, unread, hslot] using Reading.length_rest_lt h

/-- No token leaves more to hand out. -/
theorem unread_next_le (c : Cursor) : c.next.2.unread ≤ c.unread := by
  rw [unread_next]
  cases hslot : c.slot with
  | ahead token => simp [next, unread, hslot]
  | empty => simpa [next, unread, hslot] using Reading.length_rest_le c.line c.rest
  | behind token => simpa [next, unread, hslot] using Reading.length_rest_le c.line c.rest

/-- A token that was taken back is handed out again. -/
theorem next_of_ahead {c : Cursor} {token : Token} (h : c.slot = .ahead token) :
    c.next = (token, ⟨c.rest, c.line + token.lineCount, .behind token⟩) := by
  simp [next, h]

/-- Taking a token back moves the cursor ahead of it. -/
theorem putBack_of_behind {c : Cursor} {token : Token} (h : c.slot = .behind token) :
    c.putBack = ⟨c.rest, c.line - token.lineCount, .ahead token⟩ := by
  simp [putBack, h]

/-- A token that is taken back is the next one, and what follows it stays the same. -/
theorem next_putBack {c : Cursor} {token : Token} (h : c.slot = .behind token) :
    c.putBack.next.1 = token ∧ c.putBack.next.2.rest = c.rest ∧
      c.putBack.next.2.slot = c.slot := by
  rw [putBack_of_behind h, next_of_ahead rfl, h]
  exact ⟨rfl, rfl, rfl⟩

/-- Taking back twice is taking back once. -/
theorem putBack_putBack (c : Cursor) : c.putBack.putBack = c.putBack := by
  cases h : c.slot <;> simp [putBack, h]

/-- The tokens up to the end of the input, each with the line of the cursor behind
it, and the cursor at the end. -/
def drain (c : Cursor) : List Located × Cursor :=
  let step := c.next
  let located : Located := ⟨step.2.line, step.1⟩
  if step.1.kind = .endOfInput then ([located], step.2)
  else
    let later := step.2.drain
    (located :: later.1, later.2)
termination_by c.unread
decreasing_by exact unread_next_lt ‹_›

/-- The tokens that are still to come, the end of the input included. -/
def upcoming (c : Cursor) : List Token :=
  c.drain.1.map Located.token

/-- The tokens to come are the next one and those behind it. -/
theorem upcoming_eq (c : Cursor) :
    c.upcoming =
      c.next.1 :: if c.next.1.kind = .endOfInput then [] else c.next.2.upcoming := by
  unfold upcoming
  rw [drain]
  dsimp only
  split <;> rfl

/-- The next token, and the cursor behind it, do not depend on the line. -/
theorem next_congr {c d : Cursor} (hrest : c.rest = d.rest) (hslot : c.slot = d.slot) :
    c.next.1 = d.next.1 ∧ c.next.2.rest = d.next.2.rest ∧ c.next.2.slot = d.next.2.slot := by
  obtain ⟨htoken, hbehind⟩ := Reading.ofText_congr c.line d.line d.rest
  cases h : d.slot with
  | ahead token => simp [next, hslot, h, hrest]
  | empty => simp [next, hslot, h, hrest, htoken, hbehind]
  | behind token => simp [next, hslot, h, hrest, htoken, hbehind]

/-- What is to come does not depend on the line. -/
theorem upcoming_congr {c d : Cursor} (hrest : c.rest = d.rest) (hslot : c.slot = d.slot) :
    c.upcoming = d.upcoming := by
  obtain ⟨htoken, hrest', hslot'⟩ := next_congr hrest hslot
  rw [upcoming_eq c, upcoming_eq d, htoken]
  by_cases hend : d.next.1.kind = .endOfInput
  · rw [if_pos hend, if_pos hend]
  · rw [if_neg hend, if_neg hend, upcoming_congr hrest' hslot']
termination_by c.unread
decreasing_by
  apply unread_next_lt
  rw [htoken]
  exact hend

/-- Looking at a token changes nothing about what is to come. -/
theorem upcoming_peek (c : Cursor) : c.peek.2.upcoming = c.upcoming := by
  obtain ⟨htoken, hrest, hslot⟩ := next_putBack (slot_next c)
  change c.next.2.putBack.upcoming = c.upcoming
  rw [upcoming_eq c.next.2.putBack, upcoming_eq c, htoken, upcoming_congr hrest hslot]

/-- Unless a token was taken back, the tokens to come are those of the text. -/
theorem upcoming_eq_map_ofText {c : Cursor} (line : Nat)
    (hslot : ∀ token, c.slot ≠ .ahead token) :
    c.upcoming = (Located.ofText line c.rest).map Located.token := by
  have hnext : c.next.1 = (Reading.ofText line c.rest).token ∧
      c.next.2.rest = (Reading.ofText line c.rest).rest := by
    obtain ⟨htoken, hbehind⟩ := Reading.ofText_congr c.line line c.rest
    cases h : c.slot with
    | ahead token => exact absurd h (hslot token)
    | empty => simp [next, h, htoken, hbehind]
    | behind token => simp [next, h, htoken, hbehind]
  rw [upcoming_eq, Located.ofText_eq, hnext.1, ← hnext.2, List.map_cons]
  by_cases hend : (Reading.ofText line c.rest).token.kind = .endOfInput
  · rw [if_pos hend, if_pos hend, List.map_nil]
  · rw [if_neg hend, if_neg hend, ← upcoming_eq_map_ofText]
    intro token
    rw [slot_next]
    exact Slot.noConfusion
termination_by c.unread
decreasing_by
  apply unread_next_lt
  rw [hnext.1]
  exact hend

/-- A fresh cursor has the tokens of its source before it. -/
theorem upcoming_start (source : String) :
    (start source).upcoming = (Located.ofSource source).map Located.token :=
  upcoming_eq_map_ofText 1 (by simp [start])

end Cursor

end BugLang
