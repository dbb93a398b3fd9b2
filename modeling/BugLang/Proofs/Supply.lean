import BugLang.Token.Cursor
import Mathlib.Data.Stream.Init

/-!
# The supply of a cursor

A cursor never runs dry: behind the end of the input it hands out the end of the
input again.  `Cursor.supply` is the endless stream of all tokens that are still to
come, each with its line, and `Cursor.remaining` is the part of it that ends with
the first end of the input.

* `Cursor.supply_eq`: the supply is the next token and the supply behind it.
* `Cursor.supply_peek`: looking at the next token leaves the supply as it is.
* `Cursor.line_of_isAhead`: ahead of a token, a cursor stands on the line of that token.
* `Cursor.remaining_start`: at first, what remains are the tokens of the source.
* `Cursor.remaining_of_supply`: what remains is what the supply says.
* `Cursor.Reached.remaining_suffix`: what remains of a source is an end of its tokens.
-/

namespace BugLang

open Stream'

/-- Tokens without end. -/
abbrev Supply := Stream' Located

namespace Supply

/-- Whether from some place on there is nothing but the end of the input. -/
def EndsWithin (s : Supply) (places : Nat) : Prop :=
  ∀ place, places ≤ place → (s.get place).token.kind = .endOfInput

/-- A supply that has ended stays at its end. -/
theorem EndsWithin.mono {s : Supply} {m n : Nat} (h : EndsWithin s m) (hmn : m ≤ n) :
    EndsWithin s n :=
  fun place hplace => h place (Nat.le_trans hmn hplace)

/-- Tokens that are taken bring the end nearer. -/
theorem EndsWithin.of_append {s : Supply} {places : Nat} {taken : List Located}
    (h : EndsWithin (taken ++ₛ s) places) : EndsWithin s (places - taken.length) := by
  intro place hplace
  have hget := h (taken.length + place) (by omega)
  rwa [get_append_right] at hget

/-- A token that is not the end of the input is no part of the end. -/
theorem EndsWithin.pos_of_mem {s : Supply} {places : Nat} {taken : List Located} {a : Located}
    (h : EndsWithin (taken ++ₛ s) places) (ha : a ∈ taken)
    (hkind : a.token.kind ≠ .endOfInput) : 0 < places := by
  obtain ⟨i, hi, rfl⟩ := List.getElem_of_mem ha
  by_contra hzero
  apply hkind
  rw [← get_append_left i taken s hi]
  exact h i (by omega)

end Supply

namespace Cursor

/-- The next token with the line that it stands on. -/
def nextLocated (c : Cursor) : Located :=
  ⟨c.next.2.line - c.next.1.lineCount, c.next.1⟩

/-- All tokens that are still to come, with their lines.  The end of the input comes
again and again. -/
def supply (c : Cursor) : Supply :=
  corec nextLocated (fun c => c.next.2) c

/-- The supply is the next token and the supply behind it. -/
theorem supply_eq (c : Cursor) : c.supply = c.nextLocated :: c.next.2.supply :=
  corec_eq _ _ c

/-- The head of the supply is the next token. -/
theorem head_supply (c : Cursor) : c.supply.head = c.nextLocated := by
  rw [supply_eq, head_cons]

/-- Behind a token, the count of lines includes those that the token ends. -/
theorem lineCount_le_line_next (c : Cursor) : c.next.1.lineCount ≤ c.next.2.line := by
  unfold next
  split <;> exact Nat.le_add_left _ _

/-- A token that was looked at is handed out just as it would have been. -/
theorem next_peek (c : Cursor) : c.peek.2.next = c.next := by
  have hslot := slot_next c
  have hline := lineCount_le_line_next c
  change c.next.2.putBack.next = c.next
  rw [putBack_of_behind hslot, next_of_ahead rfl]
  refine Prod.ext rfl ?_
  change (⟨c.next.2.rest, c.next.2.line - c.next.1.lineCount + c.next.1.lineCount,
    .behind c.next.1⟩ : Cursor) = c.next.2
  rw [Nat.sub_add_cancel hline, ← hslot]

/-- Looking at the next token leaves it the next one, on the same line. -/
theorem nextLocated_peek (c : Cursor) : c.peek.2.nextLocated = c.nextLocated := by
  rw [nextLocated, nextLocated, next_peek]

/-- Looking at the next token leaves the supply as it is. -/
theorem supply_peek (c : Cursor) : c.peek.2.supply = c.supply := by
  rw [supply_eq c.peek.2, supply_eq c, nextLocated_peek, next_peek]

/-- Whether a cursor stands ahead of a token that it has seen. -/
def IsAhead (c : Cursor) : Prop :=
  ∃ token, c.slot = .ahead token

/-- Looking at the next token leaves the cursor ahead of it. -/
theorem isAhead_peek (c : Cursor) : c.peek.2.IsAhead := by
  refine ⟨c.next.1, ?_⟩
  change c.next.2.putBack.slot = _
  rw [putBack_of_behind (slot_next c)]

/-- Ahead of a token, a cursor stands on the line of that token. -/
theorem line_of_isAhead {c : Cursor} (h : c.IsAhead) : c.line = c.nextLocated.line := by
  obtain ⟨token, htoken⟩ := h
  rw [nextLocated, next_of_ahead htoken, Nat.add_sub_cancel]

/-- A cursor that has looked at the next token stands on the line of that token. -/
theorem line_peek (c : Cursor) : c.peek.2.line = c.nextLocated.line := by
  rw [line_of_isAhead c.isAhead_peek, nextLocated_peek]

/-- The tokens that are still to come up to the end of the input, with their lines. -/
def remaining (c : Cursor) : List Located :=
  c.nextLocated :: if c.next.1.kind = .endOfInput then [] else c.next.2.remaining
termination_by c.unread
decreasing_by exact unread_next_lt ‹_›

/-- Before the end of the input, what remains is the next token and what remains
behind it. -/
theorem remaining_of_ne {c : Cursor} (h : c.nextLocated.token.kind ≠ .endOfInput) :
    c.remaining = c.nextLocated :: c.next.2.remaining := by
  rw [remaining, if_neg (show c.next.1.kind ≠ .endOfInput from h)]

/-- At the end of the input, nothing else remains. -/
theorem remaining_of_eq {c : Cursor} (h : c.nextLocated.token.kind = .endOfInput) :
    c.remaining = [c.nextLocated] := by
  rw [remaining, if_pos (show c.next.1.kind = .endOfInput from h)]

/-- The tokens that remain are the tokens to come. -/
theorem map_remaining (c : Cursor) : c.remaining.map Located.token = c.upcoming := by
  rw [remaining, upcoming_eq, List.map_cons]
  congr 1
  split
  · rfl
  · exact map_remaining c.next.2
termination_by c.unread
decreasing_by exact unread_next_lt ‹_›

/-- Unless a token was taken back, the tokens of the text remain. -/
theorem remaining_eq_ofText {c : Cursor} (hslot : ∀ token, c.slot ≠ .ahead token) :
    c.remaining = Located.ofText c.line c.rest := by
  have hnext : c.next = ((Reading.ofText c.line c.rest).token,
      ⟨(Reading.ofText c.line c.rest).rest,
        (Reading.ofText c.line c.rest).line + (Reading.ofText c.line c.rest).token.lineCount,
        .behind (Reading.ofText c.line c.rest).token⟩) := by
    cases h : c.slot with
    | ahead token => exact absurd h (hslot token)
    | empty => simp [next, h]
    | behind token => simp [next, h]
  rw [remaining, Located.ofText_eq, nextLocated, hnext, Nat.add_sub_cancel]
  by_cases hend : (Reading.ofText c.line c.rest).token.kind = .endOfInput
  · rw [if_pos hend, if_pos hend]
  · rw [if_neg hend, if_neg hend, remaining_eq_ofText]
    exact fun token => Slot.noConfusion
termination_by c.unread
decreasing_by
  have hlt : c.next.2.unread < c.unread := unread_next_lt (by rw [hnext]; exact hend)
  rwa [hnext] at hlt

/-- At first, the tokens of the source remain. -/
theorem remaining_start (source : String) :
    (start source).remaining = Located.ofSource source :=
  remaining_eq_ofText fun _ => Slot.noConfusion

/-- Cursors with the same supply have the same tokens left. -/
theorem remaining_congr {c d : Cursor} (h : c.supply = d.supply) :
    c.remaining = d.remaining := by
  rw [supply_eq c, supply_eq d] at h
  obtain ⟨hhead, htail⟩ := cons_injective2 h
  by_cases hend : c.nextLocated.token.kind = .endOfInput
  · rw [remaining_of_eq hend, hhead, remaining_of_eq (c := d) (hhead ▸ hend)]
  · rw [remaining_of_ne hend, remaining_of_ne (c := d) (hhead ▸ hend), hhead,
      remaining_congr htail]
termination_by c.unread
decreasing_by exact unread_next_lt hend

/-- **What is left.**  If a supply is some tokens before its end and another supply, then
those tokens remain and what remains of the other supply. -/
theorem remaining_of_supply {c d : Cursor} {taken : List Located}
    (h : c.supply = taken ++ₛ d.supply)
    (hkind : ∀ a ∈ taken, a.token.kind ≠ .endOfInput) :
    c.remaining = taken ++ d.remaining := by
  induction taken generalizing c with
  | nil => exact remaining_congr h
  | cons a taken ih =>
    rw [supply_eq, cons_append_stream] at h
    obtain ⟨hhead, htail⟩ := cons_injective2 h
    have ha := hkind a List.mem_cons_self
    rw [remaining_of_ne (hhead ▸ ha), hhead,
      ih htail fun b hb => hkind b (List.mem_cons_of_mem a hb), List.cons_append]

/-- The tokens that remain are those that are taken, the next one, and others. -/
theorem exists_remaining_eq {c d : Cursor} {taken : List Located}
    (h : c.supply = taken ++ₛ d.supply)
    (hkind : ∀ a ∈ taken, a.token.kind ≠ .endOfInput) :
    ∃ rest : List Located, d.remaining = d.nextLocated :: rest ∧
      c.remaining = taken ++ d.nextLocated :: rest := by
  obtain ⟨rest, hrest⟩ : ∃ rest : List Located, d.remaining = d.nextLocated :: rest := by
    rw [remaining]
    exact ⟨_, rfl⟩
  exact ⟨rest, hrest, by rw [remaining_of_supply h hkind, hrest]⟩

/-- If a supply starts with some tokens that lead up to the end of the input, then
those tokens remain. -/
theorem remaining_of_supply_end {c : Cursor} {taken : List Located} {last : Located} {s : Supply}
    (h : c.supply = (taken ++ [last]) ++ₛ s) (hlast : last.token.kind = .endOfInput)
    (hkind : ∀ a ∈ taken, a.token.kind ≠ .endOfInput) :
    c.remaining = taken ++ [last] := by
  induction taken generalizing c with
  | nil =>
    rw [supply_eq] at h
    obtain ⟨hhead, -⟩ := cons_injective2 h
    rw [remaining_of_eq (hhead ▸ hlast), hhead, List.nil_append]
  | cons a taken ih =>
    rw [supply_eq, List.cons_append, cons_append_stream] at h
    obtain ⟨hhead, htail⟩ := cons_injective2 h
    have ha := hkind a List.mem_cons_self
    rw [remaining_of_ne (hhead ▸ ha), hhead,
      ih htail fun b hb => hkind b (List.mem_cons_of_mem a hb), List.cons_append]

/-- Whether the end of the input was handed out only where the text ends. -/
def Sound (c : Cursor) : Prop :=
  ∀ token, c.slot = .behind token ∨ c.slot = .ahead token → token.kind = .endOfInput →
    token = .endOfInput ∧ c.rest = []

/-- A fresh cursor has handed out nothing. -/
theorem sound_start (source : String) : (start source).Sound := by
  intro token hslot
  rcases hslot with hslot | hslot <;> exact Slot.noConfusion hslot

/-- The end of the input is handed out where the text ends. -/
theorem Sound.next {c : Cursor} (h : c.Sound) : c.next.2.Sound := by
  intro token hslot hkind
  rw [slot_next] at hslot
  have htoken : token = c.next.1 := by
    rcases hslot with hslot | hslot
    · exact (Slot.behind.inj hslot).symm
    · exact Slot.noConfusion hslot
  subst htoken
  cases hc : c.slot with
  | ahead token =>
    rw [next_of_ahead hc] at hkind ⊢
    exact h token (.inr hc) hkind
  | empty =>
    simp only [Cursor.next, hc] at hkind ⊢
    exact Reading.rest_eq_nil_of_endOfInput hkind
  | behind token =>
    simp only [Cursor.next, hc] at hkind ⊢
    exact Reading.rest_eq_nil_of_endOfInput hkind

/-- Taking a token back does not change where the text ends. -/
theorem Sound.putBack {c : Cursor} (h : c.Sound) : c.putBack.Sound := by
  cases hc : c.slot with
  | behind token =>
    rw [putBack_of_behind hc]
    intro token' hslot hkind
    rcases hslot with hslot | hslot
    · exact Slot.noConfusion hslot
    · obtain rfl := Slot.ahead.inj hslot
      exact h token (.inl hc) hkind
  | empty => simpa [Cursor.putBack, hc] using h
  | ahead token => simpa [Cursor.putBack, hc] using h

/-- Behind the end of the input comes the end of the input. -/
theorem Sound.nextLocated_next {c : Cursor} (h : c.Sound)
    (hend : c.nextLocated.token.kind = .endOfInput) : c.next.2.nextLocated = c.nextLocated := by
  have hslot := slot_next c
  obtain ⟨htoken, hrest⟩ := h.next c.next.1 (.inl hslot) hend
  have hnext : c.next.2.next = (.endOfInput, ⟨[], c.next.2.line, .behind .endOfInput⟩) := by
    rw [Cursor.next, hslot]
    dsimp only
    rw [hrest, Reading.ofText]
    rfl
  rw [nextLocated, nextLocated, hnext, htoken]

/-- At the end of the input, the supply is nothing but the end of the input. -/
theorem Sound.supply_eq_const {c : Cursor} (h : c.Sound)
    (hend : c.nextLocated.token.kind = .endOfInput) : c.supply = const c.nextLocated := by
  apply Stream'.ext
  intro place
  induction place generalizing c with
  | zero => rw [supply_eq]; rfl
  | succ place ih =>
    have hnext := h.nextLocated_next hend
    rw [supply_eq, get_succ_cons, ih h.next (hnext ▸ hend), hnext]
    rfl

/-- The supply is what remains and then the end of the input for ever. -/
theorem Sound.exists_supply_eq {c : Cursor} (h : c.Sound) :
    ∃ line, c.supply = c.remaining ++ₛ const ⟨line, .endOfInput⟩ := by
  by_cases hend : c.nextLocated.token.kind = .endOfInput
  · have htoken : c.nextLocated.token = .endOfInput := (h.next c.next.1 (.inl (slot_next c)) hend).1
    refine ⟨c.nextLocated.line, ?_⟩
    rw [remaining_of_eq hend, ← htoken, cons_append_stream, nil_append_stream]
    rw [h.supply_eq_const hend, ← const_eq]
  · obtain ⟨line, hline⟩ := h.next.exists_supply_eq
    exact ⟨line, by rw [supply_eq, remaining_of_ne hend, hline, cons_append_stream]⟩
termination_by c.unread
decreasing_by exact unread_next_lt hend

/-- What remains settles the supply. -/
theorem Sound.supply_congr {c d : Cursor} (hc : c.Sound) (hd : d.Sound)
    (h : c.remaining = d.remaining) : c.supply = d.supply := by
  have hhead : c.nextLocated = d.nextLocated := by
    rw [remaining, remaining.eq_1 d] at h
    exact (List.cons.inj h).1
  by_cases hend : c.nextLocated.token.kind = .endOfInput
  · rw [hc.supply_eq_const hend, hd.supply_eq_const (hhead ▸ hend), hhead]
  · rw [remaining_of_ne hend, remaining_of_ne (c := d) (hhead ▸ hend)] at h
    rw [supply_eq c, supply_eq d, hhead, hc.next.supply_congr hd.next (List.cons.inj h).2]
termination_by c.unread
decreasing_by exact unread_next_lt hend

/-- Where the same tokens are to come, the next ones are equal and the same are to come
behind them. -/
theorem Sound.upcoming_congr_next {c d : Cursor} (hc : c.Sound) (hd : d.Sound)
    (h : c.upcoming = d.upcoming) :
    c.next.1 = d.next.1 ∧ c.next.2.upcoming = d.next.2.upcoming := by
  rw [upcoming_eq c, upcoming_eq d] at h
  obtain ⟨hhead, htail⟩ := List.cons.inj h
  refine ⟨hhead, ?_⟩
  by_cases hend : d.next.1.kind = .endOfInput
  · -- Both cursors are at the end, and stay there.
    have hcend : c.next.1.kind = .endOfInput := hhead ▸ hend
    have hcnext : c.next.2.next.1 = c.next.1 :=
      congrArg Located.token (hc.nextLocated_next hcend)
    have hdnext : d.next.2.next.1 = d.next.1 :=
      congrArg Located.token (hd.nextLocated_next hend)
    rw [upcoming_eq c.next.2, upcoming_eq d.next.2, hcnext, hdnext, hhead, if_pos hend, if_pos hend]
  · rwa [hhead, if_neg hend, if_neg hend] at htail

/-- The tokens to come settle the tokens of the supply, if not their lines. -/
theorem Sound.token_get_supply_congr {c d : Cursor} (hc : c.Sound) (hd : d.Sound)
    (h : c.upcoming = d.upcoming) (place : Nat) :
    (c.supply.get place).token = (d.supply.get place).token := by
  obtain ⟨hhead, htail⟩ := hc.upcoming_congr_next hd h
  rw [supply_eq c, supply_eq d]
  induction place generalizing c d with
  | zero => exact hhead
  | succ place ih =>
    obtain ⟨hhead', htail'⟩ := hc.next.upcoming_congr_next hd.next htail
    rw [get_succ_cons, get_succ_cons, supply_eq c.next.2, supply_eq d.next.2]
    exact ih hc.next hd.next htail hhead' htail'

/-- The tokens of the supply settle the tokens to come. -/
theorem upcoming_congr_of_supply {c d : Cursor}
    (h : ∀ place, (c.supply.get place).token = (d.supply.get place).token) :
    c.upcoming = d.upcoming := by
  have hhead : c.next.1 = d.next.1 := by
    have hget := h 0
    rw [supply_eq c, supply_eq d] at hget
    exact hget
  rw [upcoming_eq c, upcoming_eq d, hhead]
  by_cases hend : d.next.1.kind = .endOfInput
  · rw [if_pos hend, if_pos hend]
  · rw [if_neg hend, if_neg hend, upcoming_congr_of_supply]
    intro place
    have hget := h (place + 1)
    rwa [supply_eq c, supply_eq d, get_succ_cons, get_succ_cons] at hget
termination_by c.unread
decreasing_by
  apply unread_next_lt
  rw [hhead]
  exact hend

/-- The supply ends within as many tokens as there are characters left. -/
theorem Sound.endsWithin {c : Cursor} (h : c.Sound) : Supply.EndsWithin c.supply c.unread := by
  by_cases hend : c.nextLocated.token.kind = .endOfInput
  · intro place _
    rw [h.supply_eq_const hend, get_const, hend]
  · have hlt : c.next.2.unread < c.unread := unread_next_lt hend
    intro place hplace
    obtain ⟨place, rfl⟩ : ∃ n, place = n + 1 := ⟨place - 1, by omega⟩
    rw [supply_eq, get_succ_cons]
    exact h.next.endsWithin place (by omega)
termination_by c.unread
decreasing_by exact hlt

/-- The cursors that come about from reading a source, with tokens taken back anywhere
on the way. -/
inductive Reached (source : String) : Cursor → Prop
  | start : Reached source (start source)
  | next {c : Cursor} (h : Reached source c) : Reached source c.next.2
  | putBack {c : Cursor} (h : Reached source c) : Reached source c.putBack

/-- Reading hands out the end of the input only where the source ends. -/
theorem Reached.sound {source : String} {c : Cursor} (h : Reached source c) : c.Sound := by
  induction h with
  | start => exact sound_start source
  | next _ ih => exact ih.next
  | putBack _ ih => exact ih.putBack

/-- The cursor behind some tokens of a source. -/
def behind (source : String) : Nat → Cursor
  | 0 => start source
  | count + 1 => (behind source count).next.2

/-- Behind some tokens, reading has been sound. -/
theorem sound_behind (source : String) (count : Nat) : (behind source count).Sound := by
  induction count with
  | zero => exact sound_start source
  | succ count ih => exact ih.next

/-- However tokens were taken back, a cursor stands behind some tokens of its source,
and it may have looked at the next one. -/
theorem Reached.eq_behind_or_peek {source : String} {c : Cursor} (h : Reached source c) :
    ∃ count, c = behind source count ∨ c = (behind source count).peek.2 := by
  induction h with
  | start => exact ⟨0, .inl rfl⟩
  | next _ ih =>
    obtain ⟨count, rfl | rfl⟩ := ih
    · exact ⟨count + 1, .inl rfl⟩
    · exact ⟨count + 1, .inl (congrArg Prod.snd (next_peek _))⟩
  | putBack _ ih =>
    obtain ⟨count, rfl | rfl⟩ := ih
    · cases count with
      | zero => exact ⟨0, .inl rfl⟩
      | succ count => exact ⟨count, .inr rfl⟩
    · exact ⟨count, .inr (putBack_putBack _)⟩

/-- What remains behind some tokens of a source is an end of its tokens. -/
theorem remaining_behind_suffix (source : String) (count : Nat) :
    (behind source count).remaining <:+ Located.ofSource source := by
  induction count with
  | zero =>
    rw [← remaining_start]
    exact List.suffix_rfl
  | succ count ih =>
    refine List.IsSuffix.trans ?_ ih
    change (behind source count).next.2.remaining <:+ (behind source count).remaining
    by_cases hend : (behind source count).nextLocated.token.kind = .endOfInput
    · have hnext := (sound_behind source count).nextLocated_next hend
      have hremaining :
          (behind source count).next.2.remaining = (behind source count).remaining := by
        rw [remaining_of_eq hend, remaining_of_eq (hnext ▸ hend), hnext]
      exact ⟨[], hremaining⟩
    · rw [remaining_of_ne hend]
      exact List.suffix_cons _ _

/-- **Nothing new comes up.**  What remains of a source is an end of its tokens. -/
theorem Reached.remaining_suffix {source : String} {c : Cursor} (h : Reached source c) :
    c.remaining <:+ Located.ofSource source := by
  obtain ⟨count, rfl | rfl⟩ := h.eq_behind_or_peek
  · exact remaining_behind_suffix source count
  · rw [remaining_congr (supply_peek _)]
    exact remaining_behind_suffix source count

end Cursor

end BugLang
