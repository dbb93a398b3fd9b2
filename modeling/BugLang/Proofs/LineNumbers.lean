import BugLang.Proofs.Segmentation
import Mathlib.Algebra.Ring.Nat

/-!
# The lines that tokens stand on

The line of a token is counted piece by piece, but it can be said without the pieces.  A text
has a line end where it has a line feed, and where it has a carriage return that no line feed
follows.  `lineEndsWithin` counts these at the front of a text.

Between pieces and within them the two counts are the same, except for one thing: of the line
ends within a comment, only line feeds are counted.

* `Segment.lineEndsWithin_append`: the line ends of one piece.
* `Segmented.lineEndsWithin_append`: those of all pieces at the front of a text.
* `line_of_token`: the lines of all tokens of a source.
-/

namespace BugLang

/-- Whether a character is a carriage return and no line feed follows it. -/
def isLoneReturn (c : Char) (rest : List Char) : Bool :=
  c = '\r' && rest.head? ≠ some '\n'

/-- Whether a line ends with a character.  A carriage return and the line feed that follows it
are one line end, which is over with the line feed. -/
def endsLine (c : Char) (rest : List Char) : Bool :=
  c = '\n' || isLoneReturn c rest

/-- The number of lines that end within the first characters of a text. -/
def lineEndsWithin : Nat → List Char → Nat
  | 0, _ => 0
  | _ + 1, [] => 0
  | places + 1, c :: rest => (endsLine c rest).toNat + lineEndsWithin places rest

/-- The number of carriage returns in a text that no line feed follows. -/
def loneReturns : List Char → Nat
  | [] => 0
  | c :: rest => (isLoneReturn c rest).toNat + loneReturns rest

namespace Piece

/-- The number of lines that end within a piece and do not count: those that end with a
carriage return within a comment. -/
def uncounted (piece : Piece) : Nat :=
  match piece.kind with
  | .blockComment => loneReturns piece.text
  | _ => 0

/-- The token that some pieces start with, if the first one has a token.  Behind all pieces is
the end of the input. -/
def tokenAt? : List Piece → Option Token
  | [] => some .endOfInput
  | piece :: _ => piece.token?

end Piece

/-! ### Line ends -/

variable {u rest : List Char}

/-- Where no line breaks, no line ends. -/
theorem lineEndsWithin_of_inLine (hu : ∀ c ∈ u, Piece.isLineBreak c = false) (places : Nat)
    (rest : List Char) :
    lineEndsWithin (u.length + places) (u ++ rest) = lineEndsWithin places rest := by
  induction u with
  | nil => rw [List.length_nil, Nat.zero_add, List.nil_append]
  | cons c u ih =>
    obtain ⟨hc, hu⟩ := List.forall_mem_cons.mp hu
    have hends : endsLine c (u ++ rest) = false := by
      simp_all [endsLine, isLoneReturn, Piece.isLineBreak]
    rw [List.length_cons, Nat.add_right_comm, List.cons_append, lineEndsWithin, hends, ih hu]
    exact Nat.zero_add _

/-- The lines of a text end with its line feeds and its lone carriage returns, unless a line feed
follows that belongs to its last character. -/
theorem lineEndsWithin_append_of_last (hlast : u.getLast? = some '\r' → rest.head? ≠ some '\n')
    (places : Nat) :
    lineEndsWithin (u.length + places) (u ++ rest) =
      u.count '\n' + loneReturns u + lineEndsWithin places rest := by
  induction u with
  | nil => simp [loneReturns]
  | cons c u ih =>
    have hsame : isLoneReturn c (u ++ rest) = isLoneReturn c u := by
      cases u with
      | nil =>
        by_cases hc : c = '\r'
        · simp [isLoneReturn, hc, hlast (congrArg some hc)]
        · simp [isLoneReturn, hc]
      | cons d u => rfl
    have hends : (endsLine c (u ++ rest)).toNat =
        (if c = '\n' then 1 else 0) + (isLoneReturn c u).toNat := by
      rw [endsLine, hsame]
      by_cases hc : c = '\n'
      · subst hc
        rfl
      · simp [hc]
    have hothers := ih fun h => hlast (by
      cases u with
      | nil => cases h
      | cons d u => rwa [List.getLast?_cons_cons])
    rw [List.length_cons, Nat.add_right_comm, List.cons_append, lineEndsWithin, hends, hothers,
      List.count_cons, loneReturns]
    simp only [beq_iff_eq]
    omega

/-- A class of characters without line breaks has only characters that break no line. -/
theorem isLineBreak_of_inside {inside : Char → Bool} (hfeed : inside '\n' = false)
    (hreturn : inside '\r' = false) {c : Char} (hc : inside c = true) :
    Piece.isLineBreak c = false := by
  have hne : c ≠ '\n' ∧ c ≠ '\r' := by
    constructor <;> rintro rfl
    · exact Bool.noConfusion (hc.symm.trans hfeed)
    · exact Bool.noConfusion (hc.symm.trans hreturn)
  simpa [Piece.isLineBreak] using hne

/-! ### Pieces -/

namespace Segment

variable {piece : Piece} {token : Option Token}

/-- Only line ends and comments have line breaks in them. -/
theorem isLineBreak_eq_false (h : Segment piece token rest) (hend : piece.kind ≠ .lineEnd)
    (hcomment : piece.kind ≠ .blockComment) :
    ∀ c ∈ piece.text, Piece.isLineBreak c = false := by
  have hdigit : ∀ c, c.isDigit = true → Piece.isLineBreak c = false :=
    fun _ => isLineBreak_of_inside (by decide) (by decide)
  have hletter : ∀ c, Unicode.isAlphabetic c = true → Piece.isLineBreak c = false :=
    fun _ => isLineBreak_of_inside (by decide) (by decide)
  have hword : ∀ c, Unicode.isAlphanumeric c = true → Piece.isLineBreak c = false :=
    fun _ => isLineBreak_of_inside (by decide) (by decide)
  have hinline : ∀ c, isInLine c = true → Piece.isLineBreak c = false :=
    fun _ => isLineBreak_of_inside (by decide) (by decide)
  have hquotable : ∀ c, isQuotable c = true → Piece.isLineBreak c = false :=
    fun _ => isLineBreak_of_inside (by decide) (by decide)
  intro c hc
  cases h with
  | lineFeed | carriageReturn | returnLineFeed => exact absurd rfl hend
  | blockComment | openComment => exact absurd rfl hcomment
  | lineComment hbody =>
    obtain rfl | rfl | hc : c = '/' ∨ c = '/' ∨ _ := by simpa using hc
    · decide
    · decide
    · exact hinline c (hbody.1 c hc)
  | blank _ hbreak => rwa [List.mem_singleton.mp hc]
  | whole _ hdigits => exact hdigit c (hdigits.1 c hc)
  | fraction _ hdigits hplaces =>
    obtain hc | rfl | hc : _ ∨ c = '.' ∨ _ := by simpa using hc
    · exact hdigit c (hdigits c hc)
    · decide
    · exact hdigit c (hplaces.1 c hc)
  | keyword hfirst hletters | name hfirst hletters =>
    obtain rfl | hc := List.mem_cons.mp hc
    · exact hletter c hfirst
    · exact hword c (hletters.1 c hc)
  | quoted hbody =>
    obtain rfl | hc | rfl : c = '"' ∨ _ ∨ c = '"' := by simpa using hc
    · decide
    · exact hquotable c (hbody c hc)
    · decide
  | openQuote hbody =>
    obtain rfl | hc := List.mem_cons.mp hc
    · decide
    · exact hquotable c (hbody.1 c hc)
  | other hbreak => rwa [List.mem_singleton.mp hc]

/-- **The line ends of a piece.**  They are those that are counted and those that are not. -/
theorem lineEndsWithin_append (h : Segment piece token rest) (places : Nat) :
    lineEndsWithin (piece.text.length + places) (piece.text ++ rest) =
      piece.lineCount + piece.uncounted + lineEndsWithin places rest := by
  by_cases hinline : piece.kind ≠ .lineEnd ∧ piece.kind ≠ .blockComment
  · have hcount : piece.lineCount = 0 := by
      unfold Piece.lineCount
      split <;> simp_all
    have huncounted : piece.uncounted = 0 := by
      unfold Piece.uncounted
      split <;> simp_all
    rw [lineEndsWithin_of_inLine (h.isLineBreak_eq_false hinline.1 hinline.2), hcount,
      huncounted, Nat.zero_add]
  · cases h with
    | lineFeed => exact lineEndsWithin_append_of_last (by simp) places
    | carriageReturn hrest => exact lineEndsWithin_append_of_last (fun _ => hrest) places
    | returnLineFeed => exact lineEndsWithin_append_of_last (by simp) places
    | blockComment =>
      refine lineEndsWithin_append_of_last (fun hlast => ?_) places
      rw [List.getLast?_append] at hlast
      cases hlast
    | openComment => exact lineEndsWithin_append_of_last (by simp) places
    | _ => exact absurd ⟨nofun, nofun⟩ hinline

end Segment

/-- **The line ends of a text.**  Those at its front lie in the pieces there. -/
theorem Segmented.lineEndsWithin_append {text : List Char} {before after : List Piece}
    {tokens : List Token} (h : Segmented text (before ++ after) tokens) :
    lineEndsWithin (before.map Piece.text).flatten.length text =
      (before.map Piece.lineCount).sum + (before.map Piece.uncounted).sum := by
  induction before generalizing text tokens with
  | nil => rfl
  | cons piece before ih =>
    cases h with
    | cons hpiece hrest =>
      rw [List.map_cons, List.flatten_cons, List.length_append, hpiece.lineEndsWithin_append,
        ih hrest, List.map_cons, List.map_cons, List.sum_cons, List.sum_cons]
      omega

/-- A token stands behind the lines that are counted in the pieces before it. -/
theorem Located.line_of_getElem? {line count : Nat} {pieces : List Piece} {a : Located}
    (h : (ofPieces line pieces)[count]? = some a) :
    ∃ before after, pieces = before ++ after ∧ (before.filterMap Piece.token?).length = count ∧
      Piece.tokenAt? after = some a.token ∧ a.line = line + (before.map Piece.lineCount).sum := by
  fun_induction ofPieces line pieces generalizing count with
  | case1 line =>
    obtain ⟨rfl, rfl⟩ : count = 0 ∧ ⟨line, .endOfInput⟩ = a := by
      cases count <;> simp_all
    exact ⟨[], [], rfl, rfl, rfl, rfl⟩
  | case2 line piece pieces token htoken ih =>
    cases count with
    | zero =>
      obtain rfl := Option.some.inj h
      exact ⟨[], piece :: pieces, rfl, rfl, htoken, rfl⟩
    | succ count =>
      obtain ⟨before, after, rfl, hcount, hat, hline⟩ := ih h
      refine ⟨piece :: before, after, rfl, ?_, hat, ?_⟩
      · rw [List.filterMap_cons_some htoken, List.length_cons, hcount]
      · rw [hline, List.map_cons, List.sum_cons, Nat.add_assoc]
  | case3 line piece pieces htoken ih =>
    obtain ⟨before, after, rfl, hcount, hat, hline⟩ := ih h
    refine ⟨piece :: before, after, rfl, ?_, hat, ?_⟩
    · rw [List.filterMap_cons_none htoken, hcount]
    · rw [hline, List.map_cons, List.sum_cons, Nat.add_assoc]

/-- **The lines of the tokens.**  Each token of a source, the end of the input included, stands
at the front of some pieces of it, behind as many tokens as there are before it.  Its line is one
more than the number of lines that end before its first character, except that the lines do not
count which end with a carriage return within a comment.  So the line is the right one if and
only if there is no such carriage return before the token. -/
theorem line_of_token (source : String) (count : Nat) (a : Located)
    (h : (Located.ofSource source)[count]? = some a) :
    ∃ before after, Piece.all source.toList = before ++ after ∧
      (before.filterMap Piece.token?).length = count ∧ Piece.tokenAt? after = some a.token ∧
      a.line + (before.map Piece.uncounted).sum =
        1 + lineEndsWithin (before.map Piece.text).flatten.length source.toList ∧
      (a.line = 1 + lineEndsWithin (before.map Piece.text).flatten.length source.toList ↔
        ∀ piece ∈ before, piece.uncounted = 0) := by
  obtain ⟨before, after, hpieces, hcount, hat, hline⟩ := Located.line_of_getElem? h
  have hends := (hpieces ▸ Segmented.all source.toList).lineEndsWithin_append
  have hlines : a.line + (before.map Piece.uncounted).sum =
      1 + lineEndsWithin (before.map Piece.text).flatten.length source.toList := by
    rw [hline, hends, Nat.add_assoc]
  refine ⟨before, after, hpieces, hcount, hat, hlines, ?_⟩
  have hsum : (before.map Piece.uncounted).sum = 0 ↔ ∀ piece ∈ before, piece.uncounted = 0 := by
    rw [List.sum_eq_zero_iff_forall_eq_nat, List.forall_mem_map]
  rw [← hsum, ← hlines]
  omega

/-- Behind a line end of either kind and a comment over two lines, a name stands on the fourth
line. -/
theorem line_of_name_behind_comment :
    let source := "a\r\n/*\r\n*/\rb"
    (Located.ofSource source)[3]? = some ⟨4, ⟨.name, "b"⟩⟩ ∧
      ∃ before after, Piece.all source.toList = before ++ after ∧
        (before.filterMap Piece.token?).length = 3 ∧
        Piece.tokenAt? after = some ⟨.name, "b"⟩ ∧
        4 + (before.map Piece.uncounted).sum =
          1 + lineEndsWithin (before.map Piece.text).flatten.length source.toList := by
  intro source
  have hb : (Located.ofSource source)[3]? = some ⟨4, ⟨.name, "b"⟩⟩ := by decide +kernel
  obtain ⟨before, after, hpieces, hcount, hat, hline, -⟩ := line_of_token source 3 _ hb
  exact ⟨hb, before, after, hpieces, hcount, hat, hline⟩

/-- A carriage return within a comment ends a line, but the name behind the comment still stands
on the first line. -/
theorem return_within_comment :
    let source := "/*\r*/x"
    Piece.all source.toList = [⟨.blockComment, "/*\r*/".toList⟩, ⟨.word, "x".toList⟩] ∧
      Located.ofSource source = [⟨1, ⟨.name, "x"⟩⟩, ⟨1, .endOfInput⟩] ∧
      1 ≠ 1 + lineEndsWithin "/*\r*/".toList.length source.toList := by
  decide +kernel

end BugLang
