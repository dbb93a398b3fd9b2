import BugLang.Proofs.LineNumbers
import BugLang.Proofs.Programs

/-!
# Conventions for line ends

Lines may end with a line feed, with a carriage return, or with both.  `withReturns` puts one of
the other marks in place of each line feed of a text.  The text then falls into the same pieces:
those that are within a line do not change, a line end is one piece in each convention, and a
comment keeps its closing mark, which no line break is part of.

Both marks leave the tokens as they are.  A carriage return with a line feed also leaves the
lines, for within a comment it is the line feeds that count.

* `Segment.withReturns`: one piece in another convention.
* `Segmented.withReturns`: the pieces of a text in another convention.
* `line_endings_do_not_count`: the tokens, their lines, and what is parsed.
-/

namespace BugLang

/-- The marks with a carriage return that a line may end with. -/
inductive ReturnMark
  | withLineFeed
  | alone
deriving DecidableEq, Repr

/-- The characters of a mark. -/
def ReturnMark.text : ReturnMark → List Char
  | withLineFeed => ['\r', '\n']
  | alone => ['\r']

/-- A text with a mark in place of each line feed. -/
def withReturns (mark : ReturnMark) (text : List Char) : List Char :=
  text.flatMap fun c => if c = '\n' then mark.text else [c]

/-- A source with a mark in place of each line feed. -/
def sourceWithReturns (mark : ReturnMark) (source : String) : String :=
  .ofList (withReturns mark source.toList)

/-- A piece with a mark in place of each line feed. -/
def Piece.withReturns (mark : ReturnMark) (piece : Piece) : Piece :=
  ⟨piece.kind, BugLang.withReturns mark piece.text⟩

variable {mark : ReturnMark}

/-! ### Texts -/

/-- The mark comes first in place of a line feed. -/
theorem withReturns_lineFeed (mark : ReturnMark) (text : List Char) :
    withReturns mark ('\n' :: text) = mark.text ++ withReturns mark text := rfl

/-- Another character stays where it is. -/
theorem withReturns_cons {c : Char} (hc : c ≠ '\n') (text : List Char) :
    withReturns mark (c :: text) = c :: withReturns mark text := by
  rw [withReturns, List.flatMap_cons, if_neg hc]
  rfl

/-- Marks are put into the parts of a text one by one. -/
theorem withReturns_append (text text' : List Char) :
    withReturns mark (text ++ text') = withReturns mark text ++ withReturns mark text' :=
  List.flatMap_append

/-- Where no line breaks, there is nothing to mark. -/
theorem withReturns_of_inLine {text : List Char}
    (h : ∀ c ∈ text, Piece.isLineBreak c = false) : withReturns mark text = text := by
  induction text with
  | nil => rfl
  | cons c text ih =>
    obtain ⟨hc, htext⟩ := List.forall_mem_cons.mp h
    have hfeed : c ≠ '\n' := by
      rintro rfl
      exact Bool.noConfusion hc
    rw [withReturns_cons hfeed, ih htext]

/-- A text with marks starts with a line break or as the text does. -/
theorem head?_withReturns (text : List Char) :
    ∀ c ∈ (withReturns mark text).head?, Piece.isLineBreak c = true ∨ c ∈ text.head? := by
  intro c hc
  cases text with
  | nil => cases hc
  | cons d text =>
    by_cases hd : d = '\n'
    · subst hd
      left
      cases mark <;> obtain rfl := Option.some.inj hc <;> rfl
    · rw [withReturns_cons hd] at hc
      exact .inr hc

/-- With carriage returns alone, there are no line feeds. -/
theorem not_mem_withReturns_alone (text : List Char) : '\n' ∉ withReturns .alone text := by
  intro hmem
  obtain ⟨c, -, hc⟩ := List.mem_flatMap.mp hmem
  split at hc
  · obtain hc := List.mem_singleton.mp hc
    exact absurd hc (by decide)
  · rename_i hne
    exact hne (List.mem_singleton.mp hc).symm

/-- With both characters, there are as many line feeds as before. -/
theorem count_withReturns (text : List Char) :
    (withReturns .withLineFeed text).count '\n' = text.count '\n' := by
  induction text with
  | nil => rfl
  | cons c text ih =>
    by_cases hc : c = '\n'
    · subst hc
      rw [withReturns_lineFeed, List.count_append, ih, List.count_cons_self, Nat.add_comm]
      rfl
    · rw [withReturns_cons hc, List.count_cons_of_ne hc, List.count_cons_of_ne hc, ih]

/-- A text with marks has no more closing marks of comments than before. -/
theorem Unclosed.withReturns {text : List Char} (h : Unclosed text) :
    Unclosed (withReturns mark text) := by
  induction text with
  | nil => exact h
  | cons c text ih =>
    have hrest := ih h.of_cons
    by_cases hc : c = '\n'
    · subst hc
      cases mark with
      | withLineFeed => exact (hrest.cons (by simp)).cons (by simp)
      | alone => exact hrest.cons (by simp)
    · rw [withReturns_cons hc]
      refine hrest.cons fun hmark => ?_
      obtain ⟨rfl, hslash⟩ := hmark
      -- The slash is no line break, so it was behind the asterisk before.
      rcases head?_withReturns text '/' hslash with hbreak | hhead
      · exact Bool.noConfusion hbreak
      · obtain ⟨rest, rfl⟩ : ∃ rest, text = '/' :: rest := List.head?_eq_some_iff.mp hhead
        exact h ⟨[], rest, rfl⟩

/-! ### Pieces -/

/-- **Pieces in another convention.**  In a text without carriage returns, a piece with marks is
a piece of the text with marks, and stands for the same token. -/
theorem Segment.withReturns {piece : Piece} {token : Option Token} {rest : List Char}
    (h : Segment piece token rest) (hreturn : '\r' ∉ piece.text) (mark : ReturnMark) :
    Segment (piece.withReturns mark) token (BugLang.withReturns mark rest) := by
  by_cases hinline : piece.kind ≠ .lineEnd ∧ piece.kind ≠ .blockComment
  · have hsame : piece.withReturns mark = piece := by
      rw [Piece.withReturns, withReturns_of_inLine (h.isLineBreak_eq_false hinline.1 hinline.2)]
    rw [hsame]
    exact h.of_head hinline.1 hinline.2 (head?_withReturns rest)
  · cases h with
    | lineFeed =>
      cases mark with
      | withLineFeed => exact .returnLineFeed
      | alone =>
        exact .carriageReturn fun hhead =>
          not_mem_withReturns_alone rest (List.mem_of_mem_head? hhead)
    | carriageReturn | returnLineFeed => exact absurd List.mem_cons_self hreturn
    | @blockComment body _ hbody =>
      have hmarked : Unclosed (BugLang.withReturns mark _) := hbody.withReturns
      rw [withReturns_append] at hmarked
      have htext : BugLang.withReturns mark ('/' :: '*' :: body ++ ['*', '/']) =
          '/' :: '*' :: BugLang.withReturns mark body ++ ['*', '/'] := by
        rw [withReturns_append]
        rfl
      rw [Piece.withReturns, htext]
      exact .blockComment hmarked
    | openComment hbody => exact .openComment hbody.withReturns
    | _ => exact absurd ⟨nofun, nofun⟩ hinline

/-- With both characters, a piece ends as many lines as before. -/
theorem Piece.lineCount_withReturns (piece : Piece) :
    (piece.withReturns .withLineFeed).lineCount = piece.lineCount := by
  unfold lineCount
  rw [Piece.withReturns, count_withReturns]

namespace Segmented

variable {text : List Char} {pieces : List Piece} {tokens : List Token}

/-- **Texts in another convention.**  The pieces of a text with marks are its pieces with marks. -/
theorem withReturns (h : Segmented text pieces tokens) (hreturn : '\r' ∉ text)
    (mark : ReturnMark) :
    Segmented (BugLang.withReturns mark text) (pieces.map (Piece.withReturns mark)) tokens := by
  induction h with
  | nil => exact .nil
  | cons hpiece _ ih =>
    obtain ⟨hpieceReturn, hrestReturn⟩ := not_or.mp (mt List.mem_append.mpr hreturn)
    rw [withReturns_append]
    exact .cons (hpiece.withReturns hpieceReturn mark) (ih hrestReturn)

/-- With both characters, the tokens of the pieces stand on the same lines. -/
theorem ofPieces_withReturns (h : Segmented text pieces tokens) (hreturn : '\r' ∉ text)
    (line : Nat) :
    Located.ofPieces line (pieces.map (Piece.withReturns .withLineFeed)) =
      Located.ofPieces line pieces := by
  induction h generalizing line with
  | nil => rfl
  | @cons piece token _ _ _ hpiece _ ih =>
    obtain ⟨hpieceReturn, hrestReturn⟩ := not_or.mp (mt List.mem_append.mpr hreturn)
    have htoken : (piece.withReturns .withLineFeed).token? = piece.token? :=
      (hpiece.withReturns hpieceReturn .withLineFeed).token_eq.symm.trans hpiece.token_eq
    rw [List.map_cons, Located.ofPieces, Located.ofPieces, htoken,
      piece.lineCount_withReturns, ih hrestReturn]

end Segmented

/-! ### Sources -/

section Sources

variable {source source' : String}

/-- Marks leave the tokens of a source as they are. -/
theorem Located.map_token_withReturns (hreturn : '\r' ∉ source.toList) (mark : ReturnMark) :
    (ofSource (sourceWithReturns mark source)).map token = (ofSource source).map token := by
  have hmarked := ((Segmented.all source.toList).withReturns hreturn mark).eq_all.2
  rw [ofSource, ofSource, ofText, ofText, map_token_ofPieces, map_token_ofPieces,
    sourceWithReturns, String.toList_ofList, ← hmarked]

/-- Marks of both characters leave the lines of the tokens as they are, too. -/
theorem Located.ofSource_withReturns (hreturn : '\r' ∉ source.toList) :
    ofSource (sourceWithReturns .withLineFeed source) = ofSource source := by
  have hmarked := ((Segmented.all source.toList).withReturns hreturn .withLineFeed).eq_all.1
  rw [ofSource, ofSource, ofText, ofText, sourceWithReturns, String.toList_ofList, ← hmarked]
  exact (Segmented.all source.toList).ofPieces_withReturns hreturn 1

variable (h : Located.ofSource source' = Located.ofSource source)

include h

/-- Cursors at the start of sources with equal tokens on equal lines have equal supplies. -/
theorem Cursor.supply_start_congr : (start source').supply = (start source).supply := by
  refine (sound_start source').supply_congr (sound_start source) ?_
  rw [remaining_start, remaining_start, h]

/-- Sources with equal tokens on equal lines are parsed to the same tree or failure. -/
theorem parse_congr_of_located : parse source' = parse source := by
  obtain ⟨hverdict, hstack, -⟩ := (Builder.follows_readText source).unique
    (Builder.follows_readText source') (Cursor.supply_start_congr h) rfl
  rw [Builder.parse_eq, Builder.parse_eq]
  unfold Outcome.complete Builder.finish
  rw [hverdict, hstack]

/-- A rule makes the same of sources with equal tokens on equal lines. -/
theorem parseRule_congr_of_located (rule : Rule) :
    parseRule rule source' = parseRule rule source := by
  have hfirst := Builder.follows_apply (b := .start source) (Cursor.sound_start source) rule
  have hsecond := Builder.follows_apply (b := .start source') (Cursor.sound_start source') rule
  obtain ⟨hverdict, hstack, -⟩ := hfirst.unique hsecond (Cursor.supply_start_congr h) rfl
  unfold parseRule Outcome.tree? Builder.finish
  rw [hverdict, hstack]

end Sources

/-- **Line ends are the same in all conventions.**  Let a source have no carriage returns.  With a
carriage return before each line feed, it has the same tokens on the same lines, and it is parsed
to the same tree, or fails in the same way on the same line, as a program and by every rule.
With carriage returns in place of the line feeds, it has the same tokens. -/
theorem line_endings_do_not_count (source : String) (hreturn : '\r' ∉ source.toList) :
    Located.ofSource (sourceWithReturns .withLineFeed source) = Located.ofSource source ∧
      parse (sourceWithReturns .withLineFeed source) = parse source ∧
      (∀ rule, parseRule rule (sourceWithReturns .withLineFeed source) = parseRule rule source) ∧
      (Located.ofSource (sourceWithReturns .alone source)).map Located.token =
        (Located.ofSource source).map Located.token := by
  have hsame := Located.ofSource_withReturns hreturn
  exact ⟨hsame, parse_congr_of_located hsame, parseRule_congr_of_located hsame,
    Located.map_token_withReturns hreturn .alone⟩

/-- Line feeds stand between an asterisk and a slash within a comment, behind a comment that takes
one line, and behind a quotation mark that is not closed. -/
theorem line_endings_around_comments :
    let source := "move /*\n*\n/*/ 1 // a\n\"\n"
    let both := "move /*\r\n*\r\n/*/ 1 // a\r\n\"\r\n"
    let returns := "move /*\r*\r/*/ 1 // a\r\"\r"
    '\r' ∉ source.toList ∧ sourceWithReturns .withLineFeed source = both ∧
      sourceWithReturns .alone source = returns ∧
      Located.ofSource both = Located.ofSource source ∧
      parse both = parse source ∧ parseRule .moveAction both = parseRule .moveAction source ∧
      (Located.ofSource returns).map Located.token =
        (Located.ofSource source).map Located.token := by
  intro source both returns
  have hreturn : '\r' ∉ source.toList := by decide
  have hboth : sourceWithReturns .withLineFeed source = both := by decide +kernel
  have hreturns : sourceWithReturns .alone source = returns := by decide +kernel
  obtain ⟨hsource, hparse, hrule, htokens⟩ := line_endings_do_not_count source hreturn
  rw [hboth] at hsource hparse
  rw [hreturns] at htokens
  exact ⟨hreturn, hboth, hreturns, hsource, hparse, hboth ▸ hrule .moveAction, htokens⟩

end BugLang
