import BugLang.Token.Cursor
import Mathlib.Data.List.Infix
import Mathlib.Data.List.TakeWhile

/-!
# The pieces that a text falls into

What the pieces of a text are can be said without cutting it.  `Segment piece token rest` says
that the characters of `piece` are one piece if the text goes on with `rest`, and which token
the piece stands for.  Runs of characters are as long as they can be, and a comment between
slashes and asterisks ends with the first closing mark.

* `Segment.cut_eq`, `segment_cut`: the piece that is cut off a text is the only one at its front.
* `Segment.of_head`: of the text behind it, a piece sees the first character at most.
* `Segmented.all`, `Segmented.eq_all`: a text falls into pieces in one way.
* `tokens_of_only_segmentation`: its tokens are those that the pieces stand for.
-/

namespace BugLang

/-- Whether the characters of a run are of some class and the text behind it does not go on
with one of that class. -/
def IsRun (inside : Char → Bool) (run rest : List Char) : Prop :=
  (∀ c ∈ run, inside c = true) ∧ ∀ c, rest.head? = some c → inside c = false

/-- The characters of a comment that takes one line. -/
def isInLine (c : Char) : Bool :=
  !Piece.isLineBreak c

/-- The characters between quotation marks. -/
def isQuotable (c : Char) : Bool :=
  !(c = '"' || Piece.isLineBreak c)

/-- Whether a text has no mark in it that closes a comment. -/
def Unclosed (text : List Char) : Prop :=
  ¬ ['*', '/'] <:+: text

/-- The pieces that a text may go on with, each with the token that it stands for, and the text
behind it. -/
inductive Segment : Piece → Option Token → List Char → Prop
  | lineFeed {rest : List Char} : Segment ⟨.lineEnd, ['\n']⟩ (some .lineEnd) rest
  | carriageReturn {rest : List Char} (hrest : rest.head? ≠ some '\n') :
      Segment ⟨.lineEnd, ['\r']⟩ (some .lineEnd) rest
  | returnLineFeed {rest : List Char} : Segment ⟨.lineEnd, ['\r', '\n']⟩ (some .lineEnd) rest
  | lineComment {body rest : List Char} (hbody : IsRun isInLine body rest) :
      Segment ⟨.lineComment, '/' :: '/' :: body⟩ none rest
  | blockComment {body rest : List Char} (hbody : Unclosed (body ++ ['*'])) :
      Segment ⟨.blockComment, '/' :: '*' :: body ++ ['*', '/']⟩ none rest
  | openComment {body : List Char} (hbody : Unclosed body) :
      Segment ⟨.blockComment, '/' :: '*' :: body⟩ none []
  | blank {c : Char} {rest : List Char} (hspace : Unicode.isWhiteSpace c = true)
      (hbreak : Piece.isLineBreak c = false) : Segment ⟨.blank, [c]⟩ none rest
  | whole {digits rest : List Char} (hne : digits ≠ []) (hdigits : IsRun Char.isDigit digits rest)
      (hpoint : rest.head? ≠ some '.') :
      Segment ⟨.number, digits⟩ (some (.number (.ofDigits digits []))) rest
  | fraction {digits places rest : List Char} (hne : digits ≠ [])
      (hdigits : ∀ c ∈ digits, c.isDigit = true) (hplaces : IsRun Char.isDigit places rest) :
      Segment ⟨.number, digits ++ '.' :: places⟩ (some (.number (.ofDigits digits places))) rest
  | keyword {c : Char} {letters rest : List Char} (hfirst : Unicode.isAlphabetic c = true)
      (hletters : IsRun Unicode.isAlphanumeric letters rest)
      (hword : String.ofList (c :: letters) ∈ keywords) :
      Segment ⟨.word, c :: letters⟩ (some ⟨.keyword, String.ofList (c :: letters)⟩) rest
  | name {c : Char} {letters rest : List Char} (hfirst : Unicode.isAlphabetic c = true)
      (hletters : IsRun Unicode.isAlphanumeric letters rest)
      (hword : String.ofList (c :: letters) ∉ keywords) :
      Segment ⟨.word, c :: letters⟩ (some ⟨.name, String.ofList (c :: letters)⟩) rest
  | quoted {body rest : List Char} (hbody : ∀ c ∈ body, isQuotable c = true) :
      Segment ⟨.quoted, '"' :: body ++ ['"']⟩ (some (.symbol "\"")) rest
  | openQuote {body rest : List Char} (hbody : IsRun isQuotable body rest)
      (hrest : rest.head? ≠ some '"') : Segment ⟨.quoted, '"' :: body⟩ (some (.symbol "\"")) rest
  | other {c : Char} {rest : List Char} (hbreak : Piece.isLineBreak c = false)
      (hspace : Unicode.isWhiteSpace c = false) (hdigit : c.isDigit = false)
      (hletter : Unicode.isAlphabetic c = false) (hquote : c ≠ '"')
      (hcomment : c = '/' → rest.head? ≠ some '/' ∧ rest.head? ≠ some '*') :
      Segment ⟨.other, [c]⟩ (some (.symbol (String.ofList [c]))) rest

/-- The ways in which a text falls into pieces, with their tokens. -/
inductive Segmented : List Char → List Piece → List Token → Prop
  | nil : Segmented [] [] []
  | cons {piece : Piece} {token : Option Token} {rest : List Char} {pieces : List Piece}
      {tokens : List Token} (hpiece : Segment piece token rest)
      (hrest : Segmented rest pieces tokens) :
      Segmented (piece.text ++ rest) (piece :: pieces) (token.toList ++ tokens)

/-! ### Runs -/

namespace IsRun

variable {inside : Char → Bool} {run rest : List Char}

/-- A run is what there is at the front of a text while the characters are of its class. -/
theorem takeWhile_append (h : IsRun inside run rest) :
    (run ++ rest).takeWhile inside = run := by
  rw [List.takeWhile_append_of_pos h.1]
  cases rest with
  | nil => exact List.append_nil run
  | cons c rest =>
    rw [List.takeWhile_cons_of_neg (by simp [h.2 c rfl]), List.append_nil]

/-- What follows a run is what is left when the characters of its class are dropped. -/
theorem dropWhile_append (h : IsRun inside run rest) :
    (run ++ rest).dropWhile inside = rest := by
  rw [List.dropWhile_append_of_pos h.1]
  cases rest with
  | nil => rfl
  | cons c rest => exact List.dropWhile_cons_of_neg (by simp [h.2 c rfl])

/-- A run still ends if a line break comes behind it, unless its class has line breaks. -/
theorem of_head {rest' : List Char} (h : IsRun inside run rest) (hfeed : inside '\n' = false)
    (hreturn : inside '\r' = false)
    (hhead : ∀ c ∈ rest'.head?, Piece.isLineBreak c = true ∨ c ∈ rest.head?) :
    IsRun inside run rest' := by
  refine ⟨h.1, fun c hc => ?_⟩
  rcases hhead c hc with hbreak | hsame
  · obtain rfl | rfl : c = '\n' ∨ c = '\r' := by simpa [Piece.isLineBreak] using hbreak
    · exact hfeed
    · exact hreturn
  · exact h.2 c hsame

/-- A run ends where a character comes that its class does not have. -/
theorem of_next {next : Char} (h : ∀ c ∈ run, inside c = true) (hnext : inside next = false) :
    IsRun inside run (next :: rest) := by
  refine ⟨h, fun c hc => ?_⟩
  obtain rfl := Option.some.inj hc
  exact hnext

/-- A text starts with a run of every class. -/
theorem of_takeWhile (inside : Char → Bool) (text : List Char) :
    IsRun inside (text.takeWhile inside) (text.dropWhile inside) := by
  refine ⟨fun c hc => List.mem_takeWhile_imp hc, fun c hc => ?_⟩
  have hhead := List.head?_dropWhile_not inside text
  rwa [hc] at hhead

end IsRun

/-! ### Comments -/

/-- A text without its first character is unclosed if the whole text is. -/
theorem Unclosed.of_cons {c : Char} {text : List Char} (h : Unclosed (c :: text)) :
    Unclosed text :=
  fun htext => h (htext.trans (List.suffix_cons c text).isInfix)

/-- A character leaves a text unclosed if it makes no closing mark with the next one. -/
theorem Unclosed.cons {c : Char} {text : List Char} (h : Unclosed text)
    (hmark : ¬ (c = '*' ∧ text.head? = some '/')) : Unclosed (c :: text) := by
  intro htext
  rcases List.infix_cons_iff.mp htext with hprefix | hinfix
  · obtain ⟨rfl, hslash⟩ := List.cons_prefix_cons.mp hprefix
    obtain ⟨rest, rfl⟩ := hslash
    exact hmark ⟨rfl, rfl⟩
  · exact h hinfix

namespace Piece

/-- A comment goes through its first closing mark. -/
theorem splitComment_of_closed {body rest : List Char} (h : Unclosed (body ++ ['*'])) :
    splitComment (body ++ ['*', '/'] ++ rest) = (body ++ ['*', '/'], rest) := by
  induction body with
  | nil => simp [splitComment]
  | cons c body ih =>
    have hmark : ¬ (c = '*' ∧ (body ++ ['*', '/'] ++ rest).head? = some '/') := by
      intro hmark
      obtain ⟨rfl, hslash⟩ := hmark
      cases body with
      | nil => simp at hslash
      | cons d body =>
        obtain rfl : d = '/' := by simpa using hslash
        exact h ⟨[], body ++ ['*'], rfl⟩
    rw [List.cons_append, List.cons_append, splitComment, if_neg hmark, ih h.of_cons]

/-- A comment that is not closed goes through the end of the text. -/
theorem splitComment_of_unclosed {text : List Char} (h : Unclosed text) :
    splitComment text = (text, []) := by
  induction text with
  | nil => rfl
  | cons c text ih =>
    have hmark : ¬ (c = '*' ∧ text.head? = some '/') := by
      intro hmark
      obtain ⟨rfl, hslash⟩ := hmark
      obtain ⟨rest, rfl⟩ : ∃ rest, text = '/' :: rest := List.head?_eq_some_iff.mp hslash
      exact h ⟨[], rest, rfl⟩
    rw [splitComment, if_neg hmark, ih h.of_cons]

/-- A comment is closed, or it goes through the end of the text. -/
theorem splitComment_cases (text : List Char) :
    (∃ body, (splitComment text).1 = body ++ ['*', '/'] ∧ Unclosed (body ++ ['*'])) ∨
      (splitComment text).1 = text ∧ (splitComment text).2 = [] ∧ Unclosed text := by
  induction text with
  | nil => exact .inr ⟨rfl, rfl, by simp [Unclosed]⟩
  | cons c text ih =>
    by_cases hmark : c = '*' ∧ text.head? = some '/'
    · refine .inl ⟨[], by rw [splitComment, if_pos hmark, hmark.1]; rfl, ?_⟩
      intro hclosed
      have hlength := hclosed.length_le
      simp at hlength
    · rw [splitComment, if_neg hmark]
      rcases ih with ⟨body, hbody, hunclosed⟩ | ⟨hbody, hrest, hunclosed⟩
      · refine .inl ⟨c :: body, by rw [hbody]; rfl, hunclosed.cons ?_⟩
        -- The text starts with the body and the asterisk behind it.
        have htext := splitComment_append text
        rw [hbody] at htext
        rw [← htext] at hmark
        intro hbegin
        refine hmark ⟨hbegin.1, ?_⟩
        cases body with
        | nil => simp at hbegin
        | cons d body => exact hbegin.2
      · exact .inr ⟨by rw [hbody], hrest, hunclosed.cons hmark⟩

/-! ### One piece -/

end Piece

/-- A reserved word is a keyword. -/
theorem Token.word_of_mem {text : String} (h : text ∈ keywords) : word text = ⟨.keyword, text⟩ := by
  rw [word, isKeyword, if_pos (List.contains_iff_mem.mpr h)]

/-- A word that is not reserved is a name. -/
theorem Token.word_of_not_mem {text : String} (h : text ∉ keywords) :
    word text = ⟨.name, text⟩ := by
  rw [word, isKeyword, if_neg fun hmem => h (List.contains_iff_mem.mp hmem)]

namespace Piece

/-- A character of a class is none that the class does not have. -/
private theorem ne_of_mem {inside : Char → Bool} {c : Char} (h : inside c = true) (d : Char)
    (hd : inside d = false) : c ≠ d := by
  rintro rfl
  exact Bool.noConfusion (h.symm.trans hd)

/-- White space that is no line end is a piece of its own. -/
theorem cut_of_isWhiteSpace {c : Char} (h : Unicode.isWhiteSpace c = true)
    (hbreak : isLineBreak c = false) (text : List Char) :
    cut c text = cutAfter .blank c ([], text) := by
  have hslash : c ≠ '/' := ne_of_mem h '/' (by decide)
  have hbreaks : c ≠ '\n' ∧ c ≠ '\r' := by simpa [isLineBreak] using hbreak
  simp [cut, hbreaks, hslash, h]

/-- A number starts with a digit. -/
theorem cut_of_isDigit {c : Char} (h : c.isDigit = true) (text : List Char) :
    cut c text = cutAfter .number c (splitNumber text) := by
  have hspace : Unicode.isWhiteSpace c = false := by
    rw [← Bool.not_eq_true]
    intro hspace
    exact Bool.noConfusion (h.symm.trans (Unicode.isDigit_eq_false_of_isWhiteSpace hspace))
  have hfeed : c ≠ '\n' := ne_of_mem h '\n' (by decide)
  have hreturn : c ≠ '\r' := ne_of_mem h '\r' (by decide)
  have hslash : c ≠ '/' := ne_of_mem h '/' (by decide)
  simp [cut, hfeed, hreturn, hslash, hspace, h]

/-- A word starts with an alphabetic character. -/
theorem cut_of_isAlphabetic {c : Char} (h : Unicode.isAlphabetic c = true) (text : List Char) :
    cut c text = cutAfter .word c (splitWord text) := by
  have hspace : Unicode.isWhiteSpace c = false := by
    rw [← Bool.not_eq_true]
    intro hspace
    exact Bool.noConfusion (h.symm.trans (Unicode.isAlphabetic_eq_false_of_isWhiteSpace hspace))
  have hdigit : c.isDigit = false := by
    rw [← Bool.not_eq_true]
    intro hdigit
    exact Bool.noConfusion (h.symm.trans (Unicode.isAlphabetic_eq_false_of_isDigit hdigit))
  have hfeed : c ≠ '\n' := ne_of_mem h '\n' (by decide)
  have hreturn : c ≠ '\r' := ne_of_mem h '\r' (by decide)
  have hslash : c ≠ '/' := ne_of_mem h '/' (by decide)
  simp [cut, hfeed, hreturn, hslash, hspace, hdigit, h]

/-- A quoted run starts with a quotation mark. -/
theorem cut_quote (text : List Char) : cut '"' text = cutAfter .quoted '"' (splitQuote text) := by
  have hspace : Unicode.isWhiteSpace '"' = false := by decide
  have hletter : Unicode.isAlphabetic '"' = false := by decide
  simp [cut, hspace, hletter, show '"'.isDigit = false by decide]

/-- Between two slashes and the end of the line is a comment. -/
theorem cut_lineComment (text : List Char) :
    cut '/' ('/' :: text) = cutAfter .lineComment '/' (splitLine ('/' :: text)) := by
  simp [cut]

/-- Behind a slash and an asterisk is a comment. -/
theorem cut_blockComment (text : List Char) :
    cut '/' ('*' :: text) =
      cutAfter .blockComment '/' ('*' :: (splitComment text).1, (splitComment text).2) := by
  simp [cut]

/-- A character that starts nothing else is a piece of its own. -/
theorem cut_other {c : Char} {text : List Char} (hbreak : isLineBreak c = false)
    (hspace : Unicode.isWhiteSpace c = false) (hdigit : c.isDigit = false)
    (hletter : Unicode.isAlphabetic c = false) (hquote : c ≠ '"')
    (hcomment : c = '/' → text.head? ≠ some '/' ∧ text.head? ≠ some '*') :
    cut c text = cutAfter .other c ([], text) := by
  have hbreaks : c ≠ '\n' ∧ c ≠ '\r' := by simpa [isLineBreak] using hbreak
  have hline : ¬ (c = '/' ∧ text.head? = some '/') := fun h => (hcomment h.1).1 h.2
  have hblock : ¬ (c = '/' ∧ text.head? = some '*') := fun h => (hcomment h.1).2 h.2
  simp [cut, hbreaks, hline, hblock, hspace, hdigit, hletter, hquote]

/-- The digits at the front of a text are split off. -/
theorem splitNumber_of_isRun {digits rest : List Char} (hdigits : IsRun Char.isDigit digits rest)
    (hpoint : rest.head? ≠ some '.') : splitNumber (digits ++ rest) = (digits, rest) := by
  simp only [splitNumber, hdigits.takeWhile_append, hdigits.dropWhile_append, if_neg hpoint]

/-- The point behind the digits and the digits behind the point are split off with them. -/
theorem splitNumber_of_point {digits places rest : List Char}
    (hdigits : ∀ c ∈ digits, c.isDigit = true) (hplaces : IsRun Char.isDigit places rest) :
    splitNumber (digits ++ '.' :: places ++ rest) = (digits ++ '.' :: places, rest) := by
  have hwhole : IsRun Char.isDigit digits ('.' :: (places ++ rest)) := .of_next hdigits rfl
  rw [List.append_assoc, List.cons_append]
  simp [splitNumber, hwhole.takeWhile_append, hwhole.dropWhile_append,
    hplaces.takeWhile_append, hplaces.dropWhile_append]

/-- The decimal of a number without a point has no fraction. -/
theorem decimal_of_digits {digits : List Char} (h : ∀ c ∈ digits, c.isDigit = true) :
    decimal ⟨.number, digits⟩ = .ofDigits digits [] := by
  have hrun : IsRun Char.isDigit digits [] := ⟨h, nofun⟩
  have htake := hrun.takeWhile_append
  have hdrop := hrun.dropWhile_append
  rw [List.append_nil] at htake hdrop
  rw [decimal, htake, hdrop]
  rfl

/-- The decimal of a number with a point has the digits on either side of it. -/
theorem decimal_of_point {digits places : List Char} (h : ∀ c ∈ digits, c.isDigit = true) :
    decimal ⟨.number, digits ++ '.' :: places⟩ = .ofDigits digits places := by
  have hrun : IsRun Char.isDigit digits ('.' :: places) := .of_next h rfl
  rw [decimal, hrun.takeWhile_append, hrun.dropWhile_append]
  rfl

/-- The letters and numbers at the front of a text are split off. -/
theorem splitWord_of_isRun {letters rest : List Char}
    (hletters : IsRun Unicode.isAlphanumeric letters rest) :
    splitWord (letters ++ rest) = (letters, rest) :=
  Prod.ext hletters.takeWhile_append hletters.dropWhile_append

/-- What is quoted is split off through the mark that closes it. -/
theorem splitQuote_of_closed {body rest : List Char} (hbody : ∀ c ∈ body, isQuotable c = true) :
    splitQuote (body ++ ['"'] ++ rest) = (body ++ ['"'], rest) := by
  have hrun : IsRun isQuotable body ('"' :: rest) := .of_next hbody rfl
  have htake : (body ++ '"' :: rest).takeWhile isQuotable = body := hrun.takeWhile_append
  have hdrop : (body ++ '"' :: rest).dropWhile isQuotable = '"' :: rest := hrun.dropWhile_append
  rw [List.append_assoc, List.singleton_append]
  change (if ((body ++ '"' :: rest).dropWhile isQuotable).head? = some '"' then _ else _) = _
  rw [if_pos (by rw [hdrop]; rfl)]
  exact congrArg₂ (fun (inner after : List Char) => (inner ++ ['"'], after.tail)) htake hdrop

/-- What is quoted without a mark that closes it is split off up to the end of the line. -/
theorem splitQuote_of_isRun {body rest : List Char} (hbody : IsRun isQuotable body rest)
    (hrest : rest.head? ≠ some '"') : splitQuote (body ++ rest) = (body, rest) := by
  have hdrop : (body ++ rest).dropWhile isQuotable = rest := hbody.dropWhile_append
  change (if ((body ++ rest).dropWhile isQuotable).head? = some '"' then _ else _) = _
  rw [if_neg (by rwa [hdrop])]
  exact Prod.ext hbody.takeWhile_append hdrop

end Piece

namespace Segment

open Piece

variable {piece : Piece} {token : Option Token} {rest : List Char}

/-- **One piece only.**  The piece at the front of a text is the one that is cut off it. -/
theorem cut_eq (h : Segment piece token rest) {c : Char} {text : List Char}
    (htext : piece.text ++ rest = c :: text) :
    cut c text = ⟨piece, rest⟩ ∧ token = piece.token? := by
  cases h with
  | lineFeed =>
    obtain ⟨rfl, rfl⟩ := List.cons.inj htext
    exact ⟨rfl, rfl⟩
  | carriageReturn hrest =>
    obtain ⟨rfl, rfl⟩ := List.cons.inj htext
    refine ⟨?_, rfl⟩
    simp [cut, cutAfter, hrest]
  | returnLineFeed =>
    obtain ⟨rfl, rfl⟩ := List.cons.inj htext
    exact ⟨rfl, rfl⟩
  | @lineComment body _ hbody =>
    obtain ⟨rfl, rfl⟩ := List.cons.inj htext
    have hrun : IsRun isInLine ('/' :: body) rest :=
      ⟨List.forall_mem_cons.mpr ⟨by decide, hbody.1⟩, hbody.2⟩
    have hsplit : splitLine ('/' :: body ++ rest) = ('/' :: body, rest) :=
      Prod.ext hrun.takeWhile_append hrun.dropWhile_append
    refine ⟨?_, rfl⟩
    rw [List.append_eq, List.cons_append, cut_lineComment, ← List.cons_append, hsplit]
    rfl
  | blockComment hbody =>
    obtain ⟨rfl, rfl⟩ := List.cons.inj htext
    refine ⟨?_, rfl⟩
    change cut '/' ('*' :: (_ ++ ['*', '/'] ++ rest)) = _
    rw [cut_blockComment, splitComment_of_closed hbody]
    rfl
  | openComment hbody =>
    rw [List.append_nil] at htext
    obtain ⟨rfl, rfl⟩ := List.cons.inj htext
    refine ⟨?_, rfl⟩
    rw [cut_blockComment, splitComment_of_unclosed hbody]
    rfl
  | blank hspace hbreak =>
    obtain ⟨rfl, rfl⟩ := List.cons.inj htext
    exact ⟨cut_of_isWhiteSpace hspace hbreak _, rfl⟩
  | whole hne hdigits hpoint =>
    obtain ⟨d, digits, rfl⟩ := List.exists_cons_of_ne_nil hne
    obtain ⟨rfl, rfl⟩ := List.cons.inj htext
    obtain ⟨hd, hothers⟩ := List.forall_mem_cons.mp hdigits.1
    have hsplit := splitNumber_of_isRun ⟨hothers, hdigits.2⟩ hpoint
    refine ⟨?_, by rw [token?, decimal_of_digits hdigits.1]⟩
    rw [List.append_eq, cut_of_isDigit hd, hsplit]
    rfl
  | fraction hne hdigits hplaces =>
    obtain ⟨d, digits, rfl⟩ := List.exists_cons_of_ne_nil hne
    obtain ⟨rfl, rfl⟩ := List.cons.inj htext
    obtain ⟨hd, hothers⟩ := List.forall_mem_cons.mp hdigits
    refine ⟨?_, by rw [token?, decimal_of_point hdigits]⟩
    rw [List.append_eq, List.append_eq, cut_of_isDigit hd, splitNumber_of_point hothers hplaces]
    rfl
  | keyword hfirst hletters hword =>
    obtain ⟨rfl, rfl⟩ := List.cons.inj htext
    refine ⟨?_, congrArg some (Token.word_of_mem hword).symm⟩
    rw [List.append_eq, cut_of_isAlphabetic hfirst, splitWord_of_isRun hletters]
    rfl
  | name hfirst hletters hword =>
    obtain ⟨rfl, rfl⟩ := List.cons.inj htext
    refine ⟨?_, congrArg some (Token.word_of_not_mem hword).symm⟩
    rw [List.append_eq, cut_of_isAlphabetic hfirst, splitWord_of_isRun hletters]
    rfl
  | quoted hbody =>
    obtain ⟨rfl, rfl⟩ := List.cons.inj htext
    refine ⟨?_, rfl⟩
    rw [List.append_eq, List.append_eq, cut_quote, splitQuote_of_closed hbody]
    rfl
  | openQuote hbody hrest =>
    obtain ⟨rfl, rfl⟩ := List.cons.inj htext
    refine ⟨?_, rfl⟩
    rw [List.append_eq, cut_quote, splitQuote_of_isRun hbody hrest]
    rfl
  | other hbreak hspace hdigit hletter hquote hcomment =>
    obtain ⟨rfl, rfl⟩ := List.cons.inj htext
    exact ⟨cut_other hbreak hspace hdigit hletter hquote hcomment, rfl⟩

/-- A piece is not empty. -/
theorem text_ne_nil (h : Segment piece token rest) : piece.text ≠ [] := by
  cases h with
  | whole hne => exact hne
  | fraction hne => exact List.append_ne_nil_of_left_ne_nil hne _
  | _ => exact List.cons_ne_nil _ _

/-- The token of a piece is the one that it stands for. -/
theorem token_eq (h : Segment piece token rest) : token = piece.token? := by
  obtain ⟨c, text, htext⟩ := List.exists_cons_of_ne_nil
    (List.append_ne_nil_of_left_ne_nil h.text_ne_nil rest)
  exact (h.cut_eq htext).2

private theorem head?_ne_of_head {rest' : List Char} {d : Char} (hd : isLineBreak d = false)
    (hhead : ∀ c ∈ rest'.head?, isLineBreak c = true ∨ c ∈ rest.head?)
    (h : rest.head? ≠ some d) : rest'.head? ≠ some d := by
  intro hc
  rcases hhead d hc with hbreak | hsame
  · exact Bool.noConfusion (hbreak.symm.trans hd)
  · exact h hsame

/-- **What a piece sees.**  A piece that is no line end, and no comment over lines, sees of the
text behind it only the first character, and stays a piece if this is a line break instead. -/
theorem of_head {rest' : List Char} (h : Segment piece token rest)
    (hend : piece.kind ≠ .lineEnd) (hcomment : piece.kind ≠ .blockComment)
    (hhead : ∀ c ∈ rest'.head?, isLineBreak c = true ∨ c ∈ rest.head?) :
    Segment piece token rest' := by
  cases h with
  | lineFeed | carriageReturn | returnLineFeed => exact absurd rfl hend
  | blockComment | openComment => exact absurd rfl hcomment
  | lineComment hbody => exact .lineComment (hbody.of_head (by decide) (by decide) hhead)
  | blank hspace hbreak => exact .blank hspace hbreak
  | whole hne hdigits hpoint =>
    exact .whole hne (hdigits.of_head (by decide) (by decide) hhead)
      (head?_ne_of_head (by decide) hhead hpoint)
  | fraction hne hdigits hplaces =>
    exact .fraction hne hdigits (hplaces.of_head (by decide) (by decide) hhead)
  | keyword hfirst hletters hword =>
    exact .keyword hfirst (hletters.of_head (by decide) (by decide) hhead) hword
  | name hfirst hletters hword =>
    exact .name hfirst (hletters.of_head (by decide) (by decide) hhead) hword
  | quoted hbody => exact .quoted hbody
  | openQuote hbody hrest =>
    exact .openQuote (hbody.of_head (by decide) (by decide) hhead)
      (head?_ne_of_head (by decide) hhead hrest)
  | other hbreak hspace hdigit hletter hquote hslash =>
    refine .other hbreak hspace hdigit hletter hquote fun hc => ?_
    exact ⟨head?_ne_of_head (by decide) hhead (hslash hc).1,
      head?_ne_of_head (by decide) hhead (hslash hc).2⟩

end Segment

open Piece in
/-- What follows a digit is a piece of the text with it. -/
private theorem segment_number {c : Char} (h : c.isDigit = true) (text : List Char) :
    Segment (cutAfter .number c (splitNumber text)).piece
      (cutAfter .number c (splitNumber text)).piece.token?
      (cutAfter .number c (splitNumber text)).rest := by
  have hrun := IsRun.of_takeWhile Char.isDigit text
  have hdigits : ∀ d ∈ c :: text.takeWhile Char.isDigit, d.isDigit = true :=
    List.forall_mem_cons.mpr ⟨h, hrun.1⟩
  have hne : c :: text.takeWhile Char.isDigit ≠ [] := List.cons_ne_nil _ _
  by_cases hpoint : (text.dropWhile Char.isDigit).head? = some '.'
  · have hsplit : splitNumber text =
        (text.takeWhile Char.isDigit ++
          '.' :: (text.dropWhile Char.isDigit).tail.takeWhile Char.isDigit,
          (text.dropWhile Char.isDigit).tail.dropWhile Char.isDigit) := if_pos hpoint
    have hpiece := Segment.fraction hne hdigits
      (IsRun.of_takeWhile Char.isDigit (text.dropWhile Char.isDigit).tail)
    rw [← decimal_of_point hdigits] at hpiece
    rw [hsplit]
    exact hpiece
  · have hsplit : splitNumber text =
        (text.takeWhile Char.isDigit, text.dropWhile Char.isDigit) := if_neg hpoint
    have hpiece := Segment.whole hne ⟨hdigits, hrun.2⟩ hpoint
    rw [← decimal_of_digits hdigits] at hpiece
    rw [hsplit]
    exact hpiece

open Piece in
/-- What follows a letter is a piece of the text with it. -/
private theorem segment_word {c : Char} (h : Unicode.isAlphabetic c = true) (text : List Char) :
    Segment (cutAfter .word c (splitWord text)).piece
      (cutAfter .word c (splitWord text)).piece.token?
      (cutAfter .word c (splitWord text)).rest := by
  have hrun := IsRun.of_takeWhile Unicode.isAlphanumeric text
  by_cases hword : String.ofList (c :: text.takeWhile Unicode.isAlphanumeric) ∈ keywords
  · have hpiece := Segment.keyword h hrun hword
    rw [← Token.word_of_mem hword] at hpiece
    exact hpiece
  · have hpiece := Segment.name h hrun hword
    rw [← Token.word_of_not_mem hword] at hpiece
    exact hpiece

open Piece in
/-- What follows a quotation mark is a piece of the text with it. -/
private theorem segment_quote (text : List Char) :
    Segment (cutAfter .quoted '"' (splitQuote text)).piece
      (cutAfter .quoted '"' (splitQuote text)).piece.token?
      (cutAfter .quoted '"' (splitQuote text)).rest := by
  have hrun := IsRun.of_takeWhile isQuotable text
  by_cases hquote : (text.dropWhile isQuotable).head? = some '"'
  · have hsplit : splitQuote text =
        (text.takeWhile isQuotable ++ ['"'], (text.dropWhile isQuotable).tail) := if_pos hquote
    rw [hsplit]
    exact Segment.quoted hrun.1
  · have hsplit : splitQuote text = (text.takeWhile isQuotable, text.dropWhile isQuotable) :=
      if_neg hquote
    rw [hsplit]
    exact Segment.openQuote hrun hquote

open Piece in
/-- What follows a slash and an asterisk is a piece of the text with them. -/
private theorem segment_blockComment (text : List Char) :
    Segment ⟨.blockComment, '/' :: '*' :: (splitComment text).1⟩ none (splitComment text).2 := by
  rcases splitComment_cases text with ⟨body, hbody, hunclosed⟩ | ⟨hbody, hrest, hunclosed⟩
  · rw [hbody]
    exact .blockComment hunclosed
  · rw [hbody, hrest]
    exact .openComment hunclosed

open Piece in
/-- **There is a piece.**  What is cut off a text is a piece at its front. -/
theorem segment_cut (c : Char) (text : List Char) :
    Segment (cut c text).piece (cut c text).piece.token? (cut c text).rest := by
  -- The cases are those of the cut, in its order.
  by_cases hfeed : c = '\n'
  · subst hfeed
    exact .lineFeed
  by_cases hreturn : c = '\r'
  · subst hreturn
    by_cases hrest : text.head? = some '\n'
    · obtain ⟨rest, rfl⟩ : ∃ rest, text = '\n' :: rest := List.head?_eq_some_iff.mp hrest
      exact .returnLineFeed
    · have hcut : cut '\r' text = cutAfter .lineEnd '\r' ([], text) := by
        simp [cut, hrest]
      rw [hcut]
      exact .carriageReturn hrest
  have hbreak : isLineBreak c = false := by simp [isLineBreak, hfeed, hreturn]
  by_cases hline : c = '/' ∧ text.head? = some '/'
  · obtain ⟨rfl, hslash⟩ := hline
    obtain ⟨rest, rfl⟩ : ∃ rest, text = '/' :: rest := List.head?_eq_some_iff.mp hslash
    rw [cut_lineComment]
    exact .lineComment (IsRun.of_takeWhile isInLine rest)
  by_cases hblock : c = '/' ∧ text.head? = some '*'
  · obtain ⟨rfl, hasterisk⟩ := hblock
    obtain ⟨rest, rfl⟩ : ∃ rest, text = '*' :: rest := List.head?_eq_some_iff.mp hasterisk
    rw [cut_blockComment]
    exact segment_blockComment rest
  cases hspace : Unicode.isWhiteSpace c with
  | true =>
    rw [cut_of_isWhiteSpace hspace hbreak]
    exact .blank hspace hbreak
  | false =>
  cases hdigit : c.isDigit with
  | true =>
    rw [cut_of_isDigit hdigit]
    exact segment_number hdigit text
  | false =>
  cases hletter : Unicode.isAlphabetic c with
  | true =>
    rw [cut_of_isAlphabetic hletter]
    exact segment_word hletter text
  | false =>
  by_cases hquote : c = '"'
  · subst hquote
    rw [cut_quote]
    exact segment_quote text
  · have hcomment : c = '/' → text.head? ≠ some '/' ∧ text.head? ≠ some '*' :=
      fun hslash => ⟨fun h => hline ⟨hslash, h⟩, fun h => hblock ⟨hslash, h⟩⟩
    rw [cut_other hbreak hspace hdigit hletter hquote hcomment]
    exact .other hbreak hspace hdigit hletter hquote hcomment

/-! ### All pieces -/

/-- The tokens of some pieces are those that the pieces stand for, and the end of the input. -/
theorem Located.map_token_ofPieces (line : Nat) (pieces : List Piece) :
    (ofPieces line pieces).map token = pieces.filterMap Piece.token? ++ [.endOfInput] := by
  fun_induction ofPieces line pieces with
  | case1 line => rfl
  | case2 line piece pieces token htoken ih =>
    rw [List.map_cons, ih, List.filterMap_cons_some htoken, List.cons_append]
  | case3 line piece pieces htoken ih => rw [ih, List.filterMap_cons_none htoken]

namespace Segmented

variable {text : List Char} {pieces : List Piece} {tokens : List Token}

/-- A text falls into the pieces that are cut off it one by one. -/
theorem all (text : List Char) :
    Segmented text (Piece.all text) ((Piece.all text).filterMap Piece.token?) := by
  fun_induction Piece.all text with
  | case1 => exact .nil
  | case2 c text ih =>
    have hcut := Segmented.cons (segment_cut c text) ih
    rw [Piece.cut_append] at hcut
    cases htoken : (Piece.cut c text).piece.token? with
    | none =>
      rw [htoken] at hcut
      rw [List.filterMap_cons_none htoken]
      exact hcut
    | some token =>
      rw [htoken] at hcut
      rw [List.filterMap_cons_some htoken]
      exact hcut

/-- **One way only.**  A text falls into no other pieces. -/
theorem eq_all (h : Segmented text pieces tokens) :
    pieces = Piece.all text ∧ tokens = (Piece.all text).filterMap Piece.token? := by
  induction h with
  | nil => exact ⟨by rw [Piece.all], by rw [Piece.all]; rfl⟩
  | @cons piece token rest pieces tokens hpiece _ ih =>
    obtain ⟨c, text, htext⟩ := List.exists_cons_of_ne_nil
      (List.append_ne_nil_of_left_ne_nil hpiece.text_ne_nil rest)
    obtain ⟨hcut, rfl⟩ := hpiece.cut_eq htext
    obtain ⟨rfl, rfl⟩ := ih
    rw [htext, Piece.all, hcut]
    refine ⟨rfl, ?_⟩
    cases htoken : piece.token? with
    | none => rw [List.filterMap_cons_none htoken]; rfl
    | some token => rw [List.filterMap_cons_some htoken]; rfl

end Segmented

/-- **The tokens are those of the pieces.**  Every source falls into pieces in exactly one way.
The pieces make up the source, and its tokens are those that the pieces stand for, in order,
and the end of the input.  A cursor hands out these tokens. -/
theorem tokens_of_only_segmentation (source : String) :
    ∃ pieces tokens, Segmented source.toList pieces tokens ∧
      (∀ pieces' tokens', Segmented source.toList pieces' tokens' →
        pieces' = pieces ∧ tokens' = tokens) ∧
      (pieces.map Piece.text).flatten = source.toList ∧
      (Located.ofSource source).map Located.token = tokens ++ [.endOfInput] ∧
      (Cursor.start source).upcoming = tokens ++ [.endOfInput] := by
  have htokens : (Located.ofSource source).map Located.token =
      (Piece.all source.toList).filterMap Piece.token? ++ [.endOfInput] :=
    Located.map_token_ofPieces 1 (Piece.all source.toList)
  refine ⟨Piece.all source.toList, (Piece.all source.toList).filterMap Piece.token?,
    Segmented.all source.toList, fun pieces' tokens' h => h.eq_all,
    Piece.flatten_all source.toList, htokens, ?_⟩
  rw [Cursor.upcoming_start, htokens]

/-- A comment may be closed by an asterisk that is not its first, a point belongs to the number
before it, and what is quoted ends with the line. -/
example :
    (Located.ofSource "/*/ a **/ 3. case\"x // y\r\n.").map Located.token =
      [.number ⟨3, 0⟩, .keyword "case", .symbol "\"", .lineEnd, .symbol ".", .endOfInput] := by
  decide +kernel

end BugLang
