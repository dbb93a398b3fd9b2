import BugLang.CommandLine
import BugLang.Proofs.NumberTexts

/-!
# Rows of tokens are read back

A listing in rows has a line for each token, and the columns of a line can be told apart: the
number of the line stands behind blanks, the kind takes the width of its column, and all the
rest is the text.  So the tokens are read back from the rows.  This rests on the texts of the
tokens: no text but that of a line end goes over the end of a line.

* `Segmented.inRow`: the tokens of a source can be shown in rows.
* `Listing.readRow?_columns`: a row is read back.
* `Listing.readText?_text`: rows are read back.
* `token_rows_read_back`: so is the listing of a source.
-/

namespace BugLang

/-! ### Reading rows -/

namespace Listing

/-- What follows a blank. -/
def afterBlank? : List Char → Option (List Char)
  | ' ' :: rest => some rest
  | _ => none

/-- The text of a token that is shown in a row. -/
def readShown (kind : Kind) (shown : String) : String :=
  if kind = .lineEnd ∧ shown = "\\n" then "\n" else shown

/-- Reads a row: the line behind blanks, the kind at the left end of its column, and the rest as
the text. -/
def readRow? (row : List Char) : Option Located := do
  let shown := row.dropWhile (· = ' ')
  let columns ← afterBlank? (shown.dropWhile Char.isDigit)
  let kind ← Kind.ofLabel? (String.ofList ((columns.take 7).takeWhile (· ≠ ' ')))
  let text ← afterBlank? (columns.drop 7)
  return ⟨Nat.ofDigitChars 10 (shown.takeWhile Char.isDigit) 0,
    ⟨kind, readShown kind (String.ofList text)⟩⟩

/-- The lines of a text that ends with the end of a line. -/
def lines? (text : List Char) : Option (List (List Char)) :=
  if (text.splitOn '\n').getLast? = some [] then some (text.splitOn '\n').dropLast else none

/-- Reads the tokens of a listing in rows. -/
def readText? (text : List Char) : Option (List Located) :=
  (lines? text).bind fun rows => rows.mapM readRow?

/-- The row of a token without the end of its line. -/
def columns (located : Located) : List Char :=
  padLeft 4 (Nat.toDigits 10 located.line) ++ ' ' ::
    (padRight 7 located.token.kind.label.toList ++ ' ' ::
      (shownText located.token.text).toList)

/-- A row is its columns and the end of a line. -/
theorem row_eq (located : Located) : row located = columns located ++ ['\n'] := by
  simp [row, columns]

/-- Rows are as many lines, each with its end. -/
theorem text_eq (tokens : List Located) :
    text tokens = (tokens.map columns).flatMap (· ++ ['\n']) := by
  rw [text, List.flatMap_map]
  exact congrArg (tokens.flatMap ·) (funext row_eq)

/-- The lines of a text are found by their ends. -/
theorem lines?_flatMap {rows : List (List Char)} (h : ∀ row ∈ rows, '\n' ∉ row) :
    lines? (rows.flatMap (· ++ ['\n'])) = some rows := by
  have hends : rows.flatMap (· ++ ['\n']) = ['\n'].intercalate (rows ++ [[]]) := by
    clear h
    induction rows with
    | nil => rfl
    | cons row rows ih => rw [List.flatMap_cons, ih]; cases rows <;> simp [List.intercalate]
  have hsplit : (rows.flatMap (· ++ ['\n'])).splitOn '\n' = rows ++ [[]] := by
    rw [hends]
    refine List.splitOn_intercalate '\n' ?_ (by simp)
    exact List.forall_mem_append.mpr ⟨h, by simp⟩
  rw [lines?, hsplit, if_pos (by simp), List.dropLast_concat]

/-! ### Columns -/

/-- A label is no wider than its column, and has no blank in it. -/
theorem label_fits (kind : Kind) :
    kind.label.toList.length ≤ 7 ∧ ∀ c ∈ kind.label.toList, c ≠ ' ' ∧ c ≠ '\n' := by
  cases kind <;> simp [Kind.label]

/-- What stands at the left end of a column is found before the first blank. -/
theorem takeWhile_padRight {width : Nat} {shown : List Char} (h : ∀ c ∈ shown, c ≠ ' ') :
    (padRight width shown).takeWhile (· ≠ ' ') = shown := by
  rw [padRight, List.takeWhile_append_of_pos (by simpa using h)]
  cases width - shown.length <;> simp [List.replicate_succ]

/-- A column is as wide as it should be. -/
theorem length_padRight {width : Nat} {shown : List Char} (h : shown.length ≤ width) :
    (padRight width shown).length = width := by
  rw [padRight, List.length_append, List.length_replicate]
  omega

/-- What stands at the right end of a column is found behind the blanks. -/
theorem dropWhile_padLeft (width : Nat) {digits : List Char} (rest : List Char)
    (h : IsDigits digits) :
    (padLeft width digits ++ rest).dropWhile (· = ' ') = digits ++ rest := by
  obtain ⟨c, more, rfl⟩ := List.exists_cons_of_ne_nil h.1
  have hc : c ≠ ' ' := by
    rintro rfl
    exact absurd (h.2 ' ' List.mem_cons_self) (by decide)
  rw [padLeft, List.append_assoc, List.dropWhile_append_of_pos (by simp), List.cons_append,
    List.dropWhile_cons_of_neg (by simpa using hc)]

/-! ### Texts in rows -/

/-- Whether a token can be shown in a row: it is the end of a line, or it is of another kind and
its text does not go over the end of a line. -/
def InRow (token : Token) : Prop :=
  token = .lineEnd ∨ token.kind ≠ .lineEnd ∧ '\n' ∉ token.text.toList

/-- What is shown of such a token stays on its line. -/
theorem InRow.not_mem_shownText {token : Token} (h : InRow token) :
    '\n' ∉ (shownText token.text).toList := by
  rcases h with rfl | ⟨-, htext⟩
  · decide
  · rw [shownText]
    split
    · decide
    · exact htext

/-- The text of such a token is read from what is shown. -/
theorem InRow.readShown_shownText {token : Token} (h : InRow token) :
    readShown token.kind (shownText token.text) = token.text := by
  rcases h with rfl | ⟨hkind, htext⟩
  · decide
  · have hne : token.text ≠ "\n" := by
      intro heq
      rw [heq] at htext
      exact htext (by decide)
    rw [shownText, if_neg hne, readShown, if_neg fun hshown => hkind hshown.1]

/-- The row of such a token is one line. -/
theorem not_mem_columns {located : Located} (h : InRow located.token) :
    '\n' ∉ columns located := by
  have hdigits := Decimal.isDigits_toDigits located.line
  have hlabel := (label_fits located.token.kind).2
  simp only [columns, padLeft, padRight, List.mem_append, List.mem_cons, List.mem_replicate]
  rintro ((⟨-, hblank⟩ | hmem) | hblank | (hmem | ⟨-, hblank⟩) | hblank | hmem)
  · exact absurd hblank (by decide)
  · exact absurd (hdigits.2 _ hmem) (by decide)
  · exact absurd hblank (by decide)
  · exact (hlabel _ hmem).2 rfl
  · exact absurd hblank (by decide)
  · exact absurd hblank (by decide)
  · exact h.not_mem_shownText hmem

/-- **A row is read back.** -/
theorem readRow?_columns {located : Located} (h : InRow located.token) :
    readRow? (columns located) = some located := by
  have hdigits := Decimal.isDigits_toDigits located.line
  obtain ⟨hwidth, hlabel⟩ := label_fits located.token.kind
  have hlength := length_padRight hwidth
  have hrun : IsRun Char.isDigit (Nat.toDigits 10 located.line)
      (' ' :: (padRight 7 located.token.kind.label.toList ++ ' ' ::
        (shownText located.token.text).toList)) := .of_next hdigits.2 rfl
  rw [readRow?, columns, dropWhile_padLeft 4 _ hdigits]
  simp only [hrun.takeWhile_append, hrun.dropWhile_append, afterBlank?, Option.bind_eq_bind,
    Option.bind_some, List.take_left' hlength, List.drop_left' hlength,
    takeWhile_padRight fun c hc => (hlabel c hc).1, String.ofList_toList, Kind.ofLabel?_label,
    Nat.ofDigitChars_ten_toDigits, h.readShown_shownText]
  rfl

/-- Tokens that are read back one by one are read back together. -/
theorem mapM_map_of_read {α : Type} {read : α → Option Located} {write : Located → α}
    {tokens : List Located} (h : ∀ a ∈ tokens, read (write a) = some a) :
    (tokens.map write).mapM read = some tokens := by
  induction tokens with
  | nil => rfl
  | cons a tokens ih =>
    rw [List.map_cons, List.mapM_cons, h a List.mem_cons_self,
      ih fun b hb => h b (List.mem_cons_of_mem a hb)]
    rfl

/-- **Rows are read back.** -/
theorem readText?_text {tokens : List Located} (h : ∀ a ∈ tokens, InRow a.token) :
    readText? (text tokens) = some tokens := by
  have hlines : lines? (text tokens) = some (tokens.map columns) := by
    rw [text_eq]
    refine lines?_flatMap fun row hrow => ?_
    obtain ⟨a, ha, rfl⟩ := List.mem_map.mp hrow
    exact not_mem_columns (h a ha)
  rw [readText?, hlines, Option.bind_some]
  exact mapM_map_of_read fun a ha => readRow?_columns (h a ha)

end Listing

/-! ### The tokens of a source -/

/-- A number is written with digits, a point, an exponent, a sign and letters. -/
theorem Decimal.not_mem_written (layout : Decimal.Layout) (d : Decimal) :
    '\n' ∉ d.written layout := by
  have hdigits := (isDigits_toDigits d.coefficient).2
  have hexponent : '\n' ∉ signedDigits d.leadingExponent := by
    cases d.leadingExponent with
    | ofNat n => exact fun hmem => absurd ((isDigits_toDigits n).2 _ hmem) (by decide)
    | negSucc n =>
      intro hmem
      rcases List.mem_cons.mp hmem with hsign | hmem
      · exact absurd hsign (by decide)
      · exact absurd ((isDigits_toDigits (n + 1)).2 _ hmem) (by decide)
  rw [written]
  split
  · intro hmem
    exact absurd (d.hasText_positional.isPositional.eq_point_of_mem hmem (by decide)) (by decide)
  · simp only [scientific, List.mem_append, List.mem_cons, not_or]
    refine ⟨⟨fun hmem => ?_, ?_⟩, by decide, hexponent⟩
    · exact absurd (hdigits _ (List.mem_of_mem_take hmem)) (by decide)
    · split
      · exact List.not_mem_nil
      · intro hmem
        rcases List.mem_cons.mp hmem with hpoint | hmem
        · exact absurd hpoint (by decide)
        · exact absurd (hdigits _ (List.mem_of_mem_drop hmem)) (by decide)

/-- The text of a number stays on its line. -/
theorem Token.not_mem_text_number (d : Decimal) : '\n' ∉ (number d).text.toList := by
  cases hround : Magnitude.ofDecimal? d with
  | none =>
    rw [text_number_of_none hround]
    decide
  | some x =>
    rw [toList_text_number hround]
    exact x.shortest.not_mem_written numberLayout

/-- The letters of a word stay on their line. -/
theorem not_mem_word {c : Char} {letters rest : List Char} (hfirst : Unicode.isAlphabetic c = true)
    (hletters : IsRun Unicode.isAlphanumeric letters rest) :
    '\n' ∉ (String.ofList (c :: letters)).toList := by
  have hfeed : Unicode.isAlphanumeric '\n' = false := by decide
  have hc := Unicode.isAlphanumeric_of_isAlphabetic hfirst
  rw [String.toList_ofList]
  intro hmem
  rcases List.mem_cons.mp hmem with rfl | hmem
  · exact Bool.noConfusion (hfeed.symm.trans hc)
  · exact Bool.noConfusion (hfeed.symm.trans (hletters.1 _ hmem))

/-- The token of a piece can be shown in a row. -/
theorem Segment.inRow {piece : Piece} {token : Token} {rest : List Char}
    (h : Segment piece (some token) rest) : Listing.InRow token := by
  cases h with
  | lineFeed | carriageReturn | returnLineFeed => exact .inl rfl
  | whole | fraction => exact .inr ⟨Kind.noConfusion, Token.not_mem_text_number _⟩
  | keyword hfirst hletters | name hfirst hletters =>
    exact .inr ⟨Kind.noConfusion, not_mem_word hfirst hletters⟩
  | quoted | openQuote => exact .inr ⟨Kind.noConfusion, by decide⟩
  | @other c _ hbreak =>
    refine .inr ⟨Kind.noConfusion, ?_⟩
    rw [Token.symbol, String.toList_ofList, List.mem_singleton]
    rintro rfl
    exact absurd hbreak (by decide)

/-- The tokens of pieces can be shown in rows. -/
theorem Segmented.inRow {text : List Char} {pieces : List Piece} {tokens : List Token}
    (h : Segmented text pieces tokens) : ∀ token ∈ tokens, Listing.InRow token := by
  induction h with
  | nil => exact fun _ => nofun
  | cons hpiece _ ih =>
    refine List.forall_mem_append.mpr ⟨fun token htoken => ?_, ih⟩
    rw [Option.mem_toList.mp htoken] at hpiece
    exact hpiece.inRow

/-- **All tokens of a source can be shown in rows.** -/
theorem Located.inRow_of_mem_ofSource {source : String} {a : Located}
    (ha : a ∈ Located.ofSource source) : Listing.InRow a.token := by
  have hmem : a.token ∈ (Located.ofSource source).map Located.token := List.mem_map_of_mem ha
  rw [Located.ofSource, Located.ofText, Located.map_token_ofPieces] at hmem
  rcases List.mem_append.mp hmem with hpiece | hend
  · exact (Segmented.all source.toList).inRow a.token hpiece
  · rw [List.mem_singleton.mp hend]
    exact .inr ⟨Kind.noConfusion, by decide⟩

namespace CommandLine

/-- What is answered to a request for the tokens of a file with a source in it. -/
def tokensOf (file : String) (form : OutputForm) (quiet : Bool) (source : String) : Response :=
  (⟨.tokens, file, form, quiet⟩ : Request).respond (.bytes source.toUTF8)

/-- What is printed then. -/
def printedTokens (file : String) (form : OutputForm) (quiet : Bool) (source : String) :
    List Char :=
  (tokensOf file form quiet source).output.toList

/-- A file with a source in it is read as the source. -/
theorem FileContent.text_bytes (source : String) :
    (FileContent.bytes source.toUTF8).text = .ok source := by
  have hdecoded : String.fromUTF8? source.toUTF8 = some source := dif_pos source.isValidUTF8
  rw [text, hdecoded]

/-- Its tokens are listed. -/
theorem tokensOf_eq (file : String) (form : OutputForm) (quiet : Bool) (source : String) :
    tokensOf file form quiet source =
      (⟨.tokens, file, form, quiet⟩ : Request).listTokens source := by
  rw [tokensOf, Request.respond, FileContent.text_bytes]

end CommandLine

/-- Listings that are written from the tokens and read back as them are the same for two sources
if and only if the sources have the same tokens. -/
theorem Listing.eq_iff_of_read {printed : String → List Char} {write : List Located → List Char}
    {read : List Char → Option (List Located)}
    (hwrite : ∀ source, printed source = write (Located.ofSource source))
    (hread : ∀ source, read (printed source) = some (Located.ofSource source))
    (source source' : String) :
    printed source' = printed source ↔ Located.ofSource source' = Located.ofSource source := by
  refine ⟨fun h => ?_, fun h => by rw [hwrite, hwrite, h]⟩
  have hsame := hread source'
  rw [h, hread source] at hsame
  exact (Option.some.inj hsame).symm

/-- **A listing in rows is read back.**  What is printed for the tokens of a source are as many
lines as there are tokens, each with its end.  The tokens are read back from these lines, with
their lines, kinds and texts.  So what is printed for two sources is the same if and only if
they have the same tokens on the same lines. -/
theorem token_rows_read_back (file : String) (quiet : Bool) (source : String) :
    (∃ rows : List (List Char),
      CommandLine.printedTokens file .text quiet source = rows.flatMap (· ++ ['\n']) ∧
        rows.length = (Located.ofSource source).length ∧ ∀ row ∈ rows, '\n' ∉ row) ∧
      Listing.readText? (CommandLine.printedTokens file .text quiet source) =
        some (Located.ofSource source) ∧
      ∀ source', CommandLine.printedTokens file .text quiet source' =
          CommandLine.printedTokens file .text quiet source ↔
        Located.ofSource source' = Located.ofSource source := by
  have hprinted (source : String) : CommandLine.printedTokens file .text quiet source =
      Listing.text (Located.ofSource source) := by
    rw [CommandLine.printedTokens, CommandLine.tokensOf_eq]
    exact String.toList_ofList
  have hread (source : String) :
      Listing.readText? (CommandLine.printedTokens file .text quiet source) =
        some (Located.ofSource source) := by
    rw [hprinted]
    exact Listing.readText?_text fun a => Located.inRow_of_mem_ofSource
  refine ⟨⟨(Located.ofSource source).map Listing.columns, ?_, List.length_map _,
    fun row hrow => ?_⟩, hread source, Listing.eq_iff_of_read hprinted hread source⟩
  · rw [hprinted, Listing.text_eq]
  · obtain ⟨a, ha, rfl⟩ := List.mem_map.mp hrow
    exact Listing.not_mem_columns (Located.inRow_of_mem_ofSource ha)

/-- A backslash before the letter, and the end of the line behind it, are told apart. -/
example :
    Listing.readText? (Listing.text (Located.ofSource "\\n\n")) =
      some [⟨1, .symbol "\\"⟩, ⟨1, ⟨.name, "n"⟩⟩, ⟨1, .lineEnd⟩, ⟨2, .endOfInput⟩] := by
  decide +kernel

end BugLang
