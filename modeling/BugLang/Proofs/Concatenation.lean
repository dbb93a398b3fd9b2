import BugLang.Proofs.Programs
import BugLang.Proofs.Segmentation

/-!
# Sources in a row

A line feed between two sources keeps their tokens apart, unless the first source ends in a
comment that is not closed.  No other piece goes on behind a line feed but a carriage return, and
with this the line feed is one line end.  Where it is a line end of its own, the second source
starts on the line below.  The line ends between the last bug of one program and the first bug of
another one belong to the bug before them.

* `Segmented.append_of_line`: the pieces of two sources with a line feed between them.
* `ofSource_append_lineFeed`: their tokens and lines.
* `Segmented.append_lineFeed`: the pieces also behind a carriage return.
* `Derives.bugDefinition_append_lineEnds`: a bug takes all line ends that follow it.
* `parse_append`: two programs with a line feed between them are one program.
-/

namespace BugLang

/-- Whether a piece is a comment without a mark that closes it. -/
def Piece.IsOpenComment (piece : Piece) : Prop :=
  piece.kind = .blockComment ∧ Unclosed (piece.text.drop 2)

/-- Whether a text ends within a comment. -/
def EndsInComment (text : List Char) : Prop :=
  ∃ piece ∈ (Piece.all text).getLast?, piece.IsOpenComment

/-! ### Pieces -/

/-- A text with a line feed behind it starts as the text does, or with the line feed. -/
private theorem head?_append_lineFeed (rest later : List Char) :
    ∀ c ∈ (rest ++ '\n' :: later).head?, Piece.isLineBreak c = true ∨ c ∈ rest.head? := by
  intro c hc
  cases rest with
  | nil =>
    obtain rfl := Option.some.inj hc
    exact .inl rfl
  | cons d rest => exact .inr hc

/-- **Pieces before a line feed.**  A piece stays a piece if a line feed is put behind the text,
unless it is a comment that is not closed, or a carriage return at the end of the text. -/
theorem Segment.append_lineFeed {piece : Piece} {token : Option Token} {rest : List Char}
    (h : Segment piece token rest) (hopen : rest = [] → ¬ piece.IsOpenComment)
    (hreturn : rest = [] → piece.text ≠ ['\r']) (later : List Char) :
    Segment piece token (rest ++ '\n' :: later) := by
  by_cases hinline : piece.kind ≠ .lineEnd ∧ piece.kind ≠ .blockComment
  · exact h.of_head hinline.1 hinline.2 (head?_append_lineFeed rest later)
  · cases h with
    | lineFeed => exact .lineFeed
    | carriageReturn hrest =>
      refine .carriageReturn ?_
      cases rest with
      | nil => exact absurd rfl (hreturn rfl)
      | cons c rest => exact hrest
    | returnLineFeed => exact .returnLineFeed
    | blockComment hbody => exact .blockComment hbody
    | openComment hbody => exact absurd ⟨rfl, hbody⟩ (hopen rfl)
    | _ => exact absurd ⟨nofun, nofun⟩ hinline

/-- A carriage return at the end of a text ends a line. -/
theorem Segment.token_of_return {piece : Piece} {token : Option Token}
    (h : Segment piece token []) (htext : piece.text = ['\r']) : token = some .lineEnd := by
  have hall : piece.text ++ [] = ['\r'] := by rw [htext, List.append_nil]
  obtain ⟨hcut, rfl⟩ := h.cut_eq hall
  obtain rfl : _ = piece := congrArg Cut.piece hcut
  rfl

/-- An empty text has no pieces. -/
theorem Segmented.eq_nil {pieces : List Piece} {tokens : List Token}
    (h : Segmented [] pieces tokens) : pieces = [] ∧ tokens = [] := by
  obtain ⟨rfl, rfl⟩ := h.eq_all
  rw [Piece.all]
  exact ⟨rfl, rfl⟩

/-- What holds of the last one of some things holds of the first one if no others are behind it,
and of the last one of the others. -/
private theorem forall_getLast?_of_cons {α : Type} {holds : α → Prop} {a : α} {others : List α}
    (h : ∀ last ∈ (a :: others).getLast?, holds last) :
    (others = [] → holds a) ∧ ∀ last ∈ others.getLast?, holds last := by
  constructor
  · rintro rfl
    exact h a rfl
  · intro last hlast
    refine h last ?_
    rw [List.getLast?_cons, Option.mem_def.mp hlast]
    rfl

/-- **Texts on lines of their own.**  If a text ends neither in a comment nor with a carriage
return, a line feed and another text can be put behind it without a change to the pieces. -/
theorem Segmented.append_of_line {text later : List Char} {pieces pieces' : List Piece}
    {tokens tokens' : List Token} (h : Segmented text pieces tokens)
    (hopen : ∀ piece ∈ pieces.getLast?, ¬ piece.IsOpenComment)
    (hreturn : text.getLast? ≠ some '\r') (hlater : Segmented later pieces' tokens') :
    Segmented (text ++ '\n' :: later) (pieces ++ ⟨.lineEnd, ['\n']⟩ :: pieces')
      (tokens ++ .lineEnd :: tokens') := by
  induction h with
  | nil => exact .cons .lineFeed hlater
  | @cons piece token rest pieces tokens hpiece hrest ih =>
    obtain ⟨hpieceOpen, hrestOpen⟩ := forall_getLast?_of_cons hopen
    have hrestReturn : rest.getLast? ≠ some '\r' := by
      intro hlast
      rw [List.getLast?_append, hlast] at hreturn
      exact hreturn rfl
    have hpiece' : Segment piece token (rest ++ '\n' :: later) := by
      refine hpiece.append_lineFeed ?_ ?_ later
      · rintro rfl
        exact hpieceOpen hrest.eq_nil.1
      · rintro rfl htext
        rw [htext] at hreturn
        exact hreturn rfl
    have hcons := Segmented.cons hpiece' (ih hrestOpen hrestReturn)
    rw [← List.append_assoc, ← List.append_assoc] at hcons
    exact hcons

/-- **Texts with a line feed between them.**  The tokens of the second text follow those of the
first one, and a line end may be between them. -/
theorem Segmented.append_lineFeed {text later : List Char} {pieces pieces' : List Piece}
    {tokens tokens' : List Token} (h : Segmented text pieces tokens)
    (hopen : ∀ piece ∈ pieces.getLast?, ¬ piece.IsOpenComment)
    (hlater : Segmented later pieces' tokens') :
    ∃ all e, (∀ a ∈ e, a.kind = .lineEnd) ∧
      Segmented (text ++ '\n' :: later) all (tokens ++ e ++ tokens') := by
  induction h with
  | nil =>
    refine ⟨_, [.lineEnd], fun a ha => ?_, .cons .lineFeed hlater⟩
    rw [List.mem_singleton.mp ha]
    rfl
  | @cons piece token rest pieces tokens hpiece hrest ih =>
    by_cases hlast : rest = [] ∧ piece.text = ['\r']
    · -- The carriage return and the line feed are one line end.
      obtain ⟨rfl, htext⟩ := hlast
      obtain ⟨rfl, rfl⟩ := hrest.eq_nil
      rw [htext, hpiece.token_of_return htext]
      exact ⟨_, [], nofun, .cons .returnLineFeed hlater⟩
    · obtain ⟨hpieceOpen, hrestOpen⟩ := forall_getLast?_of_cons hopen
      obtain ⟨all, e, he, hall⟩ := ih hrestOpen
      have hpiece' : Segment piece token (rest ++ '\n' :: later) := by
        refine hpiece.append_lineFeed ?_ (fun hnil htext => hlast ⟨hnil, htext⟩) later
        rintro rfl
        exact hpieceOpen hrest.eq_nil.1
      have hcons := Segmented.cons hpiece' hall
      rw [← List.append_assoc, ← List.append_assoc, ← List.append_assoc] at hcons
      exact ⟨piece :: all, e, he, hcons⟩

/-- The tokens of two sources with a line feed between them are those of the first source and
those of the second one, and a line end may be between them. -/
theorem Located.map_token_append (source source' : String)
    (hopen : ¬ EndsInComment source.toList) :
    ∃ w e w' : List Token, (∀ a ∈ e, a.kind = .lineEnd) ∧
      (ofSource source).map token = w ++ [.endOfInput] ∧
      (ofSource source').map token = w' ++ [.endOfInput] ∧
      (ofSource (source ++ "\n" ++ source')).map token = w ++ e ++ w' ++ [.endOfInput] := by
  have hclosed : ∀ piece ∈ (Piece.all source.toList).getLast?, ¬ piece.IsOpenComment :=
    fun piece hpiece hcomment => hopen ⟨piece, hpiece, hcomment⟩
  obtain ⟨all, e, he, hall⟩ :=
    (Segmented.all source.toList).append_lineFeed hclosed (Segmented.all source'.toList)
  refine ⟨_, e, _, he, map_token_ofPieces 1 _, map_token_ofPieces 1 _, ?_⟩
  have htext : (source ++ "\n" ++ source').toList = source.toList ++ '\n' :: source'.toList := by
    simp
  rw [ofSource, ofText, map_token_ofPieces, htext, ← hall.eq_all.2]

/-! ### Lines -/

namespace Located

/-- The token some lines further down. -/
def moveDown (lines : Nat) (a : Located) : Located :=
  ⟨a.line + lines, a.token⟩

/-- The tokens of pieces that start further down stand further down. -/
theorem ofPieces_add (line lines : Nat) (pieces : List Piece) :
    ofPieces (line + lines) pieces = (ofPieces line pieces).map (moveDown lines) := by
  fun_induction ofPieces line pieces with
  | case1 line => rfl
  | case2 line piece pieces token htoken ih =>
    rw [ofPieces, htoken, Nat.add_right_comm, ih]
    rfl
  | case3 line piece pieces htoken ih => rw [ofPieces, htoken, Nat.add_right_comm, ih]

/-- Other pieces behind some pieces start on the line where these end, and their tokens come in
place of the end of the input. -/
theorem exists_ofPieces_append (line : Nat) (pieces : List Piece) :
    ∃ front last, ofPieces line pieces = front ++ [⟨last, .endOfInput⟩] ∧
      ∀ others, ofPieces line (pieces ++ others) = front ++ ofPieces last others := by
  fun_induction ofPieces line pieces with
  | case1 line => exact ⟨[], line, rfl, fun _ => rfl⟩
  | case2 line piece pieces token htoken ih =>
    obtain ⟨front, last, hpieces, hothers⟩ := ih
    refine ⟨⟨line, token⟩ :: front, last, by rw [hpieces, List.cons_append], fun others => ?_⟩
    rw [List.cons_append, ofPieces, htoken, List.cons_append, ← hothers]
  | case3 line piece pieces htoken ih =>
    obtain ⟨front, last, hpieces, hothers⟩ := ih
    refine ⟨front, last, hpieces, fun others => ?_⟩
    rw [List.cons_append, ofPieces, htoken]
    exact hothers others

end Located

/-- **Sources on lines of their own.**  Let a source end neither with a carriage return nor in a
comment that is not closed, and let another source follow it behind a line feed.  The tokens are
those of the first source, a line end on the line where the first source ends, and those of the
second source, each as many lines further down as the number of this line says. -/
theorem ofSource_append_lineFeed (source source' : String)
    (hreturn : source.toList.getLast? ≠ some '\r') (hopen : ¬ EndsInComment source.toList) :
    ∃ front line, Located.ofSource source = front ++ [⟨line, .endOfInput⟩] ∧
      Located.ofSource (source ++ "\n" ++ source') =
        front ++ ⟨line, .lineEnd⟩ :: (Located.ofSource source').map (Located.moveDown line) := by
  have hclosed : ∀ piece ∈ (Piece.all source.toList).getLast?, ¬ piece.IsOpenComment :=
    fun piece hpiece hcomment => hopen ⟨piece, hpiece, hcomment⟩
  have htext : (source ++ "\n" ++ source').toList = source.toList ++ '\n' :: source'.toList := by
    simp
  have hall := (Segmented.all source.toList).append_of_line hclosed hreturn
    (Segmented.all source'.toList)
  obtain ⟨front, line, hfront, happend⟩ :=
    Located.exists_ofPieces_append 1 (Piece.all source.toList)
  have hbehind : Located.ofPieces line (⟨.lineEnd, ['\n']⟩ :: Piece.all source'.toList) =
      ⟨line, .lineEnd⟩ :: Located.ofPieces (1 + line) (Piece.all source'.toList) := by
    rw [Nat.add_comm]
    rfl
  refine ⟨front, line, hfront, ?_⟩
  rw [Located.ofSource, Located.ofText, htext, ← hall.eq_all.1, happend, hbehind,
    Located.ofPieces_add]
  rfl

/-- The first source has a comment over two lines and ends with a number and its point, and the
second one ends within a comment. -/
theorem tokens_of_number_before_line_feed :
    let source := "a /*\n*/ 1."
    let source' := "2 /* b\n"
    source.toList.getLast? ≠ some '\r' ∧ ¬ EndsInComment source.toList ∧
      ∃ front line, Located.ofSource source = front ++ [⟨line, .endOfInput⟩] ∧
        Located.ofSource (source ++ "\n" ++ source') =
          front ++ ⟨line, .lineEnd⟩ ::
            (Located.ofSource source').map (Located.moveDown line) := by
  intro source source'
  have hreturn : source.toList.getLast? ≠ some '\r' := by decide
  have hlast : (Piece.all source.toList).getLast? = some ⟨.number, "1.".toList⟩ := by
    decide +kernel
  have hopen : ¬ EndsInComment source.toList := by
    rintro ⟨piece, hpiece, hkind, -⟩
    rw [hlast] at hpiece
    obtain rfl := Option.some.inj hpiece
    exact PieceKind.noConfusion hkind
  exact ⟨hreturn, hopen, ofSource_append_lineFeed source source' hreturn hopen⟩

/-! ### Programs -/

/-- Two sequences in a row are a sequence. -/
theorem Sequence.append {phrase : Phrase} {u v : List Token} {ts ts' : List Tree}
    (h : Sequence phrase u ts) (h' : Sequence phrase v ts') :
    Sequence phrase (u ++ v) (ts ++ ts') := by
  induction h with
  | nil => exact h'
  | cons hfirst _ ih =>
    rw [List.append_assoc]
    exact .cons hfirst ih

/-- **A bug takes all line ends that follow it.** -/
theorem Derives.bugDefinition_append_lineEnds {w e : List Token} {t : Tree}
    (h : Derives .bugDefinition w t) (he : ∀ a ∈ e, a.kind = .lineEnd) :
    Derives .bugDefinition (w ++ e) t := by
  cases h.production with
  | bugDefinition hname hopen hvars hstart hcommand hcommands hfunctions hclose =>
    rw [List.append_assoc, List.cons_append]
    refine .of_production (.bugDefinition hname hopen hvars hstart hcommand hcommands hfunctions ?_)
    exact ⟨List.append_ne_nil_of_left_ne_nil hclose.1 e, List.forall_mem_append.mpr ⟨hclose.2, he⟩⟩

/-- The last of some bugs takes all line ends that follow it. -/
theorem Sequence.append_lineEnds {w e : List Token} {ts : List Tree}
    (h : Sequence (Derives .bugDefinition) w ts) (hne : ts ≠ [])
    (he : ∀ a ∈ e, a.kind = .lineEnd) : Sequence (Derives .bugDefinition) (w ++ e) ts := by
  induction h with
  | nil => exact absurd rfl hne
  | @cons u v t ts hfirst hothers ih =>
    rw [List.append_assoc]
    cases hothers with
    | nil => 
      have hlast := Sequence.cons (hfirst.bugDefinition_append_lineEnds he) .nil
      rwa [List.append_nil] at hlast
    | cons hnext hlater => exact .cons hfirst (ih (List.cons_ne_nil _ _))

/-- A program text has line ends, the code that all bugs share, and one or more bugs, up to the
end of the input. -/
theorem ProgramText.iff_parts {w : List Token} {t : Tree} :
    ProgramText w t ↔ ∃ e s v a shared bugs, w = e ++ s ++ v ++ [a] ∧
      t = .made "program" [shared, .made "list" bugs] ∧ (∀ b ∈ e, b.kind = .lineEnd) ∧
      SharedCode Derives s shared ∧ Sequence (Derives .bugDefinition) v bugs ∧ bugs ≠ [] ∧
      a.kind = .endOfInput := by
  constructor
  · intro h
    obtain ⟨he, hprogram⟩ := h
    cases hprogram.production with
    | program hshared hfirst hothers hend =>
      refine ⟨_, _, _, _, _, _, ?_, rfl, he, hshared, .cons hfirst hothers, List.cons_ne_nil _ _,
        hend⟩
      simp only [List.append_assoc]
  · intro h
    obtain ⟨e, s, v, a, shared, bugs, rfl, rfl, he, hshared, hbugs, hne, hend⟩ := h
    cases hbugs with
    | nil => exact absurd rfl hne
    | cons hfirst hothers =>
      have hprogram := Derives.of_production (.program hshared hfirst hothers hend)
      have htext := ProgramText.intro he hprogram
      simpa only [List.append_assoc] using htext

/-- Where there is no shared code in the tree, there is none in the source. -/
theorem SharedCode.eq_nil {w : List Token} (h : SharedCode Derives w (.made "Allbugs" [])) :
    w = [] := by
  generalize ht : Tree.made "Allbugs" [] = t at h
  cases h with
  | absent => rfl
  | present h =>
    cases h.production with
    | allbugsCode => exact absurd (Tree.node.inj ht).2 (List.cons_ne_nil _ _).symm

/-- The parts of a program are parts of its tree. -/
theorem Tree.made_program_inj {shared shared' : Tree} {bugs bugs' : List Tree}
    (h : made "program" [shared, made "list" bugs] = made "program" [shared', made "list" bugs']) :
    shared = shared' ∧ bugs = bugs' := by
  obtain ⟨hshared, hlist⟩ := List.cons.inj (Tree.node.inj h).2
  exact ⟨hshared, (Tree.node.inj (List.cons.inj hlist).1).2⟩

/-- **Programs in a row.**  Let a source be parsed to a program, and let it not end in a comment
that is not closed.  Let another source be parsed to a program without shared code.  Then the
two sources with a line feed between them are parsed to the first program with the bugs of the
second one behind its own. -/
theorem parse_append (source source' : String) (shared : Tree) (bugs bugs' : List Tree)
    (hsource : parse source = .ok (.made "program" [shared, .made "list" bugs]))
    (hopen : ¬ EndsInComment source.toList)
    (hsource' : parse source' =
      .ok (.made "program" [.made "Allbugs" [], .made "list" bugs'])) :
    parse (source ++ "\n" ++ source') =
      .ok (.made "program" [shared, .made "list" (bugs ++ bugs')]) := by
  obtain ⟨w, d, w', hd, hw, hw', hall⟩ := Located.map_token_append source source' hopen
  rw [parse_eq_ok_iff, hw] at hsource
  rw [parse_eq_ok_iff, hw'] at hsource'
  obtain ⟨e, s, v, a, code, ts, hword, ht, he, hcode, hts, hne, -⟩ :=
    ProgramText.iff_parts.mp hsource
  obtain ⟨e', s', v', a', code', ts', hword', ht', he', hcode', hts', -, hend⟩ :=
    ProgramText.iff_parts.mp hsource'
  obtain ⟨rfl, rfl⟩ := Tree.made_program_inj ht
  obtain ⟨rfl, rfl⟩ := Tree.made_program_inj ht'
  obtain rfl := hcode'.eq_nil
  obtain ⟨rfl, -⟩ := List.append_inj' hword rfl
  obtain ⟨rfl, hlast⟩ := List.append_inj' hword' rfl
  obtain rfl := List.singleton_inj.mp hlast
  -- The line ends between the programs belong to the last bug of the first one.
  have hbugs := (hts.append_lineEnds hne (List.forall_mem_append.mpr ⟨hd, he'⟩)).append hts'
  rw [parse_eq_ok_iff, hall]
  refine ProgramText.iff_parts.mpr ⟨e, s, v ++ (d ++ e') ++ v', .endOfInput, shared, bugs ++ bugs',
    ?_, rfl, he, hcode, hbugs, List.append_ne_nil_of_left_ne_nil hne _, rfl⟩
  simp only [List.append_assoc, List.append_nil]

/-- The first program ends with a comment and a carriage return, which the line feed joins, and the
second one starts with a blank line. -/
theorem parse_of_two_programs :
    let source := "Allbugs \x7b\n\x7d\nBug a \x7b\nmove 1\n\x7d // a\r"
    let source' := "\nBug b \x7b\nturn 2\n\x7d\n"
    let shared := Tree.node (.keyword "Allbugs") [.made "list" [], .made "list" []]
    let bug (name word number : String) := Tree.node (.keyword "Bug")
      [.leaf ⟨.name, name⟩, .made "list" [], .made "initially" [.made "block" []],
       .made "block" [.node (.keyword word) [.leaf ⟨.number, number⟩]], .made "list" []]
    parse source = .ok (.made "program" [shared, .made "list" [bug "a" "move" "1.0"]]) ∧
      ¬ EndsInComment source.toList ∧
      parse source' =
        .ok (.made "program" [.made "Allbugs" [], .made "list" [bug "b" "turn" "2.0"]]) ∧
      parse (source ++ "\n" ++ source') =
        .ok (.made "program"
          [shared, .made "list" [bug "a" "move" "1.0", bug "b" "turn" "2.0"]]) := by
  intro source source' shared bug
  have hsource : parse source =
      .ok (.made "program" [shared, .made "list" [bug "a" "move" "1.0"]]) := by decide +kernel
  have hsource' : parse source' =
      .ok (.made "program" [.made "Allbugs" [], .made "list" [bug "b" "turn" "2.0"]]) := by
    decide +kernel
  have hlast : (Piece.all source.toList).getLast? = some ⟨.lineEnd, ['\r']⟩ := by decide +kernel
  have hopen : ¬ EndsInComment source.toList := by
    rintro ⟨piece, hpiece, hkind, -⟩
    rw [hlast] at hpiece
    obtain rfl := Option.some.inj hpiece
    exact PieceKind.noConfusion hkind
  exact ⟨hsource, hopen, hsource', parse_append source source' shared _ _ hsource hopen hsource'⟩

end BugLang
