import BugLang.Proofs.JsonStrings
import BugLang.Proofs.NumberTexts

/-!
# Decoding JSON

The reader of values is bounded in how deep arrays and objects may lie in each other.  A text is
longer than any value in it is deep, so that the length of the text will do.

* `Json.takesOnly_readValue?`: what is read is spelled by what was taken.
* `Json.finds_readValue?`: what is spelled is read.
* `Json.decode?_iff`: a text is decoded to a value if and only if it denotes the value.
-/

namespace BugLang.Json

/-! ### Readers -/

/-- A text without the white space in front. -/
def skipBlanks (text : List Char) : List Char :=
  text.dropWhile isBlank

/-- Reads a natural number. -/
def readNumber? : Reader Json := fun text =>
  let digits := text.takeWhile Char.isDigit
  let value := Decimal.valueOfDigits digits
  if Nat.toDigits 10 value = digits then some (number value, text.dropWhile Char.isDigit) else none

/-- The values that are written as words. -/
def words : List (List Char × Json) :=
  [("null".toList, null), ("true".toList, bool true), ("false".toList, bool false)]

/-- Reads a word. -/
def readWord? : Reader Json := fun text =>
  words.findSome? fun word => (text.dropPrefix? word.1).map fun rest => (word.2, rest)

section Enclosed

variable {α : Type} (read : Reader α) (closing : Char)

/-- Reads parts with commas between them up to the closing character. -/
def readSeparated? : Nat → Reader (List α)
  | 0, _ => none
  | rounds + 1, text => do
    let (one, rest) ← read (skipBlanks text)
    match skipBlanks rest with
    | [] => none
    | c :: rest =>
      if c = closing then some ([one], rest)
      else if c = ',' then do
        let (others, rest) ← readSeparated? rounds rest
        some (one :: others, rest)
      else none

/-- Reads what stands behind an opening character, up to the closing one. -/
def readEnclosed? : Reader (List α) := fun text =>
  if (skipBlanks text).head? = some closing then some ([], (skipBlanks text).tail)
  else readSeparated? read closing text.length text

end Enclosed

/-- Reads a field. -/
def readField? (read : Reader Json) : Reader (String × Json) := fun text => do
  let (name, rest) ← readString? text
  let rest ← (skipBlanks rest).dropPrefix? [':']
  let (value, rest) ← read (skipBlanks rest)
  some ((name, value), rest)

/-- Reads a value in which arrays and objects lie in each other up to a depth. -/
def readValue? : Nat → Reader Json
  | 0, _ => none
  | depth + 1, text =>
    match text with
    | '"' :: _ => (readString? text).map fun (value, rest) => (string value, rest)
    | '[' :: inner =>
      (readEnclosed? (readValue? depth) ']' inner).map fun (items, rest) => (array items, rest)
    | '\x7b' :: inner =>
      (readEnclosed? (readField? (readValue? depth)) '\x7d' inner).map
        fun (fields, rest) => (object fields, rest)
    | _ => if text.head?.any Char.isDigit then readNumber? text else readWord? text

/-- The value that a text denotes. -/
def decode? (text : List Char) : Option Json := do
  let (value, rest) ← readValue? text.length (skipBlanks text)
  if rest.all isBlank then some value else none

/-! ### What is read is spelled -/

/-- A text is white space and the rest of it. -/
theorem exists_blanks (text : List Char) :
    ∃ blanks, IsBlanks blanks ∧ text = blanks ++ skipBlanks text :=
  ⟨text.takeWhile isBlank, fun _ hc => List.mem_takeWhile_imp hc,
    List.takeWhile_append_dropWhile.symm⟩

/-- More than one part is separated at the first comma. -/
theorem separated_cons {part : Spelling} {parts : List Spelling} {text : List Char}
    (hne : parts ≠ []) :
    separated (part :: parts) text ↔
      ∃ first later, text = first ++ ',' :: later ∧ padded part first ∧ separated parts later := by
  cases parts with
  | nil => exact absurd rfl hne
  | cons other parts => rfl

/-- Whether whatever a reader takes spells what it finds. -/
def TakesOnly {α : Type} (read : Reader α) (part : α → Spelling) : Prop :=
  ∀ text rest one, read text = some (one, rest) → ∃ own, text = own ++ rest ∧ part one own

section Enclosed

variable {α : Type} {read : Reader α} {part : α → Spelling} {closing : Char}

/-- What is read part by part is separated. -/
theorem separated_of_readSeparated? (hread : TakesOnly read part) {rounds : Nat}
    {text rest : List Char} {all : List α}
    (h : readSeparated? read closing rounds text = some (all, rest)) :
    all ≠ [] ∧ ∃ inner, text = inner ++ closing :: rest ∧ separated (all.map part) inner := by
  induction rounds generalizing text all with
  | zero => exact absurd h (by simp [readSeparated?])
  | succ rounds ih =>
    simp only [readSeparated?, Option.bind_eq_bind, Option.bind_eq_some_iff] at h
    obtain ⟨⟨one, behind⟩, hone, h⟩ := h
    obtain ⟨own, heq, hown⟩ := hread _ _ _ hone
    obtain ⟨before, hbefore, htext⟩ := exists_blanks text
    obtain ⟨after, hafter, hbehind⟩ := exists_blanks behind
    have hpadded : padded (part one) (before ++ own ++ after) :=
      ⟨before, own, after, rfl, hbefore, hown, hafter⟩
    split at h
    · exact absurd h (by simp)
    · rename_i c rest' hskip
      rw [hskip] at hbehind
      split at h
      · rename_i hclosing
        obtain ⟨rfl, rfl⟩ := Prod.mk.inj (Option.some.inj h)
        refine ⟨List.cons_ne_nil _ _, before ++ own ++ after, ?_, hpadded⟩
        rw [htext, heq, hbehind, hclosing]
        simp
      · split at h
        · rename_i hcomma
          obtain ⟨⟨others, rest''⟩, hothers, h⟩ := Option.bind_eq_some_iff.mp h
          obtain ⟨rfl, rfl⟩ := Prod.mk.inj (Option.some.inj h)
          obtain ⟨hne, inner, rfl, hinner⟩ := ih hothers
          refine ⟨List.cons_ne_nil _ _, before ++ own ++ after ++ ',' :: inner, ?_, ?_⟩
          · rw [htext, heq, hbehind, hcomma]
            simp
          · exact (separated_cons (by simpa using hne)).mpr ⟨_, inner, rfl, hpadded, hinner⟩
        · exact absurd h (by simp)

/-- What is read up to the closing character is separated. -/
theorem separated_of_readEnclosed? (hread : TakesOnly read part) {text rest : List Char}
    {all : List α} (h : readEnclosed? read closing text = some (all, rest)) :
    ∃ inner, text = inner ++ closing :: rest ∧ separated (all.map part) inner := by
  rw [readEnclosed?] at h
  split at h
  · rename_i hend
    obtain ⟨rfl, rfl⟩ := Prod.mk.inj (Option.some.inj h)
    obtain ⟨blanks, hblanks, htext⟩ := exists_blanks text
    exact ⟨blanks, by rwa [List.cons_head?_tail hend], hblanks⟩
  · exact (separated_of_readSeparated? hread h).2

end Enclosed

/-- Fields are read by their spellings if their values are. -/
theorem takesOnly_readField? {read : Reader Json} (hread : TakesOnly read SpelledBy) :
    TakesOnly (readField? read) fun field => fieldSpelled field.1 field.2.SpelledBy := by
  intro text rest field h
  simp only [readField?, Option.bind_eq_bind, Option.bind_eq_some_iff, dropPrefix?_iff] at h
  obtain ⟨⟨name, rest₁⟩, hname, rest₂, hcolon, ⟨value, rest₃⟩, hvalue, heq⟩ := h
  obtain ⟨rfl, rfl⟩ := Prod.mk.inj (Option.some.inj heq)
  obtain ⟨own, rfl, hown⟩ := readString?_iff.mp hname
  obtain ⟨behind, hbehind, hskip₁⟩ := exists_blanks rest₁
  obtain ⟨before, hbefore, hskip₂⟩ := exists_blanks rest₂
  obtain ⟨later, hlater, hspelled⟩ := hread _ _ _ hvalue
  refine ⟨own ++ behind ++ ':' :: (before ++ later), ?_, own, behind, before, later, rfl, hown,
    hbehind, hbefore, hspelled⟩
  rw [hskip₁, hcolon, hskip₂, hlater]
  simp

/-- A word is spelled as it is. -/
theorem spelledBy_of_mem_words {word : List Char × Json} (h : word ∈ words) :
    word.2.SpelledBy word.1 := by
  simp only [words, List.mem_cons, List.not_mem_nil, or_false] at h
  obtain rfl | rfl | rfl := h <;> simp [SpelledBy]

/-- **What is read is spelled by what was taken.** -/
theorem takesOnly_readValue? (depth : Nat) : TakesOnly (readValue? depth) SpelledBy := by
  induction depth with
  | zero => exact fun text rest value h => absurd h (by simp [readValue?])
  | succ depth ih =>
    intro text rest value h
    unfold readValue? at h
    split at h
    · obtain ⟨⟨string, rest'⟩, hread, heq⟩ := Option.map_eq_some_iff.mp h
      obtain ⟨rfl, rfl⟩ := Prod.mk.inj heq
      obtain ⟨own, htext, hown⟩ := readString?_iff.mp hread
      exact ⟨own, htext, by rwa [SpelledBy]⟩
    · obtain ⟨⟨items, rest'⟩, hread, heq⟩ := Option.map_eq_some_iff.mp h
      obtain ⟨rfl, rfl⟩ := Prod.mk.inj heq
      obtain ⟨inner, rfl, hinner⟩ := separated_of_readEnclosed? ih hread
      refine ⟨'[' :: (inner ++ [']']), by simp, ?_⟩
      rw [SpelledBy]
      exact ⟨inner, rfl, hinner⟩
    · obtain ⟨⟨fields, rest'⟩, hread, heq⟩ := Option.map_eq_some_iff.mp h
      obtain ⟨rfl, rfl⟩ := Prod.mk.inj heq
      obtain ⟨inner, rfl, hinner⟩ := separated_of_readEnclosed? (takesOnly_readField? ih) hread
      refine ⟨'\x7b' :: (inner ++ ['\x7d']), by simp, ?_⟩
      rw [SpelledBy]
      exact ⟨inner, rfl, hinner⟩
    · split at h
      · rw [readNumber?] at h
        split at h
        · rename_i hdigits
          obtain ⟨rfl, rfl⟩ := Prod.mk.inj (Option.some.inj h)
          exact ⟨text.takeWhile Char.isDigit, List.takeWhile_append_dropWhile.symm,
            by rw [SpelledBy, hdigits]⟩
        · exact absurd h (by simp)
      · obtain ⟨word, hword, h⟩ := List.exists_of_findSome?_eq_some h
        obtain ⟨rest', hdrop, heq⟩ := Option.map_eq_some_iff.mp h
        obtain ⟨rfl, rfl⟩ := Prod.mk.inj heq
        exact ⟨word.1, dropPrefix?_iff.mp hdrop, spelledBy_of_mem_words hword⟩

/-! ### What is spelled is read -/

/-- Whether a text does not go on with a digit. -/
def EndsDigits (text : List Char) : Prop :=
  ∀ c, text.head? = some c → c.isDigit = false

/-- Whether a text starts as a part does: with neither white space nor the end of an array or an
object. -/
def Leads (text : List Char) : Prop :=
  ∃ c later, text = c :: later ∧ isBlank c = false ∧ c ≠ ']' ∧ c ≠ '\x7d'

/-- White space is no digit. -/
theorem isDigit_of_isBlank {c : Char} (h : isBlank c = true) : c.isDigit = false := by
  simp only [isBlank, Bool.or_eq_true, decide_eq_true_eq] at h
  obtain ((rfl | rfl) | rfl) | rfl := h <;> rfl

/-- A digit starts a part. -/
theorem leads_of_isDigit {c : Char} {later : List Char} (h : c.isDigit = true) :
    Leads (c :: later) := by
  refine ⟨c, later, rfl, ?_, ?_, ?_⟩
  · by_contra hblank
    rw [isDigit_of_isBlank (by simpa using hblank)] at h
    exact absurd h (by simp)
  · rintro rfl
    exact absurd h (by decide)
  · rintro rfl
    exact absurd h (by decide)

/-- A quotation mark starts a part. -/
theorem leads_of_stringSpelled {string : String} {own : List Char}
    (h : stringSpelled string own) (later : List Char) : Leads (own ++ later) := by
  obtain ⟨forms, rfl, -⟩ := h
  exact ⟨_, _, rfl, by decide, by decide, by decide⟩

/-- The texts of a value start as a part does. -/
theorem leads_of_spelledBy {value : Json} {own : List Char} (h : value.SpelledBy own) :
    Leads own := by
  cases value with
  | null =>
    rw [SpelledBy] at h
    exact ⟨_, _, h, by decide, by decide, by decide⟩
  | bool value =>
    rw [SpelledBy] at h
    cases value <;> exact ⟨_, _, h, by decide, by decide, by decide⟩
  | number value =>
    rw [SpelledBy] at h
    obtain ⟨hne, hdigits⟩ := Decimal.isDigits_toDigits value
    rw [← h] at hne hdigits
    obtain ⟨c, later, rfl⟩ := List.exists_cons_of_ne_nil hne
    exact leads_of_isDigit (hdigits c List.mem_cons_self)
  | string value =>
    rw [SpelledBy] at h
    simpa using leads_of_stringSpelled h []
  | array items =>
    rw [SpelledBy] at h
    obtain ⟨inner, rfl, -⟩ := h
    exact ⟨_, _, rfl, by decide, by decide, by decide⟩
  | object fields =>
    rw [SpelledBy] at h
    obtain ⟨inner, rfl, -⟩ := h
    exact ⟨_, _, rfl, by decide, by decide, by decide⟩

/-- White space is skipped up to a character that is none. -/
theorem skipBlanks_append {blanks rest : List Char} {c : Char} (hblanks : IsBlanks blanks)
    (hc : isBlank c = false) : skipBlanks (blanks ++ c :: rest) = c :: rest :=
  (IsRun.of_next hblanks hc).dropWhile_append

/-- What is left behind white space is what starts with no white space. -/
theorem skipBlanks_append_of_leads {blanks own rest : List Char} (hblanks : IsBlanks blanks)
    (hown : Leads own) : skipBlanks (blanks ++ own ++ rest) = own ++ rest := by
  obtain ⟨c, later, rfl, hblank, -⟩ := hown
  rw [List.append_assoc, List.cons_append, skipBlanks_append hblanks hblank]

/-- White space in front of something that is no digit is no digit. -/
theorem endsDigits_append {blanks rest : List Char} {c : Char} (hblanks : IsBlanks blanks)
    (hc : c.isDigit = false) : EndsDigits (blanks ++ c :: rest) := by
  intro d hd
  cases blanks with
  | nil =>
    obtain rfl := Option.some.inj hd
    exact hc
  | cons blank blanks =>
    obtain rfl := Option.some.inj hd
    exact isDigit_of_isBlank (hblanks blank List.mem_cons_self)

/-- Whether a reader finds something in every text by which it is spelled, up to a length. -/
def Finds {α : Type} (read : Reader α) (one : α) (part : Spelling) (bound : Nat) : Prop :=
  ∀ own rest, part own → own.length ≤ bound → EndsDigits rest →
    Leads own ∧ read (own ++ rest) = some (one, rest)

section Enclosed

variable {α : Type} {read : Reader α} {part : α → Spelling} {closing : Char} {bound : Nat}

/-- A part is found between white space. -/
theorem Finds.padded {one : α} {text : List Char} {c : Char}
    (h : Finds read one (part one) bound) (htext : padded (part one) text)
    (hbound : text.length ≤ bound) (hblank : isBlank c = false) (hdigit : c.isDigit = false)
    (rest : List Char) :
    ∃ own behind, skipBlanks (text ++ c :: rest) = own ++ behind ∧ Leads own ∧
      read (own ++ behind) = some (one, behind) ∧ skipBlanks behind = c :: rest := by
  obtain ⟨before, own, behind, rfl, hbefore, hown, hbehind⟩ := htext
  simp only [List.length_append] at hbound
  obtain ⟨hleads, hread⟩ := h own (behind ++ c :: rest) hown (by omega)
    (endsDigits_append hbehind hdigit)
  refine ⟨own, behind ++ c :: rest, ?_, hleads, hread, skipBlanks_append hbehind hblank⟩
  rw [List.append_assoc _ behind, skipBlanks_append_of_leads hbefore hleads]

/-- What closes an array or an object is neither white space nor a comma nor a digit. -/
theorem closing_spec (h : closing = ']' ∨ closing = '\x7d') :
    isBlank closing = false ∧ closing.isDigit = false ∧ closing ≠ ',' := by
  obtain rfl | rfl := h <;> decide

/-- Behind the first part comes what closes all of them or a comma and the others. -/
theorem exists_first_of_separated (hclosing : closing = ']' ∨ closing = '\x7d') {one : α}
    {others : List α} {inner : List Char} (rest : List Char)
    (h : separated ((one :: others).map part) inner) :
    ∃ first c behind, inner ++ closing :: rest = first ++ c :: behind ∧
      padded (part one) first ∧ first.length ≤ inner.length ∧
      isBlank c = false ∧ c.isDigit = false ∧
      (others = [] ∧ c = closing ∧ behind = rest ∨
        others ≠ [] ∧ c = ',' ∧ ∃ later, behind = later ++ closing :: rest ∧
          separated (others.map part) later ∧ later.length < inner.length) := by
  obtain ⟨hblank, hdigit, -⟩ := closing_spec hclosing
  by_cases hothers : others = []
  · subst hothers
    exact ⟨inner, closing, rest, rfl, h, le_rfl, hblank, hdigit, .inl ⟨rfl, rfl, rfl⟩⟩
  · obtain ⟨first, later, rfl, hfirst, hlater⟩ := (separated_cons (by simpa using hothers)).mp h
    exact ⟨first, ',', later ++ closing :: rest, by simp, hfirst, by simp, by decide, by decide,
      .inr ⟨hothers, rfl, later, rfl, hlater, by simp; omega⟩⟩

/-- Parts are found if each of them is. -/
theorem readSeparated?_of_separated (hclosing : closing = ']' ∨ closing = '\x7d')
    {all : List α} (h : ∀ one ∈ all, Finds read one (part one) bound) (hne : all ≠ [])
    {inner rest : List Char} {rounds : Nat} (hinner : separated (all.map part) inner)
    (hbound : inner.length ≤ bound) (hrounds : inner.length < rounds) :
    readSeparated? read closing rounds (inner ++ closing :: rest) = some (all, rest) := by
  induction all generalizing inner rounds with
  | nil => exact absurd rfl hne
  | cons one others ih =>
    obtain ⟨rounds, rfl⟩ := Nat.exists_eq_add_one_of_ne_zero (Nat.ne_zero_of_lt hrounds)
    obtain ⟨first, c, behind, heq, hfirst, hlength, hblank, hdigit, hcase⟩ :=
      exists_first_of_separated hclosing rest hinner
    obtain ⟨own, behind', hskip, -, hread, hbehind⟩ :=
      (h one List.mem_cons_self).padded hfirst (by omega) hblank hdigit behind
    rw [heq, readSeparated?, hskip, hread]
    simp only [Option.bind_eq_bind, Option.bind_some, hbehind]
    obtain ⟨rfl, rfl, rfl⟩ | ⟨hothers, rfl, later, rfl, hlater, hlt⟩ := hcase
    · rw [if_pos rfl]
    · rw [if_neg (Ne.symm (closing_spec hclosing).2.2), if_pos rfl,
        ih (fun other hmem => h other (List.mem_cons_of_mem _ hmem)) hothers hlater
          (by omega) (by omega), Option.bind_some]

/-- What is enclosed is found if each part is. -/
theorem readEnclosed?_of_separated (hclosing : closing = ']' ∨ closing = '\x7d')
    {all : List α} (h : ∀ one ∈ all, Finds read one (part one) bound)
    {inner : List Char} (hinner : separated (all.map part) inner)
    (hbound : inner.length ≤ bound) (rest : List Char) :
    readEnclosed? read closing (inner ++ closing :: rest) = some (all, rest) := by
  cases all with
  | nil =>
    have hskip : skipBlanks (inner ++ closing :: rest) = closing :: rest :=
      skipBlanks_append hinner (closing_spec hclosing).1
    rw [readEnclosed?, hskip, List.head?_cons, if_pos rfl, List.tail_cons]
  | cons one others =>
    obtain ⟨first, c, behind, heq, hfirst, hlength, hblank, hdigit, -⟩ :=
      exists_first_of_separated hclosing rest hinner
    obtain ⟨own, behind', hskip, ⟨d, later, rfl, -, hbracket, hbrace⟩, -⟩ :=
      (h one List.mem_cons_self).padded hfirst (by omega) hblank hdigit behind
    have hfront : (skipBlanks (inner ++ closing :: rest)).head? ≠ some closing := by
      rw [heq, hskip]
      intro hhead
      obtain rfl := Option.some.inj hhead
      exact hclosing.elim hbracket hbrace
    rw [readEnclosed?, if_neg hfront]
    exact readSeparated?_of_separated hclosing h (List.cons_ne_nil _ _) hinner hbound (by simp)

end Enclosed

/-- A field is found if its value is. -/
theorem finds_readField? {read : Reader Json} {field : String × Json} {bound : Nat}
    (h : Finds read field.2 field.2.SpelledBy bound) :
    Finds (readField? read) field (fieldSpelled field.1 field.2.SpelledBy) bound := by
  rintro - rest ⟨own, behind, before, later, rfl, hname, hbehind, hbefore, hvalue⟩ hbound hends
  simp only [List.length_append, List.length_cons] at hbound
  obtain ⟨hleads, hread⟩ := h later rest hvalue (by omega) hends
  refine ⟨by simpa using leads_of_stringSpelled hname (behind ++ ':' :: (before ++ later)), ?_⟩
  have hstring : readString? (own ++ behind ++ ':' :: (before ++ later) ++ rest) =
      some (field.1, behind ++ ':' :: (before ++ later ++ rest)) :=
    readString?_iff.mpr ⟨own, by simp, hname⟩
  have hcolon : (skipBlanks (behind ++ ':' :: (before ++ later ++ rest))).dropPrefix? [':'] =
      some (before ++ later ++ rest) := by
    rw [skipBlanks_append hbehind (by decide)]
    exact dropPrefix?_iff.mpr rfl
  have hskip : skipBlanks (before ++ later ++ rest) = later ++ rest :=
    skipBlanks_append_of_leads hbefore hleads
  simp only [readField?, hstring, hcolon, hskip, hread, Option.bind_eq_bind, Option.bind_some]

/-- A text that starts with a digit is read as a number. -/
theorem readValue?_of_isDigit {c : Char} (h : c.isDigit = true) (depth : Nat) (text : List Char) :
    readValue? (depth + 1) (c :: text) = readNumber? (c :: text) := by
  have hquote : c ≠ '"' := by rintro rfl; exact absurd h (by decide)
  have hbracket : c ≠ '[' := by rintro rfl; exact absurd h (by decide)
  have hbrace : c ≠ '\x7b' := by rintro rfl; exact absurd h (by decide)
  unfold readValue?
  split
  · exact absurd (List.cons.inj ‹_›).1 hquote
  · exact absurd (List.cons.inj ‹_›).1 hbracket
  · exact absurd (List.cons.inj ‹_›).1 hbrace
  · rw [if_pos (by simpa using h)]

/-- The digits of a number are read as the number. -/
theorem readNumber?_toDigits (value : Nat) {rest : List Char} (h : EndsDigits rest) :
    readNumber? (Nat.toDigits 10 value ++ rest) = some (number value, rest) := by
  have hrun : IsRun Char.isDigit (Nat.toDigits 10 value) rest :=
    ⟨(Decimal.isDigits_toDigits value).2, h⟩
  simp only [readNumber?, hrun.takeWhile_append, hrun.dropWhile_append,
    Decimal.valueOfDigits_toDigits, if_true]

/-- A word is read as what it stands for. -/
theorem readWord?_append {word : List Char × Json} (h : word ∈ words) (rest : List Char) :
    readWord? (word.1 ++ rest) = some (word.2, rest) := by
  simp only [words, List.mem_cons, List.not_mem_nil, or_false] at h
  obtain rfl | rfl | rfl := h <;> simp [readWord?, words, List.dropPrefix?]

/-- A value is found in its spellings if it is wherever the reader may go into it. -/
theorem finds_of_succ {value : Json}
    (h : ∀ depth own rest, value.SpelledBy own → own.length ≤ depth + 1 → EndsDigits rest →
      readValue? (depth + 1) (own ++ rest) = some (value, rest)) (depth : Nat) :
    Finds (readValue? depth) value value.SpelledBy depth := by
  intro own rest hown hbound hends
  have hleads := leads_of_spelledBy hown
  refine ⟨hleads, ?_⟩
  cases depth with
  | zero =>
    obtain ⟨c, later, rfl, -⟩ := hleads
    exact absurd hbound (Nat.not_succ_le_zero _)
  | succ depth => exact h depth own rest hown hbound hends

/-- **A value is found in its spellings** by a reader that goes as deep as they are long. -/
theorem finds_readValue? (value : Json) :
    ∀ depth, Finds (readValue? depth) value value.SpelledBy depth := by
  induction value using induct with
  | hnull =>
    refine finds_of_succ fun depth own rest hown hbound hends => ?_
    rw [SpelledBy] at hown
    rw [hown]
    have hword : ("null".toList, null) ∈ words := List.mem_cons_self
    exact readWord?_append hword rest
  | hbool value =>
    refine finds_of_succ fun depth own rest hown hbound hends => ?_
    rw [SpelledBy] at hown
    rw [hown]
    have hword : ((if value then "true" else "false").toList, bool value) ∈ words := by
      cases value <;> simp [words]
    cases value <;> exact readWord?_append hword rest
  | hnumber value =>
    refine finds_of_succ fun depth own rest hown hbound hends => ?_
    rw [SpelledBy] at hown
    obtain ⟨hne, hdigits⟩ := Decimal.isDigits_toDigits value
    obtain ⟨c, later, heq⟩ := List.exists_cons_of_ne_nil hne
    have hdigit : c.isDigit = true := hdigits c (by rw [heq]; exact List.mem_cons_self)
    rw [hown, ← readNumber?_toDigits value hends, heq, List.cons_append,
      readValue?_of_isDigit hdigit]
  | hstring value =>
    refine finds_of_succ fun depth own rest hown hbound hends => ?_
    rw [SpelledBy] at hown
    have hread : readString? (own ++ rest) = some (value, rest) :=
      readString?_iff.mpr ⟨own, rfl, hown⟩
    obtain ⟨forms, rfl, -⟩ := hown
    rw [List.cons_append, readValue?, ← List.cons_append, hread]
    rfl
  | harray items ih =>
    refine finds_of_succ fun depth own rest hown hbound hends => ?_
    rw [SpelledBy] at hown
    obtain ⟨inner, rfl, hinner⟩ := hown
    simp only [List.length_cons, List.length_append, List.length_nil] at hbound
    have hread := readEnclosed?_of_separated (.inl rfl) (fun item hitem => ih item hitem depth)
      hinner (by omega) rest
    rw [List.cons_append, List.append_assoc, List.singleton_append, readValue?, hread]
    rfl
  | hobject fields ih =>
    refine finds_of_succ fun depth own rest hown hbound hends => ?_
    rw [SpelledBy] at hown
    obtain ⟨inner, rfl, hinner⟩ := hown
    simp only [List.length_cons, List.length_append, List.length_nil] at hbound
    have hread := readEnclosed?_of_separated (.inr rfl)
      (fun field hfield => finds_readField? (ih field hfield depth)) hinner (by omega) rest
    rw [List.cons_append, List.append_assoc, List.singleton_append, readValue?, hread]
    rfl

/-- **A text is decoded to a value if and only if it denotes the value.** -/
theorem decode?_iff {text : List Char} {value : Json} :
    decode? text = some value ↔ value.DenotedBy text := by
  constructor
  · intro h
    simp only [decode?, Option.bind_eq_bind, Option.bind_eq_some_iff] at h
    obtain ⟨⟨value', rest⟩, hread, h⟩ := h
    split at h
    · rename_i hrest
      obtain rfl := Option.some.inj h
      obtain ⟨own, htext, hown⟩ := takesOnly_readValue? _ _ _ _ hread
      obtain ⟨blanks, hblanks, hskip⟩ := exists_blanks text
      exact ⟨blanks, own, rest, by rw [hskip, htext, List.append_assoc], hblanks, hown,
        List.all_eq_true.mp hrest⟩
    · exact absurd h (by simp)
  · rintro ⟨before, own, behind, rfl, hbefore, hown, hbehind⟩
    have hends : EndsDigits behind := fun c hc =>
      isDigit_of_isBlank (hbehind c (List.mem_of_mem_head? hc))
    obtain ⟨hleads, hread⟩ := finds_readValue? value (before ++ own ++ behind).length own behind
      hown (by simp; omega) hends
    have hall : behind.all isBlank = true := List.all_eq_true.mpr hbehind
    simp only [decode?, skipBlanks_append_of_leads hbefore hleads, hread, Option.bind_eq_bind,
      Option.bind_some, hall, if_true]

/-- A text denotes at most one value. -/
theorem DenotedBy.unique {text : List Char} {value other : Json} (h : value.DenotedBy text)
    (hother : other.DenotedBy text) : value = other :=
  Option.some.inj ((decode?_iff.mpr h).symm.trans (decode?_iff.mpr hother))

end BugLang.Json
