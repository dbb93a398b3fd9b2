import BugLang.Json
import BugLang.Proofs.Segmentation
import Mathlib.Data.List.Forall2

/-!
# The texts of JSON

Which texts stand for a value, by the grammar of JSON: white space may surround every part of a
text, and a character of a string may stand for itself, or it is escaped by a letter, by its
code in four hexadecimal digits, or by two such codes.  Of the numbers only the natural ones
without an exponent are values here.

* `Json.SpelledBy`, `Json.DenotedBy`: the texts of a value, without and with white space around.
* `Json.spelledBy_pretty`: a value that is written on lines of its own is spelled by its text.
-/

namespace BugLang.Json

/-! ### Spellings -/

/-- The texts by which something is spelled. -/
abbrev Spelling := List Char → Prop

/-- Whether a character is white space. -/
def isBlank (c : Char) : Bool :=
  c = ' ' || c = '\t' || c = '\n' || c = '\r'

/-- Whether a text is white space only. -/
def IsBlanks (text : List Char) : Prop :=
  ∀ c ∈ text, isBlank c = true

/-- A spelling with white space around. -/
def padded (part : Spelling) : Spelling := fun text =>
  ∃ before own behind, text = before ++ own ++ behind ∧
    IsBlanks before ∧ part own ∧ IsBlanks behind

/-- Parts with commas between them and white space around each. -/
def separated : List Spelling → Spelling
  | [], text => IsBlanks text
  | [part], text => padded part text
  | part :: parts, text => ∃ first later, text = first ++ ',' :: later ∧
      padded part first ∧ separated parts later

/-- Parts between an opening and a closing character. -/
def enclosed (opening closing : Char) (parts : List Spelling) : Spelling := fun text =>
  ∃ inner, text = opening :: (inner ++ [closing]) ∧ separated parts inner

/-! ### Strings -/

/-- The value of a hexadecimal digit. -/
def hexValue? (c : Char) : Option Nat :=
  if c.isDigit then some (c.toNat - '0'.toNat)
  else if 'a' ≤ c ∧ c ≤ 'f' then some (c.toNat - 'a'.toNat + 10)
  else if 'A' ≤ c ∧ c ≤ 'F' then some (c.toNat - 'A'.toNat + 10)
  else none

/-- The code of four hexadecimal digits. -/
def unit? : List Char → Option Nat
  | [a, b, c, d] => do
    return 4096 * (← hexValue? a) + 256 * (← hexValue? b) + 16 * (← hexValue? c) + (← hexValue? d)
  | _ => none

/-- The characters that are escaped by a letter or by themselves. -/
def escapes : List (Char × Char) :=
  [('"', '"'), ('\\', '\\'), ('/', '/'), ('b', '\x08'), ('f', '\x0c'), ('n', '\n'), ('r', '\r'),
   ('t', '\t')]

/-- The spellings of a character in a string.  The codes of a pair are those of the two
surrogates that stand for a character beyond the first `2 ^ 16`. -/
inductive SpelledInString : Char → Spelling
  | plain {c : Char} (hle : 0x20 ≤ c.toNat) (hquote : c ≠ '"') (hslash : c ≠ '\\') :
      SpelledInString c [c]
  | letter {letter c : Char} (hletter : (letter, c) ∈ escapes) :
      SpelledInString c ['\\', letter]
  | unit {c : Char} {digits : List Char} (hunit : unit? digits = some c.toNat) :
      SpelledInString c ('\\' :: 'u' :: digits)
  | pair {c : Char} {high low : List Char} {upper lower : Nat}
      (hhigh : unit? high = some (0xd800 + upper)) (hlow : unit? low = some (0xdc00 + lower))
      (hupper : upper < 0x400) (hlower : lower < 0x400)
      (hcode : c.toNat = 0x10000 + 0x400 * upper + lower) :
      SpelledInString c ('\\' :: 'u' :: high ++ '\\' :: 'u' :: low)

/-- The spellings of a string. -/
def stringSpelled (string : String) : Spelling := fun text =>
  ∃ forms : List (List Char), text = '"' :: (forms.flatten ++ ['"']) ∧
    List.Forall₂ SpelledInString string.toList forms

/-! ### Values -/

/-- The spellings of a field: the name, a colon, and the value. -/
def fieldSpelled (name : String) (value : Spelling) : Spelling := fun text =>
  ∃ own behind before later, text = own ++ behind ++ ':' :: (before ++ later) ∧
    stringSpelled name own ∧ IsBlanks behind ∧ IsBlanks before ∧ value later

/-- The spellings of a value. -/
def SpelledBy : Json → Spelling
  | null => (· = "null".toList)
  | bool value => (· = (if value then "true" else "false").toList)
  | number value => (· = Nat.toDigits 10 value)
  | string value => stringSpelled value
  | array items => enclosed '[' ']' (items.map fun item => item.SpelledBy)
  | object fields =>
    enclosed '\x7b' '\x7d' (fields.map fun field => fieldSpelled field.1 field.2.SpelledBy)
decreasing_by
  · decreasing_tactic
  · have hlt := List.sizeOf_lt_of_mem ‹_›
    obtain ⟨name, value⟩ := field
    simp only [Prod.mk.sizeOf_spec] at hlt
    simp only [object.sizeOf_spec]
    omega

/-- The texts of a value. -/
def DenotedBy (value : Json) : Spelling :=
  padded value.SpelledBy

/-- Induction on a value: what holds of an array or an object may be derived from what is in
it. -/
theorem induct {motive : Json → Prop} (hnull : motive null) (hbool : ∀ value, motive (bool value))
    (hnumber : ∀ value, motive (number value)) (hstring : ∀ value, motive (string value))
    (harray : ∀ items, (∀ item ∈ items, motive item) → motive (array items))
    (hobject : ∀ fields, (∀ field ∈ fields, motive field.2) → motive (object fields)) :
    ∀ value, motive value :=
  @rec motive (fun items => ∀ item ∈ items, motive item)
    (fun fields => ∀ field ∈ fields, motive field.2) (fun field => motive field.2)
    hnull hbool hnumber hstring harray hobject nofun
    (fun _ _ hitem hitems => List.forall_mem_cons.mpr ⟨hitem, hitems⟩) nofun
    (fun _ _ hfield hfields => List.forall_mem_cons.mpr ⟨hfield, hfields⟩) (fun _ _ hvalue => hvalue)

/-! ### Values on lines of their own -/

/-- The indent of a line is white space. -/
theorem isBlanks_newLine (depth : Nat) : IsBlanks (newLine depth) := by
  intro c hc
  rcases List.mem_cons.mp hc with rfl | hc
  · rfl
  · rw [List.eq_of_mem_replicate hc]
    rfl

/-- The characters that are escaped by a letter. -/
def lettered : List Char := ['"', '\\', '\x08', '\x0c', '\n', '\r', '\t']

/-- They are spelled by the letter. -/
theorem spelledInString_of_mem_lettered {c : Char} (h : c ∈ lettered) :
    SpelledInString c (escaped c) := by
  revert c
  rw [lettered]
  simp only [List.forall_mem_cons]
  exact ⟨.letter (by decide), .letter (by decide), .letter (by decide), .letter (by decide),
    .letter (by decide), .letter (by decide), .letter (by decide), nofun⟩

/-- An escaped character is spelled by its escape. -/
theorem spelledInString_escaped (c : Char) : SpelledInString c (escaped c) := by
  have hcontrol : ∀ code < 0x20, unit? ['0', '0', Nat.digitChar (code / 16),
      Nat.digitChar (code % 16)] = some code := by decide
  by_cases hmem : c ∈ lettered
  · exact spelledInString_of_mem_lettered hmem
  · simp only [lettered, List.mem_cons, List.not_mem_nil, or_false, not_or] at hmem
    obtain ⟨hquote, hslash, hback, hform, hfeed, hreturn, htab⟩ := hmem
    rw [escaped, if_neg hquote, if_neg hslash, if_neg hback, if_neg hform, if_neg hfeed,
      if_neg hreturn, if_neg htab]
    by_cases hlt : c.toNat < 0x20
    · rw [if_pos hlt]
      exact .unit (hcontrol c.toNat hlt)
    · rw [if_neg hlt]
      exact .plain (Nat.not_lt.mp hlt) hquote hslash

/-- A string is spelled between quotation marks. -/
theorem stringSpelled_quoted (text : String) : stringSpelled text (quoted text) := by
  refine ⟨text.toList.map escaped, by rw [quoted, List.flatMap_def], ?_⟩
  rw [List.forall₂_map_right_iff]
  exact List.forall₂_same.mpr fun c _ => spelledInString_escaped c

/-- Texts on lines of their own, with commas between them. -/
def onLines (depth : Nat) : List (List Char) → List Char
  | [] => []
  | text :: texts =>
    newLine depth ++ text ++ if texts.isEmpty then [] else ',' :: onLines depth texts

/-- Items stand on lines of their own. -/
theorem prettyItems_eq (depth : Nat) (items : List Json) :
    prettyItems depth items = onLines depth (items.map (pretty depth)) := by
  induction items with
  | nil => rfl
  | cons item items ih => rw [prettyItems, ih, List.map_cons, onLines, List.isEmpty_map]

/-- Fields stand on lines of their own. -/
theorem prettyFields_eq (depth : Nat) (fields : List (String × Json)) :
    prettyFields depth fields = onLines depth
      (fields.map fun field => quoted field.1 ++ ':' :: ' ' :: pretty depth field.2) := by
  induction fields with
  | nil => rfl
  | cons field fields ih =>
    rw [prettyFields, ih, List.map_cons, onLines, List.isEmpty_map, List.append_assoc (newLine _)]

/-- What is on lines of its own is separated, up to the line that closes it. -/
theorem separated_onLines {α : Type} {part : α → Spelling} {text : α → List Char} {all : List α}
    (h : ∀ one ∈ all, part one (text one)) (hne : all ≠ []) (depth outer : Nat) :
    separated (all.map part) (onLines depth (all.map text) ++ newLine outer) := by
  induction all with
  | nil => exact absurd rfl hne
  | cons one others ih =>
    have hone := h one List.mem_cons_self
    cases others with
    | nil =>
      exact ⟨newLine depth, text one, newLine outer, by simp [onLines], isBlanks_newLine depth,
        hone, isBlanks_newLine outer⟩
    | cons other others =>
      refine ⟨newLine depth ++ text one, onLines depth ((other :: others).map text) ++
        newLine outer, ?_, ⟨newLine depth, text one, [], by simp, isBlanks_newLine depth, hone,
        nofun⟩, ih (fun one hmem => h one (List.mem_cons_of_mem _ hmem)) (List.cons_ne_nil _ _)⟩
      rw [List.map_cons, onLines, if_neg (by simp), List.append_assoc _ _ (newLine outer),
        List.cons_append]

/-- **A value is spelled by the text on lines of its own.** -/
theorem spelledBy_pretty (value : Json) (depth : Nat) : value.SpelledBy (value.pretty depth) := by
  induction value using induct generalizing depth with
  | hnull | hbool value | hnumber value =>
    rw [SpelledBy]
    rfl
  | hstring value =>
    rw [SpelledBy]
    exact stringSpelled_quoted value
  | harray items ih =>
    rw [SpelledBy]
    unfold pretty
    by_cases hne : items = []
    · subst hne
      exact ⟨[], rfl, nofun⟩
    · rw [if_neg (by simpa using hne), prettyItems_eq]
      exact ⟨_, rfl, separated_onLines (fun item hitem => ih item hitem (depth + 1)) hne _ _⟩
  | hobject fields ih =>
    rw [SpelledBy]
    unfold pretty
    by_cases hne : fields = []
    · subst hne
      exact ⟨[], rfl, nofun⟩
    · rw [if_neg (by simpa using hne), prettyFields_eq]
      refine ⟨_, rfl, separated_onLines (fun field hfield => ?_) hne _ _⟩
      exact ⟨quoted field.1, [], [' '], pretty (depth + 1) field.2, by simp,
        stringSpelled_quoted field.1, nofun, by simp [IsBlanks, isBlank],
        ih field hfield (depth + 1)⟩

end BugLang.Json
