import BugLang.Proofs.JsonTexts

/-!
# Reading JSON strings

A reader takes what it understands off the front of a text and gives the rest.  The readers here
are those of what is in a string; they understand what the grammar has and nothing else.

* `Json.readCharacter?_iff`: a character is read by its spellings.
* `Json.readString?_iff`: so is a string.
-/

namespace BugLang.Json

/-- Readers of what stands at the front of a text. -/
abbrev Reader (α : Type) := List Char → Option (α × List Char)

/-! ### Characters -/

/-- Reads a code of four hexadecimal digits. -/
def readUnit? : Reader Nat := fun text =>
  (unit? (text.take 4)).map fun code => (code, text.drop 4)

/-- Reads the lower surrogate behind an upper one. -/
def readPair? (high : Nat) : Reader Char := fun text => do
  let rest ← text.dropPrefix? ['\\', 'u']
  let (low, rest) ← readUnit? rest
  if 0xd800 ≤ high ∧ high < 0xdc00 ∧ 0xdc00 ≤ low ∧ low < 0xe000 then
    some (.ofNat (0x10000 + 0x400 * (high - 0xd800) + (low - 0xdc00)), rest)
  else none

/-- Reads what stands behind a backslash. -/
def readEscape? : Reader Char
  | [] => none
  | letter :: text =>
    if letter = 'u' then do
      let (code, rest) ← readUnit? text
      if code.isValidChar then some (.ofNat code, rest) else readPair? code rest
    else (escapes.lookup letter).map fun c => (c, text)

/-- Reads a character of a string. -/
def readCharacter? : Reader Char
  | [] => none
  | c :: text =>
    if c = '\\' then readEscape? text
    else if c = '"' ∨ c.toNat < 0x20 then none
    else some (c, text)

/-! ### Strings -/

/-- The code of the character with a valid code. -/
theorem toNat_ofNat_of_isValidChar {code : Nat} (h : code.isValidChar) :
    (Char.ofNat code).toNat = code := by
  rw [Char.ofNat, dif_pos h]
  rfl

/-- Reading a code takes four digits. -/
theorem readUnit?_iff {text rest : List Char} {code : Nat} :
    readUnit? text = some (code, rest) ↔
      ∃ digits, text = digits ++ rest ∧ unit? digits = some code := by
  constructor
  · intro h
    obtain ⟨code', hunit, heq⟩ := Option.map_eq_some_iff.mp h
    obtain ⟨rfl, rfl⟩ := Prod.mk.inj heq
    exact ⟨text.take 4, (List.take_append_drop 4 text).symm, hunit⟩
  · rintro ⟨digits, rfl, hunit⟩
    have hlength : digits.length = 4 := by
      unfold unit? at hunit
      split at hunit
      · rfl
      · simp at hunit
    rw [readUnit?, List.take_left' hlength, List.drop_left' hlength, hunit]
    rfl

/-- What is dropped from the front of a text stood there. -/
theorem dropPrefix?_iff {text front rest : List Char} :
    text.dropPrefix? front = some rest ↔ text = front ++ rest := by
  simp [List.dropPrefix?_eq_some_iff]

/-- The letters of escapes stand for one character each, and the letter of codes for none. -/
theorem lookup_escapes_iff {letter c : Char} :
    escapes.lookup letter = some c ↔ (letter, c) ∈ escapes := by
  have hlookup : ∀ escape ∈ escapes, escapes.lookup escape.1 = some escape.2 := by decide
  refine ⟨fun h => ?_, fun h => hlookup (letter, c) h⟩
  obtain ⟨before, after, heq, -⟩ := List.lookup_eq_some_iff.mp h
  rw [heq]
  simp

/-- The lower surrogate is read behind the upper one. -/
theorem readPair?_iff {high : Nat} {text rest : List Char} {c : Char} :
    readPair? high text = some (c, rest) ↔
      ∃ upper lower digits, high = 0xd800 + upper ∧ upper < 0x400 ∧ lower < 0x400 ∧
        text = '\\' :: 'u' :: digits ++ rest ∧ unit? digits = some (0xdc00 + lower) ∧
        c.toNat = 0x10000 + 0x400 * upper + lower := by
  constructor
  · intro h
    simp only [readPair?, Option.bind_eq_bind, Option.bind_eq_some_iff, dropPrefix?_iff] at h
    obtain ⟨behind, rfl, ⟨low, rest'⟩, hlow, h⟩ := h
    obtain ⟨digits, rfl, hunit⟩ := readUnit?_iff.mp hlow
    split at h
    · rename_i hrange
      obtain ⟨rfl, rfl⟩ := Prod.mk.inj (Option.some.inj h)
      refine ⟨high - 0xd800, low - 0xdc00, digits, by omega, by omega, by omega, rfl, ?_, ?_⟩
      · rw [hunit, Nat.add_sub_cancel' hrange.2.2.1]
      · exact toNat_ofNat_of_isValidChar (.inr (by omega))
    · exact absurd h (by simp)
  · rintro ⟨upper, lower, digits, rfl, hupper, hlower, rfl, hunit, hcode⟩
    have hdrop : ('\\' :: 'u' :: digits ++ rest).dropPrefix? ['\\', 'u'] = some (digits ++ rest) :=
      dropPrefix?_iff.mpr rfl
    have hread : readUnit? (digits ++ rest) = some (0xdc00 + lower, rest) :=
      readUnit?_iff.mpr ⟨digits, rfl, hunit⟩
    simp only [readPair?, hdrop, Option.bind_eq_bind, Option.bind_some, hread]
    rw [if_pos (by omega), Nat.add_sub_cancel_left, Nat.add_sub_cancel_left, ← hcode,
      Char.ofNat_toNat]

/-- **A character is read by its spellings.** -/
theorem readCharacter?_iff {text rest : List Char} {c : Char} :
    readCharacter? text = some (c, rest) ↔
      ∃ form, text = form ++ rest ∧ SpelledInString c form := by
  constructor
  · intro h
    cases text with
    | nil => exact absurd h (by simp [readCharacter?])
    | cons d text =>
      rw [readCharacter?] at h
      split at h
      · rename_i hslash
        subst hslash
        cases text with
        | nil => exact absurd h (by simp [readEscape?])
        | cons letter text =>
          rw [readEscape?] at h
          split at h
          · rename_i hletter
            subst hletter
            simp only [Option.bind_eq_bind, Option.bind_eq_some_iff] at h
            obtain ⟨⟨code, behind⟩, hcode, h⟩ := h
            obtain ⟨digits, rfl, hunit⟩ := readUnit?_iff.mp hcode
            split at h
            · rename_i hvalid
              obtain ⟨rfl, rfl⟩ := Prod.mk.inj (Option.some.inj h)
              refine ⟨'\\' :: 'u' :: digits, rfl, .unit ?_⟩
              rw [hunit, toNat_ofNat_of_isValidChar hvalid]
            · obtain ⟨upper, lower, digits', rfl, hupper, hlower, rfl, hunit', hchar⟩ :=
                readPair?_iff.mp h
              exact ⟨'\\' :: 'u' :: digits ++ '\\' :: 'u' :: digits', by simp,
                .pair hunit hunit' hupper hlower hchar⟩
          · obtain ⟨c', hlookup, heq⟩ := Option.map_eq_some_iff.mp h
            obtain ⟨rfl, rfl⟩ := Prod.mk.inj heq
            exact ⟨['\\', letter], rfl, .letter (lookup_escapes_iff.mp hlookup)⟩
      · rename_i hslash
        split at h
        · exact absurd h (by simp)
        · rename_i hother
          obtain ⟨rfl, rfl⟩ := Prod.mk.inj (Option.some.inj h)
          rw [not_or, Nat.not_lt] at hother
          exact ⟨[d], rfl, .plain hother.2 hother.1 hslash⟩
  · rintro ⟨form, rfl, hform⟩
    cases hform with
    | plain hle hquote hslash =>
      rw [List.singleton_append, readCharacter?, if_neg hslash, if_neg (by simp [hquote, hle])]
    | @letter letter _ hletter =>
      have hne : letter ≠ 'u' := by
        have hall : ∀ escape ∈ escapes, escape.1 ≠ 'u' := by decide
        exact hall _ hletter
      rw [List.cons_append, List.singleton_append, readCharacter?, if_pos rfl, readEscape?,
        if_neg hne, lookup_escapes_iff.mpr hletter]
      rfl
    | @unit _ digits hunit =>
      have hread : readUnit? (digits ++ rest) = some (c.toNat, rest) :=
        readUnit?_iff.mpr ⟨digits, rfl, hunit⟩
      rw [List.cons_append, List.cons_append, readCharacter?, if_pos rfl, readEscape?, if_pos rfl,
        hread]
      simp only [Option.bind_eq_bind, Option.bind_some]
      have hvalid : c.toNat.isValidChar := c.valid
      rw [if_pos hvalid, Char.ofNat_toNat]
    | @pair _ high low upper lower hhigh hlow hupper hlower hcode =>
      have hread : readUnit? (high ++ ('\\' :: 'u' :: low ++ rest)) =
          some (0xd800 + upper, '\\' :: 'u' :: low ++ rest) := readUnit?_iff.mpr ⟨high, rfl, hhigh⟩
      have hpair : readPair? (0xd800 + upper) ('\\' :: 'u' :: low ++ rest) = some (c, rest) :=
        readPair?_iff.mpr ⟨upper, lower, low, rfl, hupper, hlower, rfl, hlow, hcode⟩
      have hinvalid : ¬ (0xd800 + upper).isValidChar := by
        rintro (hlt | hgt) <;> omega
      rw [List.append_assoc, List.cons_append, List.cons_append, readCharacter?, if_pos rfl,
        readEscape?, if_pos rfl, hread]
      simp only [Option.bind_eq_bind, Option.bind_some]
      rw [if_neg hinvalid, hpair]

/-- A spelling of a character takes room, and it does not start as the end of a string does. -/
theorem SpelledInString.eq_cons {c : Char} {form : List Char} (h : SpelledInString c form) :
    ∃ first later, form = first :: later ∧ first ≠ '"' := by
  cases h with
  | plain hle hquote hslash => exact ⟨c, [], rfl, hquote⟩
  | letter hletter => exact ⟨_, _, rfl, by decide⟩
  | unit hunit => exact ⟨_, _, rfl, by decide⟩
  | pair hhigh hlow hupper hlower hcode => exact ⟨_, _, rfl, by decide⟩

/-- What is left behind a character is shorter. -/
theorem length_lt_of_readCharacter? {text rest : List Char} {c : Char}
    (h : readCharacter? text = some (c, rest)) : rest.length < text.length := by
  obtain ⟨form, rfl, hform⟩ := readCharacter?_iff.mp h
  obtain ⟨first, later, rfl, -⟩ := hform.eq_cons
  simp only [List.cons_append, List.length_cons, List.length_append]
  omega

/-- Reads the characters of a string and the quotation mark behind them. -/
def readCharacters? (text : List Char) : Option (List Char × List Char) :=
  if text.head? = some '"' then some ([], text.tail)
  else
    match _ : readCharacter? text with
    | none => none
    | some (c, rest) => (readCharacters? rest).map fun (cs, rest) => (c :: cs, rest)
termination_by text.length
decreasing_by exact length_lt_of_readCharacter? ‹_›

/-- Characters are read by their spellings up to the quotation mark. -/
theorem readCharacters?_iff {text rest cs : List Char} :
    readCharacters? text = some (cs, rest) ↔
      ∃ forms : List (List Char), text = forms.flatten ++ '"' :: rest ∧
        List.Forall₂ SpelledInString cs forms := by
  constructor
  · intro h
    induction text using readCharacters?.induct generalizing cs with
    | case1 text hend =>
      rw [readCharacters?, if_pos hend] at h
      obtain ⟨rfl, rfl⟩ := Prod.mk.inj (Option.some.inj h)
      exact ⟨[], (List.cons_head?_tail hend).symm, .nil⟩
    | case2 text hend hnone =>
      rw [readCharacters?, if_neg hend] at h
      split at h
      · exact absurd h (by simp)
      · rename_i hsome
        exact absurd (hnone.symm.trans hsome) (by simp)
    | case3 text hend c behind hread ih =>
      rw [readCharacters?, if_neg hend] at h
      split at h
      · exact absurd h (by simp)
      · rename_i hsome
        obtain ⟨rfl, rfl⟩ := Prod.mk.inj (Option.some.inj (hread.symm.trans hsome))
        obtain ⟨⟨cs', rest'⟩, hothers, heq⟩ := Option.map_eq_some_iff.mp h
        obtain ⟨rfl, rfl⟩ := Prod.mk.inj heq
        obtain ⟨forms, rfl, hforms⟩ := ih hothers
        obtain ⟨form, rfl, hform⟩ := readCharacter?_iff.mp hread
        exact ⟨form :: forms, by simp, .cons hform hforms⟩
  · rintro ⟨forms, rfl, hforms⟩
    induction hforms with
    | nil => rw [List.flatten_nil, List.nil_append, readCharacters?, List.head?_cons, if_pos rfl,
        List.tail_cons]
    | @cons c form cs forms hform hforms ih =>
      obtain ⟨first, later, rfl, hne⟩ := hform.eq_cons
      have hread : readCharacter? (((first :: later) :: forms).flatten ++ '"' :: rest) =
          some (c, forms.flatten ++ '"' :: rest) :=
        readCharacter?_iff.mpr ⟨_, by simp, hform⟩
      rw [readCharacters?, if_neg (by simpa using hne)]
      split
      · rename_i hnone
        exact absurd (hread.symm.trans hnone) (by simp)
      · rename_i hsome
        obtain ⟨rfl, rfl⟩ := Prod.mk.inj (Option.some.inj (hread.symm.trans hsome))
        rw [ih]
        rfl

/-- Reads a string. -/
def readString? : Reader String := fun text => do
  let rest ← text.dropPrefix? ['"']
  let (cs, rest) ← readCharacters? rest
  some (.ofList cs, rest)

/-- **A string is read by its spellings.** -/
theorem readString?_iff {text rest : List Char} {string : String} :
    readString? text = some (string, rest) ↔
      ∃ own, text = own ++ rest ∧ stringSpelled string own := by
  constructor
  · intro h
    simp only [readString?, Option.bind_eq_bind, Option.bind_eq_some_iff, dropPrefix?_iff] at h
    obtain ⟨behind, rfl, ⟨cs, rest'⟩, hread, heq⟩ := h
    obtain ⟨rfl, rfl⟩ := Prod.mk.inj (Option.some.inj heq)
    obtain ⟨forms, rfl, hforms⟩ := readCharacters?_iff.mp hread
    exact ⟨'"' :: (forms.flatten ++ ['"']), by simp, forms, rfl, by rwa [String.toList_ofList]⟩
  · rintro ⟨-, rfl, forms, rfl, hforms⟩
    have hdrop : ('"' :: (forms.flatten ++ ['"']) ++ rest).dropPrefix? ['"'] =
        some (forms.flatten ++ '"' :: rest) := dropPrefix?_iff.mpr (by simp)
    have hread : readCharacters? (forms.flatten ++ '"' :: rest) = some (string.toList, rest) :=
      readCharacters?_iff.mpr ⟨forms, rfl, hforms⟩
    simp only [readString?, hdrop, hread, Option.bind_eq_bind, Option.bind_some,
      String.ofList_toList]

/-- A letter, an escape of a letter, and a character that takes two units. -/
example :
    readString? "\"a\\t\\ud83d\\ude00\", 1".toList =
      some (.ofList ['a', '\t', .ofNat 0x1f600], ", 1".toList) := by
  decide +kernel

end BugLang.Json
