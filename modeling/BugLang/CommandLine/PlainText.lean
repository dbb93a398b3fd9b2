/-!
# Plain text

What is left of a text when the characters that steer a terminal are taken out.
These are the control characters apart from white space, and whole sequences that
start with an escape character.
-/

namespace BugLang.PlainText

/-- Where a reader stands within an escape sequence, if it is in one. -/
inductive Sequence
  /-- In no sequence. -/
  | outside
  /-- Behind the escape character, or behind that and some characters of punctuation. -/
  | escape (punctuated : Bool)
  /-- In a sequence that ends with a letter or one of a few other characters. -/
  | command
  /-- In a title, which also a bell ends. -/
  | title
  /-- In another string, which only a new sequence or a cancelling character ends. -/
  | string
deriving DecidableEq, Repr

/-- The control characters that are shown. -/
def isShownControl (c : Char) : Bool :=
  c = '\t' || c = '\n' || c = '\x0c' || c = '\r'

/-- Whether a character lies in a range of code points. -/
def within (c : Char) (first last : Nat) : Bool :=
  first ≤ c.toNat && c.toNat ≤ last

/-- Whether a character is shown at some place, and the place behind it. -/
def step (place : Sequence) (c : Char) : Bool × Sequence :=
  if c = '\x1b' then (false, .escape false)
  else if c = '\x18' || c = '\x1a' then (false, .outside)
  else
    match place with
    | .outside => (c.toNat ≠ 0x7f && (0x20 ≤ c.toNat || isShownControl c), .outside)
    | .escape punctuated =>
      if isShownControl c then (true, .outside)
      else if within c 0x20 0x2f then (false, .escape true)
      else if !punctuated && c = '[' then (false, .command)
      else if !punctuated && c = ']' then (false, .title)
      else if !punctuated && (c = 'P' || c = 'X' || c = '^' || c = '_') then (false, .string)
      else if within c 0x30 0x7e then (false, .outside)
      else (false, place)
    | .command =>
      if isShownControl c then (true, .outside)
      else if within c 0x40 0x7e then (false, .outside)
      else (false, place)
    | .title => if c = '\x07' then (false, .outside) else (false, place)
    | .string => (false, place)

/-- The characters that are shown of a text that starts at some place. -/
def shownFrom (place : Sequence) : List Char → List Char
  | [] => []
  | c :: text =>
    if (step place c).1 then c :: shownFrom (step place c).2 text
    else shownFrom (step place c).2 text

/-- A text without what steers a terminal. -/
def ofText (text : String) : String :=
  String.ofList (shownFrom .outside text.toList)

/-- Outside of sequences a character from the space on is shown, if it is not the
one that deletes. -/
theorem step_outside_of_le {c : Char} (hle : 0x20 ≤ c.toNat) (hne : c.toNat ≠ 0x7f) :
    step .outside c = (true, .outside) := by
  have hescape : c ≠ '\x1b' := by
    rintro rfl
    exact absurd hle (by decide)
  have hcancel : c ≠ '\x18' := by
    rintro rfl
    exact absurd hle (by decide)
  have hsubstitute : c ≠ '\x1a' := by
    rintro rfl
    exact absurd hle (by decide)
  simp [step, hescape, hcancel, hsubstitute, hle, hne]

/-- **Plain text stays as it is.** -/
theorem shownFrom_outside_eq_self {text : List Char}
    (h : ∀ c ∈ text, 0x20 ≤ c.toNat ∧ c.toNat ≠ 0x7f) : shownFrom .outside text = text := by
  induction text with
  | nil => rfl
  | cons c text ih =>
    have hstep := step_outside_of_le (h c (by simp)).1 (h c (by simp)).2
    rw [shownFrom, hstep, if_pos rfl, ih fun d hd => h d (by simp [hd])]

end BugLang.PlainText
