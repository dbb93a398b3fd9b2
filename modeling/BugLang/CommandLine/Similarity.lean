/-!
# Similarity of words

How alike two words are, as a share of the whole, and which of some words is the
closest to a misspelt one.  Two characters match if they are the same and stand at
about the same place; each one matches once.  The similarity is the mean of three
shares: of the characters of either word that match, and of the matches that keep
their order.
-/

namespace BugLang.Similarity

/-- A share of the whole as a quotient. -/
structure Share where
  part : Nat
  whole : Nat
deriving DecidableEq, Repr

/-- Whether a share is at most another. -/
def Share.le (a b : Share) : Bool :=
  a.part * b.whole ≤ b.part * a.whole

/-- How far apart two matching characters may stand. -/
def reach (a b : List Char) : Nat :=
  max a.length b.length / 2 - 1

/-- The first free place of a word where a character finds its match. -/
def partner? (word : List Char) (reach : Nat) (taken : List Nat) (place : Nat) (c : Char) :
    Option Nat :=
  (List.range word.length).find? fun other =>
    place ≤ other + reach && other ≤ place + reach && word[other]? = some c &&
      !taken.contains other

/-- The places of two words that match, in the order of the first word. -/
def matchesFrom (word : List Char) (reach : Nat) (taken : List Nat) (place : Nat) :
    List Char → List (Nat × Char)
  | [] => []
  | c :: rest =>
    match partner? word reach taken place c with
    | some other => (other, c) :: matchesFrom word reach (other :: taken) (place + 1) rest
    | none => matchesFrom word reach taken (place + 1) rest

/-- The similarity of two words. -/
def similarity (a b : List Char) : Share :=
  let found := matchesFrom b (reach a b) [] 0 a
  let inFirst := found.map Prod.snd
  let inSecond :=
    ((List.range b.length).filter (found.map Prod.fst).contains).filterMap fun place => b[place]?
  let displaced := ((inFirst.zip inSecond).filter fun (c, d) => c ≠ d).length / 2
  let count := found.length
  if count = 0 then ⟨0, 1⟩
  else
    ⟨count * b.length * count + count * a.length * count +
        (count - displaced) * a.length * b.length,
      3 * a.length * b.length * count⟩

/-- Words that are alike by seven tenths or more may be meant for each other. -/
def enough : Share := ⟨7, 10⟩

/-- The closest of some words, the last one if several are, unless none is close. -/
def closest? (word : String) (names : List String) : Option String :=
  let consider (best : Share × Option String) (name : String) : Share × Option String :=
    let share := similarity word.toList name.toList
    if best.1.le share then (share, some name) else best
  (names.foldl consider (enough, none)).2

end BugLang.Similarity
