import BugLang.Grammar
import BugLang.Token.Cursor

/-!
# Building trees

A builder is a cursor over a source and a stack of trees.  `Recipe.carryOut` follows a
recipe on a builder, and `Builder.apply` applies a rule of the grammar.  The outcome
is a verdict together with the builder as it stands then, also after a failure, so
that a build can go on from there.

Rules call each other, so a rule is carried out with an allowance: a bound on the
depth of such calls and on the rounds of a repetition.  `Builder.allowance` is
enough for what a builder has left to read, since no more calls than there are rules
can be made before a token is taken.
-/

namespace BugLang

/-- How an attempt ends. -/
inductive Verdict
  | matched
  | declined
  | failed (failure : Failure)
deriving DecidableEq, Repr

/-- A cursor over a source and a stack of trees. -/
structure Builder where
  cursor : Cursor
  stack : Stack
deriving DecidableEq, Repr

/-- A verdict, and the builder after the attempt. -/
structure Outcome where
  verdict : Verdict
  builder : Builder
deriving DecidableEq, Repr

namespace Outcome

/-- Goes on after a match. -/
def andThen (outcome : Outcome) (next : Builder → Outcome) : Outcome :=
  match outcome.verdict with
  | .matched => next outcome.builder
  | _ => outcome

/-- Goes on after a refusal. -/
def orElse (outcome : Outcome) (next : Builder → Outcome) : Outcome :=
  match outcome.verdict with
  | .declined => next outcome.builder
  | _ => outcome

end Outcome

namespace Builder

/-- The builder at the start of a source, with an empty stack. -/
def start (source : String) : Builder :=
  ⟨.start source, []⟩

/-- The current line. -/
def line (b : Builder) : Nat :=
  b.cursor.line

/-- Puts a leaf on the stack. -/
def push (token : Token) (b : Builder) : Builder :=
  { b with stack := .leaf token :: b.stack }

/-- Takes the next token if it fits, else leaves it where it is. -/
def take (terminal : Terminal) (b : Builder) : Option Token × Builder :=
  let (token, cursor) := b.cursor.next
  if terminal.fits token then (some token, { b with cursor })
  else (none, { b with cursor := cursor.putBack })

/-- Takes the next token if it fits, and puts it on the stack. -/
def keep (terminal : Terminal) (b : Builder) : Outcome :=
  match b.take terminal with
  | (some token, after) => ⟨.matched, after.push token⟩
  | (none, after) => ⟨.declined, after⟩

/-- Takes the next token if it fits, and forgets it. -/
def drop (terminal : Terminal) (b : Builder) : Outcome :=
  match b.take terminal with
  | (some _, after) => ⟨.matched, after⟩
  | (none, after) => ⟨.declined, after⟩

/-- Looks whether the next token fits, without taking it. -/
def ahead (terminal : Terminal) (b : Builder) : Outcome :=
  let (token, cursor) := b.cursor.peek
  ⟨if terminal.fits token then .matched else .declined, { b with cursor }⟩

/-- Ends an attempt with something missing on the current line. -/
def fail (missing : Missing) (b : Builder) : Outcome :=
  ⟨.failed (.incomplete b.line missing), b⟩

/-- Replaces the stack, unless that went wrong. -/
def rearrange (b : Builder) : Except Fault Stack → Outcome
  | .ok stack => ⟨.matched, { b with stack }⟩
  | .error fault => ⟨.failed (.fault fault), b⟩

/-- Puts a leaf in place of the top entry. -/
def replaceTop (text : String) (b : Builder) : Outcome :=
  b.rearrange (b.stack.pop.map fun (_, below) => .leaf (.ofText text) :: below)

/-- Repeats an attempt until it is declined, for a number of rounds at most. -/
def repeated (attempt : Builder → Outcome) : Nat → Builder → Outcome
  | 0, b => ⟨.failed (.fault .exhausted), b⟩
  | rounds + 1, b =>
    match attempt b with
    | ⟨.matched, after⟩ => repeated attempt rounds after
    | ⟨.declined, after⟩ => ⟨.matched, after⟩
    | outcome => outcome

end Builder

/-- Follows a recipe.  Rules are matched as `call` says, and repetitions go on for
`rounds` at most. -/
def Recipe.carryOut (call : Rule → Builder → Outcome) (rounds : Nat) :
    Recipe → Builder → Outcome
  | .done, b => ⟨.matched, b⟩
  | .keep terminal, b => b.keep terminal
  | .drop terminal, b => b.drop terminal
  | .ahead terminal, b => b.ahead terminal
  | .rule named, b => call named b
  | .node text, b => ⟨.matched, b.push (.ofText text)⟩
  | .replaceTop text, b => b.replaceTop text
  | .reduce root children, b => b.rearrange (b.stack.reduce root children)
  | .andThen first second, b =>
    (first.carryOut call rounds b).andThen (second.carryOut call rounds)
  | .orElse first second, b =>
    (first.carryOut call rounds b).orElse (second.carryOut call rounds)
  | .many body, b => Builder.repeated (body.carryOut call rounds) rounds b
  | .require body missing, b => (body.carryOut call rounds b).orElse (Builder.fail missing)
  | .promised body fault, b =>
    (body.carryOut call rounds b).orElse fun after => ⟨.failed (.fault fault), after⟩

/-- Applies a rule within an allowance. -/
def Rule.applyWithin : Nat → Rule → Builder → Outcome
  | 0, _, b => ⟨.failed (.fault .exhausted), b⟩
  | allowance + 1, rule, b =>
    (Grammar.recipe rule).carryOut (applyWithin allowance) allowance b

namespace Builder

/-- As many steps as a builder needs for what is left to read. -/
def allowance (b : Builder) : Nat :=
  (Rule.all.length + 1) * (b.cursor.unread + 2)

/-- Applies a rule. -/
def apply (rule : Rule) (b : Builder) : Outcome :=
  rule.applyWithin b.allowance b

/-- Passes over line ends. -/
def skipLineEnds (b : Builder) : Outcome :=
  b.repeated (drop .lineEnd) b.allowance

/-- The tree of a build that is complete. -/
def finish (b : Builder) : Except Failure Tree :=
  b.stack.single.mapError .fault

end Builder

end BugLang
