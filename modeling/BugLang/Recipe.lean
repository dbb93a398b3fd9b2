import BugLang.Failure
import BugLang.Rule

/-!
# Recipes

A recipe says how a rule of the grammar is matched and how its tree is built on the
stack.  It is a small language with three kinds of words: those that look at the
next token, those that arrange trees on the stack, and those that combine recipes.

A recipe is *matched*, or it is *declined* because the next token does not start
it, or it *fails*.  A recipe never goes back over tokens that it has read: once a
combination has matched its first part, `require` turns a declined further part
into a failure.
-/

namespace BugLang

/-- What the next token has to be. -/
inductive Terminal
  /-- Any token of a kind. -/
  | ofKind (kind : Kind)
  /-- One token. -/
  | exactly (token : Token)
deriving DecidableEq, Repr

namespace Terminal

/-- A name. -/
def name : Terminal := ofKind .name

/-- A number. -/
def number : Terminal := ofKind .number

/-- Any keyword. -/
def anyKeyword : Terminal := ofKind .keyword

/-- A line end. -/
def lineEnd : Terminal := ofKind .lineEnd

/-- The end of the input. -/
def endOfInput : Terminal := ofKind .endOfInput

/-- A given keyword. -/
def keyword (word : String) : Terminal := exactly (.keyword word)

/-- A given symbol. -/
def symbol (text : String) : Terminal := exactly (.symbol text)

/-- Whether a token is what a terminal asks for. -/
def fits : Terminal → Token → Bool
  | .ofKind kind, token => token.kind = kind
  | .exactly wanted, token => token = wanted

end Terminal

/-- How to match a rule and build its tree. -/
inductive Recipe
  /-- Nothing to do. -/
  | done
  /-- Take a token and put it on the stack as a leaf. -/
  | keep (terminal : Terminal)
  /-- Take a token that does not show in the tree. -/
  | drop (terminal : Terminal)
  /-- Look at the next token without taking it. -/
  | ahead (terminal : Terminal)
  /-- Match a rule. -/
  | rule (rule : Rule)
  /-- Put a leaf on the stack that has no token in the source. -/
  | node (text : String)
  /-- Put such a leaf in place of the top entry. -/
  | replaceTop (text : String)
  /-- Make the top entries of the stack into one tree. -/
  | reduce (root : Nat) (children : List Nat)
  /-- One recipe and then another. -/
  | andThen (first second : Recipe)
  /-- One recipe, or another if the first one is declined. -/
  | orElse (first second : Recipe)
  /-- A recipe as often as it is matched. -/
  | many (body : Recipe)
  /-- A recipe that the source has to match. -/
  | require (body : Recipe) (missing : Missing)
  /-- A recipe that is matched for certain, short of a fault. -/
  | promised (body : Recipe) (fault : Fault)
deriving DecidableEq, Repr

namespace Recipe

/-- Some recipes in a row. -/
def inOrder : List Recipe → Recipe
  | [] => .done
  | [recipe] => recipe
  | recipe :: recipes => .andThen recipe (inOrder recipes)

/-- The first of some recipes that is not declined. -/
def firstOf (first : Recipe) : List Recipe → Recipe
  | [] => first
  | second :: recipes => .orElse first (firstOf second recipes)

/-- A recipe, or nothing if it is declined. -/
def maybe (body : Recipe) : Recipe :=
  .orElse body .done

/-- Makes the top entry the last child of the entry below it. -/
def attach : Recipe :=
  .reduce 2 [1]

/-- Makes an operator the root over its operands on either side. -/
def operate : Recipe :=
  .reduce 2 [3, 1]

/-- A recipe as often as it is matched, each match a child of the entry below. -/
def gather (body : Recipe) : Recipe :=
  .many (.andThen body attach)

/-- A recipe that the source has to match, and a child of the entry below. -/
def attached (body : Recipe) (what : String) : Recipe :=
  .andThen (.require body (.item what)) attach

/-- A symbol that has to come and does not show in the tree. -/
def punctuation (text place : String) : Recipe :=
  .require (.drop (.symbol text)) (.symbol text place)

/-- The line end that has to come; blank lines fold into it. -/
def endLine (after : String) : Recipe :=
  .andThen (.require (.drop .lineEnd) (.lineEnd after)) (.many (.drop .lineEnd))

/-- Operands with operators between them, which bind to the left. -/
def leftAssociative (operand operator : Recipe) (what : String) : Recipe :=
  inOrder [operand, .many (inOrder [operator, .require operand (.item what), operate])]

end Recipe

end BugLang
