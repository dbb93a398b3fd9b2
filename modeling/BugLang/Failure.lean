import BugLang.Stack

/-!
# Why a build fails

A build of a tree fails because something is missing in the source, or because of
a fault in the build itself.  The causes are values here; `Missing.text` and
`Fault.text` put them into words.
-/

namespace BugLang

/-- What the source lacks at some place. -/
inductive Missing
  /-- Some part of a rule. -/
  | item (what : String)
  /-- A symbol. -/
  | symbol (text place : String)
  /-- The end of the line behind some part of a rule. -/
  | lineEnd (after : String)
  /-- The parenthesis that closes an expression. -/
  | closingParenthesis
deriving DecidableEq, Repr

/-- What is missing, in words. -/
def Missing.text : Missing → String
  | item what => s!"expected {what}"
  | symbol text place => s!"expected '{text}' {place}"
  | lineEnd after => s!"expected end of line after {after}"
  | closingParenthesis => "unclosed parenthesized expression"

/-- Why a build fails. -/
inductive Failure
  /-- Something is missing on a line of the source. -/
  | incomplete (line : Nat) (missing : Missing)
  /-- The build itself went wrong. -/
  | fault (fault : Fault)
deriving DecidableEq, Repr

end BugLang
