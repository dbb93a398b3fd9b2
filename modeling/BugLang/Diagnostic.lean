import BugLang.Failure
import BugLang.Json

/-!
# What is reported of a failure

A diagnostic is a failure as a user sees it.  A syntax error stands on a line of the
source; an internal one has no line, since the source is not to blame.
-/

namespace BugLang

/-- A failure as it is reported. -/
inductive Diagnostic
  | syntactic (line : Nat) (message : String)
  | internal (detail : String)
deriving DecidableEq, Repr

/-- What is reported of a failure. -/
def Failure.diagnostic : Failure → Diagnostic
  | .incomplete line missing => .syntactic line missing.text
  | .fault cause => .internal cause.text

namespace Diagnostic

/-- Whether the source is to blame. -/
def isSyntactic : Diagnostic → Bool
  | .syntactic _ _ => true
  | .internal _ => false

/-- The line of the source, if the source is to blame. -/
def line? : Diagnostic → Option Nat
  | .syntactic line _ => some line
  | .internal _ => none

/-- The message without the line. -/
def message : Diagnostic → String
  | .syntactic _ message => message
  | .internal detail => detail

/-- The word for the kind of a diagnostic. -/
def kindText : Diagnostic → String
  | .syntactic _ _ => "syntax"
  | .internal _ => "internal"

/-- A diagnostic in one line. -/
def text : Diagnostic → String
  | .syntactic line message => s!"Line {line}: {message}"
  | .internal detail => s!"internal parser fault: {detail}"

/-- The fields of a diagnostic, in alphabetical order. -/
def fields (d : Diagnostic) : List (String × Json) :=
  [("kind", .string d.kindText),
   ("line", (d.line?.map Json.number).getD .null),
   ("message", .string d.message)]

end Diagnostic

end BugLang
