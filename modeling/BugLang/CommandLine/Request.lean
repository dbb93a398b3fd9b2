import BugLang.CommandLine.PlainText
import BugLang.CommandLine.Similarity
import BugLang.Rule

/-!
# Requests

A request says what to do with which file, and how to answer.  It is made by the
arguments of the command line: `[--output FORM] [--quiet] check [--rule RULE] FILE`
or the same with `tokens`, which takes no rule.  The first two options may also
follow the command.

`Request.ofArguments` reads the arguments.  The value of an option is looked up as
soon as the next argument has come, with one exception: the last value in front of
the command is looked up when the arguments of the command are through.  So of two
bad values it is not always the first one that is reported.
-/

namespace BugLang.CommandLine

/-- How answers are written. -/
inductive OutputForm
  | text
  | json
deriving DecidableEq, Repr

namespace OutputForm

/-- All forms. -/
def all : List OutputForm :=
  [.text, .json]

/-- The name of a form. -/
def name : OutputForm → String
  | .text => "text"
  | .json => "json"

/-- The form of a given name. -/
def ofName? (name : String) : Option OutputForm :=
  all.find? fun form => form.name = name

/-- A form is found by its name. -/
theorem ofName?_name (form : OutputForm) : ofName? form.name = some form := by
  cases form <;> decide

end OutputForm

/-- What is done with a file. -/
inductive Command
  /-- Parse it as a program, or by a given rule. -/
  | check (rule : Rule)
  /-- List its tokens. -/
  | tokens
deriving DecidableEq, Repr

/-- A request to the program. -/
structure Request where
  command : Command
  file : String
  form : OutputForm
  quiet : Bool
deriving DecidableEq, Repr

/-- Why arguments are refused. -/
inductive UsageError
  | unknownRule (name : String)
  | unknownForm (name : String)
  | unexpected (argument : String)
  | incomplete
deriving DecidableEq, Repr

namespace UsageError

/-- Names in a row. -/
def inRow (names : List String) : String :=
  ", ".intercalate names

/-- The complaint about the value of an option, but for what is known of it. -/
def badValue (value option : String) : String :=
  if value = "" then s!"a value is required for '{option}' but none was supplied"
  else s!"invalid value '{PlainText.ofText value}' for '{option}'"

/-- The words that lead to the help. -/
def hint : String :=
  "\n\nFor more information, try '"

/-- The complaint about arguments, with a hint to the help. -/
def text : UsageError → String
  | unknownRule name =>
    let known := inRow (Rule.all.map Rule.name)
    let reason := PlainText.ofText s!"': {Rule.unknownText name}. Valid: {known}{hint}"
    s!"error: invalid value '{PlainText.ofText name}' for '--rule <RULE>{reason}--help'.\n"
  | unknownForm name =>
    let known := OutputForm.all.map OutputForm.name
    let tip :=
      match Similarity.closest? name known with
      | some close => s!"\n\n  tip: a similar value exists: '{close}'"
      | none => ""
    let complaint := badValue name "--output <OUTPUT>"
    s!"error: {complaint}\n  [possible values: {inRow known}]{tip}{hint}--help'.\n"
  | unexpected argument =>
    s!"error: unexpected argument '{PlainText.ofText argument}' found{hint}--help'.\n"
  | incomplete => s!"error: a command and a file are required{hint}--help'.\n"

end UsageError

/-- The value of an option that was not looked up yet. -/
inductive Setting
  | rule (name : String)
  | form (name : String)
deriving DecidableEq, Repr

/-- The arguments that were read so far, the values that wait for the next argument,
and those that wait for the end. -/
structure Arguments where
  positional : List String
  rule : Option Rule
  form : OutputForm
  quiet : Bool
  pending : Option Setting
  deferred : Option Setting
deriving DecidableEq, Repr

namespace Arguments

/-- Before the first argument. -/
def empty : Arguments :=
  ⟨[], none, .text, false, none, none⟩

/-- Looks the value of an option up. -/
def lookUp (soFar : Arguments) : Option Setting → Except UsageError Arguments
  | none => .ok soFar
  | some (.rule name) =>
    match Rule.ofName? name with
    | some rule => .ok { soFar with rule := some rule }
    | none => .error (.unknownRule name)
  | some (.form name) =>
    match OutputForm.ofName? name with
    | some form => .ok { soFar with form }
    | none => .error (.unknownForm name)

/-- Looks up the value that waits for the next argument. -/
def settle (soFar : Arguments) : Except UsageError Arguments :=
  lookUp { soFar with pending := none } soFar.pending

/-- Reads the command, or an argument of it. -/
def readPositional (soFar : Arguments) (argument : String) : Except UsageError Arguments :=
  if soFar.positional.isEmpty then
    .ok { soFar with positional := [argument], pending := none, deferred := soFar.pending }
  else do
    let settled ← soFar.settle
    return { settled with positional := settled.positional ++ [argument] }

/-- Whether an argument looks like an option.  A lone hyphen does not. -/
def isOption (argument : String) : Bool :=
  argument.startsWith "-" && argument ≠ "-"

/-- Reads an argument that stands for itself. -/
def readSingle (soFar : Arguments) (argument : String) : Except UsageError Arguments :=
  if argument = "--quiet" then soFar.settle.map fun settled => { settled with quiet := true }
  else if isOption argument then .error (.unexpected argument)
  else soFar.readPositional argument

/-- Reads the value of an option, after a look at the one before it. -/
def readSetting (soFar : Arguments) (setting : Setting) : Except UsageError Arguments :=
  soFar.settle.map fun settled => { settled with pending := some setting }

/-- Reads arguments one after the other. -/
def read (soFar : Arguments) : List String → Except UsageError Arguments
  | [] => .ok soFar
  | [argument] => soFar.readSingle argument
  | "--output" :: name :: rest =>
    (soFar.readSetting (.form name)).bind fun after => read after rest
  | "--rule" :: name :: rest =>
    (soFar.readSetting (.rule name)).bind fun after => read after rest
  | argument :: rest => (soFar.readSingle argument).bind fun after => read after rest

/-- Looks up the values that are left: those of the command, then those before it. -/
def complete (soFar : Arguments) : Except UsageError Arguments := do
  let settled ← soFar.settle
  settled.lookUp settled.deferred

end Arguments

/-- The request that some arguments make. -/
def Request.ofArguments (arguments : List String) : Except UsageError Request := do
  let found ← (← Arguments.empty.read arguments).complete
  match found.positional, found.rule with
  | ["check", file], rule =>
    .ok ⟨.check (rule.getD .program), file, found.form, found.quiet⟩
  | ["tokens", file], none => .ok ⟨.tokens, file, found.form, found.quiet⟩
  | ["tokens", _], some _ => .error (.unexpected "--rule")
  | _ :: _ :: argument :: _, _ => .error (.unexpected argument)
  | _, _ => .error .incomplete

end BugLang.CommandLine
