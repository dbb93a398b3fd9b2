import BugLang.CommandLine.Request
import BugLang.Diagnostic
import BugLang.Listing
import BugLang.Parse
import BugLang.Summary

/-!
# The command line

There are two commands: `check` parses a file and reports a summary or the first
error, and `tokens` lists the tokens of a file.  `Request.respond` answers a request,
given what is in the file.  Nothing here touches a file; reading and printing are
left to the program around it.
-/

namespace BugLang.CommandLine

/-- What is found under the name of a file. -/
inductive FileContent
  | missing
  | directory
  | bytes (content : ByteArray)
  /-- Something that cannot be read for another reason. -/
  | unreadable (reason : String)

/-- The text in a file, or why there is none. -/
def FileContent.text : FileContent → Except String String
  | .missing => .error "No such file or directory (os error 2)"
  | .directory => .error "Is a directory (os error 21)"
  | .bytes content =>
    match String.fromUTF8? content with
    | some decoded => .ok decoded
    | none => .error "stream did not contain valid UTF-8"
  | .unreadable reason => .error reason

/-- What the program prints, and its exit code. -/
structure Response where
  exitCode : Nat
  output : String
  errors : String
deriving DecidableEq, Repr

namespace Response

/-- Success, with something to print. -/
def success (output : String) : Response :=
  ⟨0, output, ""⟩

/-- Failure, with something to print. -/
def failure (errors : String) : Response :=
  ⟨1, "", errors⟩

/-- The answer to arguments that make no request. -/
def ofUsageError (error : UsageError) : Response :=
  ⟨2, "", error.text⟩

end Response

namespace Request

/-- A value on lines of its own. -/
def document (value : Json) : String :=
  String.ofList (value.pretty 0 ++ ['\n'])

/-- Reports that a request cannot be answered.  A quiet request is not told. -/
def refuse (request : Request) (message : String) : Response :=
  if request.quiet then .failure ""
  else
    match request.form with
    | .text => .failure s!"{message}\n"
    | .json =>
      .failure (String.ofList ((Json.object [("error", .string message)]).compact ++ ['\n']))

/-- Reports a diagnostic.  A quiet request is told only in JSON. -/
def report (request : Request) (d : Diagnostic) : Response :=
  match request.form with
  | .json => .failure (document (.object (("file", .string request.file) :: d.fields)))
  | .text => .failure (if request.quiet then "" else s!"{request.file}: {d.text}\n")

/-- The summary of a file in one line. -/
def summaryText (file : String) (rule : Rule) (summary : Summary) : String :=
  match summary.definitions with
  | some found =>
    s!"ok: {file} ({found.bugs} bug definition(s), {found.functions} function(s))\n"
  | none => s!"ok: {file} ({rule.name}, {summary.nodes} nodes)\n"

/-- The summary of a file as an object with its fields in alphabetical order. -/
def summaryJson (file : String) (rule : Rule) (summary : Summary) : Json :=
  .object
    ((summary.definitions.map fun found => ("bugs", .number found.bugs)).toList ++
      [("file", .string file)] ++
      (summary.definitions.map fun found => ("functions", .number found.functions)).toList ++
      [("nodes", .number summary.nodes), ("ok", .bool true), ("rule", .string rule.name)])

/-- Reports a tree.  A quiet request is not told. -/
def approve (request : Request) (rule : Rule) (tree : Tree) : Response :=
  let summary := Summary.ofTree rule tree
  if request.quiet then .success ""
  else
    match request.form with
    | .text => .success (summaryText request.file rule summary)
    | .json => .success (document (summaryJson request.file rule summary))

/-- The tree that a rule makes of a source.  Before a program, line ends do not
count, and a source has to start with one. -/
def treeOf (rule : Rule) (source : String) : Except Failure (Option Tree) :=
  if rule = .program then (parse source).map some else parseRule rule source

/-- Checks a source by a rule. -/
def check (request : Request) (rule : Rule) (source : String) : Response :=
  match treeOf rule source with
  | .ok (some tree) => request.approve rule tree
  | .ok none => request.refuse s!"{request.file}: input does not start with a {rule.name}"
  | .error failure => request.report failure.diagnostic

/-- Lists the tokens of a source. -/
def listTokens (request : Request) (source : String) : Response :=
  let tokens := Located.ofSource source
  match request.form with
  | .text => .success (String.ofList (Listing.text tokens))
  | .json => .success (document (Listing.json tokens))

/-- Answers a request, given what is in the file. -/
def respond (request : Request) (content : FileContent) : Response :=
  match content.text with
  | .error reason => request.refuse s!"error reading file '{request.file}': {reason}"
  | .ok source =>
    match request.command with
    | .check rule => request.check rule source
    | .tokens => request.listTokens source

end Request

end BugLang.CommandLine
