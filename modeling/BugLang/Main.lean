import BugLang.CommandLine

/-!
# The program

Reads the file that the arguments name, prints the response and exits with its
code.
-/

namespace BugLang.CommandLine

/-- What is found under a name in the file system. -/
def contentOf (file : String) : IO FileContent := do
  try
    return .bytes (← IO.FS.readBinFile file)
  catch error =>
    match error with
    | .noFileOrDirectory .. => return .missing
    | .inappropriateType .. => return .directory
    | other => return .unreadable other.toString

/-- Prints a response and gives its exit code. -/
def present (response : Response) : IO UInt32 := do
  (← IO.getStdout).putStr response.output
  (← IO.getStderr).putStr response.errors
  return response.exitCode.toUInt32

end BugLang.CommandLine

open BugLang.CommandLine in
/-- Answers the request that the arguments make. -/
def main (arguments : List String) : IO UInt32 := do
  match Request.ofArguments arguments with
  | .error error => present (.ofUsageError error)
  | .ok request => present (request.respond (← contentOf request.file))
