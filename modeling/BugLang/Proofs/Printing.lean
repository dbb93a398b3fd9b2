import BugLang.Proofs.Sentence

/-!
# Printing trees

A tree has left out the parentheses, commas, braces and line ends of its tokens.  The
functions of this module write them down again, in one form of the many that a source may
have: every operand that is not a single token stands in parentheses, every line has one
line end, and a bug says what it runs first even where this is nothing.

What a tree stands for depends on where it is.  The text `call` at the root is a command
behind `do` or a call in an expression, and without children it may be the name of a
variable.  So there is one function for each kind of place, and `printed` has them by rule.

* `printed`: how a tree of a rule is printed.
-/

namespace BugLang

namespace Printed

/-- Some phrases with commas between them. -/
def commaSeparated : List (List Token) → List Token
  | [] => []
  | [w] => w
  | w :: ws => w ++ .symbol "," :: commaSeparated ws

/-- Behind the first phrase, a comma comes before each one. -/
theorem commaSeparated_cons (w : List Token) (ws : List (List Token)) :
    commaSeparated (w :: ws) = w ++ ws.flatMap (.symbol "," :: ·) := by
  induction ws generalizing w with
  | nil => exact (List.append_nil w).symm
  | cons v ws ih => rw [commaSeparated, ih, List.flatMap_cons, List.cons_append]; exact nofun

/-- Lines between braces. -/
def braced (lines : List Token) : List Token :=
  [.symbol "\x7b", .lineEnd] ++ lines ++ [.symbol "\x7d", .lineEnd]

/-- The tokens of an expression as an operand: a single one stands as it is, others stand
in parentheses. -/
def enclosed (t : Tree) (w : List Token) : List Token :=
  if t.isLeaf then w else .symbol "(" :: w ++ [.symbol ")"]

/-- The symbols of an operator.  A comparator may have two. -/
def operator (root : Token) : List Token :=
  match root.text with
  | "<=" => [.symbol "<", .symbol "="]
  | ">=" => [.symbol ">", .symbol "="]
  | "!=" => [.symbol "!", .symbol "="]
  | _ => [root]

mutual

/-- The tokens of an expression. -/
def expression : Tree → List Token
  | .node root [x] => root :: enclosed x (expression x)
  | .node root [x, y] =>
    match root.text with
    | "call" => x.value :: parameterList y
    | "." => [x.value, root, y.value]
    | _ => enclosed x (expression x) ++ operator root ++ enclosed y (expression y)
  | .node root _ => [root]

/-- The tokens of the arguments of a call, with the parentheses around them. -/
def parameterList : Tree → List Token
  | .node _ arguments => .symbol "(" :: commaSeparated (expressions arguments) ++ [.symbol ")"]

/-- The tokens of some expressions. -/
def expressions : List Tree → List (List Token)
  | [] => []
  | x :: xs => expression x :: expressions xs

end

/-- The tokens of an expression as an operand. -/
def operand (t : Tree) : List Token :=
  enclosed t (expression t)

/-- Several expressions are printed one by one. -/
theorem expressions_eq_map (xs : List Tree) : expressions xs = xs.map expression := by
  induction xs with
  | nil => rfl
  | cons x xs ih => rw [expressions, ih, List.map_cons]

/-- The tokens of a line with a root and its children, up to the end of the line. -/
def lineOf (root : Token) (children : List Tree) : List Token :=
  match root.text, children with
  | "assign", [target, x] => target.value :: .symbol "=" :: expression x
  | "call", called :: arguments =>
    .keyword "do" :: called.value :: arguments.flatMap parameterList
  | "exit", _ => root :: .keyword "if" :: commaSeparated (expressions children)
  | _, _ => root :: commaSeparated (expressions children)

mutual

/-- The tokens of a command, or of a block or a case of one. -/
def command : Tree → List Token
  | .node root children =>
    match root.text with
    | "block" => braced (commands children)
    | "loop" => root :: commands children
    | "switch" => root :: braced (commands children)
    | "case" => root :: caseBody children
    | _ => lineOf root children ++ [.lineEnd]

/-- The tokens of the parts of a case.  Its commands are not in braces. -/
def caseBody : List Tree → List Token
  | [x, .node _ body] => expression x ++ .lineEnd :: commands body
  | _ => []

/-- The tokens of some commands. -/
def commands : List Tree → List Token
  | [] => []
  | t :: ts => command t ++ commands ts

end

/-- Several commands are printed one behind the other. -/
theorem commands_eq_flatMap (ts : List Tree) : commands ts = ts.flatMap command := by
  induction ts with
  | nil => rfl
  | cons t ts ih => rw [commands, ih, List.flatMap_cons]

/-- The tokens of a declaration of variables. -/
def declaration : Tree → List Token
  | .node root names => lineOf root names ++ [.lineEnd]

/-- The tokens of the block that a bug runs first. -/
def firstBlock : Tree → List Token
  | .node root blocks => root :: commands blocks

/-- The tokens of the parameters of a function. -/
def parameters : List Tree → List Token
  | [] => []
  | names => .keyword "using" :: commaSeparated (expressions names)

/-- The tokens of the definition of a function. -/
def function : Tree → List Token
  | .node _ [name, .node _ names, block] =>
    [.keyword "define", name.value] ++ parameters names ++ command block
  | .node root _ => [root]

/-- The tokens of the code that all bugs share.  There are none for a tree without children. -/
def sharedCode : Tree → List Token
  | .node root [.node _ declarations, .node _ functions] =>
    root :: braced (declarations.flatMap declaration ++ functions.flatMap function)
  | .node _ _ => []

/-- The tokens of the definition of a bug. -/
def bug : Tree → List Token
  | .node root [name, .node _ declarations, start, .node _ body, .node _ functions] =>
    root :: name.value :: braced (declarations.flatMap declaration ++ firstBlock start ++
      commands body ++ functions.flatMap function)
  | .node root _ => [root]

/-- The tokens of a program, without the end of the input. -/
def program : Tree → List Token
  | .node _ [shared, .node _ bugs] => sharedCode shared ++ bugs.flatMap bug
  | .node root _ => [root]

end Printed

/-- The tokens that a tree of a rule is printed with. -/
def printed : Rule → Tree → List Token
  | .program, t => Printed.program t ++ [.endOfInput]
  | .allbugsCode, t => Printed.sharedCode t
  | .bugDefinition, t => Printed.bug t
  | .varDeclaration, t => Printed.declaration t
  | .initializationBlock, t => Printed.firstBlock t
  | .functionDefinition, t => Printed.function t
  | .functionCall, t | .expression, t => Printed.expression t
  | .arithmeticExpression, t | .term, t | .factor, t | .unsignedFactor, t => Printed.operand t
  | .parameterList, t => Printed.parameterList t
  | .addOperator, t | .multiplyOperator, t | .comparator, t => Printed.operator t.value
  | .variable, t | .lineEnd, t => [t.value]
  | _, t => Printed.command t

end BugLang
