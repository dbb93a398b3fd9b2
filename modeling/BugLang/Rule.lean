/-!
# The rules of the grammar

Each rule can be applied on its own.  Its name is how a user asks for it.
-/

namespace BugLang

/-- The rules of the grammar. -/
inductive Rule
  | program
  | allbugsCode
  | bugDefinition
  | varDeclaration
  | initializationBlock
  | functionDefinition
  | functionCall
  | block
  | command
  | action
  | statement
  | moveAction
  | moveToAction
  | turnAction
  | turnToAction
  | lineAction
  | assignmentStatement
  | loopStatement
  | exitIfStatement
  | switchStatement
  | returnStatement
  | doStatement
  | colorStatement
  | expression
  | arithmeticExpression
  | term
  | factor
  | unsignedFactor
  | parameterList
  | addOperator
  | multiplyOperator
  | comparator
  | variable
  | lineEnd
deriving DecidableEq, Repr

namespace Rule

/-- All rules, from whole programs down to single tokens. -/
def all : List Rule :=
  [.program, .allbugsCode, .bugDefinition, .varDeclaration, .initializationBlock,
   .functionDefinition, .functionCall, .block, .command, .action, .statement, .moveAction,
   .moveToAction, .turnAction, .turnToAction, .lineAction, .assignmentStatement,
   .loopStatement, .exitIfStatement, .switchStatement, .returnStatement, .doStatement,
   .colorStatement, .expression, .arithmeticExpression, .term, .factor, .unsignedFactor,
   .parameterList, .addOperator, .multiplyOperator, .comparator, .variable, .lineEnd]

/-- The name of a rule. -/
def name : Rule → String
  | .program => "program"
  | .allbugsCode => "allbugs-code"
  | .bugDefinition => "bug-definition"
  | .varDeclaration => "var-declaration"
  | .initializationBlock => "initialization-block"
  | .functionDefinition => "function-definition"
  | .functionCall => "function-call"
  | .block => "block"
  | .command => "command"
  | .action => "action"
  | .statement => "statement"
  | .moveAction => "move-action"
  | .moveToAction => "move-to-action"
  | .turnAction => "turn-action"
  | .turnToAction => "turn-to-action"
  | .lineAction => "line-action"
  | .assignmentStatement => "assignment-statement"
  | .loopStatement => "loop-statement"
  | .exitIfStatement => "exit-if-statement"
  | .switchStatement => "switch-statement"
  | .returnStatement => "return-statement"
  | .doStatement => "do-statement"
  | .colorStatement => "color-statement"
  | .expression => "expression"
  | .arithmeticExpression => "arithmetic-expression"
  | .term => "term"
  | .factor => "factor"
  | .unsignedFactor => "unsigned-factor"
  | .parameterList => "parameter-list"
  | .addOperator => "add-operator"
  | .multiplyOperator => "multiply-operator"
  | .comparator => "comparator"
  | .variable => "variable"
  | .lineEnd => "eol"

/-- The rule of a given name. -/
def ofName? (name : String) : Option Rule :=
  all.find? fun rule => rule.name = name

/-- The complaint about a name that no rule has. -/
def unknownText (name : String) : String :=
  s!"unknown rule '{name}'"

/-- Every rule is listed. -/
theorem mem_all (rule : Rule) : rule ∈ all := by
  cases rule <;> decide

/-- A rule is found by its name, so no two rules share one. -/
theorem ofName?_name (rule : Rule) : ofName? rule.name = some rule := by
  cases rule <;> decide

end Rule

end BugLang
