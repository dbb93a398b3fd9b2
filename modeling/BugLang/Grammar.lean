import BugLang.Recipe

/-!
# The grammar of the language

A program is an optional block of shared code and one or more definitions of bugs.
A bug has variables, a block that runs first, commands and functions.  Commands
take a line each, or a block between braces.

`Grammar.recipe` gives the recipe of each rule.  The grammar decides everything by
the next token, so the recipes never have to go back.
-/

namespace BugLang.Grammar

open Recipe

/-- A statement that is a keyword and an expression. -/
def keywordWithExpression (word : String) : Recipe :=
  inOrder [
    .keep (.keyword word),
    attached (.rule .expression) s!"an expression after '{word}'",
    endLine s!"'{word}' statement"]

/-- An expression that an action needs as one of its operands. -/
def operandOf (word : String) : Recipe :=
  attached (.rule .expression) s!"an expression in '{word}'"

/-- A further operand of an action, behind a comma. -/
def furtherOperandOf (word : String) : Recipe :=
  .andThen (punctuation "," s!"between '{word}' coordinates") (operandOf word)

/-- Further names behind commas, each a child of the entry below. -/
def furtherNames (name : Recipe) (what : String) : Recipe :=
  .many (.andThen (.drop (.symbol ",")) (attached name what))

/-- A comparator that may be followed by an equals sign. -/
def comparatorWithEquals (text both : String) : Recipe :=
  .andThen (.keep (.symbol text)) (maybe (.andThen (.drop (.symbol "=")) (.replaceTop both)))

/-- The recipe of a rule. -/
def recipe : Rule → Recipe
  | .program =>
    inOrder [
      firstOf
        (inOrder [
          .rule .allbugsCode,
          .require (.rule .bugDefinition) (.item "a 'Bug' definition after 'Allbugs'")])
        [inOrder [
          .ahead (.keyword "Bug"),
          .node "Allbugs",
          .promised (.rule .bugDefinition) .lostBug]],
      .node "list",
      .reduce 1 [2],
      gather (.rule .bugDefinition),
      .require (.drop .endOfInput) (.item "end of input after the last bug definition"),
      .node "program",
      .reduce 1 [3, 2]]
  | .allbugsCode =>
    inOrder [
      .keep (.keyword "Allbugs"),
      punctuation "\x7b" "after 'Allbugs'",
      endLine "'Allbugs \x7b'",
      .node "list",
      gather (.rule .varDeclaration),
      .node "list",
      gather (.rule .functionDefinition),
      punctuation "\x7d" "to close 'Allbugs'",
      endLine "'Allbugs' block",
      .reduce 3 [2, 1]]
  | .bugDefinition =>
    inOrder [
      .keep (.keyword "Bug"),
      .require (.keep .name) (.item "a bug name after 'Bug'"),
      punctuation "\x7b" "after the bug name",
      endLine "'\x7b'",
      attach,
      .node "list",
      gather (.rule .varDeclaration),
      attach,
      firstOf (.rule .initializationBlock)
        [inOrder [.node "initially", .node "block", attach]],
      attach,
      .require (.rule .command) (.item "at least one command in bug definition"),
      .node "block",
      .reduce 1 [2],
      gather (.rule .command),
      attach,
      .node "list",
      gather (.rule .functionDefinition),
      punctuation "\x7d" "to close the bug definition",
      endLine "bug definition",
      attach]
  | .varDeclaration =>
    inOrder [
      .keep (.keyword "var"),
      attached (.keep .name) "a variable name after 'var'",
      furtherNames (.keep .name) "a variable name after ','",
      endLine "variable declaration"]
  | .initializationBlock =>
    inOrder [
      .keep (.keyword "initially"),
      attached (.rule .block) "a block after 'initially'"]
  | .functionDefinition =>
    inOrder [
      .drop (.keyword "define"),
      .node "function",
      attached (.keep .name) "a function name after 'define'",
      .node "var",
      maybe (inOrder [
        .drop (.keyword "using"),
        attached (.rule .variable) "a parameter name after 'using'",
        furtherNames (.rule .variable) "a parameter name after ','"]),
      .require (.rule .block) (.item "a block for the function body"),
      .reduce 3 [2, 1]]
  | .functionCall =>
    inOrder [
      .keep .name,
      .node "call",
      .reduce 1 [2],
      .require (.rule .parameterList) (.symbol "(" "after the function name"),
      attach]
  | .block =>
    inOrder [
      .drop (.symbol "\x7b"),
      .node "block",
      endLine "'\x7b'",
      gather (.rule .command),
      .require (.drop (.symbol "\x7d")) (.item "a command or '\x7d' in block"),
      endLine "'\x7d'"]
  | .command => firstOf (.rule .action) [.rule .statement]
  | .action =>
    firstOf (.rule .moveAction)
      [.rule .moveToAction, .rule .turnAction, .rule .turnToAction, .rule .lineAction]
  | .statement =>
    firstOf (.rule .assignmentStatement)
      [.rule .loopStatement, .rule .exitIfStatement, .rule .switchStatement,
       .rule .returnStatement, .rule .doStatement, .rule .colorStatement]
  | .moveAction => keywordWithExpression "move"
  | .moveToAction =>
    inOrder [
      .keep (.keyword "moveto"),
      operandOf "moveto",
      furtherOperandOf "moveto",
      endLine "'moveto' action"]
  | .turnAction => keywordWithExpression "turn"
  | .turnToAction => keywordWithExpression "turnto"
  | .lineAction =>
    inOrder [
      .keep (.keyword "line"),
      operandOf "line",
      furtherOperandOf "line",
      furtherOperandOf "line",
      furtherOperandOf "line",
      endLine "'line' action"]
  | .assignmentStatement =>
    inOrder [
      .rule .variable,
      .node "assign",
      .reduce 1 [2],
      punctuation "=" "after the assigned variable",
      attached (.rule .expression) "an expression after '='",
      endLine "assignment"]
  | .loopStatement =>
    inOrder [
      .keep (.keyword "loop"),
      attached (.rule .block) "a block after 'loop'"]
  | .exitIfStatement =>
    inOrder [
      .keep (.keyword "exit"),
      .require (.drop (.keyword "if")) (.item "'if' after 'exit'"),
      attached (.rule .expression) "an expression after 'exit if'",
      endLine "'exit if' statement"]
  | .switchStatement =>
    inOrder [
      .keep (.keyword "switch"),
      punctuation "\x7b" "after 'switch'",
      endLine "'switch \x7b'",
      gather (inOrder [
        .keep (.keyword "case"),
        attached (.rule .expression) "an expression after 'case'",
        endLine "case expression",
        .node "block",
        gather (.rule .command),
        attach]),
      punctuation "\x7d" "to close 'switch'",
      endLine "'switch' statement"]
  | .returnStatement => keywordWithExpression "return"
  | .doStatement =>
    inOrder [
      .drop (.keyword "do"),
      .node "call",
      attached (.rule .variable) "a function name after 'do'",
      maybe (.andThen (.rule .parameterList) attach),
      endLine "'do' statement"]
  | .colorStatement =>
    inOrder [
      .keep (.keyword "color"),
      attached (.keep .anyKeyword) "a color name after 'color'",
      endLine "'color' statement"]
  | .expression =>
    leftAssociative (.rule .arithmeticExpression) (.rule .comparator)
      "an expression after comparator"
  | .arithmeticExpression =>
    leftAssociative (.rule .term) (.rule .addOperator) "a term after '+' or '-'"
  | .term =>
    leftAssociative (.rule .factor) (.rule .multiplyOperator) "a factor after '*' or '/'"
  | .factor =>
    firstOf
      (inOrder [
        firstOf (.keep (.symbol "+")) [.keep (.symbol "-")],
        attached (.rule .unsignedFactor) "a factor after unary '+' or '-'"])
      [.rule .unsignedFactor]
  | .unsignedFactor =>
    firstOf
      (inOrder [
        .keep .name,
        maybe (firstOf
          (inOrder [
            .keep (.symbol "."),
            .require (.keep .name) (.item "a name after '.'"),
            operate])
          [inOrder [.rule .parameterList, .node "call", .reduce 1 [3, 2]]])])
      [.keep .number,
       inOrder [
        .drop (.symbol "("),
        .require (.rule .expression) (.item "an expression after '('"),
        .require (.drop (.symbol ")")) .closingParenthesis]]
  | .parameterList =>
    inOrder [
      .drop (.symbol "("),
      .node "var",
      maybe (inOrder [
        .rule .expression,
        attach,
        .many (.andThen (.drop (.symbol ","))
          (attached (.rule .expression) "an expression after ','"))]),
      punctuation ")" "to close the parameter list"]
  | .addOperator => firstOf (.keep (.symbol "+")) [.keep (.symbol "-")]
  | .multiplyOperator => firstOf (.keep (.symbol "*")) [.keep (.symbol "/")]
  | .comparator =>
    firstOf (comparatorWithEquals "<" "<=")
      [comparatorWithEquals ">" ">=",
       inOrder [
        .keep (.symbol "!"),
        .require (.drop (.symbol "=")) (.symbol "=" "after '!'"),
        .replaceTop "!="],
       .keep (.symbol "=")]
  | .variable => .keep .name
  | .lineEnd => .andThen (.keep .lineEnd) (.many (.drop .lineEnd))

end BugLang.Grammar
