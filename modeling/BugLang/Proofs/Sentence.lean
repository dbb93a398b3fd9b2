import BugLang.Recipe

/-!
# The sentences of the language

The grammar without a parser: `Derives rule word tree` says that some tokens are a
sentence of a rule, and that the rule makes a certain tree of them.  It says nothing
about how such tokens are found or where a reader has to look.

`Production` has the rules of the grammar.  It speaks of sentences of other rules through a
language that is given to it, and `Derives` is the least language that is closed under all
productions.

A leaf of a tree is a token of the sentence or has a text of its own, whose token is
`Token.ofText`.  Parentheses, commas, braces and line ends are left out of the trees.
-/

namespace BugLang

/-- Words of some form, each with the tree that is made of it. -/
abbrev Phrase := List Token → Tree → Prop

/-- Words of some form, each with the trees that are made of it. -/
abbrev Phrases := List Token → List Tree → Prop

/-- The phrases of all rules. -/
abbrev Language := Rule → Phrase

/-- A token that fits a terminal, as a leaf. -/
inductive Single (terminal : Terminal) : Phrase
  | intro {a : Token} (hfits : terminal.fits a) : Single terminal [a] (.leaf a)

/-- A phrase behind a token that does not show in the tree. -/
inductive Behind (mark : Token) (phrase : Phrase) : Phrase
  | intro {w : List Token} {t : Tree} (h : phrase w t) : Behind mark phrase (mark :: w) t

/-- Any number of phrases in a row. -/
inductive Sequence (phrase : Phrase) : Phrases
  | nil : Sequence phrase [] []
  | cons {u v : List Token} {t : Tree} {ts : List Tree} (hfirst : phrase u t)
      (hothers : Sequence phrase v ts) : Sequence phrase (u ++ v) (t :: ts)

/-- A phrase or nothing. -/
inductive Perhaps (phrase : Phrase) : Phrases
  | absent : Perhaps phrase [] []
  | present {w : List Token} {t : Tree} (h : phrase w t) : Perhaps phrase w [t]

/-- Phrases with commas between them. -/
inductive Listed (phrase : Phrase) : Phrases
  | intro {u v : List Token} {t : Tree} {ts : List Tree} (hfirst : phrase u t)
      (hothers : Sequence (Behind (.symbol ",") phrase) v ts) : Listed phrase (u ++ v) (t :: ts)

/-- Operators and operands behind an operand: each operator becomes the root over what
stands before it and the operand behind it. -/
inductive Folded (operand operator : Phrase) : Tree → Phrase
  | nil {left : Tree} : Folded operand operator left [] left
  | cons {u v w : List Token} {left root right t : Tree} (hoperator : operator u root)
      (hoperand : operand v right)
      (hothers : Folded operand operator (root.addChildren [left, right]) w t) :
      Folded operand operator left (u ++ v ++ w) t

/-- One or more line ends. -/
def LineEnds (w : List Token) : Prop :=
  w ≠ [] ∧ ∀ a ∈ w, a.kind = .lineEnd

/-- A tree with a root that has no token in the source. -/
def Tree.made (text : String) (children : List Tree) : Tree :=
  .node (.ofText text) children

/-- The code that all bugs share, or the leaf that stands for none. -/
inductive SharedCode (lang : Language) : Phrase
  | absent : SharedCode lang [] (.made "Allbugs" [])
  | present {w : List Token} {t : Tree} (h : lang .allbugsCode w t) : SharedCode lang w t

/-- The block that a bug runs first, or the empty one that stands for none. -/
inductive FirstBlock (lang : Language) : Phrase
  | absent : FirstBlock lang [] (.made "initially" [.made "block" []])
  | present {w : List Token} {t : Tree} (h : lang .initializationBlock w t) : FirstBlock lang w t

/-- The parameters of a function. -/
inductive Parameters (lang : Language) : Phrases
  | absent : Parameters lang [] []
  | present {w : List Token} {ts : List Tree} (h : Listed (lang .variable) w ts) :
      Parameters lang (.keyword "using" :: w) ts

/-- The arguments of a call. -/
inductive Arguments (lang : Language) : Phrases
  | absent : Arguments lang [] []
  | present {w : List Token} {ts : List Tree} (h : Listed (lang .expression) w ts) :
      Arguments lang w ts

/-- A case of a `switch`. -/
inductive Case (lang : Language) : Phrase
  | intro {u e v : List Token} {x : Tree} {ts : List Tree} (hexpression : lang .expression u x)
      (hend : LineEnds e) (hcommands : Sequence (lang .command) v ts) :
      Case lang (.keyword "case" :: u ++ e ++ v) (.node (.keyword "case") [x, .made "block" ts])

/-- A phrase of one of some rules. -/
inductive OneOf (lang : Language) (rules : List Rule) : Phrase
  | intro {rule : Rule} {w : List Token} {t : Tree} (hrule : rule ∈ rules) (h : lang rule w t) :
      OneOf lang rules w t

/-- A keyword and an expression on a line. -/
inductive KeywordAndExpression (lang : Language) (word : String) : Phrase
  | intro {w e : List Token} {x : Tree} (hexpression : lang .expression w x) (hend : LineEnds e) :
      KeywordAndExpression lang word (.keyword word :: w ++ e) (.node (.keyword word) [x])

/-- Operands with operators between them, which bind to the left. -/
inductive LeftAssociative (operand operator : Phrase) : Phrase
  | intro {u v : List Token} {left t : Tree} (hleft : operand u left)
      (hothers : Folded operand operator left v t) : LeftAssociative operand operator (u ++ v) t

/-- The productions of the grammar. -/
inductive Production (lang : Language) : Rule → Phrase
  | program {s u v : List Token} {e : Token} {shared t : Tree} {ts : List Tree}
      (hshared : SharedCode lang s shared) (hfirst : lang .bugDefinition u t)
      (hothers : Sequence (lang .bugDefinition) v ts) (hend : e.kind = .endOfInput) :
      Production lang .program (s ++ u ++ v ++ [e])
        (.made "program" [shared, .made "list" (t :: ts)])
  | allbugsCode {e v f e' : List Token} {vars functions : List Tree} (hopen : LineEnds e)
      (hvars : Sequence (lang .varDeclaration) v vars)
      (hfunctions : Sequence (lang .functionDefinition) f functions) (hclose : LineEnds e') :
      Production lang .allbugsCode
        ([.keyword "Allbugs", .symbol "\x7b"] ++ e ++ v ++ f ++ .symbol "\x7d" :: e')
        (.node (.keyword "Allbugs") [.made "list" vars, .made "list" functions])
  | bugDefinition {name : Token} {e v i c d f e' : List Token} {start command : Tree}
      {vars commands functions : List Tree} (hname : name.kind = .name) (hopen : LineEnds e)
      (hvars : Sequence (lang .varDeclaration) v vars) (hstart : FirstBlock lang i start)
      (hcommand : lang .command c command) (hcommands : Sequence (lang .command) d commands)
      (hfunctions : Sequence (lang .functionDefinition) f functions) (hclose : LineEnds e') :
      Production lang .bugDefinition
        ([.keyword "Bug", name, .symbol "\x7b"] ++ e ++ v ++ i ++ c ++ d ++ f ++
          .symbol "\x7d" :: e')
        (.node (.keyword "Bug")
          [.leaf name, .made "list" vars, start, .made "block" (command :: commands),
           .made "list" functions])
  | varDeclaration {w e : List Token} {names : List Tree} (hnames : Listed (Single .name) w names)
      (hend : LineEnds e) :
      Production lang .varDeclaration (.keyword "var" :: w ++ e) (.node (.keyword "var") names)
  | initializationBlock {w : List Token} {block : Tree} (hblock : lang .block w block) :
      Production lang .initializationBlock (.keyword "initially" :: w)
        (.node (.keyword "initially") [block])
  | functionDefinition {name : Token} {p w : List Token} {parameters : List Tree} {block : Tree}
      (hname : name.kind = .name) (hparameters : Parameters lang p parameters)
      (hblock : lang .block w block) :
      Production lang .functionDefinition ([.keyword "define", name] ++ p ++ w)
        (.made "function" [.leaf name, .made "var" parameters, block])
  | functionCall {name : Token} {w : List Token} {arguments : Tree} (hname : name.kind = .name)
      (harguments : lang .parameterList w arguments) :
      Production lang .functionCall (name :: w) (.made "call" [.leaf name, arguments])
  | block {e w e' : List Token} {commands : List Tree} (hopen : LineEnds e)
      (hcommands : Sequence (lang .command) w commands) (hclose : LineEnds e') :
      Production lang .block (.symbol "\x7b" :: e ++ w ++ .symbol "\x7d" :: e')
        (.made "block" commands)
  | command {w : List Token} {t : Tree} (h : OneOf lang [.action, .statement] w t) :
      Production lang .command w t
  | action {w : List Token} {t : Tree}
      (h : OneOf lang [.moveAction, .moveToAction, .turnAction, .turnToAction, .lineAction] w t) :
      Production lang .action w t
  | statement {w : List Token} {t : Tree}
      (h : OneOf lang [.assignmentStatement, .loopStatement, .exitIfStatement, .switchStatement,
        .returnStatement, .doStatement, .colorStatement] w t) :
      Production lang .statement w t
  | moveAction {w : List Token} {t : Tree} (h : KeywordAndExpression lang "move" w t) :
      Production lang .moveAction w t
  | moveToAction {u v e : List Token} {x y : Tree} (hx : lang .expression u x)
      (hy : Behind (.symbol ",") (lang .expression) v y) (hend : LineEnds e) :
      Production lang .moveToAction (.keyword "moveto" :: u ++ v ++ e)
        (.node (.keyword "moveto") [x, y])
  | turnAction {w : List Token} {t : Tree} (h : KeywordAndExpression lang "turn" w t) :
      Production lang .turnAction w t
  | turnToAction {w : List Token} {t : Tree} (h : KeywordAndExpression lang "turnto" w t) :
      Production lang .turnToAction w t
  | lineAction {u v u' v' e : List Token} {x y x' y' : Tree} (hx : lang .expression u x)
      (hy : Behind (.symbol ",") (lang .expression) v y)
      (hx' : Behind (.symbol ",") (lang .expression) u' x')
      (hy' : Behind (.symbol ",") (lang .expression) v' y') (hend : LineEnds e) :
      Production lang .lineAction (.keyword "line" :: u ++ v ++ u' ++ v' ++ e)
        (.node (.keyword "line") [x, y, x', y'])
  | assignmentStatement {u v e : List Token} {target x : Tree}
      (htarget : lang .variable u target) (hexpression : lang .expression v x)
      (hend : LineEnds e) :
      Production lang .assignmentStatement (u ++ .symbol "=" :: v ++ e) (.made "assign" [target, x])
  | loopStatement {w : List Token} {block : Tree} (hblock : lang .block w block) :
      Production lang .loopStatement (.keyword "loop" :: w) (.node (.keyword "loop") [block])
  | exitIfStatement {w e : List Token} {x : Tree} (hexpression : lang .expression w x)
      (hend : LineEnds e) :
      Production lang .exitIfStatement ([.keyword "exit", .keyword "if"] ++ w ++ e)
        (.node (.keyword "exit") [x])
  | switchStatement {e w e' : List Token} {cases : List Tree} (hopen : LineEnds e)
      (hcases : Sequence (Case lang) w cases) (hclose : LineEnds e') :
      Production lang .switchStatement
        ([.keyword "switch", .symbol "\x7b"] ++ e ++ w ++ .symbol "\x7d" :: e')
        (.node (.keyword "switch") cases)
  | returnStatement {w : List Token} {t : Tree} (h : KeywordAndExpression lang "return" w t) :
      Production lang .returnStatement w t
  | doStatement {u v e : List Token} {called : Tree} {arguments : List Tree}
      (hcalled : lang .variable u called)
      (harguments : Perhaps (lang .parameterList) v arguments) (hend : LineEnds e) :
      Production lang .doStatement (.keyword "do" :: u ++ v ++ e)
        (.made "call" (called :: arguments))
  | colorStatement {color : Token} {e : List Token} (hcolor : color.kind = .keyword)
      (hend : LineEnds e) :
      Production lang .colorStatement ([.keyword "color", color] ++ e)
        (.node (.keyword "color") [.leaf color])
  | expression {w : List Token} {t : Tree}
      (h : LeftAssociative (lang .arithmeticExpression) (lang .comparator) w t) :
      Production lang .expression w t
  | arithmeticExpression {w : List Token} {t : Tree}
      (h : LeftAssociative (lang .term) (lang .addOperator) w t) :
      Production lang .arithmeticExpression w t
  | term {w : List Token} {t : Tree}
      (h : LeftAssociative (lang .factor) (lang .multiplyOperator) w t) :
      Production lang .term w t
  | signed {sign : String} {w : List Token} {t : Tree} (hsign : sign ∈ ["+", "-"])
      (hoperand : lang .unsignedFactor w t) :
      Production lang .factor (.symbol sign :: w) (.node (.symbol sign) [t])
  | unsigned {w : List Token} {t : Tree} (hoperand : lang .unsignedFactor w t) :
      Production lang .factor w t
  | property {object name : Token} (hobject : object.kind = .name) (hname : name.kind = .name) :
      Production lang .unsignedFactor [object, .symbol ".", name]
        (.node (.symbol ".") [.leaf object, .leaf name])
  | call {name : Token} {w : List Token} {arguments : Tree} (hname : name.kind = .name)
      (harguments : lang .parameterList w arguments) :
      Production lang .unsignedFactor (name :: w) (.made "call" [.leaf name, arguments])
  | name {name : Token} (hname : name.kind = .name) :
      Production lang .unsignedFactor [name] (.leaf name)
  | number {number : Token} (hnumber : number.kind = .number) :
      Production lang .unsignedFactor [number] (.leaf number)
  | parenthesized {w : List Token} {t : Tree} (hexpression : lang .expression w t) :
      Production lang .unsignedFactor (.symbol "(" :: w ++ [.symbol ")"]) t
  | parameterList {w : List Token} {arguments : List Tree}
      (harguments : Arguments lang w arguments) :
      Production lang .parameterList (.symbol "(" :: w ++ [.symbol ")"]) (.made "var" arguments)
  | addOperator {text : String} (htext : text ∈ ["+", "-"]) :
      Production lang .addOperator [.symbol text] (.leaf (.symbol text))
  | multiplyOperator {text : String} (htext : text ∈ ["*", "/"]) :
      Production lang .multiplyOperator [.symbol text] (.leaf (.symbol text))
  | comparator {text : String} (htext : text ∈ ["<", ">", "="]) :
      Production lang .comparator [.symbol text] (.leaf (.symbol text))
  | mergedComparator {text : String} (htext : text ∈ ["<", ">", "!"]) :
      Production lang .comparator [.symbol text, .symbol "="] (.leaf (.symbol (text ++ "=")))
  | variableName {name : Token} (hname : name.kind = .name) :
      Production lang .variable [name] (.leaf name)
  | lineEnd {a : Token} {w : List Token} (hfirst : a.kind = .lineEnd)
      (hothers : ∀ b ∈ w, b.kind = .lineEnd) : Production lang .lineEnd (a :: w) (.leaf a)

/-- **The language.**  A word is a sentence of a rule, with a tree, if a production makes it
of words that are sentences already. -/
inductive Derives : Language
  | of {parts : Language} {rule : Rule} {w : List Token} {t : Tree}
      (hparts : ∀ part u s, parts part u s → Derives part u s)
      (hproduction : Production parts rule w t) : Derives rule w t

/-- Whether some tokens can be completed to a sentence of a rule. -/
def BeginsSentence (rule : Rule) (w : List Token) : Prop :=
  ∃ v t, Derives rule (w ++ v) t

end BugLang
