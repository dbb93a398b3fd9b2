import BugLang.Builder

/-!
# Parsing

`parse` reads a whole program, and `parseRule` reads what a single rule matches at
the start of a source.
-/

namespace BugLang

/-- The tree of an outcome, if its rule was matched. -/
def Outcome.tree? (outcome : Outcome) : Except Failure (Option Tree) :=
  match outcome.verdict with
  | .matched => outcome.builder.finish.map some
  | .declined => .ok none
  | .failed failure => .error failure

/-- The tree of what a rule matches at the start of a source, or nothing if the
source does not start with the rule.  What comes behind is not looked at. -/
def parseRule (rule : Rule) (source : String) : Except Failure (Option Tree) :=
  ((Builder.start source).apply rule).tree?

/-- What a source needs that has no program in it. -/
def programStart : Missing :=
  .item "'Allbugs' or 'Bug'"

/-- The tree of a program.  Line ends before it do not count. -/
def parse (source : String) : Except Failure Tree :=
  let outcome :=
    ((Builder.start source).skipLineEnds.andThen (Builder.apply .program)).orElse
      (Builder.fail programStart)
  match outcome.verdict with
  | .failed failure => .error failure
  | _ => outcome.builder.finish

end BugLang
