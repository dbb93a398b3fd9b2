import BugLang.Rule
import BugLang.Tree

/-!
# What a tree holds

The summary of a tree counts its nodes and, for a whole program, the definitions in
it.  The tree of a program has two children: the shared code with its variables and
functions, and the list of bugs.  A bug has five: its name, its variables, the
block that runs first, its commands and its functions.
-/

namespace BugLang

/-- The definitions in a program. -/
structure Definitions where
  bugs : Nat
  functions : Nat
deriving DecidableEq, Repr

/-- The counts that are reported of a tree. -/
structure Summary where
  nodes : Nat
  definitions : Option Definitions
deriving DecidableEq, Repr

namespace Summary

/-- The number of children of a child; none if there is no such child. -/
def childCount (tree : Tree) (index : Nat) : Nat :=
  ((tree.child? index).map fun child => child.children.length).getD 0

/-- The bugs of a program. -/
def bugsOf (program : Tree) : List Tree :=
  ((program.child? 1).map Tree.children).getD []

/-- The number of functions in the shared code of a program. -/
def sharedFunctions (program : Tree) : Nat :=
  ((program.child? 0).map fun shared => childCount shared 1).getD 0

/-- The definitions in a program. -/
def definitionsOf (program : Tree) : Definitions where
  bugs := (bugsOf program).length
  functions := (bugsOf program).foldl (fun count bug => count + childCount bug 4)
    (sharedFunctions program)

/-- The summary of the tree of a rule. -/
def ofTree (rule : Rule) (tree : Tree) : Summary where
  nodes := tree.size
  definitions := if rule = .program then some (definitionsOf tree) else none

end Summary

end BugLang
