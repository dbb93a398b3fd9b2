import BugLang.Tree

/-!
# The stack that a tree is built on

Trees wait on a stack until they become children of another tree.  A reduction
takes some entries off the top, makes one of them the root, adds the others to it
as children, and puts the result back.  It names the entries by their positions:
the top is at position 1, the entry below it at position 2.

* `Stack.reduce_eq_ok_iff`: a reduction succeeds if and only if its positions are
  those of the entries that it takes, each one once.
* `Fault`: what can go wrong otherwise.  A failed reduction leaves no new stack.
-/

namespace BugLang

/-- A stack of trees, the top first. -/
abbrev Stack := List Tree

/-- Ways to misuse a stack. -/
inductive Fault
  /-- A reduction of more entries than there are. -/
  | shortStack (wanted available : Nat)
  /-- A reduction whose positions are not those of the entries it takes. -/
  | badPositions (root : Nat) (children : List Nat)
  /-- Taking the top off an empty stack. -/
  | emptyStack
  /-- A build that leaves another number of trees than one. -/
  | treeCount (count : Nat)
  /-- A definition that does not start with the word that announced it. -/
  | lostBug
  /-- A build that uses up its allowance of steps. -/
  | exhausted
deriving DecidableEq, Repr

namespace Fault

/-- A list of positions between brackets. -/
def positionsText (positions : List Nat) : String :=
  "[" ++ ", ".intercalate (positions.map Nat.repr) ++ "]"

/-- A fault in words. -/
def text : Fault → String
  | shortStack wanted available =>
    s!"reduction of {wanted} entries on a stack of {available}"
  | badPositions root children =>
    s!"bad reduction indices: root {root} children {positionsText children}"
  | emptyStack => "pop from an empty parse stack"
  | treeCount count => s!"expected exactly one tree on the parse stack, found {count}"
  | lostBug => "'Bug' lookahead did not start a bug"
  | exhausted => "out of steps"

end Fault

namespace Stack

/-- Whether positions are those of the top entries, as many as there are positions. -/
def Covers (positions : List Nat) : Prop :=
  (∀ position ∈ positions, 1 ≤ position ∧ position ≤ positions.length) ∧ positions.Nodup

instance (positions : List Nat) : Decidable (Covers positions) :=
  inferInstanceAs (Decidable (_ ∧ _))

/-- The entry at a position that counts from one at the top. -/
def at? (stack : Stack) (position : Nat) : Option Tree :=
  stack[position - 1]?

/-- The stack with its top entries made into one tree: the one at position `root`
with those at the positions `children` behind its own children. -/
def reduce (root : Nat) (children : List Nat) (stack : Stack) : Except Fault Stack :=
  let count := children.length + 1
  if stack.length < count then
    .error (.shortStack count stack.length)
  else if Covers (root :: children) then
    match stack.at? root with
    | some tree => .ok (tree.addChildren (children.filterMap stack.at?) :: stack.drop count)
    | none => .error (.badPositions root children)
  else
    .error (.badPositions root children)

/-- The top entry and the stack below it. -/
def pop : Stack → Except Fault (Tree × Stack)
  | [] => .error .emptyStack
  | tree :: stack => .ok (tree, stack)

/-- The only entry of a stack that has one. -/
def single : Stack → Except Fault Tree
  | [tree] => .ok tree
  | stack => .error (.treeCount stack.length)

/-- There is an entry at every position of the stack. -/
theorem at?_eq_some {stack : Stack} {position : Nat} (hpos : 1 ≤ position)
    (hle : position ≤ stack.length) : ∃ tree, stack.at? position = some tree :=
  ⟨stack[position - 1], by simp [at?]⟩

/-- A reduction succeeds if and only if the stack is high enough and the positions
are those of the entries that it takes. -/
theorem reduce_eq_ok_iff {root : Nat} {children : List Nat} {stack after : Stack} :
    reduce root children stack = .ok after ↔
      children.length + 1 ≤ stack.length ∧ Covers (root :: children) ∧
        ∃ tree, stack.at? root = some tree ∧
          after = tree.addChildren (children.filterMap stack.at?) ::
            stack.drop (children.length + 1) := by
  unfold reduce
  dsimp only
  by_cases hshort : stack.length < children.length + 1
  · simp [hshort, Nat.not_le.mpr hshort]
  · rw [if_neg hshort]
    by_cases hcovers : Covers (root :: children)
    · rw [if_pos hcovers]
      have hroot := hcovers.1 root (by simp)
      obtain ⟨tree, htree⟩ := at?_eq_some hroot.1
        (Nat.le_trans hroot.2 (by simpa using Nat.not_lt.mp hshort))
      simp [htree, hcovers, Nat.not_lt.mp hshort, eq_comm]
    · simp [hcovers]

end Stack

end BugLang
