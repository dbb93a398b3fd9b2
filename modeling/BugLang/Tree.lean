import BugLang.Token

/-!
# Trees

A tree is a token and an ordered list of children.  Trees are built up from leaves
by adding children behind the ones that are there.

`Tree.size` counts the nodes, and `Tree.outline` lists them, each one before its
children; the outline of a tree has as many entries as the tree has nodes.
-/

namespace BugLang

/-- A token with the trees below it. -/
inductive Tree
  | node (value : Token) (children : List Tree)
deriving Repr

namespace Tree

/-- A tree without children. -/
def leaf (value : Token) : Tree :=
  .node value []

/-- The token at the root. -/
def value : Tree → Token
  | .node value _ => value

/-- The trees below the root, in order. -/
def children : Tree → List Tree
  | .node _ children => children

/-- Whether there is nothing below the root. -/
def isLeaf (tree : Tree) : Bool :=
  tree.children.isEmpty

/-- The child at a position that counts from zero, if there is one. -/
def child? (tree : Tree) (index : Nat) : Option Tree :=
  tree.children[index]?

/-- Adds trees behind the children. -/
def addChildren (tree : Tree) (more : List Tree) : Tree :=
  .node tree.value (tree.children ++ more)

/-- Adding children leaves the root as it is. -/
@[simp] theorem value_addChildren (tree : Tree) (more : List Tree) :
    (tree.addChildren more).value = tree.value := rfl

/-- New children come behind the old ones. -/
@[simp] theorem children_addChildren (tree : Tree) (more : List Tree) :
    (tree.addChildren more).children = tree.children ++ more := rfl

mutual

/-- The number of nodes. -/
def size : Tree → Nat
  | .node _ children => 1 + sizeAll children

/-- The number of nodes of some trees. -/
def sizeAll : List Tree → Nat
  | [] => 0
  | tree :: trees => tree.size + sizeAll trees

end

mutual

/-- The nodes below a depth, each one with its own depth and before its children,
in front of some further entries. -/
def outlineOnto (depth : Nat) (later : List (Nat × Token)) : Tree → List (Nat × Token)
  | .node value children => (depth, value) :: outlineAllOnto (depth + 1) later children

/-- The nodes of some trees of one depth, in front of some further entries. -/
def outlineAllOnto (depth : Nat) (later : List (Nat × Token)) : List Tree → List (Nat × Token)
  | [] => later
  | tree :: trees => outlineOnto depth (outlineAllOnto depth later trees) tree

end

/-- The nodes of a tree with their depths, each one before its children. -/
def outline (tree : Tree) : List (Nat × Token) :=
  outlineOnto 0 [] tree

mutual

/-- An outline has an entry for each node. -/
theorem length_outlineOnto (depth : Nat) (later : List (Nat × Token)) :
    ∀ tree : Tree, (outlineOnto depth later tree).length = tree.size + later.length
  | .node _ children => by
    simp only [outlineOnto, size, List.length_cons, length_outlineAllOnto]
    omega

/-- The outline of some trees has an entry for each of their nodes. -/
theorem length_outlineAllOnto (depth : Nat) (later : List (Nat × Token)) :
    ∀ trees : List Tree,
      (outlineAllOnto depth later trees).length = sizeAll trees + later.length
  | [] => by simp [outlineAllOnto, sizeAll]
  | tree :: trees => by
    simp only [outlineAllOnto, sizeAll, length_outlineOnto, length_outlineAllOnto]
    omega

end

/-- The outline of a tree is as long as the tree is large. -/
theorem length_outline (tree : Tree) : tree.outline.length = tree.size := by
  simp [outline, length_outlineOnto]

mutual

/-- Decides whether two trees are equal. -/
def decideEq : (a b : Tree) → Decidable (a = b)
  | .node v cs, .node w ds =>
    if hvalue : v = w then
      match decideAllEq cs ds with
      | isTrue hchildren => isTrue (by rw [hvalue, hchildren])
      | isFalse hchildren => isFalse (by
          intro h
          exact hchildren (Tree.node.inj h).2)
    else
      isFalse (by
        intro h
        exact hvalue (Tree.node.inj h).1)

/-- Decides whether two lists of trees are equal. -/
def decideAllEq : (as bs : List Tree) → Decidable (as = bs)
  | [], [] => isTrue rfl
  | [], _ :: _ => isFalse (by simp)
  | _ :: _, [] => isFalse (by simp)
  | a :: as, b :: bs =>
    match decideEq a b with
    | isTrue hhead =>
      match decideAllEq as bs with
      | isTrue htail => isTrue (by rw [hhead, htail])
      | isFalse htail => isFalse (by
          intro h
          exact htail (List.cons.inj h).2)
    | isFalse hhead => isFalse (by
        intro h
        exact hhead (List.cons.inj h).1)

end

instance : DecidableEq Tree := decideEq

end Tree

end BugLang
