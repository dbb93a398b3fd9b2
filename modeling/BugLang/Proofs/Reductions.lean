import BugLang.Diagnostic
import BugLang.Proofs.Frame
import Mathlib.Data.List.Nodup
import Mathlib.Data.List.Perm.Subperm
import Mathlib.Data.List.Range

/-!
# Reductions in place

`Stack.reduce` says what a reduction makes of a stack.  A reduction can also be carried out on
the stack itself: the positions are ticked off one by one, the entries are moved to slots, and
the slots are emptied in turn.  Once entries have been moved, a slot that is empty too soon would
leave the stack in pieces.  That never happens: positions that have all been ticked off are those
of the entries, each one once, so no slot is asked for twice.

* `Stack.covers_iff_perm`: as many positions as entries, in range and without repetition, are all
  positions.
* `Stack.tickOff_replicate_iff`: ticking off finds out whether they are.
* `Stack.adopt_of_distinct`: distinct slots are not empty when their turn comes.
* `Stack.reduceInPlace_eq`: a reduction in place does what `Stack.reduce` says, or nothing.
* `Stack.reduction_is_exact_and_atomic`: which reductions succeed, what they leave, and what is
  left by the others.
-/

namespace BugLang

namespace Stack

/-- How a reduction in place may break off. -/
inductive Breakdown
  /-- It is refused before anything is moved. -/
  | refused (fault : Fault)
  /-- The slot of the root is empty. -/
  | rootMissing
  /-- The slot of a child is empty. -/
  | childMissing
deriving DecidableEq, Repr

/-- A breakdown in words. -/
def Breakdown.text : Breakdown → String
  | refused fault => fault.text
  | rootMissing => "reduction root missing"
  | childMissing => "reduction child missing"

/-- Ticks positions off, and finds out whether all of them are in range and none comes twice. -/
def tickOff : List Bool → List Nat → Bool
  | _, [] => true
  | ticks, position :: positions =>
    if position = 0 ∨ ticks.length < position ∨ ticks[position - 1]? = some true then false
    else tickOff (ticks.set (position - 1) true) positions

/-- Adds the trees of some slots to a tree as children, one by one, and empties the slots. -/
def adopt (tree : Tree) (slots : List (Option Tree)) : List Nat → Option Tree
  | [] => some tree
  | place :: places =>
    match slots.getD place none with
    | some child => adopt (tree.addChildren [child]) (slots.set place none) places
    | none => none

/-- Reduces the top entries of a stack in place.  The result comes with the stack as it stands
then, also where the reduction breaks off.  The slots start with the lowest entry. -/
def reduceInPlace (root : Nat) (children : List Nat) (stack : Stack) :
    Except Breakdown Unit × Stack :=
  let count := children.length + 1
  if stack.length < count then (.error (.refused (.shortStack count stack.length)), stack)
  else if tickOff (List.replicate count false) (root :: children) then
    let slots := (stack.take count).reverse.map some
    let below := stack.drop count
    match slots.getD (count - root) none with
    | none => (.error .rootMissing, below)
    | some tree =>
      match adopt tree (slots.set (count - root) none) (children.map (count - ·)) with
      | none => (.error .childMissing, below)
      | some tree => (.ok (), tree :: below)
  else (.error (.refused (.badPositions root children)), stack)

/-! ### Positions -/

/-- **All positions.**  As many positions as entries are those of the entries if and only if they
are the numbers from one on, in some order. -/
theorem covers_iff_perm {positions : List Nat} :
    Covers positions ↔ positions.Perm (List.range' 1 positions.length) := by
  constructor
  · rintro ⟨hrange, hnodup⟩
    have hsubset : positions ⊆ List.range' 1 positions.length := by
      intro position hmem
      obtain ⟨hpos, hle⟩ := hrange position hmem
      exact List.mem_range'_1.mpr ⟨hpos, by omega⟩
    -- There are not more numbers in the range than positions, so none is left out.
    exact (List.subperm_of_subset hnodup hsubset).perm_of_length_le (by rw [List.length_range'])
  · intro hperm
    refine ⟨fun position hmem => ?_, hperm.nodup_iff.mpr List.nodup_range'⟩
    have hrange := List.mem_range'_1.mp (hperm.mem_iff.mp hmem)
    omega

/-- A position that is in range and not ticked off yet. -/
def IsFree (ticks : List Bool) (position : Nat) : Prop :=
  1 ≤ position ∧ ticks[position - 1]? = some false

/-- A position is ticked off exactly when it is free. -/
theorem isFree_iff {ticks : List Bool} {position : Nat} :
    IsFree ticks position ↔
      ¬ (position = 0 ∨ ticks.length < position ∨ ticks[position - 1]? = some true) := by
  by_cases hrange : position - 1 < ticks.length
  · rw [IsFree, List.getElem?_eq_getElem hrange]
    cases ticks[position - 1] <;> simp
    all_goals omega
  · rw [IsFree, List.getElem?_eq_none (Nat.le_of_not_lt hrange)]
    simp only [reduceCtorEq, and_false, or_false, false_iff, not_not]
    omega

/-- Ticking a position off leaves the other positions as free as they were. -/
theorem isFree_set {ticks : List Bool} {position other : Nat} (hpos : 1 ≤ position) :
    IsFree (ticks.set (position - 1) true) other ↔ IsFree ticks other ∧ other ≠ position := by
  unfold IsFree
  rw [List.getElem?_set]
  by_cases hsame : position - 1 = other - 1
  · rw [if_pos hsame]
    split <;> simp <;> omega
  · rw [if_neg hsame]
    exact ⟨fun h => ⟨h, by omega⟩, And.left⟩

/-- Positions can be ticked off if and only if all of them are free and none comes twice. -/
theorem tickOff_iff {ticks : List Bool} {positions : List Nat} :
    tickOff ticks positions = true ↔
      (∀ position ∈ positions, IsFree ticks position) ∧ positions.Nodup := by
  induction positions generalizing ticks with
  | nil => simp [tickOff]
  | cons position positions ih =>
    rw [tickOff, List.forall_mem_cons, List.nodup_cons]
    by_cases hfree : IsFree ticks position
    · rw [if_neg (isFree_iff.mp hfree), ih]
      have hothers : (∀ other ∈ positions, IsFree (ticks.set (position - 1) true) other) ↔
          (∀ other ∈ positions, IsFree ticks other) ∧ position ∉ positions := by
        constructor
        · intro h
          exact ⟨fun other hmem => ((isFree_set hfree.1).mp (h other hmem)).1,
            fun hmem => ((isFree_set hfree.1).mp (h position hmem)).2 rfl⟩
        · intro h other hmem
          exact (isFree_set hfree.1).mpr ⟨h.1 other hmem, fun heq => h.2 (heq ▸ hmem)⟩
      rw [hothers, and_assoc]
      exact ⟨fun h => ⟨⟨hfree, h.1⟩, h.2⟩, fun h => ⟨h.1.2, h.2⟩⟩
    · rw [if_pos (not_not.mp (mt isFree_iff.mpr hfree))]
      exact ⟨Bool.noConfusion, fun h => absurd h.1.1 hfree⟩

/-- Positions can be ticked off on a fresh list, with one tick for each of them, if and only if
they are those of the entries. -/
theorem tickOff_replicate_iff {positions : List Nat} :
    tickOff (List.replicate positions.length false) positions = true ↔ Covers positions := by
  rw [tickOff_iff, Covers]
  refine and_congr_left fun _ => forall₂_congr fun position _ => ?_
  rw [IsFree, List.getElem?_replicate]
  split <;> simp <;> omega

/-! ### Slots -/

/-- The slots of the top entries, the lowest of them first, hold at the mirrored place what the
stack has at a position. -/
theorem getD_slots {stack : Stack} {count position : Nat} (hcount : count ≤ stack.length)
    (hpos : 1 ≤ position) (hle : position ≤ count) :
    ((stack.take count).reverse.map some).getD (count - position) none = stack.at? position := by
  have hlength : (stack.take count).length = count := List.length_take_of_le hcount
  rw [List.getD_eq_getElem?_getD, List.getElem?_map, List.getElem?_reverse (by omega), hlength,
    List.getElem?_take_of_lt (by omega), at?, show count - 1 - (count - position) = position - 1
      by omega]
  cases stack[position - 1]? <;> rfl

/-- Emptying a slot leaves the others as they are. -/
theorem getD_set_of_ne {slots : List (Option Tree)} {place other : Nat} (hne : place ≠ other) :
    (slots.set place none).getD other none = slots.getD other none := by
  rw [List.getD_eq_getElem?_getD, List.getElem?_set_ne hne, List.getD_eq_getElem?_getD]

/-- **No slot is empty too soon.**  If slots are distinct and each of them holds a tree, all their
trees become children, in the order in which the slots are given. -/
theorem adopt_of_distinct {tree : Tree} {slots : List (Option Tree)} {places : List Nat}
    {trees : List Tree} (hdistinct : places.Nodup)
    (hfilled : places.map (slots.getD · none) = trees.map some) :
    adopt tree slots places = some (tree.addChildren trees) := by
  induction places generalizing tree slots trees with
  | nil =>
    obtain rfl : trees = [] := List.map_eq_nil_iff.mp hfilled.symm
    rw [adopt, Tree.addChildren_nil]
  | cons place places ih =>
    obtain ⟨child, others, rfl, hchild, hothers⟩ := List.map_eq_cons_iff.mp hfilled.symm
    obtain ⟨hfresh, hdistinct⟩ := List.nodup_cons.mp hdistinct
    have hkept : places.map ((slots.set place none).getD · none) = others.map some := by
      rw [hothers]
      refine List.map_congr_left fun other hmem => ?_
      exact getD_set_of_ne fun heq => hfresh (heq ▸ hmem)
    have hplace : slots.getD place none = some child := hchild.symm
    rw [adopt, hplace]
    change adopt (tree.addChildren [child]) _ places = _
    rw [ih hdistinct hkept, Tree.addChildren_addChildren, List.singleton_append]

/-- Every position of a reduction has an entry. -/
theorem map_at?_of_covers {root : Nat} {children : List Nat} {stack : Stack}
    (hlength : children.length + 1 ≤ stack.length) (hcovers : Covers (root :: children)) :
    children.map stack.at? = (children.filterMap stack.at?).map some := by
  rw [List.map_filterMap]
  refine (List.filterMap_eq_map_iff_forall_eq_some.mpr fun position hmem => ?_).symm
  have hrange := hcovers.1 position (List.mem_cons_of_mem root hmem)
  obtain ⟨tree, htree⟩ := at?_eq_some hrange.1 (Nat.le_trans hrange.2 hlength)
  rw [htree]
  rfl

/-- **The second half of a reduction in place.**  If the positions are those of the entries, the
slot of the root is filled, and so is that of each child when its turn comes. -/
theorem adopt_of_covers {root : Nat} {children : List Nat} {stack : Stack} {tree : Tree}
    (hlength : children.length + 1 ≤ stack.length) (hcovers : Covers (root :: children)) :
    adopt tree
        (((stack.take (children.length + 1)).reverse.map some).set
          (children.length + 1 - root) none)
        (children.map (children.length + 1 - ·)) =
      some (tree.addChildren (children.filterMap stack.at?)) := by
  have hrange : ∀ position ∈ root :: children,
      1 ≤ position ∧ position ≤ children.length + 1 := hcovers.1
  obtain ⟨hroot, hdistinct⟩ := List.nodup_cons.mp hcovers.2
  refine adopt_of_distinct ?_ ?_
  · refine List.Nodup.map_on (fun position hmem other hother heq => ?_) hdistinct
    have hle := (hrange position (List.mem_cons_of_mem root hmem)).2
    have hle' := (hrange other (List.mem_cons_of_mem root hother)).2
    omega
  · rw [← map_at?_of_covers hlength hcovers, List.map_map]
    refine List.map_congr_left fun position hmem => ?_
    obtain ⟨hpos, hle⟩ := hrange position (List.mem_cons_of_mem root hmem)
    have hne : children.length + 1 - root ≠ children.length + 1 - position := by
      have hle' := (hrange root List.mem_cons_self).2
      have hother : position ≠ root := fun heq => hroot (heq ▸ hmem)
      omega
    exact (getD_set_of_ne hne).trans (getD_slots hlength hpos hle)

/-- **In place or not.**  A reduction in place leaves what `Stack.reduce` says where that succeeds,
and is refused with the stack as it was where that does not. -/
theorem reduceInPlace_eq (root : Nat) (children : List Nat) (stack : Stack) :
    stack.reduceInPlace root children =
      match stack.reduce root children with
      | .ok after => (.ok (), after)
      | .error fault => (.error (.refused fault), stack) := by
  unfold reduceInPlace reduce
  dsimp only
  by_cases hshort : stack.length < children.length + 1
  · rw [if_pos hshort, if_pos hshort]
  rw [if_neg hshort, if_neg hshort]
  have hticked : tickOff (List.replicate (children.length + 1) false) (root :: children) = true ↔
      Covers (root :: children) := by
    rw [← List.length_cons (a := root), tickOff_replicate_iff]
  by_cases hcovers : Covers (root :: children)
  · rw [if_pos (hticked.mpr hcovers), if_pos hcovers]
    have hlength := Nat.not_lt.mp hshort
    have hroot := hcovers.1 root List.mem_cons_self
    obtain ⟨tree, htree⟩ := at?_eq_some hroot.1 (Nat.le_trans hroot.2 hlength)
    rw [getD_slots hlength hroot.1 hroot.2, htree]
    dsimp only
    rw [adopt_of_covers hlength hcovers]
  · rw [if_neg (mt hticked.mp hcovers), if_neg hcovers]

/-- A reduction in place succeeds if and only if the stack is high enough and the positions are the
numbers from one on, in some order. -/
theorem reduceInPlace_ok_iff {root : Nat} {children : List Nat} {stack : Stack} :
    (stack.reduceInPlace root children).1 = .ok () ↔
      children.length + 1 ≤ stack.length ∧
        (root :: children).Perm (List.range' 1 (children.length + 1)) := by
  have hperm : Covers (root :: children) ↔
      (root :: children).Perm (List.range' 1 (children.length + 1)) := covers_iff_perm
  rw [← hperm, reduceInPlace_eq]
  rcases h : stack.reduce root children with fault | after
  · refine iff_of_false nofun fun ⟨hlength, hcovers⟩ => ?_
    obtain ⟨after, hafter⟩ := exists_reduce_eq_ok hlength hcovers
    rw [h] at hafter
    exact absurd hafter nofun
  · obtain ⟨hlength, hcovers, -⟩ := reduce_eq_ok_iff.mp h
    exact iff_of_true rfl ⟨hlength, hcovers⟩

/-- **Reductions are exact and atomic.**  A reduction of some entries succeeds if and only if there
are as many, and the root with the children is a permutation of their positions.  The entry at the
root is then in place of all of them, with the entries at the children behind its own children, in
the order in which they are given.  In all other cases the reduction is refused with an internal
error, and the stack is as it was: no slot is ever found empty. -/
theorem reduction_is_exact_and_atomic (root : Nat) (children : List Nat) (b : Builder)
    (call : Rule → Builder → Outcome) (rounds : Nat) :
    let inPlace := b.stack.reduceInPlace root children
    let step := (Recipe.reduce root children).carryOut call rounds b
    (inPlace.1 = .ok () ↔
      children.length + 1 ≤ b.stack.length ∧
        (root :: children).Perm (List.range' 1 (children.length + 1))) ∧
    (inPlace.1 = .ok () →
      ∃ tree trees, b.stack.at? root = some tree ∧ children.map b.stack.at? = trees.map some ∧
        inPlace.2 =
          .node tree.value (tree.children ++ trees) :: b.stack.drop (children.length + 1) ∧
        step = ⟨.matched, { b with stack := inPlace.2 }⟩) ∧
    ∀ breakdown, inPlace.1 = .error breakdown →
      inPlace.2 = b.stack ∧
        ∃ fault, breakdown = .refused fault ∧ step = ⟨.failed (.fault fault), b⟩ ∧
          (Failure.fault fault).diagnostic = .internal breakdown.text := by
  intro inPlace step
  refine ⟨reduceInPlace_ok_iff, ?_⟩
  have hinPlace : inPlace = _ := reduceInPlace_eq root children b.stack
  have hstep : step = b.rearrange (b.stack.reduce root children) := rfl
  rcases h : b.stack.reduce root children with fault | after
  · rw [h] at hinPlace hstep
    rw [hinPlace, hstep]
    refine ⟨nofun, fun breakdown hbreakdown => ⟨rfl, fault, ?_⟩⟩
    obtain rfl : Breakdown.refused fault = breakdown := Except.error.inj hbreakdown
    exact ⟨rfl, rfl, rfl⟩
  · rw [h] at hinPlace hstep
    rw [hinPlace, hstep]
    refine ⟨fun _ => ?_, nofun⟩
    obtain ⟨hlength, hcovers, tree, htree, rfl⟩ := reduce_eq_ok_iff.mp h
    exact ⟨tree, children.filterMap b.stack.at?, htree, map_at?_of_covers hlength hcovers, rfl, rfl⟩

/-- The second of three entries takes in the third and then the first, above an entry that stays
where it is.  With the first one asked for twice, nothing is changed. -/
theorem reductions_of_three_entries :
    let leaf := fun text => Tree.leaf (.ofText text)
    let stack : Stack := [leaf "c", .node (.ofText "b") [leaf "d"], leaf "a", leaf "below"]
    let b : Builder := ⟨.start "", stack⟩
    let call := Rule.applyWithin 0
    (stack.reduceInPlace 2 [3, 1]).1 = .ok () ∧
      (∃ tree trees, stack.at? 2 = some tree ∧ [3, 1].map stack.at? = trees.map some ∧
        (stack.reduceInPlace 2 [3, 1]).2 =
          .node tree.value (tree.children ++ trees) :: stack.drop 3 ∧
        (Recipe.reduce 2 [3, 1]).carryOut call 0 b =
          ⟨.matched, { b with stack := (stack.reduceInPlace 2 [3, 1]).2 }⟩) ∧
      (stack.reduceInPlace 2 [1, 1]).1 = .error (.refused (.badPositions 2 [1, 1])) ∧
      (stack.reduceInPlace 2 [1, 1]).2 = stack ∧
      ∃ fault, Breakdown.refused (.badPositions 2 [1, 1]) = .refused fault ∧
        (Recipe.reduce 2 [1, 1]).carryOut call 0 b = ⟨.failed (.fault fault), b⟩ ∧
        (Failure.fault fault).diagnostic =
          .internal (Breakdown.refused (.badPositions 2 [1, 1])).text := by
  intro leaf stack b call
  have hmade : (stack.reduceInPlace 2 [3, 1]).1 = .ok () := rfl
  have hrefused : (stack.reduceInPlace 2 [1, 1]).1 =
      .error (.refused (.badPositions 2 [1, 1])) := rfl
  obtain ⟨-, htree, -⟩ := reduction_is_exact_and_atomic 2 [3, 1] b call 0
  obtain ⟨-, -, hkept⟩ := reduction_is_exact_and_atomic 2 [1, 1] b call 0
  exact ⟨hmade, htree hmade, hrefused, hkept _ hrefused⟩

end Stack

end BugLang
