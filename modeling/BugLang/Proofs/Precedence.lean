import BugLang.Proofs.Contract
import BugLang.Proofs.Reprinting
import Mathlib.Logic.Function.Iterate

/-!
# Precedence

What an expression means can be said from its tree: how the tree is written, and where
parentheses have to be put.  Operators bind more or less tightly, and an operator stands without
parentheses as an operand of another one if it binds tightly enough.  On the left of an operator
it may bind as tightly, on the right it has to bind more tightly, and behind a sign stands what
has no operator at all.  More parentheses may be put anywhere.

`Rendering least w t` says that the tokens `w` are the tree `t` written in this way, as an
operand of an operator that asks for the level `least`.

* `isExpression_iff_rendering`: the trees that can be written are those of expressions.
* `derives_iff_rendering`: the rules of expressions are the levels of precedence.
* `apply_expression_exact`: the rule of expressions reads what is written, all of it and no more.
-/

namespace BugLang

open Stream' Printed

/-- How tightly an expression is bound, from loose to tight. -/
inductive Level
  | comparison
  | sum
  | product
  | sign
  | atom
deriving DecidableEq, Repr

namespace Level

/-- The place of a level in the order of levels. -/
def rank : Level → Nat
  | comparison => 0
  | sum => 1
  | product => 2
  | sign => 3
  | atom => 4

instance : LE Level := ⟨fun low high => low.rank ≤ high.rank⟩

instance (low high : Level) : Decidable (low ≤ high) :=
  inferInstanceAs (Decidable (low.rank ≤ high.rank))

/-- The level that is just tighter. -/
def next : Level → Level
  | comparison => sum
  | sum => product
  | product => sign
  | sign | atom => atom

/-- The operators of a level that stand between two operands. -/
def operators : Level → List String
  | comparison => ["<", ">", "<=", ">=", "!=", "="]
  | sum => ["+", "-"]
  | product => ["*", "/"]
  | sign | atom => []

end Level

/-- The trees of expressions. -/
inductive IsExpression : Tree → Prop
  | name {a : Token} (hname : a.kind = .name) : IsExpression (.leaf a)
  | number {a : Token} (hnumber : a.kind = .number) : IsExpression (.leaf a)
  | property {object name : Token} (hobject : object.kind = .name) (hname : name.kind = .name) :
      IsExpression (.node (.symbol ".") [.leaf object, .leaf name])
  | call {name : Token} {arguments : List Tree} (hname : name.kind = .name)
      (harguments : ∀ x ∈ arguments, IsExpression x) :
      IsExpression (.made "call" [.leaf name, .made "var" arguments])
  | signed {sign : String} {x : Tree} (hsign : sign ∈ ["+", "-"]) (hx : IsExpression x) :
      IsExpression (.node (.symbol sign) [x])
  | binary {level : Level} {text : String} {x y : Tree} (htext : text ∈ level.operators)
      (hx : IsExpression x) (hy : IsExpression y) : IsExpression (.node (.symbol text) [x, y])

/-- The ways in which an expression is written where an operand of some level is asked for, or
of a tighter one. -/
inductive Rendering : Level → List Token → Tree → Prop
  | name {least : Level} {a : Token} (hname : a.kind = .name) : Rendering least [a] (.leaf a)
  | number {least : Level} {a : Token} (hnumber : a.kind = .number) :
      Rendering least [a] (.leaf a)
  | property {least : Level} {object name : Token} (hobject : object.kind = .name)
      (hname : name.kind = .name) :
      Rendering least [object, .symbol ".", name]
        (.node (.symbol ".") [.leaf object, .leaf name])
  | call {least : Level} {name : Token} {arguments : List (List Token × Tree)}
      (hname : name.kind = .name) (harguments : ∀ x ∈ arguments, Rendering .comparison x.1 x.2) :
      Rendering least
        (name :: .symbol "(" :: commaSeparated (arguments.map Prod.fst) ++ [.symbol ")"])
        (.made "call" [.leaf name, .made "var" (arguments.map Prod.snd)])
  | signed {least : Level} {sign : String} {w : List Token} {x : Tree} (hleast : least ≤ .sign)
      (hsign : sign ∈ ["+", "-"]) (hx : Rendering .atom w x) :
      Rendering least (.symbol sign :: w) (.node (.symbol sign) [x])
  | binary {least level : Level} {text : String} {u v : List Token} {x y : Tree}
      (hleast : least ≤ level) (htext : text ∈ level.operators) (hx : Rendering level u x)
      (hy : Rendering level.next v y) :
      Rendering least (u ++ operator (.symbol text) ++ v) (.node (.symbol text) [x, y])
  | parenthesized {least : Level} {w : List Token} {t : Tree} (h : Rendering .comparison w t) :
      Rendering least (.symbol "(" :: w ++ [.symbol ")"]) t

/-! ### Levels -/

namespace Level

/-- Levels are in order. -/
theorem le_trans {a b c : Level} (h : a ≤ b) (h' : b ≤ c) : a ≤ c :=
  Nat.le_trans h h'

/-- A level is not tighter than itself. -/
theorem le_refl (level : Level) : level ≤ level :=
  Nat.le_refl level.rank

/-- The next level is not looser. -/
theorem le_next (level : Level) : level ≤ level.next := by
  cases level <;> decide

/-- A tighter level is reached step by step. -/
theorem exists_iterate_next {low high : Level} (h : low ≤ high) : ∃ n, next^[n] low = high := by
  refine ⟨high.rank - low.rank, ?_⟩
  cases low <;> cases high <;> first | rfl | exact absurd h (by decide)

/-- The rule whose sentences are the expressions of a level and of tighter ones. -/
def rule : Level → Rule
  | comparison => .expression
  | sum => .arithmeticExpression
  | product => .term
  | sign => .factor
  | atom => .unsignedFactor

/-- The rule of the operators of a level. -/
def operatorRule : Level → Rule
  | comparison => .comparator
  | sum => .addOperator
  | _ => .multiplyOperator

end Level

/-! ### Trees that can be written -/

variable {least low high level : Level} {w : List Token} {t : Tree}

/-- What stands where a tight operand is asked for stands where a loose one is. -/
theorem Rendering.mono (h : Rendering high w t) (hle : low ≤ high) : Rendering low w t := by
  cases h with
  | name hname => exact .name hname
  | number hnumber => exact .number hnumber
  | property hobject hname => exact .property hobject hname
  | call hname harguments => exact .call hname harguments
  | signed hleast hsign hx => exact .signed (Level.le_trans hle hleast) hsign hx
  | binary hleast htext hx hy => exact .binary (Level.le_trans hle hleast) htext hx hy
  | parenthesized h => exact .parenthesized h

/-- What is written is the tree of an expression. -/
theorem Rendering.isExpression (h : Rendering least w t) : IsExpression t := by
  induction h with
  | name hname => exact .name hname
  | number hnumber => exact .number hnumber
  | property hobject hname => exact .property hobject hname
  | call hname _ ih =>
    refine .call hname fun x hx => ?_
    obtain ⟨argument, hargument, rfl⟩ := List.mem_map.mp hx
    exact ih argument hargument
  | signed _ hsign _ ih => exact .signed hsign ih
  | binary _ htext _ _ ihLeft ihRight => exact .binary htext ihLeft ihRight
  | parenthesized _ ih => exact ih

/-- Trees that can be written one by one can be written together. -/
private theorem exists_pairs {phrase : Phrase} {ts : List Tree} (h : ∀ t ∈ ts, ∃ w, phrase w t) :
    ∃ pairs : List (List Token × Tree),
      (∀ x ∈ pairs, phrase x.1 x.2) ∧ pairs.map Prod.snd = ts := by
  induction ts with
  | nil => exact ⟨[], nofun, rfl⟩
  | cons t ts ih =>
    obtain ⟨⟨w, hw⟩, hts⟩ := List.forall_mem_cons.mp h
    obtain ⟨pairs, hpairs, rfl⟩ := ih hts
    exact ⟨(w, t) :: pairs, List.forall_mem_cons.mpr ⟨hw, hpairs⟩, rfl⟩

/-- The tree of an expression can be written, if need be with all parentheses. -/
theorem IsExpression.exists_rendering (h : IsExpression t) :
    ∃ w, Rendering .comparison w t := by
  induction h with
  | name hname => exact ⟨_, .name hname⟩
  | number hnumber => exact ⟨_, .number hnumber⟩
  | property hobject hname => exact ⟨_, .property hobject hname⟩
  | call hname _ ih =>
    obtain ⟨pairs, hpairs, rfl⟩ := exists_pairs ih
    exact ⟨_, .call hname hpairs⟩
  | signed hsign _ ih =>
    obtain ⟨w, hw⟩ := ih
    exact ⟨_, .signed (by decide) hsign (.parenthesized hw)⟩
  | @binary level text x y htext _ _ ihLeft ihRight =>
    obtain ⟨u, hu⟩ := ihLeft
    obtain ⟨v, hv⟩ := ihRight
    exact ⟨_, .binary (Nat.zero_le _) htext (.parenthesized hu) (.parenthesized hv)⟩

/-- The trees that can be written are those of expressions. -/
theorem isExpression_iff_rendering : IsExpression t ↔ ∃ w, Rendering .comparison w t :=
  ⟨fun h => h.exists_rendering, fun ⟨_, h⟩ => h.isExpression⟩

/-! ### The rules of the levels -/

/-- What the rule of a level reads, the rules of looser levels read too. -/
theorem Derives.of_level (hle : low ≤ high) (h : Derives high.rule w t) :
    Derives low.rule w t := by
  obtain ⟨n, rfl⟩ := Level.exists_iterate_next hle
  clear hle
  induction n generalizing low with
  | zero => exact h
  | succ n ih =>
    have hnext : Derives low.next.rule w t := ih h
    cases low with
    | comparison => exact hnext.expression
    | sum => exact hnext.arithmeticExpression
    | product => exact hnext.term
    | sign => exact hnext.factor
    | atom => exact hnext

/-- What has no operator is read by the rules of all levels. -/
theorem Derives.of_atom (h : Derives Level.atom.rule w t) : Derives least.rule w t :=
  of_level (by cases least <;> decide) h

/-- On a level with operators, operands of the next level are put together from the left. -/
theorem Derives.iff_leftAssociative (hlevel : level ∈ [Level.comparison, .sum, .product]) :
    Derives level.rule w t ↔
      LeftAssociative (Derives level.next.rule) (Derives level.operatorRule) w t := by
  simp only [List.mem_cons, List.not_mem_nil, or_false] at hlevel
  rcases hlevel with rfl | rfl | rfl
  · exact ⟨fun h => by cases h.production with | expression h => exact h,
      fun h => .of_production (.expression h)⟩
  · exact ⟨fun h => by cases h.production with | arithmeticExpression h => exact h,
      fun h => .of_production (.arithmeticExpression h)⟩
  · exact ⟨fun h => by cases h.production with | term h => exact h,
      fun h => .of_production (.term h)⟩

/-- A comparator is read as one symbol or as two. -/
theorem Derives.iff_comparator :
    Derives .comparator w t ↔
      ∃ text ∈ Level.comparison.operators,
        w = operator (.symbol text) ∧ t = .leaf (.symbol text) := by
  constructor
  · intro h
    cases h.production with
    | comparator htext =>
      simp only [List.mem_cons, List.not_mem_nil, or_false] at htext
      rcases htext with rfl | rfl | rfl <;> exact ⟨_, by decide, rfl, rfl⟩
    | mergedComparator htext =>
      simp only [List.mem_cons, List.not_mem_nil, or_false] at htext
      rcases htext with rfl | rfl | rfl <;> exact ⟨_, by decide, by decide, rfl⟩
  · rintro ⟨text, htext, rfl, rfl⟩
    have hone : ∀ text ∈ ["<", ">", "="],
        Derives .comparator [.symbol text] (.leaf (.symbol text)) :=
      fun _ h => .of_production (.comparator h)
    have htwo : ∀ text ∈ ["<", ">", "!"],
        Derives .comparator [.symbol text, .symbol "="] (.leaf (.symbol (text ++ "="))) :=
      fun _ h => .of_production (.mergedComparator h)
    simp only [Level.operators, List.mem_cons, List.not_mem_nil, or_false] at htext
    rcases htext with rfl | rfl | rfl | rfl | rfl | rfl
    · exact hone "<" (by decide)
    · exact hone ">" (by decide)
    · exact htwo "<" (by decide)
    · exact htwo ">" (by decide)
    · exact htwo "!" (by decide)
    · exact hone "=" (by decide)

/-- The operators of a level are those that its rule reads. -/
theorem Derives.iff_operator (hlevel : level ∈ [Level.comparison, .sum, .product]) :
    Derives level.operatorRule w t ↔
      ∃ text ∈ level.operators, w = operator (.symbol text) ∧ t = .leaf (.symbol text) := by
  have hsingle : ∀ text ∈ ["+", "-", "*", "/"], operator (.symbol text) = [.symbol text] := by
    decide
  simp only [List.mem_cons, List.not_mem_nil, or_false] at hlevel
  rcases hlevel with rfl | rfl | rfl
  · exact iff_comparator
  · constructor
    · intro h
      cases h.production with
      | addOperator htext =>
        exact ⟨_, htext, (hsingle _ (List.mem_append_left ["*", "/"] htext)).symm, rfl⟩
    · rintro ⟨text, htext, rfl, rfl⟩
      rw [hsingle text (List.mem_append_left ["*", "/"] htext)]
      exact .of_production (.addOperator htext)
  · constructor
    · intro h
      cases h.production with
      | multiplyOperator htext =>
        exact ⟨_, htext, (hsingle _ (List.mem_append_right ["+", "-"] htext)).symm, rfl⟩
    · rintro ⟨text, htext, rfl, rfl⟩
      rw [hsingle text (List.mem_append_right ["+", "-"] htext)]
      exact .of_production (.multiplyOperator htext)

/-! ### Arguments -/

/-- Phrases behind commas are pairs of words and trees. -/
theorem Sequence.iff_pairs {phrase : Phrase} {mark : Token} {ts : List Tree} :
    Sequence (Behind mark phrase) w ts ↔
      ∃ pairs : List (List Token × Tree), (∀ x ∈ pairs, phrase x.1 x.2) ∧
        w = (pairs.map Prod.fst).flatMap (mark :: ·) ∧ ts = pairs.map Prod.snd := by
  constructor
  · intro h
    induction h with
    | nil => exact ⟨[], nofun, rfl, rfl⟩
    | cons hfirst _ ih =>
      obtain ⟨hphrase⟩ := hfirst
      obtain ⟨pairs, hpairs, rfl, rfl⟩ := ih
      exact ⟨(_, _) :: pairs, List.forall_mem_cons.mpr ⟨hphrase, hpairs⟩, rfl, rfl⟩
  · rintro ⟨pairs, hpairs, rfl, rfl⟩
    induction pairs with
    | nil => exact .nil
    | cons x pairs ih =>
      obtain ⟨hx, hpairs⟩ := List.forall_mem_cons.mp hpairs
      exact .cons (.intro hx) (ih hpairs)

/-- The arguments of a call are pairs of words and trees. -/
theorem Arguments.iff_pairs {lang : Language} {ts : List Tree} :
    Arguments lang w ts ↔
      ∃ pairs : List (List Token × Tree), (∀ x ∈ pairs, lang .expression x.1 x.2) ∧
        w = commaSeparated (pairs.map Prod.fst) ∧ ts = pairs.map Prod.snd := by
  constructor
  · intro h
    cases h with
    | absent => exact ⟨[], nofun, rfl, rfl⟩
    | present hlisted =>
      obtain ⟨hfirst, hothers⟩ := hlisted
      obtain ⟨pairs, hpairs, rfl, rfl⟩ := Sequence.iff_pairs.mp hothers
      refine ⟨(_, _) :: pairs, List.forall_mem_cons.mpr ⟨hfirst, hpairs⟩, ?_, rfl⟩
      rw [List.map_cons, commaSeparated_cons]
  · rintro ⟨pairs, hpairs, rfl, rfl⟩
    cases pairs with
    | nil => exact .absent
    | cons x pairs =>
      obtain ⟨hx, hpairs⟩ := List.forall_mem_cons.mp hpairs
      rw [List.map_cons, commaSeparated_cons]
      exact .present (.intro hx (Sequence.iff_pairs.mpr ⟨pairs, hpairs, rfl, rfl⟩))

/-! ### What is written is read -/

/-- What is written for an operand of a level is a sentence of the rule of the level. -/
theorem Rendering.derives (h : Rendering least w t) : Derives least.rule w t := by
  induction h with
  | name hname => exact Derives.of_atom (.of_production (.name hname))
  | number hnumber => exact Derives.of_atom (.of_production (.number hnumber))
  | property hobject hname => exact Derives.of_atom (.of_production (.property hobject hname))
  | call hname _ ih =>
    have harguments := Arguments.iff_pairs.mpr ⟨_, ih, rfl, rfl⟩
    have hlist := Derives.of_production (.parameterList harguments)
    exact Derives.of_atom (.of_production (.call hname hlist))
  | signed hleast hsign _ ih =>
    exact Derives.of_level hleast (.of_production (.signed hsign ih))
  | @binary _ level text _ _ _ _ hleast htext _ _ ihLeft ihRight =>
    have hlevel : level ∈ [Level.comparison, .sum, .product] := by
      cases level <;> first | decide | cases htext
    refine Derives.of_level hleast ((Derives.iff_leftAssociative hlevel).mpr ?_)
    have hoperator := (Derives.iff_operator hlevel).mpr ⟨text, htext, rfl, rfl⟩
    exact ((Derives.iff_leftAssociative hlevel).mp ihLeft).snoc hoperator ihRight
  | parenthesized _ ih => exact Derives.of_atom (.of_production (.parenthesized ih))

/-- Operands that are put together from the left are written as operands of their level. -/
theorem LeftAssociative.rendering (level : Level) {operands operators : Phrase}
    (hoperand : ∀ u x, operands u x → Rendering level.next u x)
    (hoperator : ∀ v root, operators v root →
      ∃ text ∈ level.operators, v = operator (.symbol text) ∧ root = .leaf (.symbol text))
    (h : LeftAssociative operands operators w t) : Rendering level w t := by
  cases h with
  | @intro u v left _ hleft hothers =>
    have hstart := (hoperand _ _ hleft).mono level.le_next
    clear hleft
    -- What stands on the left is put together from more and more operands.
    induction hothers generalizing u with
    | nil => rwa [List.append_nil]
    | cons hroot hright _ ih =>
      obtain ⟨text, htext, rfl, rfl⟩ := hoperator _ _ hroot
      rw [← List.append_assoc, ← List.append_assoc]
      exact ih (.binary level.le_refl htext hstart (hoperand _ _ hright))

/-- What a sentence of a rule is as a written expression.  The parameters of a call are
expressions with commas between them. -/
def Rule.Renders : Rule → Phrase
  | .expression => Rendering .comparison
  | .arithmeticExpression => Rendering .sum
  | .term => Rendering .product
  | .factor => Rendering .sign
  | .unsignedFactor => Rendering .atom
  | .parameterList => fun w t =>
    ∃ arguments : List (List Token × Tree), (∀ x ∈ arguments, Rendering .comparison x.1 x.2) ∧
      w = .symbol "(" :: commaSeparated (arguments.map Prod.fst) ++ [.symbol ")"] ∧
      t = .made "var" (arguments.map Prod.snd)
  | _ => fun _ _ => True

/-- What the rules of expressions read is written as an expression. -/
theorem Derives.renders {rule : Rule} (h : Derives rule w t) : rule.Renders w t := by
  induction h with
  | @of parts rule w t hparts hproduction ih =>
    have hoperator {level : Level} (hlevel : level ∈ [Level.comparison, .sum, .product])
        (v : List Token) (root : Tree) (hroot : parts level.operatorRule v root) :=
      (Derives.iff_operator hlevel).mp (hparts _ v root hroot)
    cases hproduction with
    | expression h =>
      exact h.rendering .comparison (ih .arithmeticExpression) (hoperator (by decide))
    | arithmeticExpression h =>
      exact h.rendering .sum (ih .term) (hoperator (by decide))
    | term h => exact h.rendering .product (ih .factor) (hoperator (by decide))
    | signed hsign hoperand =>
      exact Rendering.signed (Level.le_refl _) hsign (ih .unsignedFactor _ _ hoperand)
    | unsigned hoperand =>
      exact Rendering.mono (ih .unsignedFactor _ _ hoperand) (by decide)
    | property hobject hname => exact Rendering.property hobject hname
    | call hname harguments =>
      obtain ⟨arguments, hall, rfl, rfl⟩ := ih .parameterList _ _ harguments
      exact Rendering.call hname hall
    | name hname => exact Rendering.name hname
    | number hnumber => exact Rendering.number hnumber
    | parenthesized hexpression => exact Rendering.parenthesized (ih .expression _ _ hexpression)
    | parameterList harguments =>
      obtain ⟨arguments, hall, rfl, rfl⟩ := Arguments.iff_pairs.mp harguments
      exact ⟨arguments, fun x hx => ih .expression _ _ (hall x hx), rfl, rfl⟩
    | _ => trivial

/-- **The rules of expressions are the levels of precedence.**  Some tokens are a sentence of the
rule of a level if and only if they are written as an operand of this level. -/
theorem derives_iff_rendering : Derives level.rule w t ↔ Rendering level w t := by
  refine ⟨fun h => ?_, Rendering.derives⟩
  have hrenders := h.renders
  cases level <;> exact hrenders

/-! ### The rule of expressions -/

/-- The symbols that an expression may go on with. -/
def continuations : List String :=
  [".", "(", "*", "/", "+", "-", "<", ">", "!", "="]

/-- An expression stops ahead of a token that is none of the symbols it may go on with. -/
theorem stopsAt_expression {a : Token} (h : ∀ text ∈ continuations, a ≠ .symbol text) :
    Rule.expression.StopsAt a := by
  have hblocked : ∀ terminal ∈ Rule.expression.blocked,
      ∃ text ∈ continuations, terminal = .symbol text := by decide
  intro terminal hmem hfits
  obtain ⟨text, htext, rfl⟩ := hblocked terminal hmem
  exact h text htext (of_decide_eq_true hfits)

namespace Builder

variable {b : Builder} {taken rest : List Located} {a : Located}

/-- What is written as an expression is read, if nothing follows that it may go on with. -/
theorem apply_expression_of_rendering (hb : b.cursor.Sound)
    (hremaining : b.cursor.remaining = taken ++ a :: rest)
    (h : Rendering .comparison (taken.map Located.token) t)
    (ha : ∀ text ∈ continuations, a.token ≠ .symbol text) :
    (b.apply .expression).verdict = .matched ∧
      (b.apply .expression).builder.cursor.remaining = a :: rest ∧
      (b.apply .expression).builder.stack = t :: b.stack := by
  have hderives : Derives .expression (taken.map Located.token) t := derives_iff_rendering.mpr h
  obtain ⟨line, hall⟩ := hb.exists_supply_eq
  rw [hremaining, append_append_stream] at hall
  have hread := hderives.run (u := taken) (s := (a :: rest) ++ₛ const ⟨line, .endOfInput⟩) rfl
    (stopsAt_expression ha) b.stack
  obtain ⟨u, hu, hrun, -⟩ := follows_apply hb .expression
  obtain ⟨rfl, -, hverdict, hstack⟩ := hrun.unique hread (hu.symm.trans hall)
  refine ⟨hverdict, ?_, hstack⟩
  have hkind : ∀ x ∈ u, x.token.kind ≠ .endOfInput := fun x hx =>
    hderives.kind_ne Rule.noConfusion x.token (List.mem_map_of_mem hx)
  exact List.append_cancel_left ((Cursor.remaining_of_supply hu hkind).symm.trans hremaining)

/-- What is read as an expression is written as one. -/
theorem rendering_of_apply_expression (hb : b.cursor.Sound)
    (hmatched : (b.apply .expression).verdict = .matched) :
    ∃ taken t, b.cursor.remaining = taken ++ (b.apply .expression).builder.cursor.remaining ∧
      Rendering .comparison (taken.map Located.token) t ∧
      (b.apply .expression).builder.stack = t :: b.stack := by
  obtain ⟨taken, htaken, hrun, -⟩ := follows_apply hb .expression
  rw [hmatched] at hrun
  obtain ⟨t, ht, hstack⟩ := hrun.derives
  have hkind : ∀ x ∈ taken, x.token.kind ≠ .endOfInput := fun x hx =>
    ht.kind_ne Rule.noConfusion x.token (List.mem_map_of_mem hx)
  have hrendering : Rendering .comparison (taken.map Located.token) t :=
    derives_iff_rendering.mp ht
  exact ⟨taken, t, Cursor.remaining_of_supply htaken hkind, hrendering, hstack⟩

end Builder

/-- **Reading expressions is exact.**  The trees of expressions are those that can be written with
the parentheses that precedence asks for.  Whatever was done with a builder before, let the tokens
that remain be such an expression and a token that it may not go on with.  Then the rule of
expressions is matched, takes the expression and nothing else, and puts its tree on the stack.
And whenever the rule is matched, it has taken an expression that is written in this way, and put
its tree on the stack. -/
theorem apply_expression_exact :
    (∀ t, IsExpression t ↔ ∃ w, Rendering .comparison w t) ∧
      ∀ (source : String) (stack : Stack) (operations : List Operation),
        let b := (⟨.start source, stack⟩ : Builder).after operations
        let outcome := b.apply .expression
        (∀ (taken rest : List Located) (a : Located) (t : Tree),
          b.cursor.remaining = taken ++ a :: rest →
          Rendering .comparison (taken.map Located.token) t →
          (∀ text ∈ continuations, a.token ≠ .symbol text) →
            outcome.verdict = .matched ∧ outcome.builder.cursor.remaining = a :: rest ∧
              outcome.builder.stack = t :: b.stack) ∧
          (outcome.verdict = .matched →
            ∃ taken t, b.cursor.remaining = taken ++ outcome.builder.cursor.remaining ∧
              Rendering .comparison (taken.map Located.token) t ∧
              outcome.builder.stack = t :: b.stack) := by
  refine ⟨fun _ => isExpression_iff_rendering, fun source stack operations => ?_⟩
  have hb := Builder.sound_after source stack operations
  exact ⟨fun _ _ _ _ hremaining h ha =>
    Builder.apply_expression_of_rendering hb hremaining h ha,
    Builder.rendering_of_apply_expression hb⟩

/-- Behind a name and on a stack that is not empty, a difference is read up to a comma.  Its
second operand is a product with a sign in it. -/
theorem read_difference_before_comma :
    let b := (⟨.start "x a-b*-(c),", [.leaf (.ofText "x")]⟩ : Builder).after [.next]
    let name (text : String) : Token := ⟨.name, text⟩
    let tree := Tree.node (.symbol "-") [.leaf (name "a"), .node (.symbol "*")
      [.leaf (name "b"), .node (.symbol "-") [.leaf (name "c")]]]
    let word := [name "a", .symbol "-", name "b", .symbol "*", .symbol "-", .symbol "(", name "c",
      .symbol ")"]
    let outcome := b.apply .expression
    Rendering .comparison word tree ∧ outcome.verdict = .matched ∧
      outcome.builder.cursor.remaining = [⟨1, .symbol ","⟩, ⟨1, .endOfInput⟩] ∧
      outcome.builder.stack = tree :: b.stack ∧
      ∃ taken t, b.cursor.remaining = taken ++ outcome.builder.cursor.remaining ∧
        Rendering .comparison (taken.map Located.token) t ∧
        outcome.builder.stack = t :: b.stack := by
  intro b name tree word outcome
  have hsign : Rendering .sign [.symbol "-", .symbol "(", name "c", .symbol ")"]
      (.node (.symbol "-") [.leaf (name "c")]) :=
    .signed (by decide) (by decide) (.parenthesized (.name rfl))
  have hfactor : Rendering .product [name "b"] (.leaf (name "b")) := .name rfl
  have hproduct := Rendering.binary (Level.le_refl .product)
    (show "*" ∈ Level.product.operators by decide) hfactor hsign
  have hterm : Rendering .sum [name "a"] (.leaf (name "a")) := .name rfl
  have hword : Rendering .comparison word tree :=
    Rendering.binary (show Level.comparison ≤ .sum by decide)
      (show "-" ∈ Level.sum.operators by decide) hterm hproduct
  have hremaining : b.cursor.remaining =
      word.map (Located.mk 1) ++ [⟨1, .symbol ","⟩, ⟨1, .endOfInput⟩] := by decide +kernel
  obtain ⟨hread, hwritten⟩ :=
    apply_expression_exact.2 "x a-b*-(c)," [.leaf (.ofText "x")] [.next]
  obtain ⟨hmatched, hrest, hstack⟩ := hread _ _ _ tree hremaining hword (by decide)
  exact ⟨hword, hmatched, hrest, hstack, hwritten hmatched⟩

end BugLang
