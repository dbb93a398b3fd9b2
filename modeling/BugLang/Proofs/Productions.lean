import BugLang.Grammar
import BugLang.Proofs.Acceptance

/-!
# The recipes follow the grammar

The recipe of a rule reads the words of the productions of the rule, and makes the trees
that the productions say.

* `Grammar.reads_recipe`: every rule has the right recipe.
-/

namespace BugLang.Grammar

open Recipe

variable {lang : Language}

-- Each theorem about a production opens the recipe of its rule.  The equations of the recipes are
-- made here, once and for all of them.
attribute [local simp] recipe

/-- A choice of rules reads what one of them reads. -/
theorem reads_firstOf (rule : Rule) (rules : List Rule) :
    (firstOf (.rule rule) (rules.map .rule)).Reads lang (OneOf lang (rule :: rules)) := by
  induction rules generalizing rule with
  | nil =>
    intro w before after
    constructor
    · intro hword
      obtain ⟨t, ht, rfl⟩ := hword
      exact ⟨t, .intro List.mem_cons_self ht, rfl⟩
    · intro hword
      obtain ⟨t, ⟨hmem, ht⟩, rfl⟩ := hword
      obtain rfl := List.mem_singleton.mp hmem
      exact ⟨t, ht, rfl⟩
  | cons next rules ih =>
    intro w before after
    constructor
    · intro hword
      obtain (⟨t, ht, rfl⟩ | hothers) := hword
      · exact ⟨t, .intro List.mem_cons_self ht, rfl⟩
      · obtain ⟨t, ⟨hmem, ht⟩, rfl⟩ := (ih next w before after).mp hothers
        exact ⟨t, .intro (List.mem_cons_of_mem rule hmem) ht, rfl⟩
    · intro hword
      obtain ⟨t, ⟨hmem, ht⟩, rfl⟩ := hword
      rcases List.mem_cons.mp hmem with rfl | hmem
      · exact .inl ⟨t, ht, rfl⟩
      · exact .inr ((ih next w before _).mpr ⟨t, .intro hmem ht, rfl⟩)

/-- A keyword and an expression on a line. -/
theorem reads_keywordWithExpression (word : String) :
    (keywordWithExpression word).Reads lang (KeywordAndExpression lang word) := by
  intro w before after
  simp only [keywordWithExpression, accepts_keep_keyword_cons,
    accepts_attached_rule_cons, accepts_endLine_cons, accepts_nil, Tree.addChildren_leaf]
  constructor
  · intro hword
    obtain ⟨_, rfl, x, u, _, hx, rfl, e, _, hend, rfl, rfl, rfl⟩ := hword
    exact ⟨_, by simpa using KeywordAndExpression.intro hx hend, rfl⟩
  · intro hword
    obtain ⟨t, ⟨hx, hend⟩, rfl⟩ := hword
    exact ⟨_, rfl, _, _, _, hx, rfl, _, _, hend, (List.append_nil _).symm, rfl, rfl⟩

/-- Operators and operands behind an operand fold to the left. -/
theorem repeats_iff_folded {operand operator : Recipe} {operands operators : Phrase}
    (hoperand : operand.Reads lang operands) (hoperator : operator.Reads lang operators)
    {missing : Missing} {w : List Token} {left : Tree} {below after : Stack} :
    (many (inOrder [operator, .require operand missing, operate])).Accepts lang w
        (left :: below) after ↔
      ∃ t, Folded operands operators left w t ∧ after = t :: below := by
  have hround : ∀ w left after,
      (inOrder [operator, .require operand missing, operate]).Accepts lang w (left :: below) after ↔
        ∃ root u right v, operators u root ∧ operands v right ∧ w = u ++ v ∧
          after = root.addChildren [left, right] :: below := by
    intro w left after
    simp only [hoperator.accepts_cons, accepts_require_cons, hoperand.accepts_cons, operate,
      accepts_reduce_cons (Stack.reduce_between _ _ _ _), accepts_nil]
    constructor
    · intro hword
      obtain ⟨root, u, _, hroot, rfl, right, v, _, hright, rfl, rfl, rfl⟩ := hword
      exact ⟨root, u, right, v, hroot, hright, by rw [List.append_nil], rfl⟩
    · intro hword
      obtain ⟨root, u, right, v, hroot, hright, rfl, rfl⟩ := hword
      exact ⟨root, u, v, hroot, rfl, right, v, [], hright, (List.append_nil v).symm, rfl, rfl⟩
  constructor
  · intro hrounds
    change Repeats _ w _ after at hrounds
    generalize hbefore : left :: below = before at hrounds
    induction hrounds generalizing left with
    | nil => exact ⟨left, .nil, hbefore.symm⟩
    | cons hfirst _ ih =>
      subst hbefore
      obtain ⟨root, u, right, v, hroot, hright, rfl, rfl⟩ := (hround _ _ _).mp hfirst
      obtain ⟨t, ht, rfl⟩ := ih rfl
      exact ⟨t, .cons hroot hright ht, rfl⟩
  · intro hword
    obtain ⟨t, ht, rfl⟩ := hword
    induction ht with
    | nil => exact Repeats.nil
    | cons hroot hright _ ih =>
      exact Repeats.cons ((hround _ _ _).mpr ⟨_, _, _, _, hroot, hright, rfl, rfl⟩) ih

/-- Operands with operators between them. -/
theorem reads_leftAssociative {operand operator : Recipe} {operands operators : Phrase}
    (hoperand : operand.Reads lang operands) (hoperator : operator.Reads lang operators)
    (what : String) :
    (leftAssociative operand operator what).Reads lang (LeftAssociative operands operators) := by
  intro w before after
  rw [leftAssociative, hoperand.accepts_cons]
  constructor
  · intro hword
    obtain ⟨left, u, v, hleft, rfl, hothers⟩ := hword
    obtain ⟨t, ht, rfl⟩ := (repeats_iff_folded hoperand hoperator).mp hothers
    exact ⟨t, .intro hleft ht, rfl⟩
  · intro hword
    obtain ⟨t, ⟨hleft, hothers⟩, rfl⟩ := hword
    exact ⟨_, _, _, hleft, rfl,
      (repeats_iff_folded hoperand hoperator).mpr ⟨t, hothers, rfl⟩⟩

/-- A sign that may be merged with an equals sign behind it. -/
theorem accepts_comparatorWithEquals {text both : String} {w : List Token} {before after : Stack} :
    (comparatorWithEquals text both).Accepts lang w before after ↔
      w = [.symbol text, .symbol "="] ∧ after = .made both [] :: before ∨
        w = [.symbol text] ∧ after = .leaf (.symbol text) :: before := by
  simp only [comparatorWithEquals, accepts_andThen, accepts_keep_symbol_cons,
    accepts_maybe_cons, accepts_andThen_cons, accepts_drop_symbol_cons, accepts_nil]
  constructor
  · intro hword
    obtain ⟨_, rfl, ⟨_, rfl, rfl, top, below, htop, rfl⟩ | ⟨rfl, rfl⟩⟩ := hword
    · obtain ⟨-, rfl⟩ := List.cons.inj htop
      exact .inl ⟨rfl, rfl⟩
    · exact .inr ⟨rfl, rfl⟩
  · intro hword
    obtain (⟨rfl, rfl⟩ | ⟨rfl, rfl⟩) := hword
    · exact ⟨_, rfl, .inl ⟨_, rfl, rfl, _, _, rfl, rfl⟩⟩
    · exact ⟨_, rfl, .inr ⟨rfl, rfl⟩⟩

/-- A case of a `switch`. -/
theorem reads_case :
    (inOrder [
      .keep (.keyword "case"),
      attached (.rule .expression) "an expression after 'case'",
      endLine "case expression",
      .node "block",
      gather (.rule .command),
      attach]).Reads lang (Case lang) := by
  intro w before after
  simp only [accepts_keep_keyword_cons, accepts_attached_rule_cons,
    accepts_endLine_cons, accepts_node_cons, accepts_gather_rule_cons, accepts_attach_cons,
    accepts_nil, Tree.addChildren_leaf, Tree.addChildren_made, Tree.addChildren_node]
  constructor
  · intro hword
    obtain ⟨_, rfl, x, u, _, hx, rfl, e, _, hend, rfl, ts, v, _, hts, rfl, rfl, rfl⟩ := hword
    exact ⟨_, by simpa using Case.intro hx hend hts, rfl⟩
  · intro hword
    obtain ⟨t, ⟨hx, hend, hts⟩, rfl⟩ := hword
    simp only [List.cons_append, List.append_assoc]
    exact ⟨_, rfl, _, _, _, hx, rfl, _, _, hend, rfl, _, _, _, hts, (List.append_nil _).symm, rfl,
      rfl⟩

/-! ### Programs and definitions -/

theorem reads_program : (recipe .program).Reads lang (Production lang .program) := by
  intro w before after
  simp only [recipe, firstOf, Terminal.endOfInput, accepts_orElse_cons, accepts_inOrder_cons,
    List.cons_append, List.nil_append, accepts_rule_cons, accepts_require_cons, accepts_ahead_cons,
    accepts_promised_cons, accepts_node_cons, accepts_reduce_cons (Stack.reduce_upper _ _ _),
    accepts_gather_rule_cons, accepts_drop_ofKind_cons, Tree.addChildren_made,
    accepts_reduce_cons (Stack.reduce_uppermost _ _ _ _), accepts_nil]
  constructor
  · intro hword
    obtain (⟨shared, s, _, hshared, rfl, t, u, _, ht, rfl, ts, v, _, hts, rfl, e, _, he, rfl, rfl,
      rfl⟩ | ⟨t, u, _, ht, rfl, ts, v, _, hts, rfl, e, _, he, rfl, rfl, rfl⟩) := hword
    · exact ⟨_, by simpa using Production.program (.present hshared) ht hts he, rfl⟩
    · exact ⟨_, by simpa using Production.program .absent ht hts he, rfl⟩
  · intro hword
    obtain ⟨t, h, rfl⟩ := hword
    cases h with
    | program hshared ht hts he =>
      simp only [List.append_assoc]
      cases hshared with
      | present hshared =>
        exact .inl ⟨_, _, _, hshared, rfl, _, _, _, ht, rfl, _, _, _, hts, rfl, _, _, he, rfl, rfl,
          rfl⟩
      | absent => exact .inr ⟨_, _, _, ht, rfl, _, _, _, hts, rfl, _, _, he, rfl, rfl, rfl⟩

theorem reads_allbugsCode : (recipe .allbugsCode).Reads lang (Production lang .allbugsCode) := by
  intro w before after
  simp only [recipe, accepts_keep_keyword_cons, accepts_punctuation_cons,
    accepts_endLine_cons, accepts_node_cons, accepts_gather_rule_cons,
    accepts_reduce_cons (Stack.reduce_lowest _ _ _ _), accepts_nil, Tree.addChildren_leaf,
    Tree.addChildren_made]
  constructor
  · intro hword
    obtain ⟨_, rfl, _, rfl, e, _, he, rfl, vars, v, _, hvars, rfl, functions, f, _, hfunctions, rfl,
      _, rfl, e', _, he', rfl, rfl, rfl⟩ := hword
    exact ⟨_, by simpa using Production.allbugsCode he hvars hfunctions he', rfl⟩
  · intro hword
    obtain ⟨t, h, rfl⟩ := hword
    cases h with
    | allbugsCode he hvars hfunctions he' =>
      simp only [List.append_assoc, List.cons_append, List.nil_append]
      exact ⟨_, rfl, _, rfl, _, _, he, rfl, _, _, _, hvars, rfl, _, _, _, hfunctions, rfl, _, rfl,
        _, _, he', (List.append_nil _).symm, rfl, rfl⟩

/-- The block that runs first, or the empty one. -/
theorem reads_firstBlock :
    (firstOf (.rule .initializationBlock)
      [inOrder [.node "initially", .node "block", attach]]).Reads lang (FirstBlock lang) := by
  intro w before after
  simp only [firstOf, accepts_orElse, accepts_node_cons, accepts_attach_cons, accepts_nil,
    Tree.addChildren_made]
  constructor
  · intro hword
    obtain (⟨t, ht, rfl⟩ | ⟨rfl, rfl⟩) := hword
    · exact ⟨t, .present ht, rfl⟩
    · exact ⟨_, .absent, rfl⟩
  · intro hword
    obtain ⟨t, ⟨⟩ | ⟨ht⟩, rfl⟩ := hword
    · exact .inr ⟨rfl, rfl⟩
    · exact .inl ⟨t, ht, rfl⟩

theorem reads_bugDefinition :
    (recipe .bugDefinition).Reads lang (Production lang .bugDefinition) := by
  intro w before after
  simp only [recipe, Terminal.name, accepts_keep_keyword_cons,
    accepts_require_cons, accepts_keep_ofKind_cons, accepts_punctuation_cons, accepts_endLine_cons,
    accepts_attach_cons, accepts_node_cons, accepts_gather_rule_cons, reads_firstBlock.accepts_cons,
    accepts_rule_cons, accepts_reduce_cons (Stack.reduce_upper _ _ _), accepts_nil,
    Tree.addChildren_leaf, Tree.addChildren_node, Tree.addChildren_made]
  constructor
  · intro hword
    obtain ⟨_, rfl, name, _, hname, rfl, _, rfl, e, _, he, rfl, vars, v, _, hvars, rfl, start, i, _,
      hstart, rfl, command, c, _, hcommand, rfl, commands, d, _, hcommands, rfl, functions, f, _,
      hfunctions, rfl, _, rfl, e', _, he', rfl, rfl, rfl⟩ := hword
    exact ⟨_, by simpa using
      Production.bugDefinition hname he hvars hstart hcommand hcommands hfunctions he', rfl⟩
  · intro hword
    obtain ⟨t, h, rfl⟩ := hword
    cases h with
    | bugDefinition hname he hvars hstart hcommand hcommands hfunctions he' =>
      simp only [List.append_assoc, List.cons_append, List.nil_append]
      exact ⟨_, rfl, _, _, hname, rfl, _, rfl, _, _, he, rfl, _, _, _, hvars, rfl, _, _, _, hstart,
        rfl, _, _, _, hcommand, rfl, _, _, _, hcommands, rfl, _, _, _, hfunctions, rfl, _, rfl, _,
        _, he', (List.append_nil _).symm, rfl, rfl⟩

theorem reads_varDeclaration :
    (recipe .varDeclaration).Reads lang (Production lang .varDeclaration) := by
  intro w before after
  simp only [recipe, furtherNames, accepts_keep_keyword_cons,
    accepts_cons_of_iff fun _ _ => (reads_keep Terminal.name).accepts_attached _,
    (reads_keep Terminal.name).accepts_behindCommas_cons, accepts_endLine_cons, accepts_nil,
    Tree.addChildren_leaf, Tree.addChildren_node]
  constructor
  · intro hword
    obtain ⟨_, rfl, t, u, _, ht, rfl, ts, v, _, hts, rfl, e, _, he, rfl, rfl, rfl⟩ := hword
    exact ⟨_, by simpa using Production.varDeclaration (.intro ht hts) he, rfl⟩
  · intro hword
    obtain ⟨t, h, rfl⟩ := hword
    cases h with
    | varDeclaration hnames he =>
      obtain ⟨ht, hts⟩ := hnames
      simp only [List.append_assoc, List.cons_append]
      exact ⟨_, rfl, _, _, _, ht, rfl, _, _, _, hts, rfl, _, _, he, (List.append_nil _).symm, rfl,
        rfl⟩

theorem reads_initializationBlock :
    (recipe .initializationBlock).Reads lang (Production lang .initializationBlock) := by
  intro w before after
  simp only [recipe, accepts_keep_keyword_cons, accepts_attached_rule_cons,
    accepts_nil, Tree.addChildren_leaf]
  constructor
  · intro hword
    obtain ⟨_, rfl, t, u, _, ht, rfl, rfl, rfl⟩ := hword
    exact ⟨_, by simpa using Production.initializationBlock ht, rfl⟩
  · intro hword
    obtain ⟨t, h, rfl⟩ := hword
    cases h with
    | initializationBlock ht =>
      exact ⟨_, rfl, _, _, _, ht, (List.append_nil _).symm, rfl, rfl⟩

theorem reads_functionDefinition :
    (recipe .functionDefinition).Reads lang (Production lang .functionDefinition) := by
  intro w before after
  simp only [recipe, furtherNames, Terminal.name, accepts_drop_keyword_cons,
    accepts_node_cons, accepts_attached_keep_cons, accepts_maybe_cons, accepts_inOrder_cons,
    List.cons_append, List.nil_append, accepts_attached_rule_cons,
    (reads_rule Rule.variable).accepts_behindCommas_cons, accepts_require_cons, accepts_rule_cons,
    accepts_reduce_cons (Stack.reduce_lowest _ _ _ _), accepts_nil, Tree.addChildren_made]
  constructor
  · intro hword
    obtain ⟨_, rfl, name, _, hname, rfl, ⟨_, rfl, t, u, _, ht, rfl, ts, v, _, hts, rfl, block, w, _,
      hblock, rfl, rfl, rfl⟩ | ⟨block, w, _, hblock, rfl, rfl, rfl⟩⟩ := hword
    · exact ⟨_, by simpa using
        Production.functionDefinition hname (.present (.intro ht hts)) hblock, rfl⟩
    · exact ⟨_, by simpa using Production.functionDefinition hname .absent hblock, rfl⟩
  · intro hword
    obtain ⟨t, h, rfl⟩ := hword
    cases h with
    | functionDefinition hname hparameters hblock =>
      simp only [List.cons_append, List.nil_append]
      refine ⟨_, rfl, _, _, hname, rfl, ?_⟩
      cases hparameters with
      | absent => exact .inr ⟨_, _, _, hblock, (List.append_nil _).symm, rfl, rfl⟩
      | present hlisted =>
        obtain ⟨ht, hts⟩ := hlisted
        simp only [List.append_assoc, List.cons_append]
        exact .inl ⟨_, rfl, _, _, _, ht, rfl, _, _, _, hts, rfl, _, _, _, hblock,
          (List.append_nil _).symm, rfl, rfl⟩

theorem reads_functionCall :
    (recipe .functionCall).Reads lang (Production lang .functionCall) := by
  intro w before after
  simp only [recipe, Terminal.name, accepts_keep_ofKind_cons, accepts_node_cons,
    accepts_reduce_cons (Stack.reduce_upper _ _ _), accepts_require_cons, accepts_rule_cons,
    accepts_attach_cons, accepts_nil, Tree.addChildren_made]
  constructor
  · intro hword
    obtain ⟨name, _, hname, rfl, t, u, _, ht, rfl, rfl, rfl⟩ := hword
    exact ⟨_, by simpa using Production.functionCall hname ht, rfl⟩
  · intro hword
    obtain ⟨t, h, rfl⟩ := hword
    cases h with
    | functionCall hname ht =>
      exact ⟨_, _, hname, rfl, _, _, _, ht, (List.append_nil _).symm, rfl, rfl⟩

theorem reads_block : (recipe .block).Reads lang (Production lang .block) := by
  intro w before after
  simp only [recipe, accepts_drop_symbol_cons, accepts_node_cons,
    accepts_endLine_cons, accepts_gather_rule_cons, accepts_require_cons, accepts_nil,
    Tree.addChildren_made]
  constructor
  · intro hword
    obtain ⟨_, rfl, e, _, he, rfl, ts, u, _, hts, rfl, _, rfl, e', _, he', rfl, rfl, rfl⟩ := hword
    exact ⟨_, by simpa using Production.block he hts he', rfl⟩
  · intro hword
    obtain ⟨t, h, rfl⟩ := hword
    cases h with
    | block he hts he' =>
      simp only [List.append_assoc, List.cons_append]
      exact ⟨_, rfl, _, _, he, rfl, _, _, _, hts, rfl, _, rfl, _, _, he', (List.append_nil _).symm,
        rfl, rfl⟩

/-! ### Commands -/

theorem reads_command : (recipe .command).Reads lang (Production lang .command) := by
  refine (reads_firstOf .action [.statement]).congr fun w t => ⟨.command, fun h => ?_⟩
  cases h with
  | command h => exact h

theorem reads_action : (recipe .action).Reads lang (Production lang .action) := by
  refine (reads_firstOf .moveAction [.moveToAction, .turnAction, .turnToAction,
    .lineAction]).congr fun w t => ⟨.action, fun h => ?_⟩
  cases h with
  | action h => exact h

theorem reads_statement : (recipe .statement).Reads lang (Production lang .statement) := by
  refine (reads_firstOf .assignmentStatement [.loopStatement, .exitIfStatement, .switchStatement,
    .returnStatement, .doStatement, .colorStatement]).congr fun w t => ⟨.statement, fun h => ?_⟩
  cases h with
  | statement h => exact h

theorem reads_moveAction : (recipe .moveAction).Reads lang (Production lang .moveAction) := by
  refine (reads_keywordWithExpression "move").congr fun w t => ⟨.moveAction, fun h => ?_⟩
  cases h with
  | moveAction h => exact h

theorem reads_turnAction : (recipe .turnAction).Reads lang (Production lang .turnAction) := by
  refine (reads_keywordWithExpression "turn").congr fun w t => ⟨.turnAction, fun h => ?_⟩
  cases h with
  | turnAction h => exact h

theorem reads_turnToAction : (recipe .turnToAction).Reads lang (Production lang .turnToAction) := by
  refine (reads_keywordWithExpression "turnto").congr fun w t => ⟨.turnToAction, fun h => ?_⟩
  cases h with
  | turnToAction h => exact h

theorem reads_returnStatement :
    (recipe .returnStatement).Reads lang (Production lang .returnStatement) := by
  refine (reads_keywordWithExpression "return").congr fun w t => ⟨.returnStatement, fun h => ?_⟩
  cases h with
  | returnStatement h => exact h

theorem reads_moveToAction : (recipe .moveToAction).Reads lang (Production lang .moveToAction) := by
  intro w before after
  simp only [recipe, operandOf, furtherOperandOf, accepts_keep_keyword_cons,
    accepts_andThen_cons, accepts_attached_rule_cons, accepts_punctuation_cons,
    accepts_endLine_cons, accepts_nil, Tree.addChildren_leaf, Tree.addChildren_node]
  constructor
  · intro hword
    obtain ⟨_, rfl, x, u, _, hx, rfl, _, rfl, y, v, _, hy, rfl, e, _, he, rfl, rfl, rfl⟩ := hword
    exact ⟨_, by simpa using Production.moveToAction hx (.intro hy) he, rfl⟩
  · intro hword
    obtain ⟨t, h, rfl⟩ := hword
    cases h with
    | moveToAction hx hy he =>
      obtain ⟨hy⟩ := hy
      simp only [List.append_assoc, List.cons_append]
      exact ⟨_, rfl, _, _, _, hx, rfl, _, rfl, _, _, _, hy, rfl, _, _, he,
        (List.append_nil _).symm, rfl, rfl⟩

theorem reads_lineAction : (recipe .lineAction).Reads lang (Production lang .lineAction) := by
  intro w before after
  simp only [recipe, operandOf, furtherOperandOf, accepts_keep_keyword_cons,
    accepts_andThen_cons, accepts_attached_rule_cons, accepts_punctuation_cons,
    accepts_endLine_cons, accepts_nil, Tree.addChildren_leaf, Tree.addChildren_node]
  constructor
  · intro hword
    obtain ⟨_, rfl, x, u, _, hx, rfl, _, rfl, y, v, _, hy, rfl, _, rfl, x', u', _, hx', rfl, _, rfl,
      y', v', _, hy', rfl, e, _, he, rfl, rfl, rfl⟩ := hword
    exact ⟨_, by simpa using
      Production.lineAction hx (.intro hy) (.intro hx') (.intro hy') he, rfl⟩
  · intro hword
    obtain ⟨t, h, rfl⟩ := hword
    cases h with
    | lineAction hx hy hx' hy' he =>
      obtain ⟨hy⟩ := hy
      obtain ⟨hx'⟩ := hx'
      obtain ⟨hy'⟩ := hy'
      simp only [List.append_assoc, List.cons_append]
      exact ⟨_, rfl, _, _, _, hx, rfl, _, rfl, _, _, _, hy, rfl, _, rfl, _, _, _, hx', rfl, _, rfl,
        _, _, _, hy', rfl, _, _, he, (List.append_nil _).symm, rfl, rfl⟩

theorem reads_assignmentStatement :
    (recipe .assignmentStatement).Reads lang (Production lang .assignmentStatement) := by
  intro w before after
  simp only [recipe, accepts_rule_cons, accepts_node_cons,
    accepts_reduce_cons (Stack.reduce_upper _ _ _), accepts_punctuation_cons,
    accepts_attached_rule_cons, accepts_endLine_cons, accepts_nil, Tree.addChildren_made]
  constructor
  · intro hword
    obtain ⟨t, u, _, ht, rfl, _, rfl, x, v, _, hx, rfl, e, _, he, rfl, rfl, rfl⟩ := hword
    exact ⟨_, by simpa using Production.assignmentStatement ht hx he, rfl⟩
  · intro hword
    obtain ⟨t, h, rfl⟩ := hword
    cases h with
    | assignmentStatement ht hx he =>
      simp only [List.append_assoc, List.cons_append]
      exact ⟨_, _, _, ht, rfl, _, rfl, _, _, _, hx, rfl, _, _, he, (List.append_nil _).symm, rfl,
        rfl⟩

theorem reads_loopStatement :
    (recipe .loopStatement).Reads lang (Production lang .loopStatement) := by
  intro w before after
  simp only [recipe, accepts_keep_keyword_cons, accepts_attached_rule_cons, accepts_nil,
    Tree.addChildren_leaf]
  constructor
  · intro hword
    obtain ⟨_, rfl, t, u, _, ht, rfl, rfl, rfl⟩ := hword
    exact ⟨_, by simpa using Production.loopStatement ht, rfl⟩
  · intro hword
    obtain ⟨t, h, rfl⟩ := hword
    cases h with
    | loopStatement ht => exact ⟨_, rfl, _, _, _, ht, (List.append_nil _).symm, rfl, rfl⟩

theorem reads_exitIfStatement :
    (recipe .exitIfStatement).Reads lang (Production lang .exitIfStatement) := by
  intro w before after
  simp only [recipe, accepts_keep_keyword_cons, accepts_require_cons, accepts_drop_keyword_cons,
    accepts_attached_rule_cons, accepts_endLine_cons, accepts_nil, Tree.addChildren_leaf]
  constructor
  · intro hword
    obtain ⟨_, rfl, _, rfl, x, u, _, hx, rfl, e, _, he, rfl, rfl, rfl⟩ := hword
    exact ⟨_, by simpa using Production.exitIfStatement hx he, rfl⟩
  · intro hword
    obtain ⟨t, h, rfl⟩ := hword
    cases h with
    | exitIfStatement hx he =>
      simp only [List.cons_append, List.nil_append]
      exact ⟨_, rfl, _, rfl, _, _, _, hx, rfl, _, _, he, (List.append_nil _).symm, rfl, rfl⟩

theorem reads_switchStatement :
    (recipe .switchStatement).Reads lang (Production lang .switchStatement) := by
  intro w before after
  simp only [recipe, accepts_keep_keyword_cons, accepts_punctuation_cons, accepts_endLine_cons,
    reads_case.accepts_gather_cons, accepts_nil, Tree.addChildren_leaf]
  constructor
  · intro hword
    obtain ⟨_, rfl, _, rfl, e, _, he, rfl, ts, u, _, hts, rfl, _, rfl, e', _, he', rfl, rfl, rfl⟩ :=
      hword
    exact ⟨_, by simpa using Production.switchStatement he hts he', rfl⟩
  · intro hword
    obtain ⟨t, h, rfl⟩ := hword
    cases h with
    | switchStatement he hts he' =>
      simp only [List.append_assoc, List.cons_append, List.nil_append]
      exact ⟨_, rfl, _, rfl, _, _, he, rfl, _, _, _, hts, rfl, _, rfl, _, _, he',
        (List.append_nil _).symm, rfl, rfl⟩

theorem reads_doStatement : (recipe .doStatement).Reads lang (Production lang .doStatement) := by
  intro w before after
  simp only [recipe, accepts_drop_keyword_cons, accepts_node_cons, accepts_attached_rule_cons,
    accepts_maybe_cons, accepts_andThen_cons, accepts_rule_cons, accepts_attach_cons,
    accepts_endLine_cons, accepts_nil, Tree.addChildren_made]
  constructor
  · intro hword
    obtain ⟨_, rfl, t, u, _, ht, rfl, ⟨a, v, _, ha, rfl, e, _, he, rfl, rfl, rfl⟩ |
      ⟨e, _, he, rfl, rfl, rfl⟩⟩ := hword
    · exact ⟨_, by simpa using Production.doStatement ht (.present ha) he, rfl⟩
    · exact ⟨_, by simpa using Production.doStatement ht .absent he, rfl⟩
  · intro hword
    obtain ⟨t, h, rfl⟩ := hword
    cases h with
    | doStatement ht harguments he =>
      simp only [List.append_assoc, List.cons_append]
      refine ⟨_, rfl, _, _, _, ht, rfl, ?_⟩
      cases harguments with
      | absent => exact .inr ⟨_, _, he, (List.append_nil _).symm, rfl, rfl⟩
      | present ha => exact .inl ⟨_, _, _, ha, rfl, _, _, he, (List.append_nil _).symm, rfl, rfl⟩

theorem reads_colorStatement :
    (recipe .colorStatement).Reads lang (Production lang .colorStatement) := by
  intro w before after
  simp only [recipe, Terminal.anyKeyword, accepts_keep_keyword_cons, accepts_attached_keep_cons,
    accepts_endLine_cons, accepts_nil, Tree.addChildren_leaf]
  constructor
  · intro hword
    obtain ⟨_, rfl, color, _, hcolor, rfl, e, _, he, rfl, rfl, rfl⟩ := hword
    exact ⟨_, by simpa using Production.colorStatement hcolor he, rfl⟩
  · intro hword
    obtain ⟨t, h, rfl⟩ := hword
    cases h with
    | colorStatement hcolor he =>
      exact ⟨_, rfl, _, _, hcolor, rfl, _, _, he, (List.append_nil _).symm, rfl, rfl⟩

/-! ### Expressions -/

theorem reads_expression : (recipe .expression).Reads lang (Production lang .expression) := by
  refine (reads_leftAssociative (reads_rule .arithmeticExpression) (reads_rule .comparator)
    _).congr fun w t => ⟨.expression, fun h => ?_⟩
  cases h with
  | expression h => exact h

theorem reads_arithmeticExpression :
    (recipe .arithmeticExpression).Reads lang (Production lang .arithmeticExpression) := by
  refine (reads_leftAssociative (reads_rule .term) (reads_rule .addOperator)
    _).congr fun w t => ⟨.arithmeticExpression, fun h => ?_⟩
  cases h with
  | arithmeticExpression h => exact h

theorem reads_term : (recipe .term).Reads lang (Production lang .term) := by
  refine (reads_leftAssociative (reads_rule .factor) (reads_rule .multiplyOperator)
    _).congr fun w t => ⟨.term, fun h => ?_⟩
  cases h with
  | term h => exact h

theorem reads_factor : (recipe .factor).Reads lang (Production lang .factor) := by
  intro w before after
  simp only [recipe, firstOf, accepts_orElse, accepts_orElse_cons,
    accepts_keep_symbol_cons, accepts_attached_rule_cons, accepts_nil, Tree.addChildren_leaf]
  constructor
  · intro hword
    obtain ((⟨_, rfl, t, u, _, ht, rfl, rfl, rfl⟩ | ⟨_, rfl, t, u, _, ht, rfl, rfl, rfl⟩) |
      ⟨t, ht, rfl⟩) := hword
    · exact ⟨_, by simpa using Production.signed (by simp : "+" ∈ ["+", "-"]) ht, rfl⟩
    · exact ⟨_, by simpa using Production.signed (by simp : "-" ∈ ["+", "-"]) ht, rfl⟩
    · exact ⟨t, .unsigned ht, rfl⟩
  · intro hword
    obtain ⟨t, h, rfl⟩ := hword
    cases h with
    | signed hsign ht =>
      simp only [List.mem_cons, List.not_mem_nil, or_false] at hsign
      rcases hsign with rfl | rfl
      · exact .inl (.inl ⟨_, rfl, _, _, _, ht, (List.append_nil _).symm, rfl, rfl⟩)
      · exact .inl (.inr ⟨_, rfl, _, _, _, ht, (List.append_nil _).symm, rfl, rfl⟩)
    | unsigned ht => exact .inr ⟨t, ht, rfl⟩

theorem reads_unsignedFactor :
    (recipe .unsignedFactor).Reads lang (Production lang .unsignedFactor) := by
  intro w before after
  simp only [recipe, firstOf, Terminal.name, Terminal.number, accepts_orElse,
    accepts_keep_ofKind_cons, accepts_maybe_cons, accepts_orElse_cons, accepts_inOrder_cons,
    List.cons_append, List.nil_append, accepts_keep_symbol_cons, accepts_require_cons, operate,
    accepts_reduce_cons (Stack.reduce_between _ _ _ _), accepts_rule_cons, accepts_node_cons,
    accepts_reduce_cons (Stack.reduce_uppermost _ _ _ _), accepts_keep_ofKind,
    accepts_drop_symbol_cons, accepts_nil, Tree.addChildren_leaf, Tree.addChildren_made]
  constructor
  · intro hword
    obtain (⟨name, _, hname, rfl, (⟨_, rfl, other, _, hother, rfl, rfl, rfl⟩ |
      ⟨t, u, _, ht, rfl, rfl, rfl⟩) | ⟨rfl, rfl⟩⟩ | ⟨number, hnumber, rfl, rfl⟩ |
        ⟨_, rfl, t, u, _, ht, rfl, _, rfl, rfl, rfl⟩) := hword
    · exact ⟨_, .property hname hother, rfl⟩
    · exact ⟨_, by simpa using Production.call hname ht, rfl⟩
    · exact ⟨_, .name hname, rfl⟩
    · exact ⟨_, .number hnumber, rfl⟩
    · exact ⟨_, .parenthesized ht, rfl⟩
  · intro hword
    obtain ⟨t, h, rfl⟩ := hword
    cases h with
    | property hname hother =>
      exact .inl ⟨_, _, hname, rfl, .inl (.inl ⟨_, rfl, _, _, hother, rfl, rfl, rfl⟩)⟩
    | call hname ht =>
      exact .inl ⟨_, _, hname, rfl, .inl (.inr ⟨_, _, _, ht, (List.append_nil _).symm, rfl, rfl⟩)⟩
    | name hname => exact .inl ⟨_, _, hname, rfl, .inr ⟨rfl, rfl⟩⟩
    | number hnumber => exact .inr (.inl ⟨_, hnumber, rfl, rfl⟩)
    | parenthesized ht => exact .inr (.inr ⟨_, rfl, _, _, _, ht, rfl, _, rfl, rfl, rfl⟩)

theorem reads_parameterList :
    (recipe .parameterList).Reads lang (Production lang .parameterList) := by
  intro w before after
  simp only [recipe, accepts_maybe_cons, accepts_inOrder_cons, List.cons_append, List.nil_append,
    accepts_node_cons, accepts_rule_cons, accepts_attach_cons,
    (reads_rule Rule.expression).accepts_behindCommas_cons, accepts_punctuation_cons, accepts_nil,
    accepts_drop_symbol_cons, Tree.addChildren_made]
  constructor
  · intro hword
    obtain ⟨_, rfl, ⟨t, u, _, ht, rfl, ts, v, _, hts, rfl, _, rfl, rfl, rfl⟩ |
      ⟨_, rfl, rfl, rfl⟩⟩ := hword
    · exact ⟨_, by simpa using Production.parameterList (.present (.intro ht hts)), rfl⟩
    · exact ⟨_, .parameterList .absent, rfl⟩
  · intro hword
    obtain ⟨t, h, rfl⟩ := hword
    cases h with
    | parameterList harguments =>
      refine ⟨_, rfl, ?_⟩
      cases harguments with
      | absent => exact .inr ⟨_, rfl, rfl, rfl⟩
      | present hlisted =>
        obtain ⟨ht, hts⟩ := hlisted
        rw [List.append_eq, List.append_assoc]
        exact .inl ⟨_, _, _, ht, rfl, _, _, _, hts, rfl, _, rfl, rfl, rfl⟩

theorem reads_addOperator : (recipe .addOperator).Reads lang (Production lang .addOperator) := by
  intro w before after
  simp only [recipe, firstOf, accepts_orElse, accepts_keep_symbol]
  constructor
  · intro hword
    obtain (⟨rfl, rfl⟩ | ⟨rfl, rfl⟩) := hword
    · exact ⟨_, .addOperator (by simp), rfl⟩
    · exact ⟨_, .addOperator (by simp), rfl⟩
  · intro hword
    obtain ⟨t, h, rfl⟩ := hword
    cases h with
    | addOperator htext =>
      simp only [List.mem_cons, List.not_mem_nil, or_false] at htext
      rcases htext with rfl | rfl
      · exact .inl ⟨rfl, rfl⟩
      · exact .inr ⟨rfl, rfl⟩

theorem reads_multiplyOperator :
    (recipe .multiplyOperator).Reads lang (Production lang .multiplyOperator) := by
  intro w before after
  simp only [recipe, firstOf, accepts_orElse, accepts_keep_symbol]
  constructor
  · intro hword
    obtain (⟨rfl, rfl⟩ | ⟨rfl, rfl⟩) := hword
    · exact ⟨_, .multiplyOperator (by simp), rfl⟩
    · exact ⟨_, .multiplyOperator (by simp), rfl⟩
  · intro hword
    obtain ⟨t, h, rfl⟩ := hword
    cases h with
    | multiplyOperator htext =>
      simp only [List.mem_cons, List.not_mem_nil, or_false] at htext
      rcases htext with rfl | rfl
      · exact .inl ⟨rfl, rfl⟩
      · exact .inr ⟨rfl, rfl⟩

/-- The tokens of the merged comparators are symbols. -/
theorem ofText_mergedComparator {text : String} (h : text ∈ ["<", ">", "!"]) :
    Token.ofText (text ++ "=") = .symbol (text ++ "=") := by
  revert text
  decide

theorem reads_comparator : (recipe .comparator).Reads lang (Production lang .comparator) := by
  have hless : Tree.made "<=" [] = .leaf (.symbol ("<" ++ "=")) :=
    congrArg (Tree.node · []) (ofText_mergedComparator (by simp : "<" ∈ ["<", ">", "!"]))
  have hgreater : Tree.made ">=" [] = .leaf (.symbol (">" ++ "=")) :=
    congrArg (Tree.node · []) (ofText_mergedComparator (by simp : ">" ∈ ["<", ">", "!"]))
  have hother : Tree.made "!=" [] = .leaf (.symbol ("!" ++ "=")) :=
    congrArg (Tree.node · []) (ofText_mergedComparator (by simp : "!" ∈ ["<", ">", "!"]))
  intro w before after
  simp only [recipe, firstOf, accepts_orElse, accepts_comparatorWithEquals,
    accepts_keep_symbol_cons, accepts_require_cons, accepts_drop_symbol_cons, accepts_keep_symbol,
    hless, hgreater]
  constructor
  · intro hword
    obtain ((⟨rfl, rfl⟩ | ⟨rfl, rfl⟩) | (⟨rfl, rfl⟩ | ⟨rfl, rfl⟩) |
      ⟨_, rfl, _, rfl, rfl, top, below, htop, rfl⟩ | ⟨rfl, rfl⟩) := hword
    · exact ⟨_, .mergedComparator (by simp), rfl⟩
    · exact ⟨_, .comparator (by simp), rfl⟩
    · exact ⟨_, .mergedComparator (by simp), rfl⟩
    · exact ⟨_, .comparator (by simp), rfl⟩
    · obtain ⟨-, rfl⟩ := List.cons.inj htop
      rw [hother]
      exact ⟨_, .mergedComparator (by simp), rfl⟩
    · exact ⟨_, .comparator (by simp), rfl⟩
  · intro hword
    obtain ⟨t, h, rfl⟩ := hword
    cases h with
    | comparator htext =>
      simp only [List.mem_cons, List.not_mem_nil, or_false] at htext
      rcases htext with rfl | rfl | rfl
      · exact .inl (.inr ⟨rfl, rfl⟩)
      · exact .inr (.inl (.inr ⟨rfl, rfl⟩))
      · exact .inr (.inr (.inr ⟨rfl, rfl⟩))
    | mergedComparator htext =>
      simp only [List.mem_cons, List.not_mem_nil, or_false] at htext
      rcases htext with rfl | rfl | rfl
      · exact .inl (.inl ⟨rfl, rfl⟩)
      · exact .inr (.inl (.inl ⟨rfl, rfl⟩))
      · exact .inr (.inr (.inl ⟨_, rfl, _, rfl, rfl, _, _, rfl, by rw [hother]⟩))

theorem reads_variable : (recipe .variable).Reads lang (Production lang .variable) := by
  intro w before after
  refine accepts_keep_ofKind.trans ?_
  constructor
  · intro hword
    obtain ⟨name, hname, rfl, rfl⟩ := hword
    exact ⟨_, .variableName hname, rfl⟩
  · intro hword
    obtain ⟨t, h, rfl⟩ := hword
    cases h with
    | variableName hname => exact ⟨_, hname, rfl, rfl⟩

theorem reads_lineEnd : (recipe .lineEnd).Reads lang (Production lang .lineEnd) := by
  intro w before after
  simp only [recipe, accepts_andThen, Terminal.lineEnd, accepts_keep_ofKind_cons]
  constructor
  · intro hword
    obtain ⟨a, v, ha, rfl, hothers⟩ := hword
    obtain ⟨hv, rfl⟩ := accepts_many_drop_lineEnd.mp hothers
    exact ⟨_, .lineEnd ha hv, rfl⟩
  · intro hword
    obtain ⟨t, h, rfl⟩ := hword
    cases h with
    | lineEnd ha hothers => exact ⟨_, _, ha, rfl, accepts_many_drop_lineEnd.mpr ⟨hothers, rfl⟩⟩

/-- **The recipes are right.**  The recipe of every rule reads the words and makes the trees
of its productions. -/
theorem reads_recipe (rule : Rule) : (recipe rule).Reads lang (Production lang rule) := by
  cases rule with
  | program => exact reads_program
  | allbugsCode => exact reads_allbugsCode
  | bugDefinition => exact reads_bugDefinition
  | varDeclaration => exact reads_varDeclaration
  | initializationBlock => exact reads_initializationBlock
  | functionDefinition => exact reads_functionDefinition
  | functionCall => exact reads_functionCall
  | block => exact reads_block
  | command => exact reads_command
  | action => exact reads_action
  | statement => exact reads_statement
  | moveAction => exact reads_moveAction
  | moveToAction => exact reads_moveToAction
  | turnAction => exact reads_turnAction
  | turnToAction => exact reads_turnToAction
  | lineAction => exact reads_lineAction
  | assignmentStatement => exact reads_assignmentStatement
  | loopStatement => exact reads_loopStatement
  | exitIfStatement => exact reads_exitIfStatement
  | switchStatement => exact reads_switchStatement
  | returnStatement => exact reads_returnStatement
  | doStatement => exact reads_doStatement
  | colorStatement => exact reads_colorStatement
  | expression => exact reads_expression
  | arithmeticExpression => exact reads_arithmeticExpression
  | term => exact reads_term
  | factor => exact reads_factor
  | unsignedFactor => exact reads_unsignedFactor
  | parameterList => exact reads_parameterList
  | addOperator => exact reads_addOperator
  | multiplyOperator => exact reads_multiplyOperator
  | comparator => exact reads_comparator
  | «variable» => exact reads_variable
  | lineEnd => exact reads_lineEnd

end BugLang.Grammar
