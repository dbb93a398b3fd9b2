import BugLang.Proofs.Printing
import BugLang.Proofs.Programs

/-!
# Printing a tree and reading it back

The printed form of a tree is a sentence of the rule that the tree is of, and its tree is the
same one.  So a tree keeps all of its sentence but the layout: sources with different trees
are printed differently, whatever names they use.

The proof follows the productions.  A part of a tree is known to read back when the tree is
put together, and for the part of an expression this is known in two ways: it reads back as
an expression on its own, and as an operand, in parentheses where it needs them.

* `Derives.reads_back`: this for all rules.
* `Derives.eq_iff_printed_eq`: trees of a rule are equal if they are printed alike.
* `parse_of_printed`: this for whole programs.
-/

namespace BugLang

open Printed

section Phrases

variable {phrase phrase' operands operators : Phrase}

/-- Phrases in a row are printed one behind the other. -/
theorem Sequence.printed {w : List Token} {ts : List Tree} (h : Sequence phrase w ts)
    (print : Tree → List Token) (hprint : ∀ u t, phrase u t → phrase' (print t) t) :
    Sequence phrase' (ts.flatMap print) ts := by
  induction h with
  | nil => exact .nil
  | cons hfirst _ ih => exact .cons (hprint _ _ hfirst) ih

/-- A token that does not show in the tree is printed again. -/
theorem Behind.printed {mark : Token} {w : List Token} {t : Tree} (h : Behind mark phrase w t)
    (print : Tree → List Token) (hprint : ∀ u t, phrase u t → phrase' (print t) t) :
    Behind mark phrase' (mark :: print t) t := by
  obtain ⟨hphrase⟩ := h
  exact .intro (hprint _ t hphrase)

/-- Phrases with commas between them are printed with commas between them. -/
theorem Listed.printed {w : List Token} {ts : List Tree} (h : Listed phrase w ts)
    (print : Tree → List Token) (hprint : ∀ u t, phrase u t → phrase' (print t) t) :
    Listed phrase' (commaSeparated (ts.map print)) ts := by
  obtain ⟨hfirst, hothers⟩ := h
  have hrest := hothers.printed (.symbol "," :: print ·) fun _ _ hbehind =>
    hbehind.printed print hprint
  rw [List.map_cons, commaSeparated_cons, List.flatMap_map]
  exact .intro (hprint _ _ hfirst) hrest

/-- What may be missing is printed if it is there. -/
theorem Perhaps.printed {w : List Token} {ts : List Tree} (h : Perhaps phrase w ts)
    (print : Tree → List Token) (hprint : ∀ u t, phrase u t → phrase' (print t) t) :
    Perhaps phrase' (ts.flatMap print) ts := by
  cases h with
  | absent => exact .absent
  | present hphrase =>
    rw [List.flatMap_singleton]
    exact .present (hprint _ _ hphrase)

/-- Names with commas between them are printed as expressions are. -/
theorem Listed.printed_names {w : List Token} {ts : List Tree} (h : Listed (Single .name) w ts) :
    Listed (Single .name) (commaSeparated (expressions ts)) ts := by
  rw [expressions_eq_map]
  refine h.printed expression fun u t hsingle => ?_
  obtain ⟨hfits⟩ := hsingle
  exact .intro hfits

/-- An operand alone binds to the left. -/
theorem LeftAssociative.of_operand {w : List Token} {t : Tree} (h : operands w t) :
    LeftAssociative operands operators w t := by
  have hall : LeftAssociative operands operators (w ++ []) t := .intro h .nil
  rwa [List.append_nil] at hall

/-- One more operator and operand may follow operands that are put together. -/
theorem LeftAssociative.snoc {u v w : List Token} {left root right : Tree}
    (hleft : LeftAssociative operands operators u left) (hroot : operators v root)
    (hright : operands w right) :
    LeftAssociative operands operators (u ++ v ++ w) (root.addChildren [left, right]) := by
  obtain ⟨hfirst, hothers⟩ := hleft
  rw [List.append_assoc, List.append_assoc]
  refine .intro hfirst ?_
  clear hfirst
  induction hothers with
  | nil => simpa using Folded.cons hroot hright .nil
  | cons hoperator hoperand _ ih =>
    rw [List.append_assoc]
    exact .cons hoperator hoperand ih

/-- Two operands with an operator between them. -/
theorem LeftAssociative.binary {u v w : List Token} {left root right : Tree}
    (hleft : operands u left) (hroot : operators v root) (hright : operands w right) :
    LeftAssociative operands operators (u ++ v ++ w) (root.addChildren [left, right]) :=
  (LeftAssociative.of_operand hleft).snoc hroot hright

/-- What holds of the operands and is kept by every operator holds of the whole. -/
theorem LeftAssociative.induct {holds : Tree → Prop} {w : List Token} {t : Tree}
    (h : LeftAssociative operands operators w t) (hoperand : ∀ u x, operands u x → holds x)
    (hoperator : ∀ v root left right, operators v root → holds left → holds right →
      holds (root.addChildren [left, right])) : holds t := by
  obtain ⟨hleft, hothers⟩ := h
  have hstart := hoperand _ _ hleft
  clear hleft
  induction hothers with
  | nil => exact hstart
  | cons hroot hright _ ih => exact ih (hoperator _ _ _ _ hroot hstart (hoperand _ _ hright))

end Phrases

namespace Derives

/-- A factor needs no sign. -/
theorem factor {w : List Token} {t : Tree} (h : Derives .unsignedFactor w t) :
    Derives .factor w t :=
  of_production (.unsigned h)

/-- A factor is a term. -/
theorem term {w : List Token} {t : Tree} (h : Derives .factor w t) : Derives .term w t :=
  of_production (.term (.of_operand h))

/-- A term is an arithmetic expression. -/
theorem arithmeticExpression {w : List Token} {t : Tree} (h : Derives .term w t) :
    Derives .arithmeticExpression w t :=
  of_production (.arithmeticExpression (.of_operand h))

/-- An arithmetic expression is an expression. -/
theorem expression {w : List Token} {t : Tree} (h : Derives .arithmeticExpression w t) :
    Derives .expression w t :=
  of_production (.expression (.of_operand h))

/-- A variable is a name. -/
theorem exists_name {w : List Token} {t : Tree} (h : Derives .variable w t) :
    ∃ name, name.kind = .name ∧ t = .leaf name := by
  cases h.production with
  | variableName hname => exact ⟨_, hname, rfl⟩

end Derives

namespace Printed

/-- The texts of operators with two operands. -/
def operators : List String :=
  ["+", "-", "*", "/", "<", ">", "=", "<=", ">=", "!="]

/-- An operator is printed between its operands. -/
theorem expression_binary {text : String} (h : text ∈ operators) (x y : Tree) :
    expression (.node (.symbol text) [x, y]) =
      operand x ++ operator (.symbol text) ++ operand y := by
  simp only [operators, List.mem_cons, List.not_mem_nil, or_false] at h
  rcases h with rfl | rfl | rfl | rfl | rfl | rfl | rfl | rfl | rfl | rfl <;> rfl

/-- An operand with a sign stands in parentheses, and the comparator has two symbols. -/
example :
    expression (.node (.symbol "<=")
        [.node (.symbol "-") [.leaf ⟨.name, "a"⟩], .leaf ⟨.name, "b"⟩]) =
      [.symbol "(", .symbol "-", ⟨.name, "a"⟩, .symbol ")", .symbol "<", .symbol "=",
       ⟨.name, "b"⟩] := rfl

end Printed

/-- Operators are printed as they are. -/
theorem Derives.exists_operator {rule : Rule} {w : List Token} {root : Tree}
    (hrule : rule ∈ [Rule.addOperator, .multiplyOperator, .comparator]) (h : Derives rule w root) :
    ∃ text ∈ operators, root = .leaf (.symbol text) ∧ w = operator (.symbol text) := by
  simp only [List.mem_cons, List.not_mem_nil, or_false] at hrule
  rcases hrule with rfl | rfl | rfl
  · cases h.production with
    | addOperator htext =>
      simp only [List.mem_cons, List.not_mem_nil, or_false] at htext
      rcases htext with rfl | rfl <;> exact ⟨_, by decide, rfl, rfl⟩
  · cases h.production with
    | multiplyOperator htext =>
      simp only [List.mem_cons, List.not_mem_nil, or_false] at htext
      rcases htext with rfl | rfl <;> exact ⟨_, by decide, rfl, rfl⟩
  · cases h.production with
    | comparator htext =>
      simp only [List.mem_cons, List.not_mem_nil, or_false] at htext
      rcases htext with rfl | rfl | rfl <;> exact ⟨_, by decide, rfl, rfl⟩
    | mergedComparator htext =>
      simp only [List.mem_cons, List.not_mem_nil, or_false] at htext
      rcases htext with rfl | rfl | rfl <;> exact ⟨_, by decide, rfl, by decide⟩

/-- Where an operator is printed alone, it is printed as it was read. -/
theorem Derives.printed_operator {rule : Rule} {w : List Token} {root : Tree}
    (hrule : rule ∈ [Rule.addOperator, .multiplyOperator, .comparator]) (h : Derives rule w root) :
    Derives rule (operator root.value) root := by
  obtain ⟨text, -, rfl, rfl⟩ := h.exists_operator hrule
  exact h

/-- Whether a tree reads back as an expression of its own and as an operand. -/
structure ReadsBack (t : Tree) : Prop where
  expression : Derives .expression (Printed.expression t) t
  operand : Derives .unsignedFactor (Printed.operand t) t

namespace ReadsBack

/-- A single token needs no parentheses. -/
theorem of_leaf {a : Token} (h : Derives .unsignedFactor [a] (.leaf a)) : ReadsBack (.leaf a) :=
  ⟨h.factor.term.arithmeticExpression.expression, h⟩

/-- An expression of several tokens reads back as an operand when it is put in parentheses. -/
theorem of_compound {t : Tree} (hleaf : t.isLeaf = false)
    (h : Derives .expression (Printed.expression t) t) : ReadsBack t := by
  refine ⟨h, ?_⟩
  rw [Printed.operand, enclosed, if_neg (by rw [hleaf]; exact Bool.false_ne_true)]
  exact .of_production (.parenthesized h)

/-- An operator between operands that read back. -/
theorem binary {rule : Rule} {v : List Token} {root left right : Tree}
    (hrule : rule ∈ [Rule.addOperator, .multiplyOperator, .comparator])
    (hroot : Derives rule v root) (hleft : ReadsBack left) (hright : ReadsBack right) :
    ReadsBack (root.addChildren [left, right]) := by
  obtain ⟨text, htext, rfl, rfl⟩ := hroot.exists_operator hrule
  refine of_compound rfl ?_
  change Derives .expression (Printed.expression (.node (.symbol text) [left, right])) _
  rw [expression_binary htext]
  have hfirst := hleft.operand.factor
  have hsecond := hright.operand.factor
  simp only [List.mem_cons, List.not_mem_nil, or_false] at hrule
  rcases hrule with rfl | rfl | rfl
  · exact (Derives.of_production
      (.arithmeticExpression (.binary hfirst.term hroot hsecond.term))).expression
  · exact (Derives.of_production
      (.term (.binary hfirst hroot hsecond))).arithmeticExpression.expression
  · exact Derives.of_production (.expression (.binary hfirst.term.arithmeticExpression hroot
      hsecond.term.arithmeticExpression))

end ReadsBack

/-- What is known of a tree of a rule: its printed form is a sentence of the rule with this
tree.  A tree of an expression reads back in both ways. -/
def Rule.Prints : Rule → Tree → Prop
  | .expression, t | .arithmeticExpression, t | .term, t | .factor, t | .unsignedFactor, t =>
    ReadsBack t
  | rule, t => Derives rule (printed rule t) t

/-- What reads back in both ways is printed as a sentence of the rule. -/
theorem Rule.Prints.derives {rule : Rule} {t : Tree} (h : rule.Prints t) :
    Derives rule (printed rule t) t := by
  cases rule with
  | expression => exact ReadsBack.expression h
  | arithmeticExpression => exact (ReadsBack.operand h).factor.term.arithmeticExpression
  | term => exact (ReadsBack.operand h).factor.term
  | factor => exact (ReadsBack.operand h).factor
  | unsignedFactor => exact ReadsBack.operand h
  | _ => exact h

/-- One line end ends a line. -/
theorem lineEnds_singleton : LineEnds [.lineEnd] :=
  ⟨List.cons_ne_nil _ _, List.forall_mem_singleton.mpr rfl⟩

/-- The parameters of a function, which are variables. -/
theorem Parameters.printed {parts : Language} {w : List Token} {ts : List Tree}
    (hderives : ∀ part u s, parts part u s → Derives part u s) (h : Parameters parts w ts) :
    Parameters Derives (parameters ts) ts := by
  cases h with
  | absent => exact .absent
  | present hnames =>
    have hprinted : Listed (Derives .variable) (commaSeparated (expressions ts)) ts := by
      rw [expressions_eq_map]
      refine hnames.printed expression fun u s hpart => ?_
      obtain ⟨name, hname, rfl⟩ := (hderives _ u s hpart).exists_name
      exact .of_production (.variableName hname)
    cases hnames with
    | intro => exact .present hprinted

section Parts

variable {parts : Language} {w : List Token} {t : Tree} {ts : List Tree}
  (hprints : ∀ part u s, parts part u s → part.Prints s)

include hprints

/-- An expression is printed as an expression. -/
theorem printed_expression (u : List Token) (s : Tree) (h : parts .expression u s) :
    Derives .expression (expression s) s :=
  ReadsBack.expression (hprints .expression u s h)

/-- Commands are printed one behind the other. -/
theorem Sequence.printed_commands (h : Sequence (parts .command) w ts) :
    Sequence (Derives .command) (commands ts) ts := by
  rw [commands_eq_flatMap]
  exact h.printed command (hprints .command)

/-- The arguments of a call. -/
theorem Arguments.printed (h : Arguments parts w ts) :
    Arguments Derives (commaSeparated (expressions ts)) ts := by
  cases h with
  | absent => exact .absent
  | present hlisted =>
    rw [expressions_eq_map]
    exact .present (hlisted.printed expression (printed_expression hprints))

/-- A phrase of one of some rules, if it is printed alike for all of them. -/
theorem OneOf.printed {rules : List Rule} (h : OneOf parts rules w t)
    (hrules : ∀ rule ∈ rules, printed rule t = command t) : OneOf Derives rules (command t) t := by
  obtain ⟨hrule, hpart⟩ := h
  rw [← hrules _ hrule]
  exact .intro hrule (hprints _ _ _ hpart).derives

/-- A keyword and an expression on a line. -/
theorem KeywordAndExpression.printed {word : String} (h : KeywordAndExpression parts word w t)
    (hword : word ∈ ["move", "turn", "turnto", "return"]) :
    KeywordAndExpression Derives word (command t) t := by
  obtain ⟨hexpression, -⟩ := h
  have hx := printed_expression hprints _ _ hexpression
  have hline : KeywordAndExpression Derives word (.keyword word :: expression _ ++ [.lineEnd]) _ :=
    .intro hx lineEnds_singleton
  simp only [List.mem_cons, List.not_mem_nil, or_false] at hword
  rcases hword with rfl | rfl | rfl | rfl <;> exact hline

/-- A case with its commands. -/
theorem Case.printed (h : Case parts w t) : Case Derives (command t) t := by
  obtain ⟨hexpression, -, hcommands⟩ := h
  have hx := printed_expression hprints _ _ hexpression
  have hcase := Case.intro hx lineEnds_singleton (hcommands.printed_commands hprints)
  change Case Derives (.keyword "case" :: (expression _ ++ .lineEnd :: commands _)) _
  simpa using hcase

/-- The block that a bug runs first is written out also where there is none. -/
theorem FirstBlock.printed (h : FirstBlock parts w t) :
    Derives .initializationBlock (firstBlock t) t := by
  cases h with
  | absent =>
    exact .of_production (.initializationBlock (.of_production
      (.block lineEnds_singleton .nil lineEnds_singleton)))
  | present hpart => exact hprints .initializationBlock _ _ hpart

/-- Code that is not there is not printed. -/
theorem SharedCode.printed (h : SharedCode parts w t) : SharedCode Derives (sharedCode t) t := by
  cases h with
  | absent => exact .absent
  | present hpart => exact .present (hprints .allbugsCode _ _ hpart)

/-- **One production.**  What is printed of a tree is a sentence of its rule, if this is so for
its parts. -/
theorem prints_of_production (hderives : ∀ part u s, parts part u s → Derives part u s)
    {rule : Rule} (h : Production parts rule w t) : rule.Prints t := by
  have hexpression := printed_expression hprints
  cases h with
  | program hshared hfirst hothers hend =>
    have hword := Production.program (hshared.printed hprints) (hprints .bugDefinition _ _ hfirst)
      (hothers.printed bug (hprints .bugDefinition)) (e := .endOfInput) rfl
    refine Derives.of_production ?_
    simpa [printed, program, Tree.made] using hword
  | allbugsCode _ hvars hfunctions _ =>
    have hword := Production.allbugsCode lineEnds_singleton
      (hvars.printed declaration (hprints .varDeclaration))
      (hfunctions.printed function (hprints .functionDefinition)) lineEnds_singleton
    refine Derives.of_production ?_
    simpa [printed, sharedCode, braced, Tree.made] using hword
  | bugDefinition hname _ hvars hstart hcommand hcommands hfunctions _ =>
    have hword := Production.bugDefinition hname lineEnds_singleton
      (hvars.printed declaration (hprints .varDeclaration))
      (.present (hstart.printed hprints)) (hprints .command _ _ hcommand)
      (hcommands.printed_commands hprints)
      (hfunctions.printed function (hprints .functionDefinition)) lineEnds_singleton
    refine Derives.of_production ?_
    simpa [printed, bug, braced, commands, Tree.made, Tree.leaf, Tree.value] using hword
  | varDeclaration hnames _ =>
    exact .of_production (.varDeclaration hnames.printed_names lineEnds_singleton)
  | initializationBlock hblock =>
    have hword := Production.initializationBlock (hprints .block _ _ hblock)
    refine Derives.of_production ?_
    simpa [printed, firstBlock, commands] using hword
  | functionDefinition hname hparameters hblock =>
    exact .of_production (.functionDefinition hname (Parameters.printed hderives hparameters)
      (hprints .block _ _ hblock))
  | functionCall hname harguments =>
    exact .of_production (.functionCall hname (hprints .parameterList _ _ harguments))
  | block _ hcommands _ =>
    have hword := Production.block lineEnds_singleton (hcommands.printed_commands hprints)
      lineEnds_singleton
    refine Derives.of_production ?_
    change Production Derives .block (braced (commands _)) _
    simpa [braced] using hword
  | command h => exact .of_production (.command (h.printed hprints (by simp [printed])))
  | action h => exact .of_production (.action (h.printed hprints (by simp [printed])))
  | statement h => exact .of_production (.statement (h.printed hprints (by simp [printed])))
  | moveAction h => exact .of_production (.moveAction (h.printed hprints (by simp)))
  | turnAction h => exact .of_production (.turnAction (h.printed hprints (by simp)))
  | turnToAction h => exact .of_production (.turnToAction (h.printed hprints (by simp)))
  | returnStatement h => exact .of_production (.returnStatement (h.printed hprints (by simp)))
  | moveToAction hx hy _ =>
    exact .of_production (.moveToAction (hexpression _ _ hx) (hy.printed expression hexpression)
      lineEnds_singleton)
  | lineAction hx hy hx' hy' _ =>
    have hword := Production.lineAction (hexpression _ _ hx) (hy.printed expression hexpression)
      (hx'.printed expression hexpression) (hy'.printed expression hexpression) lineEnds_singleton
    refine Derives.of_production ?_
    change Production Derives .lineAction
      (.keyword "line" :: commaSeparated (expressions _) ++ [.lineEnd]) _
    simpa [expressions, commaSeparated] using hword
  | assignmentStatement htarget hx _ =>
    obtain ⟨name, hname, rfl⟩ := (hderives _ _ _ htarget).exists_name
    exact .of_production (.assignmentStatement (.of_production (.variableName hname))
      (hexpression _ _ hx) lineEnds_singleton)
  | loopStatement hblock =>
    have hword := Production.loopStatement (hprints .block _ _ hblock)
    refine Derives.of_production ?_
    change Production Derives .loopStatement (.keyword "loop" :: commands [_]) _
    simpa [printed, commands] using hword
  | exitIfStatement hx _ =>
    exact .of_production (.exitIfStatement (hexpression _ _ hx) lineEnds_singleton)
  | switchStatement _ hcases _ =>
    have hword := Production.switchStatement lineEnds_singleton
      (hcases.printed command fun _ _ hcase => hcase.printed hprints) lineEnds_singleton
    refine Derives.of_production ?_
    change Production Derives .switchStatement (.keyword "switch" :: braced (commands _)) _
    simpa [braced, commands_eq_flatMap] using hword
  | doStatement hcalled harguments _ =>
    obtain ⟨name, hname, rfl⟩ := (hderives _ _ _ hcalled).exists_name
    have hword := Production.doStatement (.of_production (.variableName hname))
      (harguments.printed parameterList (hprints .parameterList)) lineEnds_singleton
    exact .of_production hword
  | colorStatement hcolor _ => exact .of_production (.colorStatement hcolor lineEnds_singleton)
  | expression h =>
    exact h.induct (hprints .arithmeticExpression) fun v root left right hroot =>
      ReadsBack.binary (by simp) (hderives .comparator v root hroot)
  | arithmeticExpression h =>
    exact h.induct (hprints .term) fun v root left right hroot =>
      ReadsBack.binary (by simp) (hderives .addOperator v root hroot)
  | term h =>
    exact h.induct (hprints .factor) fun v root left right hroot =>
      ReadsBack.binary (by simp) (hderives .multiplyOperator v root hroot)
  | signed hsign hoperand =>
    have hx := ReadsBack.operand (hprints .unsignedFactor _ _ hoperand)
    have hsigned := Derives.of_production (.signed hsign hx)
    exact ReadsBack.of_compound rfl hsigned.term.arithmeticExpression.expression
  | unsigned hoperand => exact hprints .unsignedFactor _ _ hoperand
  | property hobject hname =>
    have hproperty := Derives.of_production (.property hobject hname)
    exact ReadsBack.of_compound rfl hproperty.factor.term.arithmeticExpression.expression
  | call hname harguments =>
    have hcall := Derives.of_production
      (.call hname (hprints .parameterList _ _ harguments))
    exact ReadsBack.of_compound rfl hcall.factor.term.arithmeticExpression.expression
  | name hname => exact ReadsBack.of_leaf (.of_production (.name hname))
  | number hnumber => exact ReadsBack.of_leaf (.of_production (.number hnumber))
  | parenthesized hx => exact hprints .expression _ _ hx
  | parameterList harguments =>
    exact .of_production (.parameterList (harguments.printed hprints))
  | addOperator htext =>
    exact Derives.printed_operator (by simp) (.of_production (.addOperator htext))
  | multiplyOperator htext =>
    exact Derives.printed_operator (by simp) (.of_production (.multiplyOperator htext))
  | comparator htext =>
    exact Derives.printed_operator (by simp) (.of_production (.comparator htext))
  | mergedComparator htext =>
    exact Derives.printed_operator (by simp) (.of_production (.mergedComparator htext))
  | variableName hname => exact .of_production (.variableName hname)
  | lineEnd hfirst _ => exact .of_production (.lineEnd hfirst (List.forall_mem_nil _))

end Parts

/-- What is known of the trees of a rule. -/
theorem Derives.prints {rule : Rule} {w : List Token} {t : Tree} (h : Derives rule w t) :
    rule.Prints t := by
  induction h with
  | of hparts hproduction ih => exact prints_of_production ih hparts hproduction

/-- **Printing and reading back.**  What is printed of a tree of a rule is a sentence of the
rule, and its tree is the same. -/
theorem Derives.reads_back {rule : Rule} {w : List Token} {t : Tree} (h : Derives rule w t) :
    Derives rule (printed rule t) t :=
  h.prints.derives

/-- Trees of a rule are equal if they are printed alike. -/
theorem Derives.eq_iff_printed_eq {rule : Rule} {w w' : List Token} {t t' : Tree}
    (h : Derives rule w t) (h' : Derives rule w' t') :
    t = t' ↔ printed rule t = printed rule t' := by
  constructor
  · intro htree
    rw [htree]
  · intro hprinted
    have hback := h'.reads_back
    rw [← hprinted] at hback
    exact h.reads_back.unique hback

/-- The tree of a source is the tree of a program. -/
theorem exists_derives_of_parse {source : String} {t : Tree} (h : parse source = .ok t) :
    ∃ w, Derives .program w t :=
  ⟨_, ProgramText.iff_derives_dropWhile.mp (parse_eq_ok_iff.mp h)⟩

/-- **Trees lose nothing but layout.**  What is printed of the tree of a source is a program
with the same tree, and every source with these tokens is parsed to it.  The trees of two
sources are equal just where they are printed alike. -/
theorem parse_of_printed {source : String} {t : Tree} (h : parse source = .ok t) :
    Derives .program (Printed.program t ++ [.endOfInput]) t ∧
      (∀ source', (Located.ofSource source').map Located.token =
        Printed.program t ++ [.endOfInput] → parse source' = .ok t) ∧
      ∀ source' t', parse source' = .ok t' →
        (t = t' ↔ Printed.program t = Printed.program t') := by
  obtain ⟨w, hderives⟩ := exists_derives_of_parse h
  have hback : Derives .program (Printed.program t ++ [.endOfInput]) t := hderives.reads_back
  refine ⟨hback, ?_, ?_⟩
  · intro source' htokens
    rw [parse_eq_ok_iff, htokens]
    exact .intro (e := []) nofun hback
  · intro source' t' h'
    obtain ⟨w', hderives'⟩ := exists_derives_of_parse h'
    exact (hderives.eq_iff_printed_eq hderives').trans (List.append_left_inj _)

/-- The names of this program are words that trees have at roots without a token: it calls
`call` as a command and in an expression.  Printed, it says what the bug runs first, and has
an operand in parentheses. -/
theorem parse_of_printed_synthesized_names :
    let name := fun text => Tree.leaf ⟨.name, text⟩
    let tree := Tree.made "program" [.made "Allbugs" [], .made "list" [.node (.keyword "Bug")
      [name "program",
       .made "list" [.node (.keyword "var") [name "list"]],
       .made "initially" [.made "block" []],
       .made "block"
        [.made "assign" [name "assign",
          .made "call" [name "call",
            .made "var" [name "list", .node (.symbol "-") [name "block"]]]],
         .made "call" [name "call"],
         .made "call" [name "function", .made "var" [.node (.symbol "<=")
          [.leaf ⟨.number, "1.0"⟩, .node (.symbol ".") [name "assign", name "list"]]]]],
       .made "list" []]]]
    let source := "Bug program \x7b\nvar list\n" ++
      "assign = call(list, -block)\ndo call\n\ndo function(1<=assign.list)\n\x7d\n"
    let written := "Bug program \x7b\nvar list\ninitially \x7b\n\x7d\n" ++
      "assign=call(list,-block)\ndo call\ndo function(1.0<=(assign.list))\n\x7d\n"
    parse source = .ok tree ∧
      (Located.ofSource written).map Located.token = Printed.program tree ++ [.endOfInput] ∧
      parse written = .ok tree := by
  intro name tree source written
  have hparse : parse source = .ok tree := by decide +kernel
  have htokens : (Located.ofSource written).map Located.token =
      Printed.program tree ++ [.endOfInput] := by decide +kernel
  exact ⟨hparse, htokens, (parse_of_printed hparse).2.1 written htokens⟩

end BugLang
