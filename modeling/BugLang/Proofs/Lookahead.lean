import BugLang.Proofs.Progress

/-!
# One token decides

The grammar decides by the next token alone.  `Rule.first` lists what a rule may start
with, and `Recipe.first` does so for a recipe.  Some recipes are certain: they are never
declined.  In the grammar only the first part of a row of recipes may be declined, so a
recipe that is declined has taken no token and moved no entry of the stack.

* `Recipe.Run.of_declined`: a recipe that is declined has done nothing, and the next token
  is none that it may start with.
* `Recipe.declined_of_head`: a recipe is declined if the next token is none that it may start
  with, unless it is certain.
-/

namespace BugLang

open Stream'

namespace Rule

/-- What an action may start with. -/
def firstOfAction : List Terminal :=
  [.keyword "move", .keyword "moveto", .keyword "turn", .keyword "turnto", .keyword "line"]

/-- What a statement may start with. -/
def firstOfStatement : List Terminal :=
  [.name, .keyword "loop", .keyword "exit", .keyword "switch", .keyword "return", .keyword "do",
   .keyword "color"]

/-- What an operand without a sign may start with. -/
def firstOfUnsigned : List Terminal :=
  [.name, .number, .symbol "("]

/-- What an operand may start with. -/
def firstOfSigned : List Terminal :=
  [.symbol "+", .symbol "-"] ++ firstOfUnsigned

/-- What a rule may start with. -/
def first : Rule → List Terminal
  | .program => [.keyword "Allbugs", .keyword "Bug"]
  | .allbugsCode => [.keyword "Allbugs"]
  | .bugDefinition => [.keyword "Bug"]
  | .varDeclaration => [.keyword "var"]
  | .initializationBlock => [.keyword "initially"]
  | .functionDefinition => [.keyword "define"]
  | .functionCall => [.name]
  | .block => [.symbol "\x7b"]
  | .command => firstOfAction ++ firstOfStatement
  | .action => firstOfAction
  | .statement => firstOfStatement
  | .moveAction => [.keyword "move"]
  | .moveToAction => [.keyword "moveto"]
  | .turnAction => [.keyword "turn"]
  | .turnToAction => [.keyword "turnto"]
  | .lineAction => [.keyword "line"]
  | .assignmentStatement => [.name]
  | .loopStatement => [.keyword "loop"]
  | .exitIfStatement => [.keyword "exit"]
  | .switchStatement => [.keyword "switch"]
  | .returnStatement => [.keyword "return"]
  | .doStatement => [.keyword "do"]
  | .colorStatement => [.keyword "color"]
  | .expression | .arithmeticExpression | .term | .factor => firstOfSigned
  | .unsignedFactor => firstOfUnsigned
  | .parameterList => [.symbol "("]
  | .addOperator => [.symbol "+", .symbol "-"]
  | .multiplyOperator => [.symbol "*", .symbol "/"]
  | .comparator => [.symbol "<", .symbol ">", .symbol "!", .symbol "="]
  | .variable => [.name]
  | .lineEnd => [.lineEnd]

end Rule

namespace Recipe

/-- Whether a recipe is never declined. -/
def certain : Recipe → Bool
  | .keep _ | .drop _ | .ahead _ | .rule _ => false
  | .andThen first second => first.certain && second.certain
  | .orElse first second => first.certain || second.certain
  | _ => true

/-- What a recipe may start with. -/
def first : Recipe → List Terminal
  | .keep terminal | .drop terminal | .ahead terminal => [terminal]
  | .rule named => named.first
  | .andThen first second => first.first ++ if first.idles then second.first else []
  | .orElse first second => first.first ++ second.first
  | .many body => body.first
  | .require body _ => body.first
  | .promised body _ => body.first
  | _ => []

/-- Whether only the first part of a row may be declined.  A first part that only looks at
the next token looks for all that the second part may start with. -/
def tidy : Recipe → Bool
  | .andThen first second =>
    first.tidy && second.tidy && second.certain &&
      (!first.idles || first.certain || second.first ⊆ first.first)
  | .orElse first second => first.tidy && second.tidy
  | .many body => body.tidy
  | .require body _ => body.tidy
  | .promised body _ => body.tidy
  | _ => true

/-- Both parts of a tidy row are tidy. -/
theorem tidy_of_andThen {p q : Recipe} (h : (andThen p q).tidy = true) :
    p.tidy = true ∧ q.tidy = true := by
  simp only [tidy, Bool.and_eq_true] at h
  exact h.1.1

/-- Both parts of a tidy choice are tidy. -/
theorem tidy_of_orElse {p q : Recipe} (h : (orElse p q).tidy = true) :
    p.tidy = true ∧ q.tidy = true :=
  Bool.and_eq_true_iff.mp h

end Recipe

namespace Grammar

/-- All rules may be declined. -/
theorem certain_recipe (rule : Rule) : (recipe rule).certain = false := by
  cases rule <;> rfl

/-- The recipe of a rule starts as the rule does. -/
theorem first_recipe_subset (rule : Rule) : (recipe rule).first ⊆ rule.first := by
  cases rule <;> decide

/-- A rule starts as its recipe does. -/
theorem subset_first_recipe (rule : Rule) : rule.first ⊆ (recipe rule).first := by
  cases rule <;> decide

/-- All recipes of the grammar are tidy. -/
theorem tidy_recipe (rule : Rule) : (recipe rule).tidy = true := by
  cases rule <;> decide

end Grammar

namespace Recipe

/-- A recipe that is certain is not declined. -/
theorem Run.not_certain_of_declined {p : Recipe} {u : List Located} {s : Supply}
    {before after : Stack} (h : p.Run u s before .declined after) : p.certain = false := by
  generalize hverdict : Verdict.declined = verdict at h
  induction h with
  | keepOther | dropOther | aheadOther | rule => rfl
  | andThen _ _ _ ihSecond => exact Bool.and_eq_false_iff.mpr (.inr (ihSecond hverdict))
  | andThenStop _ _ ih => exact Bool.and_eq_false_iff.mpr (.inl (ih hverdict))
  | orElse _ _ ihFirst ihSecond => exact Bool.or_eq_false_iff.mpr ⟨ihFirst rfl, ihSecond hverdict⟩
  | manyMore _ _ _ ih => exact ih hverdict
  | orElseFirst _ hstop | require _ hstop | promised _ hstop => exact absurd hverdict.symm hstop
  | _ => exact Verdict.noConfusion hverdict

/-- **A refusal does nothing.**  A recipe that is declined takes no token and leaves the
stack as it is, and the next token is none that the recipe may start with. -/
theorem Run.of_declined {p : Recipe} {u : List Located} {s : Supply} {before after : Stack}
    (h : p.Run u s before .declined after) (hp : p.tidy = true) :
    u = [] ∧ after = before ∧ ∀ terminal ∈ p.first, ¬ terminal.fits s.head.token := by
  generalize hverdict : Verdict.declined = verdict at h
  induction h with
  | keepOther hother | dropOther hother | aheadOther hother =>
    exact ⟨rfl, rfl, fun terminal hmem => by rwa [List.mem_singleton.mp hmem]⟩
  | rule _ ih =>
    obtain ⟨hu, hafter, hfirst⟩ := ih (Grammar.tidy_recipe _) hverdict
    exact ⟨hu, hafter, fun terminal hmem => hfirst terminal (Grammar.subset_first_recipe _ hmem)⟩
  | andThen _ second =>
    obtain ⟨⟨-, hcertain⟩, -⟩ := by simpa only [tidy, Bool.and_eq_true] using hp
    rw [Run.not_certain_of_declined (hverdict ▸ second)] at hcertain
    exact Bool.noConfusion hcertain
  | @andThenStop p q _ _ _ _ _ first _ ih =>
    obtain ⟨⟨⟨hfirst, -⟩, -⟩, hinclude⟩ := by simpa only [tidy, Bool.and_eq_true] using hp
    obtain ⟨hu, hafter, hother⟩ := ih hfirst hverdict
    refine ⟨hu, hafter, fun terminal hmem => ?_⟩
    rcases List.mem_append.mp hmem with hmem | hmem
    · exact hother terminal hmem
    · rw [Run.not_certain_of_declined (hverdict ▸ first), Bool.or_false] at hinclude
      cases hidle : p.idles with
      | false => simp [hidle] at hmem
      | true =>
        simp only [hidle, Bool.not_true, Bool.false_or, decide_eq_true_eq, if_true]
          at hinclude hmem
        exact hother terminal (hinclude hmem)
  | orElse _ _ ihFirst ihSecond =>
    obtain ⟨hfirst, hsecond⟩ := tidy_of_orElse hp
    obtain ⟨rfl, rfl, hother⟩ := ihSecond hsecond hverdict
    obtain ⟨rfl, rfl, hother'⟩ := ihFirst hfirst rfl
    refine ⟨rfl, rfl, fun terminal hmem => ?_⟩
    exact (List.mem_append.mp hmem).elim (hother' terminal) (hother terminal)
  | manyMore _ others => exact Bool.noConfusion (Run.not_certain_of_declined (hverdict ▸ others))
  | orElseFirst _ hstop | require _ hstop | promised _ hstop => exact absurd hverdict.symm hstop
  | _ => exact Verdict.noConfusion hverdict

/-- What is declined within a tidy recipe is its first part. -/
private theorem certain_first_of_tidy {p q : Recipe} (hp : (andThen p q).tidy = true)
    (hcertain : (andThen p q).certain = false) : p.certain = false := by
  simp only [tidy, Bool.and_eq_true] at hp
  simpa only [certain, hp.1.2, Bool.and_true] using hcertain

private theorem declined_of_head_of_openings {p : Recipe} {s : Supply} {stack : Stack}
    (hopenings : ∀ rule ∈ p.openings, (∀ terminal ∈ rule.first, ¬ terminal.fits s.head.token) →
      (Recipe.rule rule).Run [] s stack .declined stack)
    (hp : p.tidy = true) (hcertain : p.certain = false)
    (hhead : ∀ terminal ∈ p.first, ¬ terminal.fits s.head.token) :
    p.Run [] s stack .declined stack := by
  induction p with
  | keep terminal => exact .keepOther (hhead terminal List.mem_cons_self)
  | drop terminal => exact .dropOther (hhead terminal List.mem_cons_self)
  | ahead terminal => exact .aheadOther (hhead terminal List.mem_cons_self)
  | rule named => exact hopenings named List.mem_cons_self hhead
  | andThen p q ihFirst =>
    refine .andThenStop (ihFirst ?_ ?_ (certain_first_of_tidy hp hcertain) ?_) Verdict.noConfusion
    · exact fun rule hrule => hopenings rule (List.mem_append_left _ hrule)
    · exact (tidy_of_andThen hp).1
    · exact fun terminal hmem => hhead terminal (List.mem_append_left _ hmem)
  | orElse p q ihFirst ihSecond =>
    obtain ⟨hp, hq⟩ := tidy_of_orElse hp
    obtain ⟨hcertain, hcertain'⟩ := Bool.or_eq_false_iff.mp hcertain
    refine .orElse (v := []) (ihFirst ?_ hp hcertain ?_) (ihSecond ?_ hq hcertain' ?_)
    · exact fun rule hrule => hopenings rule (List.mem_append_left _ hrule)
    · exact fun terminal hmem => hhead terminal (List.mem_append_left _ hmem)
    · exact fun rule hrule => hopenings rule (List.mem_append_right _ hrule)
    · exact fun terminal hmem => hhead terminal (List.mem_append_right _ hmem)
  | _ => exact Bool.noConfusion hcertain

/-- A rule is declined if the next token is none that it may start with. -/
theorem declined_of_head_of_rule {rule : Rule} {s : Supply}
    (hhead : ∀ terminal ∈ rule.first, ¬ terminal.fits s.head.token) (stack : Stack) :
    (Recipe.rule rule).Run [] s stack .declined stack := by
  -- A rule calls only later rules before it takes a token.
  induction h : rule.rank using Nat.strong_induction_on generalizing rule with
  | _ rank ih =>
    refine .rule (declined_of_head_of_openings ?_ (Grammar.tidy_recipe rule)
      (Grammar.certain_recipe rule) fun terminal hmem =>
        hhead terminal (Grammar.first_recipe_subset rule hmem))
    intro called hcalled hfirst
    exact ih called.rank (h ▸ Grammar.rank_lt_of_mem_openings hcalled) hfirst rfl

/-- **The next token refuses.**  A recipe that is not certain is declined if the next token
is none that it may start with. -/
theorem declined_of_head {p : Recipe} {s : Supply} (hp : p.tidy = true)
    (hcertain : p.certain = false) (hhead : ∀ terminal ∈ p.first, ¬ terminal.fits s.head.token)
    (stack : Stack) : p.Run [] s stack .declined stack :=
  declined_of_head_of_openings (fun _ _ hfirst => declined_of_head_of_rule hfirst stack) hp hcertain
    hhead

end Recipe

end BugLang
