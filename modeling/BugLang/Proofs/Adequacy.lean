import BugLang.Proofs.Run

/-!
# Builders follow the runs of recipes

A builder follows a recipe with an allowance, and with a cursor that looks ahead and
takes tokens back.  This file relates it to `Recipe.Run`, which has neither.

* `Recipe.follows_carryOut`: unless the allowance runs out, what a builder does is a run
  of the recipe, and a builder that misses something stands ahead of the next token.
-/

namespace BugLang

open Stream'

/-- Whether an attempt ended for want of another next token. -/
def Verdict.Misses : Verdict → Prop
  | .matched => False
  | .declined => True
  | .failed (.incomplete _ _) => True
  | .failed (.fault _) => False

namespace Outcome

/-- Whether an attempt was given up for want of steps. -/
def Exhausted (outcome : Outcome) : Prop :=
  outcome.verdict = .failed (.fault .exhausted)

/-- Whether an attempt is a run of a recipe from where a builder stood. -/
def Follows (outcome : Outcome) (recipe : Recipe) (b : Builder) : Prop :=
  ∃ taken, b.cursor.supply = taken ++ₛ outcome.builder.cursor.supply ∧
    recipe.Run taken outcome.builder.cursor.supply b.stack outcome.verdict
      outcome.builder.stack ∧
    (outcome.verdict.Misses → outcome.builder.cursor.IsAhead)

/-- Two runs of a recipe on the same supply and stack come to the same end, and leave the same. -/
theorem Follows.unique {first second : Outcome} {p : Recipe} {b d : Builder}
    (hfirst : first.Follows p b) (hsecond : second.Follows p d)
    (hsupply : d.cursor.supply = b.cursor.supply) (hstack : d.stack = b.stack) :
    second.verdict = first.verdict ∧ second.builder.stack = first.builder.stack ∧
      second.builder.cursor.supply = first.builder.cursor.supply := by
  obtain ⟨u, hu, hrun, -⟩ := hfirst
  obtain ⟨v, hv, hrun', -⟩ := hsecond
  rw [hstack] at hrun'
  obtain ⟨-, hlater, hverdict, hafter⟩ := hrun'.unique hrun (hv.symm.trans (hsupply.trans hu))
  exact ⟨hverdict, hafter, hlater⟩

end Outcome

namespace Builder

/-- A token that fits is taken. -/
theorem take_of_fits {terminal : Terminal} {b : Builder}
    (h : terminal.fits b.cursor.nextLocated.token) :
    b.take terminal = (some b.cursor.nextLocated.token, ⟨b.cursor.next.2, b.stack⟩) :=
  if_pos h

/-- A token that does not fit was only looked at. -/
theorem take_of_not_fits {terminal : Terminal} {b : Builder}
    (h : ¬ terminal.fits b.cursor.nextLocated.token) :
    b.take terminal = (none, ⟨b.cursor.peek.2, b.stack⟩) :=
  if_neg h

/-- Keeping a token is a run. -/
theorem follows_keep (terminal : Terminal) (b : Builder) :
    (b.keep terminal).Follows (.keep terminal) b := by
  by_cases hfits : terminal.fits b.cursor.nextLocated.token
  · rw [keep, take_of_fits hfits]
    exact ⟨[b.cursor.nextLocated], b.cursor.supply_eq, .keep hfits, False.elim⟩
  · rw [keep, take_of_not_fits hfits]
    refine ⟨[], b.cursor.supply_peek.symm, .keepOther ?_, fun _ => b.cursor.isAhead_peek⟩
    rwa [Cursor.supply_peek, Cursor.head_supply]

/-- Dropping a token is a run. -/
theorem follows_drop (terminal : Terminal) (b : Builder) :
    (b.drop terminal).Follows (.drop terminal) b := by
  by_cases hfits : terminal.fits b.cursor.nextLocated.token
  · rw [drop, take_of_fits hfits]
    exact ⟨[b.cursor.nextLocated], b.cursor.supply_eq, .drop hfits, False.elim⟩
  · rw [drop, take_of_not_fits hfits]
    refine ⟨[], b.cursor.supply_peek.symm, .dropOther ?_, fun _ => b.cursor.isAhead_peek⟩
    rwa [Cursor.supply_peek, Cursor.head_supply]

/-- Looking at a token is a run. -/
theorem follows_ahead (terminal : Terminal) (b : Builder) :
    (b.ahead terminal).Follows (.ahead terminal) b := by
  have hsupply : b.cursor.peek.2.supply.head = b.cursor.nextLocated := by
    rw [Cursor.supply_peek, Cursor.head_supply]
  by_cases hfits : terminal.fits b.cursor.nextLocated.token
  · have hahead : b.ahead terminal = ⟨.matched, ⟨b.cursor.peek.2, b.stack⟩⟩ := by
      exact congrArg (Outcome.mk · _) (if_pos hfits)
    rw [hahead]
    exact ⟨[], b.cursor.supply_peek.symm, .ahead (hsupply ▸ hfits), False.elim⟩
  · have hahead : b.ahead terminal = ⟨.declined, ⟨b.cursor.peek.2, b.stack⟩⟩ := by
      exact congrArg (Outcome.mk · _) (if_neg hfits)
    rw [hahead]
    exact ⟨[], b.cursor.supply_peek.symm, .aheadOther (hsupply ▸ hfits),
      fun _ => b.cursor.isAhead_peek⟩

/-- Replacing the top entry is a run. -/
theorem follows_replaceTop (text : String) (b : Builder) :
    (b.replaceTop text).Follows (.replaceTop text) b := by
  obtain ⟨cursor, _ | ⟨top, below⟩⟩ := b
  · exact ⟨[], rfl, .replaceNone, False.elim⟩
  · exact ⟨[], rfl, .replaceTop, False.elim⟩

/-- A reduction is a run. -/
theorem follows_reduce (root : Nat) (children : List Nat) (b : Builder) :
    (b.rearrange (b.stack.reduce root children)).Follows (.reduce root children) b := by
  cases h : b.stack.reduce root children with
  | ok after => exact ⟨[], rfl, .reduce h, False.elim⟩
  | error fault => exact ⟨[], rfl, .reduceFault h, False.elim⟩

end Builder

namespace Outcome

variable {p q : Recipe} {b : Builder} {first : Outcome} {next : Builder → Outcome}

/-- Going on after a match is a run of both recipes. -/
theorem Follows.andThen (hfirst : first.Follows p b)
    (hnext : first.verdict = .matched → (next first.builder).Follows q first.builder) :
    (first.andThen next).Follows (.andThen p q) b := by
  obtain ⟨verdict, after⟩ := first
  obtain ⟨u, hu, hrun, hahead⟩ := hfirst
  cases verdict with
  | matched =>
    obtain ⟨v, hv, hrun', hahead'⟩ := hnext rfl
    dsimp only at hu hv hrun hrun' hahead'
    refine ⟨u ++ v, ?_, .andThen ?_ hrun', hahead'⟩
    · rw [hu, hv, append_append_stream]
      rfl
    · rw [hv] at hrun
      exact hrun
  | declined => exact ⟨u, hu, .andThenStop hrun Verdict.noConfusion, hahead⟩
  | failed failure => exact ⟨u, hu, .andThenStop hrun Verdict.noConfusion, hahead⟩

/-- Going on after a match is a run of both recipes, unless the allowance runs out. -/
theorem follows_andThen (hfirst : first.Exhausted ∨ first.Follows p b)
    (hnext : ∀ after, (next after).Exhausted ∨ (next after).Follows q after) :
    (first.andThen next).Exhausted ∨ (first.andThen next).Follows (.andThen p q) b := by
  rcases hfirst with hfirst | hfirst
  · obtain ⟨verdict, after⟩ := first
    obtain rfl : verdict = _ := hfirst
    exact .inl rfl
  · by_cases hout : first.verdict = .matched ∧ (next first.builder).Exhausted
    · obtain ⟨verdict, after⟩ := first
      obtain ⟨rfl, hout⟩ := hout
      exact .inl hout
    · exact .inr (hfirst.andThen fun hmatched =>
        (hnext first.builder).resolve_left fun h => hout ⟨hmatched, h⟩)

/-- Going on after a refusal is a run of either recipe. -/
theorem follows_orElse (hfirst : first.Exhausted ∨ first.Follows p b)
    (hnext : ∀ after, (next after).Exhausted ∨ (next after).Follows q after) :
    (first.orElse next).Exhausted ∨ (first.orElse next).Follows (.orElse p q) b := by
  obtain ⟨verdict, after⟩ := first
  rcases hfirst with hfirst | ⟨u, hu, hrun, hahead⟩
  · obtain rfl : verdict = _ := hfirst
    exact .inl rfl
  · cases verdict with
    | declined =>
      rcases hnext after with hnext | ⟨v, hv, hrun', hahead'⟩
      · exact .inl hnext
      · dsimp only at hu hrun
        refine .inr ⟨u ++ v, ?_, .orElse ?_ hrun', hahead'⟩
        · rw [hu, hv, append_append_stream]
          rfl
        · rw [hv] at hrun
          exact hrun
    | matched => exact .inr ⟨u, hu, .orElseFirst hrun Verdict.noConfusion, hahead⟩
    | failed failure => exact .inr ⟨u, hu, .orElseFirst hrun Verdict.noConfusion, hahead⟩

/-- Failing after a refusal is a run: the builder stands on the line of the token that
it did not take. -/
theorem Follows.require (missing : Missing) (hfirst : first.Follows p b) :
    (first.orElse (Builder.fail missing)).Follows (.require p missing) b := by
  obtain ⟨verdict, after⟩ := first
  obtain ⟨u, hu, hrun, hahead⟩ := hfirst
  cases verdict with
  | declined =>
    have hline : after.line = after.cursor.supply.head.line := by
      rw [Cursor.head_supply]
      exact Cursor.line_of_isAhead (hahead trivial)
    have hfail : Builder.fail missing after =
        ⟨.failed (.incomplete after.cursor.supply.head.line missing), after⟩ := by
      rw [Builder.fail, hline]
    refine ⟨u, hu, ?_, ?_⟩
    · change (Recipe.require p missing).Run u _ _ (Builder.fail missing after).verdict
        (Builder.fail missing after).builder.stack
      rw [hfail]
      exact .requireOther hrun
    · exact fun _ => hahead trivial
  | matched => exact ⟨u, hu, .require hrun Verdict.noConfusion, hahead⟩
  | failed failure => exact ⟨u, hu, .require hrun Verdict.noConfusion, hahead⟩

/-- Failing after a refusal is a run, unless the allowance runs out. -/
theorem follows_require (missing : Missing) (hfirst : first.Exhausted ∨ first.Follows p b) :
    (first.orElse (Builder.fail missing)).Exhausted ∨
      (first.orElse (Builder.fail missing)).Follows (.require p missing) b := by
  rcases hfirst with hfirst | hfirst
  · obtain ⟨verdict, after⟩ := first
    obtain rfl : verdict = _ := hfirst
    exact .inl rfl
  · exact .inr (hfirst.require missing)

/-- A fault after a refusal is a run. -/
theorem follows_promised (fault : Fault) (hfirst : first.Exhausted ∨ first.Follows p b) :
    (first.orElse fun after => ⟨.failed (.fault fault), after⟩).Exhausted ∨
      (first.orElse fun after => ⟨.failed (.fault fault), after⟩).Follows
        (.promised p fault) b := by
  obtain ⟨verdict, after⟩ := first
  rcases hfirst with hfirst | ⟨u, hu, hrun, hahead⟩
  · obtain rfl : verdict = _ := hfirst
    exact .inl rfl
  · cases verdict with
    | declined => exact .inr ⟨u, hu, .promisedOther hrun, False.elim⟩
    | matched => exact .inr ⟨u, hu, .promised hrun Verdict.noConfusion, hahead⟩
    | failed failure => exact .inr ⟨u, hu, .promised hrun Verdict.noConfusion, hahead⟩

/-- Repeating an attempt is a run. -/
theorem follows_repeated {attempt : Builder → Outcome}
    (hattempt : ∀ b, (attempt b).Exhausted ∨ (attempt b).Follows p b) (rounds : Nat)
    (b : Builder) :
    (b.repeated attempt rounds).Exhausted ∨ (b.repeated attempt rounds).Follows (.many p) b := by
  induction rounds generalizing b with
  | zero => exact .inl rfl
  | succ rounds ih =>
    have hfirst := hattempt b
    rw [Builder.repeated]
    rcases h : attempt b with ⟨verdict, after⟩
    rw [h] at hfirst
    rcases hfirst with hfirst | ⟨u, hu, hrun, hahead⟩
    · obtain rfl : verdict = _ := hfirst
      exact .inl rfl
    · cases verdict with
      | matched =>
        rcases ih after with hothers | ⟨v, hv, hrun', hahead'⟩
        · exact .inl hothers
        · dsimp only at hu hrun
          refine .inr ⟨u ++ v, ?_, .manyMore ?_ hrun', hahead'⟩
          · rw [hu, hv, append_append_stream]
          · rw [hv] at hrun
            exact hrun
      | declined => exact .inr ⟨u, hu, .manyEnd hrun, False.elim⟩
      | failed failure => exact .inr ⟨u, hu, .manyFail hrun, hahead⟩

end Outcome

/-- Following a recipe is a run of it, if applying a rule is a run of the rule. -/
theorem Recipe.follows_carryOut {call : Rule → Builder → Outcome}
    (hcall : ∀ rule b, (call rule b).Exhausted ∨ (call rule b).Follows (.rule rule) b)
    (rounds : Nat) (p : Recipe) (b : Builder) :
    (p.carryOut call rounds b).Exhausted ∨ (p.carryOut call rounds b).Follows p b := by
  induction p generalizing b with
  | done => exact .inr ⟨[], rfl, .done, False.elim⟩
  | keep terminal => exact .inr (b.follows_keep terminal)
  | drop terminal => exact .inr (b.follows_drop terminal)
  | ahead terminal => exact .inr (b.follows_ahead terminal)
  | rule named => exact hcall named b
  | node text => exact .inr ⟨[], rfl, .node, False.elim⟩
  | replaceTop text => exact .inr (b.follows_replaceTop text)
  | reduce root children => exact .inr (b.follows_reduce root children)
  | andThen first second ihFirst ihSecond => exact Outcome.follows_andThen (ihFirst b) ihSecond
  | orElse first second ihFirst ihSecond => exact Outcome.follows_orElse (ihFirst b) ihSecond
  | many body ih => exact Outcome.follows_repeated ih rounds b
  | require body missing ih => exact Outcome.follows_require missing (ih b)
  | promised body fault ih => exact Outcome.follows_promised fault (ih b)

/-- Applying a rule is a run of it, unless the allowance runs out. -/
theorem Rule.follows_applyWithin (allowance : Nat) (rule : Rule) (b : Builder) :
    (rule.applyWithin allowance b).Exhausted ∨
      (rule.applyWithin allowance b).Follows (.rule rule) b := by
  induction allowance generalizing rule b with
  | zero => exact .inl rfl
  | succ allowance ih =>
    rw [Rule.applyWithin]
    rcases Recipe.follows_carryOut ih allowance (Grammar.recipe rule) b with
      hout | ⟨taken, htaken, hrun, hahead⟩
    · exact .inl hout
    · exact .inr ⟨taken, htaken, .rule hrun, hahead⟩

end BugLang
