import BugLang.Proofs.Programs

/-!
# What a rule promises

Whatever was done with a builder before, a rule that it applies keeps to a contract.  A
match leaves one tree more, a refusal leaves no trace, and a failure leaves what was on the
stack below.  What happens does not depend on the stack, and of the source it depends on the
tokens to come alone.

* `Builder.verdict_apply_ne_fault`: no rule ends with a fault.
* `Builder.stack_apply_of_matched`, `Builder.apply_of_declined`: what a match and a refusal
  leave.
* `Builder.apply_eq_onto`: what is done on a stack is done on an empty one.
* `Builder.apply_congr`: equal tokens to come make equal outcomes.
-/

namespace BugLang

open Stream'

namespace Builder

variable {b : Builder} {rule : Rule}

/-- A rule does not end with a fault. -/
theorem verdict_apply_ne_fault (hsound : b.cursor.Sound) (rule : Rule) (fault : Fault) :
    (b.apply rule).verdict ≠ .failed (.fault fault) := by
  obtain ⟨taken, -, hrun, -⟩ := follows_apply hsound rule
  exact hrun.not_fault_of_rule fault

/-- A rule that is matched puts one tree on the stack. -/
theorem stack_apply_of_matched (hsound : b.cursor.Sound)
    (hmatched : (b.apply rule).verdict = .matched) :
    ∃ tree, (b.apply rule).builder.stack = tree :: b.stack := by
  obtain ⟨taken, -, hrun, -⟩ := follows_apply hsound rule
  rw [hmatched] at hrun
  obtain ⟨tree, -, hstack⟩ := hrun.derives
  exact ⟨tree, hstack⟩

/-- A rule that is declined leaves the stack and the tokens to come. -/
theorem apply_of_declined (hsound : b.cursor.Sound)
    (hdeclined : (b.apply rule).verdict = .declined) :
    (b.apply rule).builder.stack = b.stack ∧
      (b.apply rule).builder.cursor.remaining = b.cursor.remaining := by
  obtain ⟨taken, htaken, hrun, -⟩ := follows_apply hsound rule
  rw [hdeclined] at hrun
  obtain ⟨rfl, hstack, -⟩ := hrun.of_declined rfl
  exact ⟨hstack, (Cursor.remaining_congr htaken).symm⟩

/-- What a rule does, it does on an empty stack, and the entries of the stack stay below. -/
theorem apply_eq_onto (b : Builder) (rule : Rule) :
    b.apply rule = ((⟨b.cursor, []⟩ : Builder).apply rule).onto b.stack :=
  apply_onto rule ⟨b.cursor, []⟩ b.stack

/-- **Only the tokens to come count.**  Where the tokens to come are equal, a rule takes
equal tokens, leaves equal tokens, and leaves the same stack.  It ends in the same way, and
a failure names the line of the token that is next. -/
theorem apply_congr {c d : Cursor} (hc : c.Sound) (hd : d.Sound) (h : c.upcoming = d.upcoming)
    (rule : Rule) (stack : Stack) :
    let first := (⟨c, stack⟩ : Builder).apply rule
    let second := (⟨d, stack⟩ : Builder).apply rule
    (∃ u v, c.supply = u ++ₛ first.builder.cursor.supply ∧
        d.supply = v ++ₛ second.builder.cursor.supply ∧
        v.map Located.token = u.map Located.token) ∧
      second.builder.cursor.upcoming = first.builder.cursor.upcoming ∧
      second.builder.stack = first.builder.stack ∧
      second.verdict = first.verdict.onLine second.builder.cursor.nextLocated.line := by
  intro first second
  obtain ⟨u, hu, hrun, -⟩ := follows_apply (b := ⟨c, stack⟩) hc rule
  obtain ⟨v, hv, hrun', -⟩ := follows_apply (b := ⟨d, stack⟩) hd rule
  have htokens := hd.token_get_supply_congr hc h.symm
  obtain ⟨hmap, hverdict, hstack⟩ := hrun.congr hrun' fun place _ => by
    rw [← hu, ← hv]
    exact htokens place
  have hlength : v.length = u.length := by
    rw [← List.length_map Located.token, hmap, List.length_map]
  have hupcoming : second.builder.cursor.upcoming = first.builder.cursor.upcoming := by
    refine Cursor.upcoming_congr_of_supply fun place => ?_
    have hget := htokens (u.length + place)
    rw [hu, ← hlength, hv, get_append_right, hlength, get_append_right] at hget
    exact hget
  refine ⟨⟨u, v, hu, hv, hmap⟩, hupcoming, hstack, ?_⟩
  rw [← Cursor.head_supply]
  exact hverdict

/-- Where the tokens to come are equal and stand on the same lines, a rule does the same. -/
theorem apply_congr_of_remaining {c d : Cursor} (hc : c.Sound) (hd : d.Sound)
    (h : c.remaining = d.remaining) (rule : Rule) (stack : Stack) :
    let first := (⟨c, stack⟩ : Builder).apply rule
    let second := (⟨d, stack⟩ : Builder).apply rule
    second.verdict = first.verdict ∧
      second.builder.cursor.remaining = first.builder.cursor.remaining := by
  intro first second
  have hfirst := follows_apply (b := ⟨c, stack⟩) hc rule
  have hsecond := follows_apply (b := ⟨d, stack⟩) hd rule
  obtain ⟨hverdict, -, hsupply⟩ := hfirst.unique hsecond (hd.supply_congr hc h.symm) rfl
  exact ⟨hverdict, Cursor.remaining_congr hsupply⟩

/-- Whatever is done with a builder, its cursor is sound. -/
theorem sound_after (source : String) (stack : Stack) (operations : List Operation) :
    ((⟨.start source, stack⟩ : Builder).after operations).cursor.Sound :=
  (reached_after Cursor.Reached.start operations).sound

end Builder

/-- Parsing a source does not end with a fault. -/
theorem parse_ne_fault (source : String) (fault : Fault) :
    parse source ≠ .error (.fault fault) := by
  obtain ⟨-, -, -, -, -, -, ⟨tree, -, -, hparse⟩ | ⟨line, missing, -, hparse⟩⟩ := parse_cases source
  · rw [hparse]
    exact nofun
  · rw [hparse]
    exact nofun

/-- Applying a rule to a source does not end with a fault: a match leaves just one tree. -/
theorem parseRule_ne_fault (rule : Rule) (source : String) (fault : Fault) :
    parseRule rule source ≠ .error (.fault fault) := by
  have hsound : (Builder.start source).cursor.Sound := Cursor.sound_start source
  have hfault := Builder.verdict_apply_ne_fault hsound rule fault
  rw [parseRule, Outcome.tree?]
  cases hverdict : ((Builder.start source).apply rule).verdict with
  | matched =>
    obtain ⟨tree, hstack⟩ := Builder.stack_apply_of_matched hsound hverdict
    have hfinish : ((Builder.start source).apply rule).builder.finish = .ok tree := by
      rw [Builder.finish, hstack]
      rfl
    dsimp only
    rw [hfinish]
    intro h
    cases h
  | declined =>
    intro h
    cases h
  | failed failure =>
    rw [hverdict] at hfault
    exact fun h => hfault (congrArg Verdict.failed (Except.error.inj h))

/-- **No faults.**  Whatever is on the stack and whatever was done before, no rule ends with
a fault, and neither does parsing a source. -/
theorem no_fault :
    (∀ (source : String) (stack : Stack) (operations : List Operation) (rule : Rule)
      (fault : Fault),
        (((⟨.start source, stack⟩ : Builder).after operations).apply rule).verdict ≠
          .failed (.fault fault)) ∧
      (∀ (source : String) (fault : Fault), parse source ≠ .error (.fault fault)) ∧
      ∀ (rule : Rule) (source : String) (fault : Fault),
        parseRule rule source ≠ .error (.fault fault) := by
  refine ⟨?_, parse_ne_fault, parseRule_ne_fault⟩
  intro source stack operations rule fault
  exact Builder.verdict_apply_ne_fault (Builder.sound_after source stack operations) rule fault

/-- **The contract of a rule.**  Whatever was done before, a match leaves one tree more on
the stack, a refusal leaves the stack and the tokens to come, and a failure leaves what was
on the stack below.  What is done on an empty stack is done on any stack, and a rule does
the same wherever the tokens to come are the same. -/
theorem apply_contract (source : String) (stack : Stack) (operations : List Operation)
    (rule : Rule) :
    let b := (⟨.start source, stack⟩ : Builder).after operations
    let outcome := b.apply rule
    (outcome.verdict = .matched → ∃ tree, outcome.builder.stack = tree :: b.stack) ∧
      (outcome.verdict = .declined →
        outcome.builder.stack = b.stack ∧
          outcome.builder.cursor.remaining = b.cursor.remaining) ∧
      (∀ failure, outcome.verdict = .failed failure →
        ∃ entries, outcome.builder.stack = entries ++ b.stack) ∧
      outcome = ((⟨b.cursor, []⟩ : Builder).apply rule).onto b.stack ∧
      ∀ (source' : String) (operations' : List Operation),
        let c := ((Builder.start source').after operations').cursor
        let alone := (⟨c, []⟩ : Builder).apply rule
        c.upcoming = b.cursor.upcoming →
          (∃ u v, c.supply = u ++ₛ alone.builder.cursor.supply ∧
            b.cursor.supply = v ++ₛ outcome.builder.cursor.supply ∧
            v.map Located.token = u.map Located.token) ∧
          outcome.builder.cursor.upcoming = alone.builder.cursor.upcoming ∧
          outcome.builder.stack = alone.builder.stack ++ b.stack ∧
          outcome.verdict = alone.verdict.onLine outcome.builder.cursor.nextLocated.line ∧
          (c.remaining = b.cursor.remaining →
            outcome.verdict = alone.verdict ∧
              outcome.builder.cursor.remaining = alone.builder.cursor.remaining) := by
  intro b outcome
  have hsound : b.cursor.Sound := Builder.sound_after source stack operations
  have honto : outcome = ((⟨b.cursor, []⟩ : Builder).apply rule).onto b.stack :=
    b.apply_eq_onto rule
  refine ⟨Builder.stack_apply_of_matched hsound, Builder.apply_of_declined hsound, ?_, honto, ?_⟩
  · intro failure _
    exact ⟨_, congrArg (fun o : Outcome => o.builder.stack) honto⟩
  · intro source' operations' c alone hupcoming
    have hsound' : c.Sound := Builder.sound_after source' [] operations'
    obtain ⟨htaken, hbehind, hstack, hverdict⟩ :=
      Builder.apply_congr hsound' hsound hupcoming rule []
    rw [honto]
    refine ⟨htaken, hbehind, congrArg (· ++ b.stack) hstack, hverdict, ?_⟩
    exact fun hremaining => Builder.apply_congr_of_remaining hsound' hsound hremaining rule []

/-- A call that breaks off leaves its parts above what was there.  Behind it no variable
comes, and the stack stays as it is.  One comes on the next line, and it is put on the stack
just as it would be where only this line is read. -/
theorem contract_of_broken_call :
    let b := (⟨.start "do f(a,)\nb", [.leaf (.ofText "x")]⟩ : Builder).after []
    let broken := (⟨.start "do f(a,)\nb", [.leaf (.ofText "x")]⟩ : Builder).after
      [.apply .doStatement]
    let beyond := (⟨.start "do f(a,)\nb", [.leaf (.ofText "x")]⟩ : Builder).after
      [.apply .doStatement, .next, .next]
    let other := (Builder.start "b").after []
    (∃ entries, (b.apply .doStatement).builder.stack = entries ++ b.stack) ∧
      (broken.apply .variable).builder.stack = broken.stack ∧
      (∃ tree, (beyond.apply .variable).builder.stack = tree :: beyond.stack) ∧
      other.cursor.upcoming = beyond.cursor.upcoming ∧
      (beyond.apply .variable).builder.stack =
        ((⟨other.cursor, []⟩ : Builder).apply .variable).builder.stack ++ beyond.stack := by
  intro b broken beyond other
  have hfailed : (b.apply .doStatement).verdict =
      .failed (.incomplete 1 (.item "an expression after ','")) := by decide +kernel
  have hdeclined : (broken.apply .variable).verdict = .declined := by decide +kernel
  have hmatched : (beyond.apply .variable).verdict = .matched := by decide +kernel
  have hupcoming : other.cursor.upcoming = beyond.cursor.upcoming := by decide +kernel
  have hcontract := apply_contract "do f(a,)\nb" [.leaf (.ofText "x")]
  exact ⟨(hcontract [] .doStatement).2.2.1 _ hfailed,
    ((hcontract [.apply .doStatement] .variable).2.1 hdeclined).1,
    (hcontract [.apply .doStatement, .next, .next] .variable).1 hmatched,
    hupcoming,
    ((hcontract [.apply .doStatement, .next, .next] .variable).2.2.2.2 "b" [] hupcoming).2.2.1⟩

end BugLang
