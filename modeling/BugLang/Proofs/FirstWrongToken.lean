import BugLang.Proofs.Contract

/-!
# Failures come at the first wrong token

A rule that fails has taken the beginning of a sentence, and it stands ahead of a token with
which this is the beginning of a sentence no more.  It has not taken that token, and it names
the line on which the token stands in the source.  The same holds for whole sources.

* `Builder.apply_of_failed`: where a rule fails.
* `parse_of_failed`: where parsing a source fails.
-/

namespace BugLang

/-- Whether some tokens can be completed to a program behind line ends. -/
def BeginsProgramText (w : List Token) : Prop :=
  ∃ v t, ProgramText (w ++ v) t

namespace Grammar

/-- Only tokens and rules are required in a whole source. -/
theorem requiresTokens_text : text.requiresTokens = true := rfl

/-- A whole source that fails has begun as a program does, and has not come to the end of
the input. -/
theorem beginsProgramText_of_failed {taken : List Located} {s : Supply} {after : Stack}
    {line : Nat} {missing : Missing}
    (h : text.Run taken s [] (.failed (.incomplete line missing)) after) :
    BeginsProgramText (taken.map Located.token) ∧ ∀ a ∈ taken, a.token.kind ≠ .endOfInput := by
  obtain ⟨v, after', hv, haccepts⟩ := h.exists_accepts (n := 1) tidy_text requiresTokens_text rfl
  obtain ⟨t, htext, -⟩ := (reads_text _ _ _).mp haccepts
  exact ⟨⟨v, t, htext⟩, fun a ha => htext.kind_ne_of_append hv a.token (List.mem_map_of_mem ha)⟩

/-- With the next token, a whole source that fails has not begun as a program does. -/
theorem not_beginsProgramText_of_failed {taken : List Located} {s : Supply} {after : Stack}
    {failure : Failure} (h : text.Run taken s [] (.failed failure) after) :
    ¬ BeginsProgramText (taken.map Located.token ++ [s.head.token]) := by
  intro hbegins
  obtain ⟨v, t, htext⟩ := hbegins
  exact h.not_accepts Verdict.noConfusion tidy_text decides_text stopsAt_text v [t]
    ((reads_text _ _ _).mpr ⟨t, htext, rfl⟩)

end Grammar

namespace Builder

variable {b : Builder} {rule : Rule} {line : Nat} {missing : Missing}

/-- **Where a rule fails.**  The tokens that a rule takes before it fails begin a sentence, and
with the next token they do not.  The builder stands ahead of that token, on its line. -/
theorem apply_of_failed (hsound : b.cursor.Sound)
    (hfailed : (b.apply rule).verdict = .failed (.incomplete line missing)) :
    let after := (b.apply rule).builder
    let next := after.cursor.nextLocated
    ∃ taken rest, b.cursor.remaining = taken ++ next :: rest ∧
      after.cursor.remaining = next :: rest ∧
      taken ≠ [] ∧ BeginsSentence rule (taken.map Located.token) ∧
      ¬ BeginsSentence rule (taken.map Located.token ++ [next.token]) ∧
      line = after.line ∧ line = next.line := by
  intro after next
  obtain ⟨taken, htaken, hrun, hahead⟩ := follows_apply hsound rule
  rw [hfailed] at hrun hahead
  have hline : line = next.line := by
    rw [hrun.line_eq_of_failed, Cursor.head_supply]
  have hstands : after.line = next.line := Cursor.line_of_isAhead (hahead trivial)
  have hnot := hrun.not_beginsSentence Verdict.noConfusion
  rw [Cursor.head_supply] at hnot
  obtain ⟨v, t, -, hderives⟩ := hrun.exists_derives
  obtain ⟨rest, hrest, hall⟩ := Cursor.exists_remaining_eq htaken hrun.kind_ne_of_failed
  exact ⟨taken, rest, hall, hrest, hrun.ne_nil_of_failed rfl rfl, ⟨v, t, hderives⟩, hnot,
    hline.trans hstands.symm, hline⟩

end Builder

/-- Where a whole source fails: what comes before begins a program, and with the token on
whose line the failure is, it does not. -/
theorem parse_of_failed {source : String} {line : Nat} {missing : Missing}
    (h : parse source = .error (.incomplete line missing)) :
    ∃ taken a rest, Located.ofSource source = taken ++ a :: rest ∧
      BeginsProgramText (taken.map Located.token) ∧
      ¬ BeginsProgramText (taken.map Located.token ++ [a.token]) ∧ line = a.line := by
  obtain ⟨taken, c, verdict, after, hsupply, hrun, hcases⟩ := parse_cases source
  obtain ⟨tree, -, -, hok⟩ | ⟨line', missing', rfl, herror⟩ := hcases
  · cases hok.symm.trans h
  · obtain ⟨rfl, rfl⟩ := Failure.incomplete.inj (Except.error.inj (herror.symm.trans h))
    obtain ⟨hbegins, hkind⟩ := Grammar.beginsProgramText_of_failed hrun
    obtain ⟨rest, -, hall⟩ := Cursor.exists_remaining_eq hsupply hkind
    have hnot := Grammar.not_beginsProgramText_of_failed hrun
    have hline := hrun.line_eq_of_failed
    rw [Cursor.head_supply] at hnot hline
    exact ⟨taken, c.nextLocated, rest, Cursor.remaining_start source ▸ hall, hbegins, hnot, hline⟩

/-- **No failure comes late, and none comes too early.**  Whatever was done before, the tokens
that a rule takes before it fails begin a sentence, and with the next token they do not.
That token is not taken, and the failure names its line in the source, where the builder
stands.  Where parsing a source fails, the failure names the line of the first token with
which the source does not begin as line ends and a program do. -/
theorem failure_at_first_wrong_token :
    (∀ (source : String) (stack : Stack) (operations : List Operation) (rule : Rule)
      (line : Nat) (missing : Missing),
      let b := (⟨.start source, stack⟩ : Builder).after operations
      let outcome := b.apply rule
      outcome.verdict = .failed (.incomplete line missing) →
        ∃ taken a rest, b.cursor.remaining = taken ++ a :: rest ∧
          outcome.builder.cursor.remaining = a :: rest ∧
          taken ≠ [] ∧ BeginsSentence rule (taken.map Located.token) ∧
          ¬ BeginsSentence rule (taken.map Located.token ++ [a.token]) ∧
          outcome.builder.cursor.next.1 = a.token ∧
          line = outcome.builder.line ∧ line = a.line ∧
          a :: rest <:+ Located.ofSource source) ∧
      ∀ (source : String) (line : Nat) (missing : Missing),
        parse source = .error (.incomplete line missing) →
          ∃ taken a rest, Located.ofSource source = taken ++ a :: rest ∧
            BeginsProgramText (taken.map Located.token) ∧
            ¬ BeginsProgramText (taken.map Located.token ++ [a.token]) ∧ line = a.line := by
  refine ⟨?_, fun source line missing => parse_of_failed⟩
  intro source stack operations rule line missing b outcome hfailed
  have hreached : Cursor.Reached source b.cursor :=
    Builder.reached_after Cursor.Reached.start operations
  obtain ⟨taken, rest, hbefore, hbehind, hne, hbegins, hnot, hstands, hline⟩ :=
    Builder.apply_of_failed hreached.sound hfailed
  refine ⟨taken, outcome.builder.cursor.nextLocated, rest, hbefore, hbehind, hne, hbegins, hnot,
    rfl, hstands, hline, ?_⟩
  exact (List.suffix_append taken _).trans (hbefore ▸ hreached.remaining_suffix)

/-- Behind a comment over two lines and a name that was taken back once, a block fails at the
end of the third line, where a call has no name.  So does the source with such a bug. -/
theorem failure_at_end_of_line :
    let b := (⟨.start "/*\n*/ b \x7b\ndo\n\x7d", []⟩ : Builder).after [.next, .putBack, .next]
    let outcome := b.apply .block
    (∃ taken a rest, b.cursor.remaining = taken ++ a :: rest ∧
      outcome.builder.cursor.remaining = a :: rest ∧ taken ≠ [] ∧
      BeginsSentence .block (taken.map Located.token) ∧
      ¬ BeginsSentence .block (taken.map Located.token ++ [a.token]) ∧
      outcome.builder.cursor.next.1 = a.token ∧ 3 = outcome.builder.line ∧ 3 = a.line ∧
      a :: rest <:+ Located.ofSource "/*\n*/ b \x7b\ndo\n\x7d") ∧
      ∃ taken a rest, Located.ofSource "/*\n*/ Bug b \x7b\ndo\n\x7d" = taken ++ a :: rest ∧
        BeginsProgramText (taken.map Located.token) ∧
        ¬ BeginsProgramText (taken.map Located.token ++ [a.token]) ∧ 3 = a.line := by
  intro b outcome
  have hfailed : outcome.verdict =
      .failed (.incomplete 3 (.item "a function name after 'do'")) := by decide +kernel
  have hparse : parse "/*\n*/ Bug b \x7b\ndo\n\x7d" =
      .error (.incomplete 3 (.item "a function name after 'do'")) := by decide +kernel
  exact ⟨failure_at_first_wrong_token.1 _ [] [.next, .putBack, .next] .block 3 _ hfailed,
    failure_at_first_wrong_token.2 _ 3 _ hparse⟩

end BugLang
