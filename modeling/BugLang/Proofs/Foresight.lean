import BugLang.Proofs.Contract

/-!
# One token of foresight

Of what is to come, a rule sees the tokens that it takes and one token behind them.  Two
builders may stand in different sources, or at different places of a source, and may have
different stacks: as long as they have these tokens in common, a rule takes equal tokens from
both and ends in the same way.  Space, comments and the ends of lines inside comments never
count, except that a failure names the line that its own source has at this place.

* `Builder.Takes.congr`: what two builders make of equal tokens.
* `Cursor.Sound.agree_of_drop_supply_eq`: how many tokens were taken is settled but for the
  ends of the input, of which any number look alike.
* `one_token_of_foresight`: this for builders in any state, and for whole sources.
-/

namespace BugLang

open Stream'

/-- The failure with its line moved. -/
def Failure.onLine (line : Nat) : Failure → Failure
  | .incomplete _ missing => .incomplete line missing
  | failure => failure

/-- Moving the line of a failed verdict is moving that of its failure. -/
theorem Verdict.onLine_failed (line : Nat) (failure : Failure) :
    (failed failure).onLine line = .failed (failure.onLine line) := by
  cases failure <;> rfl

/-- A supply that is the same behind some tokens and behind more has ended there. -/
theorem Supply.EndsWithin.kind_of_drop_eq {s : Supply} {places m n : Nat}
    (h : s.EndsWithin places) (hlt : m < n) (hdrop : s.drop m = s.drop n) :
    (s.get m).token.kind = .endOfInput := by
  -- The supply goes round in steps of `n - m`, and one of these steps leads behind its end.
  have hstep : ∀ place, s.get (m + place) = s.get (n + place) := by
    intro place
    rw [← get_drop, ← get_drop, hdrop]
  have hround : ∀ rounds, s.get (m + rounds * (n - m)) = s.get m := by
    intro rounds
    induction rounds with
    | zero => rw [Nat.zero_mul, Nat.add_zero]
    | succ rounds ih =>
      have hplace : m + (rounds + 1) * (n - m) = n + rounds * (n - m) := by
        rw [Nat.succ_mul]
        omega
      rw [hplace, ← hstep, ih]
  rw [← hround places]
  refine h _ (Nat.le_trans ?_ (Nat.le_add_left _ m))
  exact Nat.le_mul_of_pos_right places (Nat.sub_pos_of_lt hlt)

namespace Cursor

variable {c d : Cursor}

/-- Behind the next token comes the supply behind it. -/
theorem tail_supply (c : Cursor) : c.supply.tail = c.next.2.supply := by
  rw [supply_eq, tail_cons]

/-- Where the end of the input has come once, it comes at all places behind. -/
theorem Sound.get_supply_of_end (h : c.Sound) {m n : Nat}
    (hend : (c.supply.get m).token.kind = .endOfInput) (hmn : m ≤ n) :
    c.supply.get n = c.supply.get m := by
  induction m generalizing c n with
  | zero =>
    rw [supply_eq] at hend
    rw [h.supply_eq_const hend, get_const, get_const]
  | succ m ih =>
    obtain ⟨n, rfl⟩ : ∃ k, n = k + 1 := ⟨n - 1, by omega⟩
    rw [supply_eq, get_succ_cons] at hend ⊢
    rw [get_succ_cons]
    exact ih h.next hend (Nat.le_of_succ_le_succ hmn)

/-- Behind the end of the input, the supply is always the same. -/
theorem Sound.drop_supply_of_end (h : c.Sound) {m n : Nat}
    (hend : (c.supply.get m).token.kind = .endOfInput) (hmn : m ≤ n) :
    c.supply.drop n = c.supply.drop m := by
  apply Stream'.ext
  intro place
  rw [get_drop, get_drop, h.get_supply_of_end hend (by omega),
    h.get_supply_of_end hend (Nat.le_add_right m place)]

/-- **Counting tokens.**  If a supply is the same behind two numbers of tokens, then it is so
for any supply that agrees with it up to the first place, and the two agree up to the second. -/
theorem Sound.agree_of_drop_supply_eq (hc : c.Sound) (hd : d.Sound) {m n : Nat}
    (hdrop : c.supply.drop m = c.supply.drop n)
    (htokens : ∀ place ≤ m, (d.supply.get place).token = (c.supply.get place).token) :
    d.supply.drop m = d.supply.drop n ∧
      ∀ place ≤ n, (d.supply.get place).token = (c.supply.get place).token := by
  rcases Nat.lt_trichotomy m n with hlt | rfl | hlt
  · -- Both have come to their end at the first place.
    have hcend : (c.supply.get m).token.kind = .endOfInput :=
      hc.endsWithin.kind_of_drop_eq hlt hdrop
    have hdend : (d.supply.get m).token.kind = .endOfInput := by
      rw [htokens m (Nat.le_refl m)]
      exact hcend
    refine ⟨(hd.drop_supply_of_end hdend (Nat.le_of_lt hlt)).symm, fun place _ => ?_⟩
    rcases Nat.le_total place m with hle | hle
    · exact htokens place hle
    · rw [hd.get_supply_of_end hdend hle, hc.get_supply_of_end hcend hle]
      exact htokens m (Nat.le_refl m)
  · exact ⟨rfl, htokens⟩
  · -- Both have come to their end at the second place, which is the earlier one.
    have hcend : (c.supply.get n).token.kind = .endOfInput :=
      hc.endsWithin.kind_of_drop_eq hlt hdrop.symm
    have hdend : (d.supply.get n).token.kind = .endOfInput := by
      rw [htokens n (Nat.le_of_lt hlt)]
      exact hcend
    exact ⟨hd.drop_supply_of_end hdend (Nat.le_of_lt hlt),
      fun place hle => htokens place (Nat.le_trans hle (Nat.le_of_lt hlt))⟩

end Cursor

namespace Builder

variable {b d : Builder} {rule : Rule} {u v : List Located}

/-- Whether a rule takes just these tokens when it is applied: they come first, the recipe of
the rule runs on them, and what comes behind them is left. -/
structure Takes (b : Builder) (rule : Rule) (taken : List Located) : Prop where
  supply : b.cursor.supply = taken ++ₛ (b.apply rule).builder.cursor.supply
  run : (Recipe.rule rule).Run taken (b.apply rule).builder.cursor.supply b.stack
    (b.apply rule).verdict (b.apply rule).builder.stack

/-- A rule takes some tokens. -/
theorem exists_takes (hb : b.cursor.Sound) (rule : Rule) : ∃ taken, b.Takes rule taken := by
  obtain ⟨taken, htaken, hrun, -⟩ := follows_apply hb rule
  exact ⟨taken, htaken, hrun⟩

/-- A rule takes no tokens but these. -/
theorem Takes.unique (h : b.Takes rule u) (h' : b.Takes rule v) : u = v :=
  (h.run.unique h'.run (h.supply.symm.trans h'.supply)).1

/-- The tokens that are taken are dropped from the supply. -/
theorem Takes.drop_supply (h : b.Takes rule u) :
    b.cursor.supply.drop u.length = (b.apply rule).builder.cursor.supply := by
  rw [h.supply, drop_append_stream]

/-- What a rule takes does not depend on the stack. -/
theorem Takes.of_empty (hb : b.cursor.Sound)
    (h : (⟨b.cursor, []⟩ : Builder).Takes rule u) : b.Takes rule u := by
  have honto : b.apply rule = ((⟨b.cursor, []⟩ : Builder).apply rule).onto b.stack :=
    b.apply_eq_onto rule
  constructor
  · rw [honto]
    exact h.supply
  · rw [honto]
    exact h.run.onto (verdict_apply_ne_fault (b := ⟨b.cursor, []⟩) hb rule) b.stack

/-- On an empty stack, a rule that is matched leaves one tree, and one that is declined leaves
nothing. -/
theorem stack_apply_empty (hb : b.cursor.Sound) (rule : Rule) :
    let outcome := (⟨b.cursor, []⟩ : Builder).apply rule
    (outcome.verdict = .matched → ∃ tree, outcome.builder.stack = [tree]) ∧
      (outcome.verdict = .declined → outcome.builder.stack = []) :=
  ⟨stack_apply_of_matched (b := ⟨b.cursor, []⟩) hb,
    fun hdeclined => (apply_of_declined (b := ⟨b.cursor, []⟩) hb hdeclined).1⟩

/-- **Rules on equal tokens.**  Where two builders agree on the tokens that a rule takes from
the one and on the next token, the rule takes equal tokens from the other, puts the same on
its stack, and ends in the same way. -/
theorem Takes.congr (h : b.Takes rule u) (hb : b.cursor.Sound) (hd : d.cursor.Sound)
    (htokens : ∀ place ≤ u.length,
      (d.cursor.supply.get place).token = (b.cursor.supply.get place).token) :
    ∃ v, d.Takes rule v ∧ v.map Located.token = u.map Located.token ∧
      (d.apply rule).verdict =
        (b.apply rule).verdict.onLine (d.cursor.supply.get u.length).line ∧
      ((⟨d.cursor, []⟩ : Builder).apply rule).builder.stack =
        ((⟨b.cursor, []⟩ : Builder).apply rule).builder.stack := by
  obtain ⟨u', hu⟩ := exists_takes (b := ⟨b.cursor, []⟩) hb rule
  obtain ⟨v, hv⟩ := exists_takes (b := ⟨d.cursor, []⟩) hd rule
  obtain rfl : u' = u := (hu.of_empty hb).unique h
  obtain ⟨hmap, hverdict, hstack⟩ := hu.run.congr hv.run fun place hplace => by
    rw [← hu.supply, ← hv.supply]
    exact htokens place hplace
  have hlength : v.length = u'.length := by simpa using congrArg List.length hmap
  have hnext : d.cursor.supply.get u'.length =
      ((⟨d.cursor, []⟩ : Builder).apply rule).builder.cursor.supply.head := by
    have hsupply := hv.supply
    dsimp only at hsupply
    rw [hsupply, ← hlength, ← Nat.add_zero v.length, get_append_right]
  refine ⟨v, hv.of_empty hd, hmap, ?_, hstack⟩
  rw [hnext, apply_eq_onto d, apply_eq_onto b]
  exact hverdict

/-- **Rules on tokens that were counted.**  Here only the number of the tokens is known that a
rule takes from the one builder.  It may pass ends of the input that the rule does not take. -/
theorem Takes.congr_of_count {count : Nat} (h : b.Takes rule u) (hb : b.cursor.Sound)
    (hd : d.cursor.Sound)
    (hcount : b.cursor.supply.drop count = (b.apply rule).builder.cursor.supply)
    (htokens : ∀ place ≤ count,
      (d.cursor.supply.get place).token = (b.cursor.supply.get place).token) :
    d.cursor.supply.drop count = (d.apply rule).builder.cursor.supply ∧
      (∃ u v, b.Takes rule u ∧ d.Takes rule v ∧ v.map Located.token = u.map Located.token) ∧
      (d.apply rule).verdict =
        (b.apply rule).verdict.onLine (d.cursor.supply.get count).line ∧
      ((⟨d.cursor, []⟩ : Builder).apply rule).builder.stack =
        ((⟨b.cursor, []⟩ : Builder).apply rule).builder.stack := by
  have hdrop : b.cursor.supply.drop count = b.cursor.supply.drop u.length :=
    hcount.trans h.drop_supply.symm
  obtain ⟨hdrop', htokens'⟩ := hb.agree_of_drop_supply_eq hd hdrop htokens
  obtain ⟨v, hv, hmap, hverdict, hstack⟩ := h.congr hb hd htokens'
  have hlength : v.length = u.length := by simpa using congrArg List.length hmap
  have hnext : d.cursor.supply.get count = d.cursor.supply.get u.length := by
    rw [← head_drop, ← head_drop, hdrop']
  rw [hnext]
  exact ⟨by rw [hdrop', ← hlength, hv.drop_supply], ⟨u, v, h, hv, hmap⟩, hverdict, hstack⟩

end Builder

namespace Outcome

variable {first second : Outcome} {p : Recipe} {b d : Builder} {line : Nat}

/-- Two outcomes of one recipe are the same but for the line of a failure, if the tokens to
come were equal. -/
theorem Follows.congr (hfirst : first.Follows p b) (hsecond : second.Follows p d)
    (hb : b.cursor.Sound) (hd : d.cursor.Sound) (hupcoming : b.cursor.upcoming = d.cursor.upcoming)
    (hstack : d.stack = b.stack) :
    ∃ line, second.verdict = first.verdict.onLine line ∧
      second.builder.stack = first.builder.stack := by
  obtain ⟨u, hu, hrun, -⟩ := hfirst
  obtain ⟨v, hv, hrun', -⟩ := hsecond
  rw [hstack] at hrun'
  obtain ⟨-, hverdict, hafter⟩ := hrun.congr hrun' fun place _ => by
    rw [← hu, ← hv]
    exact (hb.token_get_supply_congr hd hupcoming place).symm
  exact ⟨_, hverdict, hafter⟩

/-- A tree that is finished, or the fault that prevents it, is on no line. -/
theorem mapError_finish (line : Nat) (b : Builder) :
    b.finish.mapError (Failure.onLine line) = b.finish := by
  unfold Builder.finish
  cases b.stack.single <;> rfl

/-- Outcomes that are the same but for a line give the same tree but for this line. -/
theorem tree?_congr (hverdict : second.verdict = first.verdict.onLine line)
    (hstack : second.builder.stack = first.builder.stack) :
    second.tree? = first.tree?.mapError (Failure.onLine line) := by
  have hfinish : second.builder.finish = first.builder.finish := by
    rw [Builder.finish, Builder.finish, hstack]
  unfold tree?
  rw [hverdict, hfinish]
  cases first.verdict with
  | matched =>
    have hmap := mapError_finish line first.builder
    cases hfinal : first.builder.finish with
    | ok tree => rfl
    | error failure =>
      rw [hfinal] at hmap
      exact congrArg Except.error (Except.error.inj hmap).symm
  | declined => rfl
  | failed failure =>
    rw [Verdict.onLine_failed]
    rfl

/-- Outcomes that are the same but for a line complete to the same but for this line. -/
theorem complete_congr (hverdict : second.verdict = first.verdict.onLine line)
    (hstack : second.builder.stack = first.builder.stack) :
    second.complete = first.complete.mapError (Failure.onLine line) := by
  have hfinish : second.builder.finish = first.builder.finish := by
    rw [Builder.finish, Builder.finish, hstack]
  unfold complete
  rw [hverdict, hfinish]
  cases first.verdict with
  | matched | declined => exact (mapError_finish line first.builder).symm
  | failed failure =>
    rw [Verdict.onLine_failed]
    rfl

end Outcome

section Layout

variable {source source' : String}
  (htokens : (Located.ofSource source).map Located.token =
    (Located.ofSource source').map Located.token)

include htokens

/-- Cursors at the start of sources with equal tokens have the same to come. -/
theorem Cursor.upcoming_start_congr : (start source).upcoming = (start source').upcoming := by
  rw [upcoming_start, upcoming_start, htokens]

/-- Sources with equal tokens are parsed to the same tree, or fail for the same reason. -/
theorem parse_congr_of_tokens :
    ∃ line, parse source' = (parse source).mapError (Failure.onLine line) := by
  obtain ⟨line, hverdict, hstack⟩ := (Builder.follows_readText source).congr
    (Builder.follows_readText source') (Cursor.sound_start source) (Cursor.sound_start source')
    (Cursor.upcoming_start_congr htokens) rfl
  rw [Builder.parse_eq, Builder.parse_eq]
  exact ⟨line, Outcome.complete_congr hverdict hstack⟩

/-- A rule makes the same of sources with equal tokens. -/
theorem parseRule_congr_of_tokens (rule : Rule) :
    ∃ line, parseRule rule source' = (parseRule rule source).mapError (Failure.onLine line) := by
  have hsound : (Builder.start source).cursor.Sound := Cursor.sound_start source
  have hsound' : (Builder.start source').cursor.Sound := Cursor.sound_start source'
  obtain ⟨line, hverdict, hstack⟩ := (Builder.follows_apply hsound rule).congr
    (Builder.follows_apply hsound' rule) hsound hsound' (Cursor.upcoming_start_congr htokens) rfl
  exact ⟨line, Outcome.tree?_congr hverdict hstack⟩

end Layout

/-- **One token of foresight is enough, and layout never counts.**  Let two builders have any
past in any sources.  A rule takes some tokens from the first one, and no others.  If the
supply behind `count` tokens is what the rule leaves, and the builders agree on these tokens
and the next one, then so it is for the second builder: the rule takes equal tokens, puts the
same entries on the stack, and ends with the same verdict, where a failure names the line
of the token that is next in the second source.  So sources with equal tokens have the same
trees, or fail for the same reason. -/
theorem one_token_of_foresight :
    (∀ (source source' : String) (stack stack' : Stack) (operations operations' : List Operation)
      (rule : Rule),
      let b := (⟨.start source, stack⟩ : Builder).after operations
      let d := (⟨.start source', stack'⟩ : Builder).after operations'
      let first := b.apply rule
      let second := d.apply rule
      (∃! taken, b.Takes rule taken) ∧
        ∀ count, b.cursor.supply.drop count = first.builder.cursor.supply →
          (∀ place ≤ count,
            (d.cursor.supply.get place).token = (b.cursor.supply.get place).token) →
          d.cursor.supply.drop count = second.builder.cursor.supply ∧
          (∃ u v, b.Takes rule u ∧ d.Takes rule v ∧
            v.map Located.token = u.map Located.token) ∧
          second.verdict = first.verdict.onLine (d.cursor.supply.get count).line ∧
          ∃ entries, first.builder.stack = entries ++ b.stack ∧
            second.builder.stack = entries ++ d.stack ∧
            (first.verdict = .matched → ∃ tree, entries = [tree]) ∧
            (first.verdict = .declined → entries = [])) ∧
      ∀ source source' : String,
        (Located.ofSource source).map Located.token =
          (Located.ofSource source').map Located.token →
        (∃ line, parse source' = (parse source).mapError (Failure.onLine line)) ∧
          ∀ rule, ∃ line,
            parseRule rule source' = (parseRule rule source).mapError (Failure.onLine line) := by
  refine ⟨?_, fun _ _ htokens =>
    ⟨parse_congr_of_tokens htokens, parseRule_congr_of_tokens htokens⟩⟩
  intro source source' stack stack' operations operations' rule b d first second
  have hb : b.cursor.Sound := Builder.sound_after source stack operations
  have hd : d.cursor.Sound := Builder.sound_after source' stack' operations'
  obtain ⟨u, hu⟩ := Builder.exists_takes hb rule
  refine ⟨⟨u, hu, fun _ hv => hv.unique hu⟩, fun count hcount htokens => ?_⟩
  obtain ⟨hdrop, htakes, hverdict, hentries⟩ := hu.congr_of_count hb hd hcount htokens
  obtain ⟨hmatched, hdeclined⟩ := Builder.stack_apply_empty hb rule
  have hfirst : first = ((⟨b.cursor, []⟩ : Builder).apply rule).onto b.stack :=
    b.apply_eq_onto rule
  have hsecond : second = ((⟨d.cursor, []⟩ : Builder).apply rule).onto d.stack :=
    d.apply_eq_onto rule
  refine ⟨hdrop, htakes, hverdict, ((⟨b.cursor, []⟩ : Builder).apply rule).builder.stack,
    ?_, ?_, ?_, ?_⟩
  · rw [hfirst]
    rfl
  · rw [hsecond, ← hentries]
    rfl
  · rw [hfirst]
    exact hmatched
  · rw [hfirst]
    exact hdeclined

/-- A call that breaks off behind a comma, at the start of a source and behind a name and with
two more lines in a comment.  What comes behind the next token is not the same. -/
theorem foresight_of_broken_call :
    let b := (⟨.start "do f(a,) b", [.leaf (.ofText "x")]⟩ : Builder).after [.next, .putBack]
    let d := (Builder.start "q do f(/*\n\n*/a,)\nb").after [.next]
    b.cursor.supply.drop 5 = (b.apply .doStatement).builder.cursor.supply ∧
      (∀ place ≤ 5, (d.cursor.supply.get place).token = (b.cursor.supply.get place).token) ∧
      d.cursor.supply.drop 5 = (d.apply .doStatement).builder.cursor.supply ∧
      (b.apply .doStatement).verdict =
        .failed (.incomplete 1 (.item "an expression after ','")) ∧
      (d.apply .doStatement).verdict =
        .failed (.incomplete 3 (.item "an expression after ','")) ∧
      ∃ line, parse "do f(/*\n\n*/a,)" = (parse "do f(a,)").mapError (Failure.onLine line) := by
  intro b d
  have hcursor : (b.apply .doStatement).builder.cursor =
      b.cursor.next.2.next.2.next.2.next.2.next.2.peek.2 := by decide +kernel
  have hcount : b.cursor.supply.drop 5 = (b.apply .doStatement).builder.cursor.supply := by
    rw [hcursor, Cursor.supply_peek]
    simp only [drop_succ, Cursor.tail_supply]
    rfl
  have htokens : ∀ place ≤ 5,
      (d.cursor.supply.get place).token = (b.cursor.supply.get place).token := by decide +kernel
  have hfailed : (b.apply .doStatement).verdict =
      .failed (.incomplete 1 (.item "an expression after ','")) := by decide +kernel
  have hline : (d.cursor.supply.get 5).line = 3 := by decide +kernel
  have hsame : (Located.ofSource "do f(a,)").map Located.token =
      (Located.ofSource "do f(/*\n\n*/a,)").map Located.token := by decide +kernel
  obtain ⟨hdrop, -, hverdict, -⟩ := (one_token_of_foresight.1 "do f(a,) b"
    "q do f(/*\n\n*/a,)\nb" [.leaf (.ofText "x")] [] [.next, .putBack] [.next]
    .doStatement).2 5 hcount htokens
  refine ⟨hcount, htokens, hdrop, hfailed, hverdict.trans ?_,
    (one_token_of_foresight.2 _ _ hsame).1⟩
  exact congrArg₂ Verdict.onLine hline hfailed

end BugLang
