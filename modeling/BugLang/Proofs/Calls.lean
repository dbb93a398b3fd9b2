import BugLang.Proofs.TokensLeft

/-!
# Parsing comes to an end

Rules call each other in a circle, and some of their parts are repeated.  A call that is made
before a token was taken is of a later rule in the list of all rules, and neither calls nor rounds
go without a token otherwise.  So there is no end to them only if there is none to the tokens up to
the first end of the input.

* `Recipe.ComesTo`: the parts that a recipe comes to, and the builders on which it does.
* `Recipe.roundsProgress`: every round of a repetition leaves fewer tokens.
* `Call.Makes.descends`: what calls are made before a token was taken.
* `Call.acc_makes`: calls do not make calls for ever.
* `parsing_progresses`: all this holds of every call on every source, and of the parser.
-/

namespace BugLang

open Stream'

/-! ### What a recipe comes to -/

/-- Whether a recipe that is followed from a builder comes to another recipe on another
builder: to one of its parts, or to a part of one. -/
inductive Recipe.ComesTo : Recipe → Builder → Recipe → Builder → Prop
  | here {p : Recipe} {b : Builder} : ComesTo p b p b
  | first {p q part : Recipe} {b c : Builder} (h : ComesTo p b part c) :
      ComesTo (.andThen p q) b part c
  | second {p q part : Recipe} {b c : Builder} (hfirst : (b.follow p).verdict = .matched)
      (h : ComesTo q (b.follow p).builder part c) : ComesTo (.andThen p q) b part c
  | preferred {p q part : Recipe} {b c : Builder} (h : ComesTo p b part c) :
      ComesTo (.orElse p q) b part c
  | other {p q part : Recipe} {b c : Builder} (hfirst : (b.follow p).verdict = .declined)
      (h : ComesTo q (b.follow p).builder part c) : ComesTo (.orElse p q) b part c
  | round {body part : Recipe} {b c : Builder} (h : ComesTo body b part c) :
      ComesTo (.many body) b part c
  | again {body part : Recipe} {b c : Builder} (hround : (b.follow body).verdict = .matched)
      (h : ComesTo (.many body) (b.follow body).builder part c) : ComesTo (.many body) b part c
  | require {body part : Recipe} {missing : Missing} {b c : Builder} (h : ComesTo body b part c) :
      ComesTo (.require body missing) b part c
  | promised {body part : Recipe} {fault : Fault} {b c : Builder} (h : ComesTo body b part c) :
      ComesTo (.promised body fault) b part c

namespace Recipe.ComesTo

variable {p part : Recipe} {b c : Builder}

/-- What a recipe comes to goes on reading the source. -/
theorem sound (h : p.ComesTo b part c) (hsound : b.cursor.Sound) : c.cursor.Sound := by
  induction h with
  | here => exact hsound
  | second _ _ ih | other _ _ ih | again _ _ ih => exact ih (Builder.sound_follow hsound _)
  | _ _ ih => exact ih hsound

/-- The parts of a recipe advance as it does. -/
theorem advances (h : p.ComesTo b part c) (hp : p.advances = true) : part.advances = true := by
  induction h with
  | here => exact hp
  | first _ ih | preferred _ ih => exact ih (Bool.and_eq_true_iff.mp hp).1
  | second _ _ ih | other _ _ ih | round _ ih | promised _ ih =>
    exact ih (Bool.and_eq_true_iff.mp hp).2
  | again _ _ ih | require _ ih => exact ih hp

/-- The rounds of its parts take tokens as its own do. -/
theorem roundsTake (h : p.ComesTo b part c) (hp : p.roundsTake = true) :
    part.roundsTake = true := by
  induction h with
  | here => exact hp
  | first _ ih | preferred _ ih => exact ih (Bool.and_eq_true_iff.mp hp).1
  | second _ _ ih | other _ _ ih | round _ ih => exact ih (Bool.and_eq_true_iff.mp hp).2
  | again _ _ ih | require _ ih | promised _ ih => exact ih hp

/-- **The way to a part.**  Either a token was taken on the way, or the part calls no other rules
first than the recipe does. -/
theorem exists_taken (h : p.ComesTo b part c) (hsound : b.cursor.Sound)
    (hp : p.advances = true) :
    ∃ taken, b.cursor.supply = taken ++ₛ c.cursor.supply ∧
      ((∃ a ∈ taken, a.token.kind ≠ .endOfInput) ∨
        ∀ named ∈ part.openings, named ∈ p.openings) := by
  induction h with
  | here => exact ⟨[], rfl, .inr fun named hnamed => hnamed⟩
  | first _ ih | preferred _ ih =>
    obtain ⟨taken, htaken, hcase⟩ := ih hsound (Bool.and_eq_true_iff.mp hp).1
    exact ⟨taken, htaken, hcase.imp_right fun h named hnamed =>
      List.mem_append_left _ (h named hnamed)⟩
  | @second p q part b c hfirst _ ih =>
    obtain ⟨hadvances, hadvances'⟩ := Bool.and_eq_true_iff.mp hp
    obtain ⟨u, hu, hrun, -⟩ := Builder.follows_follow hsound hadvances
    obtain ⟨v, hv, hcase⟩ := ih (Builder.sound_follow hsound p) hadvances'
    refine ⟨u ++ v, by rw [hu, hv, append_append_stream], ?_⟩
    rcases hcase with ⟨a, ha, hkind⟩ | hopenings
    · exact .inl ⟨a, List.mem_append_right _ ha, hkind⟩
    · cases hidle : p.idles with
      | false =>
        obtain ⟨a, ha, hkind⟩ := (hfirst ▸ hrun).exists_mem_of_matched hidle
        exact .inl ⟨a, List.mem_append_left _ ha, hkind⟩
      | true =>
        exact .inr fun named hnamed =>
          List.mem_append_right _ (by rw [if_pos hidle]; exact hopenings named hnamed)
  | @other p q part b c _ _ ih =>
    obtain ⟨hadvances, hadvances'⟩ := Bool.and_eq_true_iff.mp hp
    obtain ⟨u, hu, -, -⟩ := Builder.follows_follow hsound hadvances
    obtain ⟨v, hv, hcase⟩ := ih (Builder.sound_follow hsound p) hadvances'
    refine ⟨u ++ v, by rw [hu, hv, append_append_stream], ?_⟩
    rcases hcase with ⟨a, ha, hkind⟩ | hopenings
    · exact .inl ⟨a, List.mem_append_right _ ha, hkind⟩
    · exact .inr fun named hnamed => List.mem_append_right _ (hopenings named hnamed)
  | round h ih | promised h ih => exact ih hsound (Bool.and_eq_true_iff.mp hp).2
  | @again body part b c hround _ ih =>
    -- A round that was matched has taken a token.
    obtain ⟨hidle, hadvances⟩ := Bool.and_eq_true_iff.mp hp
    obtain ⟨u, hu, hrun, -⟩ := Builder.follows_follow hsound hadvances
    obtain ⟨v, hv, -⟩ := ih (Builder.sound_follow hsound body) hp
    obtain ⟨a, ha, hkind⟩ := (hround ▸ hrun).exists_mem_of_matched (by simpa using hidle)
    exact ⟨u ++ v, by rw [hu, hv, append_append_stream],
      .inl ⟨a, List.mem_append_left _ ha, hkind⟩⟩
  | require h ih => exact ih hsound hp

end Recipe.ComesTo

/-! ### Rounds -/

/-- Whether every round of a repetition that a recipe comes to leaves fewer tokens, unless it is
declined and ends the repetition. -/
def Recipe.RoundsProgress (p : Recipe) (b : Builder) : Prop :=
  ∀ body c, p.ComesTo b (.many body) c → (c.follow body).verdict ≠ .declined →
    (c.follow body).builder.tokensLeft < c.tokensLeft

/-- **Every round leaves fewer tokens.** -/
theorem Recipe.roundsProgress {p : Recipe} {b : Builder} (hsound : b.cursor.Sound)
    (hp : p.advances = true) (htake : p.roundsTake = true) : p.RoundsProgress b := by
  intro body c hcomes hverdict
  obtain ⟨-, hadvances⟩ := Bool.and_eq_true_iff.mp (hcomes.advances hp)
  obtain ⟨hfirst, -⟩ := Bool.and_eq_true_iff.mp (hcomes.roundsTake htake)
  exact Builder.tokensLeft_follow_lt (hcomes.sound hsound) hadvances hfirst hverdict

/-! ### Calls -/

/-- A rule that is applied to a builder. -/
structure Call where
  rule : Rule
  builder : Builder

namespace Call

/-- What comes of a call. -/
def outcome (call : Call) : Outcome :=
  call.builder.apply call.rule

/-- Whether a call makes another one. -/
def Makes (call nested : Call) : Prop :=
  (Grammar.recipe call.rule).ComesTo call.builder (.rule nested.rule) nested.builder

/-- The calls that come about on a source. -/
inductive Arises (source : String) : Call → Prop
  /-- A user applies a rule, whatever was done before. -/
  | user (stack : Stack) (operations : List Operation) (rule : Rule) :
      Arises source ⟨rule, (⟨.start source, stack⟩ : Builder).after operations⟩
  /-- The source is parsed as a whole. -/
  | text {rule : Rule} {b : Builder}
      (h : Grammar.text.ComesTo (.start source) (.rule rule) b) : Arises source ⟨rule, b⟩
  /-- Another call makes the call. -/
  | nested {call nested : Call} (h : Arises source call) (hmakes : call.Makes nested) :
      Arises source nested

/-- What progress is in a call. -/
structure Progresses (call : Call) : Prop where
  /-- The call leaves fewer tokens, unless it is declined. -/
  takes : call.outcome.verdict ≠ .declined →
    call.outcome.builder.tokensLeft < call.builder.tokensLeft
  /-- So does every round of a repetition in it. -/
  rounds : (Grammar.recipe call.rule).RoundsProgress call.builder
  /-- A call that it makes has fewer tokens left, or it is of a later rule. -/
  descends : ∀ nested, call.Makes nested →
    nested.builder.tokensLeft < call.builder.tokensLeft ∨
      nested.builder.tokensLeft = call.builder.tokensLeft ∧ nested.rule.rank < call.rule.rank

/-- What it means that a call comes to an end. -/
structure Ends (call : Call) : Prop where
  /-- Calls do not make calls for ever. -/
  nesting : Acc (fun nested caller : Call => caller.Makes nested) call
  /-- There are steps enough. -/
  answered : ¬ call.outcome.Exhausted
  /-- The recipe is carried out without an allowance, and with no more rounds than tokens are
  left. -/
  outcome_eq : ∀ rounds, call.builder.tokensLeft ≤ rounds →
    call.outcome =
      (Grammar.recipe call.rule).carryOut (fun rule b => b.apply rule) rounds call.builder
  /-- Calls lie no deeper in each other than rules can follow each other on the tokens left. -/
  depth : ∀ allowance, (Rule.all.length + 1) * call.builder.tokensLeft ≤ allowance →
    call.rule.applyWithin allowance call.builder = call.outcome

variable {call nested : Call}

/-- What a call makes goes on reading the source. -/
theorem Makes.sound (h : call.Makes nested) (hsound : call.builder.cursor.Sound) :
    nested.builder.cursor.Sound :=
  Recipe.ComesTo.sound h hsound

/-- The calls on a source read the source. -/
theorem Arises.sound {source : String} (h : call.Arises source) : call.builder.cursor.Sound := by
  induction h with
  | user stack operations => exact Builder.sound_after source stack operations
  | text h => exact h.sound (Cursor.sound_start source)
  | nested _ hmakes ih => exact hmakes.sound ih

/-- **The order of calls.**  A call that is made before a token was taken is of a later rule. -/
theorem Makes.descends (h : call.Makes nested) (hsound : call.builder.cursor.Sound) :
    nested.builder.tokensLeft < call.builder.tokensLeft ∨
      nested.builder.tokensLeft = call.builder.tokensLeft ∧ nested.rule.rank < call.rule.rank := by
  obtain ⟨taken, htaken, hmem | hopenings⟩ :=
    Recipe.ComesTo.exists_taken h hsound (Grammar.advances_recipe call.rule)
  · exact .inl (hsound.length_remaining_lt htaken hmem)
  · have hrank := Grammar.rank_lt_of_mem_openings (hopenings _ List.mem_cons_self)
    have hle : nested.builder.tokensLeft ≤ call.builder.tokensLeft :=
      hsound.length_remaining_le htaken
    omega

/-- **Calls do not make calls for ever.** -/
theorem acc_makes {call : Call} (hsound : call.builder.cursor.Sound) :
    Acc (fun nested caller : Call => caller.Makes nested) call :=
  .intro call fun _ hmakes => acc_makes (hmakes.sound hsound)
termination_by (call.builder.tokensLeft, call.rule.rank)
decreasing_by exact Prod.lex_def.mpr (hmakes.descends hsound)

/-- Every call makes progress. -/
theorem progresses (hsound : call.builder.cursor.Sound) : call.Progresses where
  takes := by
    rw [outcome, ← Builder.follow_rule]
    exact Builder.tokensLeft_follow_lt hsound rfl rfl
  rounds := Recipe.roundsProgress hsound (Grammar.advances_recipe _) (Grammar.roundsTake_recipe _)
  descends _ hmakes := hmakes.descends hsound

/-- Every call comes to an end. -/
theorem ends (hsound : call.builder.cursor.Sound) : call.Ends where
  nesting := acc_makes hsound
  answered := Builder.not_exhausted_apply hsound call.rule
  outcome_eq rounds hrounds := by
    rw [Builder.carryOut_apply_eq_follow hsound (Grammar.advances_recipe _) hrounds]
    exact Builder.apply_eq_follow hsound call.rule
  depth allowance hallowance := by
    have hout : ¬ (call.rule.applyWithin allowance call.builder).Exhausted := by
      refine Rule.not_exhausted_applyWithin hsound.endsWithin_remaining ?_
      -- The end of the input makes up for all the rules that may follow each other before a token.
      obtain ⟨left, hleft⟩ := Nat.exists_eq_add_one_of_ne_zero call.builder.tokensLeft_pos.ne'
      have hlength : call.builder.cursor.remaining.length = left + 1 := hleft
      have hrank := call.rule.rank_le
      rw [hleft, Nat.mul_succ] at hallowance
      rw [hlength, Nat.add_sub_cancel]
      omega
    rw [outcome, ← Builder.follow_rule, ← Recipe.carryOutWithin_rule]
    exact Builder.carryOutWithin_eq_follow hsound rfl hout

end Call

/-! ### The end of parsing -/

/-- To follow the recipe of a whole source is to read it. -/
theorem Builder.follow_text {b : Builder} (hsound : b.cursor.Sound) :
    b.follow Grammar.text = b.readText := by
  have hskip : b.follow (.many (.drop .lineEnd)) = b.skipLineEnds := rfl
  have hprogram (after : Builder) :
      after.follow (.require (.rule .program) programStart) =
        (after.apply .program).orElse (fail programStart) := rfl
  rw [Grammar.text, follow_andThen hsound rfl, hskip, funext hprogram]
  rfl

/-- **Every rule makes progress, and parsing comes to an end.**  On every source, whatever was done
before, and within every call: a call that is not declined leaves fewer tokens up to and including
the first end of the input, and so does every round of a repetition that is not declined.  A call
that is made before a token was taken is of a later rule.  So calls do not make calls for ever, no
repetition has more rounds than tokens are left, and neither a rule nor the parser runs out of
steps: what they do is what their recipes say without an allowance. -/
theorem parsing_progresses (source : String) :
    (∀ call : Call, call.Arises source → call.Progresses ∧ call.Ends) ∧
      Grammar.text.RoundsProgress (.start source) ∧
      parse source ≠ .error (.fault .exhausted) ∧
      ∀ rounds, (Located.ofSource source).length ≤ rounds →
        parse source =
          (Grammar.text.carryOut (fun rule b => b.apply rule) rounds (.start source)).complete := by
  have hsound : (Builder.start source).cursor.Sound := Cursor.sound_start source
  have hadvances : Grammar.text.advances = true := rfl
  refine ⟨fun call hcall => ⟨Call.progresses hcall.sound, Call.ends hcall.sound⟩,
    Recipe.roundsProgress hsound hadvances rfl, parse_ne_fault source .exhausted,
    fun rounds hrounds => ?_⟩
  have hleft : (Builder.start source).tokensLeft ≤ rounds := by
    rwa [Builder.tokensLeft, Builder.start, Cursor.remaining_start]
  rw [Builder.carryOut_apply_eq_follow hsound hadvances hleft, Builder.follow_text hsound,
    Builder.parse_eq]

/-- A list of parameters that breaks off behind a comma.  The first parameter is an expression; the
next round takes the comma and fails at the end of the input. -/
theorem broken_list_progresses :
    let call : Call := ⟨.parameterList, .start "(1,"⟩
    let inner : Call :=
      ⟨.expression, (call.builder.follow (.drop (.symbol "("))).builder.push (.ofText "var")⟩
    let further : Recipe :=
      .andThen (.drop (.symbol ",")) (.attached (.rule .expression) "an expression after ','")
    let last : Builder := (inner.outcome.builder.follow .attach).builder
    call.Arises "(1," ∧ call.Makes inner ∧
      (Grammar.recipe .parameterList).ComesTo call.builder (.many further) last ∧
      call.outcome.verdict =
        .failed (.incomplete 1 (.item "an expression after ','")) ∧
      call.outcome.builder.tokensLeft < call.builder.tokensLeft ∧
      inner.outcome.verdict = .matched ∧
      inner.outcome.builder.tokensLeft < inner.builder.tokensLeft ∧
      (last.follow further).verdict ≠ .declined ∧
      (last.follow further).builder.tokensLeft < last.tokensLeft ∧
      call.Ends ∧ inner.Ends := by
  intro call inner further last
  have hcall : call.Arises "(1," := .user [] [] .parameterList
  have hopen : (call.builder.follow (.drop (.symbol "("))).verdict = .matched := by decide +kernel
  have hmakes : call.Makes inner := .second hopen (.second rfl (.first (.preferred (.first .here))))
  have hinner : inner.outcome.verdict = .matched := by decide +kernel
  have hattach : (inner.outcome.builder.follow .attach).verdict = .matched := by decide +kernel
  have hcomes : (Grammar.recipe .parameterList).ComesTo call.builder (.many further) last :=
    .second hopen (.second rfl (.first (.preferred (.second hinner (.second hattach .here)))))
  have hverdict : call.outcome.verdict =
      .failed (.incomplete 1 (.item "an expression after ','")) := by decide +kernel
  have hround : (last.follow further).verdict ≠ .declined := by decide +kernel
  obtain ⟨hprogress, hends⟩ := (parsing_progresses "(1,").1 call hcall
  obtain ⟨hprogress', hends'⟩ := (parsing_progresses "(1,").1 inner (hcall.nested hmakes)
  exact ⟨hcall, hmakes, hcomes, hverdict, hprogress.takes (by rw [hverdict]; exact nofun), hinner,
    hprogress'.takes (by rw [hinner]; exact nofun), hround, hprogress.rounds _ _ hcomes hround,
    hends, hends'⟩

end BugLang
