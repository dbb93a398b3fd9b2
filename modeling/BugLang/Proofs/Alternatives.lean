import BugLang.Proofs.FirstTokens

/-!
# The order of alternatives

An action, a statement and a command are choices between other rules, which are tried one after
the other.  Each one that is declined has only looked at the next token, and looking at it twice
is looking at it once.  As at most one of them is not declined, the order in which they are tried
does not matter: in any other order, every rule does the same, to the last detail of where the
builder stands then.

* `Recipe.carryOut_look`: whoever looks at the next token does not mind if that was done before.
* `Recipe.carryOut_firstOf`: a choice does what the alternative does that is not declined.
* `Recipe.carryOut_congr`: calls that do the same within the allowance make recipes do the same.
* `Grammar.Reorders.apply_eq`: in another order, the alternatives do the same.
* `next_token_decides`: when a rule is declined, and what that means for alternatives.
-/

namespace BugLang

/-! ### Looking ahead -/

/-- A builder that has looked at the next token. -/
def Builder.look (b : Builder) : Builder :=
  { b with cursor := b.cursor.peek.2 }

namespace Builder

/-- The next token is handed out as if nobody had looked at it. -/
theorem next_look (b : Builder) : b.look.cursor.next = b.cursor.next :=
  b.cursor.next_peek

/-- Looking twice is looking once. -/
theorem look_look (b : Builder) : b.look.look = b.look :=
  congrArg (fun next => (⟨next.2.putBack, b.stack⟩ : Builder)) b.next_look

/-- A token is taken or left as if nobody had looked at it. -/
theorem take_look (terminal : Terminal) (b : Builder) : b.look.take terminal = b.take terminal := by
  rw [take, take, next_look]
  rfl

/-- Looking at the next token is as if nobody had looked at it. -/
theorem ahead_look (terminal : Terminal) (b : Builder) :
    b.look.ahead terminal = b.ahead terminal := by
  rw [ahead, ahead, Cursor.peek, Cursor.peek, next_look]
  rfl

end Builder

namespace Recipe

variable {call call' : Rule → Builder → Outcome} {rounds allowance places : Nat} {b : Builder}

/-- Whether a recipe begins with a look at the next token. -/
def looks : Recipe → Bool
  | .keep _ | .drop _ | .ahead _ | .rule _ => true
  | .andThen first _ | .orElse first _ => first.looks
  | .require body _ | .promised body _ => body.looks
  | _ => false

/-- **A look changes nothing.**  A recipe that begins with a look at the next token does the same
if that was done before. -/
theorem carryOut_look {p : Recipe} (hp : p.looks = true)
    (hcall : ∀ rule ∈ p.openings, call rule b.look = call rule b) :
    p.carryOut call rounds b.look = p.carryOut call rounds b := by
  induction p with
  | keep terminal => rw [carryOut, carryOut, Builder.keep, Builder.keep, Builder.take_look]
  | drop terminal => rw [carryOut, carryOut, Builder.drop, Builder.drop, Builder.take_look]
  | ahead terminal => exact b.ahead_look terminal
  | rule named => exact hcall named List.mem_cons_self
  | andThen p q ihFirst | orElse p q ihFirst =>
    rw [carryOut, carryOut, ihFirst hp fun rule hrule => hcall rule (List.mem_append_left _ hrule)]
  | require body missing ih | promised body fault ih => rw [carryOut, carryOut, ih hp hcall]
  | _ => exact Bool.noConfusion hp

/-- A recipe that is certain is not declined. -/
theorem verdict_carryOut_ne_declined
    (hfollows : ∀ rule b, (call rule b).Exhausted ∨ (call rule b).Follows (.rule rule) b)
    {p : Recipe} (hp : p.certain = true) (b : Builder) :
    (p.carryOut call rounds b).verdict ≠ .declined := by
  intro hdeclined
  rcases follows_carryOut hfollows rounds p b with hout | ⟨u, -, hrun, -⟩
  · exact Verdict.noConfusion (hdeclined.symm.trans hout)
  · rw [hdeclined] at hrun
    exact absurd hp (Bool.eq_false_iff.mp hrun.not_certain_of_declined)

/-- **A refusal is a look.**  A recipe that is declined has looked at the next token. -/
theorem carryOut_of_declined
    (hfollows : ∀ rule b, (call rule b).Exhausted ∨ (call rule b).Follows (.rule rule) b)
    (hcall : ∀ rule b, (call rule b).verdict = .declined → call rule b = ⟨.declined, b.look⟩)
    {p : Recipe} (hp : p.tidy = true) (hdeclined : (p.carryOut call rounds b).verdict = .declined) :
    p.carryOut call rounds b = ⟨.declined, b.look⟩ := by
  induction p generalizing b with
  | keep terminal | drop terminal =>
    by_cases hfits : terminal.fits b.cursor.nextLocated.token
    · simp [carryOut, Builder.keep, Builder.drop, Builder.take_of_fits hfits] at hdeclined
    · simp only [carryOut, Builder.keep, Builder.drop, Builder.take_of_not_fits hfits]
      rfl
  | ahead terminal => exact congrArg (Outcome.mk · b.look) hdeclined
  | rule named => exact hcall named b hdeclined
  | andThen p q ihFirst =>
    simp only [tidy, Bool.and_eq_true] at hp
    have hfirst := ihFirst hp.1.1.1 (b := b)
    rw [carryOut] at hdeclined ⊢
    rcases h : p.carryOut call rounds b with ⟨verdict, after⟩
    rw [h] at hdeclined hfirst
    cases verdict with
    | matched =>
      -- Behind its first part, a tidy row is not declined.
      exact absurd hdeclined (verdict_carryOut_ne_declined hfollows hp.1.2 after)
    | declined => exact hfirst rfl
    | failed failure => exact Verdict.noConfusion hdeclined
  | orElse p q ihFirst ihSecond =>
    obtain ⟨hp, hq⟩ := tidy_of_orElse hp
    have hfirst := ihFirst hp (b := b)
    rw [carryOut] at hdeclined ⊢
    rcases h : p.carryOut call rounds b with ⟨verdict, after⟩
    rw [h] at hdeclined hfirst
    cases verdict with
    | matched => exact Verdict.noConfusion hdeclined
    | declined =>
      obtain rfl : after = b.look := congrArg Outcome.builder (hfirst rfl)
      exact (ihSecond hq hdeclined).trans (by rw [Builder.look_look])
    | failed failure => exact Verdict.noConfusion hdeclined
  | _ => exact absurd hdeclined (verdict_carryOut_ne_declined hfollows rfl b)

end Recipe

/-- All rules begin with a look at the next token. -/
theorem Grammar.looks_recipe (rule : Rule) : (recipe rule).looks = true := by
  cases rule <;> rfl

namespace Rule

/-- A rule does the same if the next token was looked at before. -/
theorem applyWithin_look {allowance : Nat} {rule : Rule} (hrank : rule.rank ≤ allowance)
    (b : Builder) : rule.applyWithin allowance b.look = rule.applyWithin allowance b := by
  induction allowance generalizing rule with
  | zero => exact absurd rule.rank_pos (Nat.not_lt.mpr hrank)
  | succ allowance ih =>
    refine Recipe.carryOut_look (Grammar.looks_recipe rule) fun called hcalled => ih ?_
    have := Grammar.rank_lt_of_mem_openings hcalled
    omega

/-- A rule that is declined has looked at the next token. -/
theorem applyWithin_of_declined {allowance : Nat} {rule : Rule} {b : Builder}
    (hdeclined : (rule.applyWithin allowance b).verdict = .declined) :
    rule.applyWithin allowance b = ⟨.declined, b.look⟩ := by
  induction allowance generalizing rule b with
  | zero => exact Verdict.noConfusion hdeclined
  | succ allowance ih =>
    exact Recipe.carryOut_of_declined (follows_applyWithin allowance) (fun rule b => ih)
      (Grammar.tidy_recipe rule) hdeclined

end Rule

/-! ### Choices -/

/-- What is not declined is not tried in another way. -/
theorem Outcome.orElse_of_ne_declined {outcome : Outcome} {next : Builder → Outcome}
    (h : outcome.verdict ≠ .declined) : outcome.orElse next = outcome := by
  unfold orElse
  split
  · contradiction
  · rfl

namespace Recipe

variable {call call' : Rule → Builder → Outcome} {rounds allowance places : Nat} {b : Builder}

/-- A choice between rules. -/
def choice (first : Rule) (others : List Rule) : Recipe :=
  firstOf (.rule first) (others.map .rule)

/-- **A choice does what an alternative does.**  If each alternative does the same after a look, and
only looks if it is declined, the choice does what an alternative does that is not declined; or all
of them are declined, and so is the choice. -/
theorem carryOut_choice (rounds : Nat) {first : Rule} {others : List Rule}
    (hlook : ∀ rule ∈ first :: others, call rule b.look = call rule b)
    (hdeclined : ∀ rule ∈ first :: others, (call rule b).verdict = .declined →
      call rule b = ⟨.declined, b.look⟩) :
    (∃ rule ∈ first :: others, (call rule b).verdict ≠ .declined ∧
        (choice first others).carryOut call rounds b = call rule b) ∨
      (∀ rule ∈ first :: others, (call rule b).verdict = .declined) ∧
        (choice first others).carryOut call rounds b = ⟨.declined, b.look⟩ := by
  -- The later alternatives are tried by a builder that has looked already.
  suffices h : ∀ c, (∀ rule ∈ first :: others, call rule c = call rule b) →
      (∃ rule ∈ first :: others, (call rule b).verdict ≠ .declined ∧
          (choice first others).carryOut call rounds c = call rule b) ∨
        (∀ rule ∈ first :: others, (call rule b).verdict = .declined) ∧
          (choice first others).carryOut call rounds c = ⟨.declined, b.look⟩ from
    h b fun _ _ => rfl
  induction others generalizing first with
  | nil =>
    intro c hsame
    have hfirst : (choice first []).carryOut call rounds c = call first b :=
      hsame first List.mem_cons_self
    by_cases hverdict : (call first b).verdict = .declined
    · refine .inr ⟨List.forall_mem_singleton.mpr hverdict, ?_⟩
      rw [hfirst, hdeclined first List.mem_cons_self hverdict]
    · exact .inl ⟨first, List.mem_cons_self, hverdict, hfirst⟩
  | cons second others ih =>
    intro c hsame
    have hstep : (choice first (second :: others)).carryOut call rounds c =
        (call first b).orElse ((choice second others).carryOut call rounds) :=
      congrArg (Outcome.orElse · _) (hsame first List.mem_cons_self)
    rw [hstep]
    by_cases hverdict : (call first b).verdict = .declined
    · rw [hdeclined first List.mem_cons_self hverdict, List.forall_mem_cons,
        and_iff_right hverdict]
      obtain ⟨rule, hmem, h⟩ | h := ih (List.forall_mem_cons.mp hlook).2
        (List.forall_mem_cons.mp hdeclined).2 b.look (List.forall_mem_cons.mp hlook).2
      · exact .inl ⟨rule, List.mem_cons_of_mem first hmem, h⟩
      · exact .inr h
    · exact .inl ⟨first, List.mem_cons_self, hverdict, Outcome.orElse_of_ne_declined hverdict⟩

/-- **Order does not count.**  If at most one alternative is not declined, choices between the same
alternatives do the same. -/
theorem carryOut_choice_congr {first first' : Rule} {others others' : List Rule}
    (hmem : ∀ rule, rule ∈ first' :: others' ↔ rule ∈ first :: others)
    (hlook : ∀ rule ∈ first :: others, call rule b.look = call rule b)
    (hdeclined : ∀ rule ∈ first :: others, (call rule b).verdict = .declined →
      call rule b = ⟨.declined, b.look⟩)
    (honly : ∀ p ∈ first :: others, ∀ q ∈ first :: others, (call p b).verdict ≠ .declined →
      (call q b).verdict ≠ .declined → p = q) :
    (choice first' others').carryOut call rounds b =
      (choice first others).carryOut call rounds b := by
  have hlook' : ∀ rule ∈ first' :: others', call rule b.look = call rule b :=
    fun rule hrule => hlook rule ((hmem rule).mp hrule)
  have hchoice' := carryOut_choice rounds hlook' fun rule hrule =>
    hdeclined rule ((hmem rule).mp hrule)
  obtain ⟨p, hp, hverdict, h⟩ | ⟨hall, h⟩ := carryOut_choice rounds hlook hdeclined
  · obtain ⟨q, hq, hverdict', h'⟩ | ⟨hall', -⟩ := hchoice'
    · obtain rfl := honly p hp q ((hmem q).mp hq) hverdict hverdict'
      rw [h, h']
    · exact absurd (hall' p ((hmem p).mpr hp)) hverdict
  · obtain ⟨q, hq, hverdict', -⟩ | ⟨-, h'⟩ := hchoice'
    · exact absurd (hall q ((hmem q).mp hq)) hverdict'
    · rw [h, h']

/-- A choice may call its alternatives before it takes a token. -/
theorem openings_choice (first : Rule) (others : List Rule) :
    (choice first others).openings = first :: others := by
  induction others generalizing first with
  | nil => rfl
  | cons second others ih => exact congrArg (first :: ·) (ih second)

/-- A choice between rules repeats nothing and promises nothing. -/
theorem advances_choice (first : Rule) (others : List Rule) :
    (choice first others).advances = true := by
  induction others generalizing first with
  | nil => rfl
  | cons second others ih => exact ih second

/-! ### Calls that do the same -/

/-- Attempts that do the same within the allowance do the same when they are repeated. -/
theorem repeated_congr {p : Recipe} {attempt attempt' : Builder → Outcome}
    (hfollows : ∀ b places, Supply.EndsWithin b.cursor.supply places →
      p.Affordable allowance places → (attempt b).Follows p b)
    (hsame : ∀ b places, Supply.EndsWithin b.cursor.supply places →
      p.Affordable allowance places → attempt' b = attempt b)
    (hends : Supply.EndsWithin b.cursor.supply places) (hp : p.Affordable allowance places) :
    b.repeated attempt' rounds = b.repeated attempt rounds := by
  induction rounds generalizing b places with
  | zero => rfl
  | succ rounds ih =>
    have hrun := hfollows b places hends hp
    rw [Builder.repeated, Builder.repeated, hsame b places hends hp]
    rcases h : attempt b with ⟨verdict, after⟩
    rw [h] at hrun
    cases verdict with
    | matched =>
      obtain ⟨places', hends', hp', -⟩ :=
        hrun.affordable_of_matched (q := p) rfl hends hp fun _ => hp
      exact ih hends' hp'
    | declined => rfl
    | failed failure => rfl

/-- **Calls that do the same.**  If calls do the same within the allowance, recipes that can afford
their steps do the same with them. -/
theorem carryOut_congr
    (hfollows : ∀ rule b, (call rule b).Exhausted ∨ (call rule b).Follows (.rule rule) b)
    (hcall : ∀ rule b places, Supply.EndsWithin b.cursor.supply places →
      (Rule.all.length + 1) * places + rule.rank < allowance → ¬ (call rule b).Exhausted)
    (hsame : ∀ rule b places, Supply.EndsWithin b.cursor.supply places →
      (Rule.all.length + 1) * places + rule.rank < allowance → call' rule b = call rule b)
    {p : Recipe} (hp : p.advances = true) (hends : Supply.EndsWithin b.cursor.supply places)
    (hafford : p.Affordable allowance places) :
    p.carryOut call' allowance b = p.carryOut call allowance b := by
  -- What is affordable does not run out of steps, so it is a run and takes tokens as one does.
  have hruns {p : Recipe} (hp : p.advances = true) {b : Builder} {places : Nat}
      (hends : Supply.EndsWithin b.cursor.supply places)
      (hafford : p.Affordable allowance places) : (p.carryOut call allowance b).Follows p b :=
    (follows_carryOut hfollows allowance p b).resolve_left
      (not_exhausted_carryOut hfollows hcall hp hends hafford)
  induction p generalizing b places with
  | rule named => exact hsame named b places hends (hafford.2 named List.mem_cons_self)
  | andThen first second ihFirst ihSecond =>
    obtain ⟨hadvances, hadvances'⟩ := Bool.and_eq_true_iff.mp hp
    have hfirst := hafford.mono (q := first) fun rule => List.mem_append_left _
    have hrun := hruns hadvances hends hfirst
    rw [carryOut, carryOut, ihFirst hadvances hends hfirst]
    rcases h : first.carryOut call allowance b with ⟨verdict, after⟩
    rw [h] at hrun
    cases verdict with
    | matched =>
      obtain ⟨places', hends', hsecond, -⟩ :=
        hrun.affordable_of_matched (q := second) rfl hends hfirst fun hidle =>
          hafford.mono fun rule hrule => List.mem_append_right _ (by rwa [if_pos hidle])
      exact ihSecond hadvances' hends' hsecond
    | declined => rfl
    | failed failure => rfl
  | orElse first second ihFirst ihSecond =>
    obtain ⟨hadvances, hadvances'⟩ := Bool.and_eq_true_iff.mp hp
    have hfirst := hafford.mono (q := first) fun rule => List.mem_append_left _
    have hrun := hruns hadvances hends hfirst
    rw [carryOut, carryOut, ihFirst hadvances hends hfirst]
    rcases h : first.carryOut call allowance b with ⟨verdict, after⟩
    rw [h] at hrun
    cases verdict with
    | matched => rfl
    | declined =>
      exact ihSecond hadvances' (hrun.endsWithin hends)
        (hafford.mono fun rule => List.mem_append_right _)
    | failed failure => rfl
  | many body ih =>
    obtain ⟨-, hadvances⟩ := Bool.and_eq_true_iff.mp hp
    exact repeated_congr (fun b places => hruns hadvances) (fun b places => ih hadvances) hends
      (hafford.mono fun rule hrule => hrule)
  | require body missing ih =>
    rw [carryOut, carryOut, ih hp hends (hafford.mono fun rule hrule => hrule)]
  | promised body fault ih =>
    obtain ⟨-, hadvances⟩ := Bool.and_eq_true_iff.mp hp
    rw [carryOut, carryOut, ih hadvances hends (hafford.mono fun rule hrule => hrule)]
  | _ => rfl

end Recipe

/-! ### Other orders -/

/-- Applies a rule within an allowance, with other recipes for the rules. -/
def Rule.applyBy (grammar : Rule → Recipe) : Nat → Rule → Builder → Outcome
  | 0, _, b => ⟨.failed (.fault .exhausted), b⟩
  | allowance + 1, rule, b => (grammar rule).carryOut (applyBy grammar allowance) allowance b

/-- Applies a rule with other recipes for the rules. -/
def Builder.applyBy (grammar : Rule → Recipe) (rule : Rule) (b : Builder) : Outcome :=
  rule.applyBy grammar b.allowance b

namespace Grammar

/-- Whether recipes are those of the grammar, with the alternatives of choices in some order. -/
def Reorders (grammar : Rule → Recipe) : Prop :=
  ∀ rule, grammar rule = recipe rule ∨
    ∃ first others, (first :: others).Perm rule.alternatives ∧
      grammar rule = Recipe.choice first others

/-- A rule with alternatives is a choice between them. -/
theorem exists_recipe_eq_choice {rule : Rule} (h : rule.alternatives ≠ []) :
    ∃ first others, rule.alternatives = first :: others ∧
      recipe rule = Recipe.choice first others := by
  cases rule <;> first | exact absurd rfl h | exact ⟨_, _, rfl, rfl⟩

/-- Alternatives come later in the list of all rules. -/
theorem rank_lt_of_mem_alternatives {rule called : Rule} (h : called ∈ rule.alternatives) :
    called.rank < rule.rank := by
  obtain ⟨first, others, halternatives, hrecipe⟩ := exists_recipe_eq_choice (List.ne_nil_of_mem h)
  refine rank_lt_of_mem_openings ?_
  rwa [hrecipe, Recipe.openings_choice, ← halternatives]

end Grammar

namespace Grammar.Reorders

variable {grammar : Rule → Recipe} {b : Builder} {allowance places : Nat}

/-- In any order, all repetitions take tokens. -/
theorem advances (hgrammar : Reorders grammar) (rule : Rule) : (grammar rule).advances = true := by
  obtain h | ⟨first, others, -, h⟩ := hgrammar rule
  · rw [h, advances_recipe]
  · rw [h, Recipe.advances_choice]

/-- In any order, a rule calls only later rules before it takes a token. -/
theorem rank_lt (hgrammar : Reorders grammar) {rule called : Rule}
    (hcalled : called ∈ (grammar rule).openings) : called.rank < rule.rank := by
  obtain h | ⟨first, others, hperm, h⟩ := hgrammar rule
  · rw [h] at hcalled
    exact rank_lt_of_mem_openings hcalled
  · rw [h, Recipe.openings_choice] at hcalled
    exact rank_lt_of_mem_alternatives (hperm.mem_iff.mp hcalled)

/-- In any order, the alternatives of a rule make a choice that does the same. -/
theorem carryOut_eq (hgrammar : Reorders grammar) {rule : Rule}
    (hends : Supply.EndsWithin b.cursor.supply places)
    (hallowance : (Rule.all.length + 1) * places + rule.rank < allowance + 1) :
    (grammar rule).carryOut (Rule.applyWithin allowance) allowance b =
      (recipe rule).carryOut (Rule.applyWithin allowance) allowance b := by
  obtain h | ⟨first', others', hperm, h⟩ := hgrammar rule
  · rw [h]
  have hne : rule.alternatives ≠ [] := List.ne_nil_of_mem (hperm.mem_iff.mp List.mem_cons_self)
  obtain ⟨first, others, halternatives, hrecipe⟩ := exists_recipe_eq_choice hne
  rw [h, hrecipe]
  rw [halternatives] at hperm
  have hrank : ∀ called ∈ first :: others, called.rank < rule.rank :=
    fun called hcalled => rank_lt_of_mem_alternatives (halternatives ▸ hcalled)
  have hfollows : ∀ called ∈ first :: others,
      (called.applyWithin allowance b).Follows (.rule called) b := by
    intro called hcalled
    have hlt := hrank called hcalled
    exact (Rule.follows_applyWithin allowance called b).resolve_left
      (Rule.not_exhausted_applyWithin hends (by omega))
  refine Recipe.carryOut_choice_congr (fun called => hperm.mem_iff) ?_ ?_ ?_
  · intro called hcalled
    have hlt := hrank called hcalled
    exact Rule.applyWithin_look (by omega) b
  · intro called _ hdeclined
    exact Rule.applyWithin_of_declined hdeclined
  · intro p hp q hq hverdict hverdict'
    rw [Ne, (hfollows p hp).declined_iff, not_not] at hverdict
    rw [Ne, (hfollows q hq).declined_iff, not_not] at hverdict'
    rw [← halternatives] at hp hq
    exact Rule.eq_of_beginsSentence hp hq hverdict hverdict'

/-- With alternatives in any order, a rule does the same within an allowance that is enough. -/
theorem applyBy_eq_applyWithin (hgrammar : Reorders grammar) {rule : Rule}
    (hends : Supply.EndsWithin b.cursor.supply places)
    (hallowance : (Rule.all.length + 1) * places + rule.rank < allowance) :
    rule.applyBy grammar allowance b = rule.applyWithin allowance b := by
  induction allowance generalizing rule b places with
  | zero => rfl
  | succ allowance ih =>
    rw [Rule.applyBy, Rule.applyWithin, ← hgrammar.carryOut_eq hends hallowance]
    refine Recipe.carryOut_congr (Rule.follows_applyWithin allowance)
      (fun rule b places => Rule.not_exhausted_applyWithin) (fun rule b places => ih)
      (hgrammar.advances rule) hends ⟨?_, fun called hcalled => ?_⟩
    · have := rule.rank_pos
      omega
    · have := hgrammar.rank_lt hcalled
      omega

/-- **Any order will do.**  With alternatives in any order, a rule does the same. -/
theorem applyBy_eq_apply (hgrammar : Reorders grammar) (hsound : b.cursor.Sound) (rule : Rule) :
    b.applyBy grammar rule = b.apply rule := by
  refine hgrammar.applyBy_eq_applyWithin hsound.endsWithin ?_
  have := rule.rank_le
  rw [Builder.allowance, Nat.mul_add]
  omega

end Grammar.Reorders

/-- **The next token decides.**  Whatever was done before, a rule is declined if and only if no
sentence of it begins with the next token, and the tokens that sentences begin with are those that
are listed for the rule.  Otherwise it is matched, or something is missing in the source.  So at
most one of the alternatives of a choice is not declined, and with the alternatives in any other
order every rule does the same: the verdict, the stack and the place in the source are equal. -/
theorem next_token_decides (source : String) (stack : Stack) (operations : List Operation) :
    let b := (⟨.start source, stack⟩ : Builder).after operations
    (∀ rule, (b.apply rule).verdict = .declined ↔ ¬ BeginsSentence rule [b.cursor.next.1]) ∧
      (∀ (rule : Rule) a, BeginsSentence rule [a] ↔ ∃ terminal ∈ rule.first, terminal.fits a) ∧
      (∀ rule, (b.apply rule).verdict ≠ .declined →
        (b.apply rule).verdict = .matched ∨
          ∃ line missing, (b.apply rule).verdict = .failed (.incomplete line missing)) ∧
      (∀ rule : Rule, ∀ p ∈ rule.alternatives, ∀ q ∈ rule.alternatives,
        (b.apply p).verdict ≠ .declined → (b.apply q).verdict ≠ .declined → p = q) ∧
      ∀ grammar, Grammar.Reorders grammar → ∀ rule, b.applyBy grammar rule = b.apply rule := by
  intro b
  have hsound : b.cursor.Sound := Builder.sound_after source stack operations
  have hdeclined (rule : Rule) := (Builder.follows_apply hsound rule).declined_iff
  refine ⟨hdeclined, fun _ _ => beginsSentence_singleton_iff,
    fun _ => Builder.verdict_apply_cases hsound, ?_,
    fun grammar hgrammar => hgrammar.applyBy_eq_apply hsound⟩
  intro rule p hp q hq hverdict hverdict'
  rw [Ne, hdeclined, not_not] at hverdict hverdict'
  exact Rule.eq_of_beginsSentence hp hq hverdict hverdict'

/-- Behind a line end that was taken back and read again, a call that breaks off is a statement of
one kind only.  It is the same failure when statements are tried first, and calls among the first of
them. -/
theorem broken_call_in_another_order :
    let b := (⟨.start "\ndo f(a,)", [.leaf (.ofText "x")]⟩ : Builder).after [.next, .putBack, .next]
    let grammar : Rule → Recipe := fun
      | .command => .choice .statement [.action]
      | .statement =>
        .choice .colorStatement
          [.doStatement, .returnStatement, .switchStatement, .exitIfStatement, .loopStatement,
           .assignmentStatement]
      | rule => Grammar.recipe rule
    (b.apply .doStatement).verdict ≠ .declined ∧
      ((b.apply .doStatement).verdict = .matched ∨
        ∃ line missing, (b.apply .doStatement).verdict = .failed (.incomplete line missing)) ∧
      (∀ q ∈ Rule.statement.alternatives, (b.apply q).verdict ≠ .declined → .doStatement = q) ∧
      Grammar.Reorders grammar ∧ b.applyBy grammar .command = b.apply .command := by
  intro b grammar
  have hverdict : (b.apply .doStatement).verdict ≠ .declined := by decide +kernel
  have hgrammar : Grammar.Reorders grammar := by
    intro rule
    cases rule with
    | command => exact .inr ⟨.statement, [.action], by decide, rfl⟩
    | statement => exact .inr ⟨.colorStatement, _, by decide, rfl⟩
    | _ => exact .inl rfl
  obtain ⟨-, -, hcases, honly, horder⟩ := next_token_decides "\ndo f(a,)" [.leaf (.ofText "x")]
    [.next, .putBack, .next]
  exact ⟨hverdict, hcases .doStatement hverdict,
    fun q hq => honly .statement .doStatement (by decide) q hq hverdict, hgrammar,
    horder grammar hgrammar .command⟩

end BugLang
