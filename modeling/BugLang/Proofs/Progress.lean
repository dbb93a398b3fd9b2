import BugLang.Proofs.Adequacy

/-!
# Enough steps

Rules call each other, and some recipes are repeated.  Neither goes on for ever: every
round of a repetition takes a token, and a rule that is called before a token was
taken comes later in the list of all rules.

* `Recipe.idles`, `Recipe.openings`: whether a recipe can be matched without a token, and
  which rules it may call before it takes one.
* `Recipe.Run.exists_mem_of_matched`: a recipe that does not idle takes a token.
* `Builder.not_exhausted_apply`: the allowance of a builder is enough for every rule.
-/

namespace BugLang

open Stream'

/-- The kind of the tokens that fit. -/
def Terminal.kind : Terminal → Kind
  | .ofKind kind => kind
  | .exactly token => token.kind

/-- A token that fits has the kind that is asked for. -/
theorem Terminal.kind_of_fits {terminal : Terminal} {token : Token} (h : terminal.fits token) :
    token.kind = terminal.kind := by
  cases terminal with
  | ofKind wanted => simpa [fits, kind] using h
  | exactly wanted =>
    obtain rfl : token = wanted := by simpa [fits] using h
    rfl

namespace Recipe

/-- Whether a recipe may be matched without a token other than the end of the input. -/
def idles : Recipe → Bool
  | .keep terminal => terminal.kind = .endOfInput
  | .drop terminal => terminal.kind = .endOfInput
  | .rule _ => false
  | .andThen first second => first.idles && second.idles
  | .orElse first second => first.idles || second.idles
  | .require body _ => body.idles
  | .promised body _ => body.idles
  | _ => true

/-- The rules that a recipe may call before it takes a token. -/
def openings : Recipe → List Rule
  | .rule named => [named]
  | .andThen first second => first.openings ++ if first.idles then second.openings else []
  | .orElse first second => first.openings ++ second.openings
  | .many body => body.openings
  | .require body _ => body.openings
  | .promised body _ => body.openings
  | _ => []

/-- Whether every round of a repetition takes a token, and no broken promise passes for a
lack of steps. -/
def advances : Recipe → Bool
  | .andThen first second => first.advances && second.advances
  | .orElse first second => first.advances && second.advances
  | .many body => !body.idles && body.advances
  | .require body _ => body.advances
  | .promised body fault => fault ≠ .exhausted && body.advances
  | _ => true

end Recipe

/-- The number of rules from a rule on in the list of all rules. -/
def Rule.rank (rule : Rule) : Nat :=
  Rule.all.length - Rule.all.idxOf rule

/-- There are no more rules from some rule on than there are rules. -/
theorem Rule.rank_le (rule : Rule) : rule.rank ≤ Rule.all.length :=
  Nat.sub_le _ _

/-- There is at least the rule itself. -/
theorem Rule.rank_pos (rule : Rule) : 0 < rule.rank :=
  Nat.sub_pos_of_lt (List.idxOf_lt_length_of_mem rule.mem_all)

namespace Grammar

/-- No rule is matched without a token. -/
theorem idles_recipe (rule : Rule) : (recipe rule).idles = false := by
  cases rule <;> rfl

/-- All repetitions of the grammar take tokens. -/
theorem advances_recipe (rule : Rule) : (recipe rule).advances = true := by
  cases rule <;> rfl

/-- A rule calls only later rules before it takes a token. -/
theorem rank_lt_of_mem_openings {rule called : Rule} (h : called ∈ (recipe rule).openings) :
    called.rank < rule.rank := by
  revert called
  cases rule <;> decide

end Grammar

/-- **Progress.**  A recipe that does not idle takes a token before it is matched. -/
theorem Recipe.Run.exists_mem_of_matched {p : Recipe} {u : List Located} {s : Supply}
    {before after : Stack} (h : p.Run u s before .matched after) (hidle : p.idles = false) :
    ∃ a ∈ u, a.token.kind ≠ .endOfInput := by
  generalize hverdict : Verdict.matched = verdict at h
  induction h with
  | keep hfits | drop hfits =>
    refine ⟨_, List.mem_cons_self, ?_⟩
    rw [Terminal.kind_of_fits hfits]
    simpa [idles] using hidle
  | rule _ ih => exact ih (Grammar.idles_recipe _) hverdict
  | andThen _ _ ihFirst ihSecond =>
    rcases Bool.and_eq_false_iff.mp hidle with hidle | hidle
    · obtain ⟨a, ha, hkind⟩ := ihFirst hidle rfl
      exact ⟨a, List.mem_append_left _ ha, hkind⟩
    · obtain ⟨a, ha, hkind⟩ := ihSecond hidle hverdict
      exact ⟨a, List.mem_append_right _ ha, hkind⟩
  | andThenStop _ hstop => exact absurd hverdict.symm hstop
  | orElse _ _ _ ihSecond =>
    obtain ⟨a, ha, hkind⟩ := ihSecond (Bool.or_eq_false_iff.mp hidle).2 hverdict
    exact ⟨a, List.mem_append_right _ ha, hkind⟩
  | orElseFirst _ _ ih => exact ih (Bool.or_eq_false_iff.mp hidle).1 hverdict
  | require _ _ ih => exact ih hidle hverdict
  | promised _ _ ih => exact ih hidle hverdict
  | done | ahead | node | replaceTop | reduce | manyMore | manyEnd => exact Bool.noConfusion hidle
  | _ => exact Verdict.noConfusion hverdict

namespace Recipe

/-- Whether an allowance is enough for a recipe when the supply ends within some
places. -/
def Affordable (allowance places : Nat) (recipe : Recipe) : Prop :=
  (Rule.all.length + 1) * places < allowance ∧
    ∀ rule ∈ recipe.openings, (Rule.all.length + 1) * places + rule.rank < allowance

/-- What is enough for a recipe is enough for one that opens with fewer rules. -/
theorem Affordable.mono {allowance places : Nat} {p q : Recipe} (h : p.Affordable allowance places)
    (hopenings : ∀ rule ∈ q.openings, rule ∈ p.openings) : q.Affordable allowance places :=
  ⟨h.1, fun rule hrule => h.2 rule (hopenings rule hrule)⟩

/-- What is enough for some recipe is enough for all recipes once a token was taken. -/
theorem Affordable.pred {allowance places : Nat} {p : Recipe} (h : p.Affordable allowance places)
    (hpos : 0 < places) (q : Recipe) : q.Affordable allowance (places - 1) := by
  obtain ⟨places, rfl⟩ : ∃ n, places = n + 1 := ⟨places - 1, by omega⟩
  have hstep := h.1
  rw [Nat.mul_succ] at hstep
  refine ⟨by rw [Nat.add_sub_cancel]; omega, ?_⟩
  intro rule _
  have hrank := rule.rank_le
  rw [Nat.add_sub_cancel]
  omega

end Recipe

namespace Outcome

variable {p q : Recipe} {b : Builder} {first : Outcome}

/-- Behind a match, the rest of a recipe is affordable. -/
theorem Follows.affordable_of_matched {allowance places : Nat} (hfollows : first.Follows p b)
    (hmatched : first.verdict = .matched)
    (hends : Supply.EndsWithin b.cursor.supply places)
    (hp : p.Affordable allowance places)
    (hq : p.idles = true → q.Affordable allowance places) :
    ∃ places', Supply.EndsWithin first.builder.cursor.supply places' ∧
      q.Affordable allowance places' ∧ (p.idles = false → places' < places) := by
  obtain ⟨u, hu, hrun, -⟩ := hfollows
  rw [hu] at hends
  have hlater := hends.of_append
  cases hidle : p.idles with
  | true => exact ⟨places, hlater.mono (Nat.sub_le _ _), hq hidle, Bool.noConfusion⟩
  | false =>
    rw [hmatched] at hrun
    obtain ⟨a, ha, hkind⟩ := hrun.exists_mem_of_matched hidle
    have hpos := hends.pos_of_mem ha hkind
    have hlen := List.length_pos_of_mem ha
    exact ⟨places - 1, hlater.mono (by omega), hp.pred hpos q, fun _ => by omega⟩

/-- Behind a refusal, no more tokens are left. -/
theorem Follows.endsWithin {places : Nat} (hfollows : first.Follows p b)
    (hends : Supply.EndsWithin b.cursor.supply places) :
    Supply.EndsWithin first.builder.cursor.supply places := by
  obtain ⟨u, hu, -, -⟩ := hfollows
  rw [hu] at hends
  exact hends.of_append.mono (Nat.sub_le _ _)

end Outcome

/-- Taking a token needs no steps. -/
theorem Builder.not_exhausted_keep (terminal : Terminal) (b : Builder) :
    ¬ (b.keep terminal).Exhausted := by
  unfold Builder.keep
  split <;> exact Verdict.noConfusion

/-- Forgetting a token needs no steps. -/
theorem Builder.not_exhausted_drop (terminal : Terminal) (b : Builder) :
    ¬ (b.drop terminal).Exhausted := by
  unfold Builder.drop
  split <;> exact Verdict.noConfusion

/-- Looking at a token needs no steps. -/
theorem Builder.not_exhausted_ahead (terminal : Terminal) (b : Builder) :
    ¬ (b.ahead terminal).Exhausted := by
  unfold Builder.ahead Outcome.Exhausted
  dsimp only
  split <;> exact Verdict.noConfusion

/-- Replacing an entry needs no steps. -/
theorem Builder.not_exhausted_replaceTop (text : String) (b : Builder) :
    ¬ (b.replaceTop text).Exhausted := by
  obtain ⟨cursor, _ | ⟨top, below⟩⟩ := b
  · exact fun h => Fault.noConfusion (Failure.fault.inj (Verdict.failed.inj h))
  · exact Verdict.noConfusion

/-- A reduction needs no steps. -/
theorem Builder.not_exhausted_reduce (root : Nat) (children : List Nat) (b : Builder) :
    ¬ (b.rearrange (b.stack.reduce root children)).Exhausted := by
  unfold Stack.reduce Builder.rearrange Outcome.Exhausted
  split
  · exact Verdict.noConfusion
  · rename_i fault h
    intro hout
    obtain ⟨⟩ := hout
    revert h
    dsimp only
    split
    · simp
    · split
      · split <;> simp
      · simp

namespace Recipe

variable {call : Rule → Builder → Outcome} {allowance : Nat}

/-- A repetition does not run out of steps while each round takes a token. -/
theorem not_exhausted_repeated {p : Recipe} {attempt : Builder → Outcome}
    (hfollows : ∀ b, (attempt b).Exhausted ∨ (attempt b).Follows p b)
    (hidle : p.idles = false)
    (hattempt : ∀ b places, Supply.EndsWithin b.cursor.supply places →
      p.Affordable allowance places → ¬ (attempt b).Exhausted)
    {rounds : Nat} {b : Builder} {places : Nat}
    (hends : Supply.EndsWithin b.cursor.supply places) (hp : p.Affordable allowance places)
    (hrounds : places < rounds) : ¬ (b.repeated attempt rounds).Exhausted := by
  induction rounds generalizing b places with
  | zero => omega
  | succ rounds ih =>
    have hfirst := hattempt b places hends hp
    have hrun := (hfollows b).resolve_left hfirst
    rw [Builder.repeated]
    rcases h : attempt b with ⟨verdict, after⟩
    rw [h] at hfirst hrun
    cases verdict with
    | matched =>
      obtain ⟨places', hends', hp', hlt⟩ :=
        hrun.affordable_of_matched (q := p) rfl hends hp fun _ => hp
      exact ih hends' hp' (by have := hlt hidle; omega)
    | declined => exact Verdict.noConfusion
    | failed failure => exact hfirst

/-- A recipe does not run out of steps that it can afford. -/
theorem not_exhausted_carryOut
    (hfollows : ∀ rule b, (call rule b).Exhausted ∨ (call rule b).Follows (.rule rule) b)
    (hcall : ∀ rule b places, Supply.EndsWithin b.cursor.supply places →
      (Rule.all.length + 1) * places + rule.rank < allowance → ¬ (call rule b).Exhausted)
    {p : Recipe} (hp : p.advances = true) {b : Builder} {places : Nat}
    (hends : Supply.EndsWithin b.cursor.supply places) (hafford : p.Affordable allowance places) :
    ¬ (p.carryOut call allowance b).Exhausted := by
  have hruns := follows_carryOut hfollows allowance
  induction p generalizing b places with
  | done => exact Verdict.noConfusion
  | keep terminal => exact b.not_exhausted_keep terminal
  | drop terminal => exact b.not_exhausted_drop terminal
  | ahead terminal => exact b.not_exhausted_ahead terminal
  | rule named => exact hcall named b places hends (hafford.2 named List.mem_cons_self)
  | node text => exact Verdict.noConfusion
  | replaceTop text => exact b.not_exhausted_replaceTop text
  | reduce root children => exact b.not_exhausted_reduce root children
  | andThen first second ihFirst ihSecond =>
    obtain ⟨hadvances, hadvances'⟩ := Bool.and_eq_true_iff.mp hp
    have hfirst := hafford.mono (q := first) fun rule => List.mem_append_left _
    have hstart := ihFirst hadvances hends hfirst
    have hrun := (hruns first b).resolve_left hstart
    rw [carryOut]
    rcases h : first.carryOut call allowance b with ⟨verdict, after⟩
    rw [h] at hstart hrun
    cases verdict with
    | matched =>
      obtain ⟨places', hends', hsecond, -⟩ :=
        hrun.affordable_of_matched (q := second) rfl hends hfirst fun hidle =>
          hafford.mono fun rule hrule => List.mem_append_right _ (by rwa [if_pos hidle])
      exact ihSecond hadvances' hends' hsecond
    | declined => exact Verdict.noConfusion
    | failed failure => exact hstart
  | orElse first second ihFirst ihSecond =>
    obtain ⟨hadvances, hadvances'⟩ := Bool.and_eq_true_iff.mp hp
    have hstart := ihFirst hadvances hends (hafford.mono fun rule => List.mem_append_left _)
    have hrun := (hruns first b).resolve_left hstart
    rw [carryOut]
    rcases h : first.carryOut call allowance b with ⟨verdict, after⟩
    rw [h] at hstart hrun
    cases verdict with
    | matched => exact Verdict.noConfusion
    | declined =>
      exact ihSecond hadvances' (hrun.endsWithin hends)
        (hafford.mono fun rule => List.mem_append_right _)
    | failed failure => exact hstart
  | many body ih =>
    obtain ⟨hidle, hadvances⟩ := Bool.and_eq_true_iff.mp hp
    refine not_exhausted_repeated (hruns body) (by simpa using hidle)
      (fun b places hends hbody => ih hadvances hends hbody) hends
      (hafford.mono fun rule hrule => hrule) ?_
    have := hafford.1
    rw [Nat.add_one_mul] at this
    omega
  | require body missing ih =>
    have hstart := ih hp hends (hafford.mono fun rule hrule => hrule)
    rw [carryOut]
    rcases h : body.carryOut call allowance b with ⟨verdict, after⟩
    rw [h] at hstart
    cases verdict with
    | matched => exact Verdict.noConfusion
    | declined => exact fun hout => Failure.noConfusion (Verdict.failed.inj hout)
    | failed failure => exact hstart
  | promised body fault ih =>
    obtain ⟨hfault, hadvances⟩ := Bool.and_eq_true_iff.mp hp
    have hstart := ih hadvances hends (hafford.mono fun rule hrule => hrule)
    rw [carryOut]
    rcases h : body.carryOut call allowance b with ⟨verdict, after⟩
    rw [h] at hstart
    cases verdict with
    | matched => exact Verdict.noConfusion
    | declined =>
      intro hout
      exact of_decide_eq_true hfault (Failure.fault.inj (Verdict.failed.inj hout))
    | failed failure => exact hstart

end Recipe

/-- A rule does not run out of steps if it has enough of them for the tokens to come and
for the rules that it may call first. -/
theorem Rule.not_exhausted_applyWithin {allowance : Nat} {rule : Rule} {b : Builder} {places : Nat}
    (hends : Supply.EndsWithin b.cursor.supply places)
    (hallowance : (Rule.all.length + 1) * places + rule.rank < allowance) :
    ¬ (rule.applyWithin allowance b).Exhausted := by
  induction allowance generalizing rule b places with
  | zero => omega
  | succ allowance ih =>
    refine Recipe.not_exhausted_carryOut (Rule.follows_applyWithin allowance)
      (fun rule b places hends hlt => ih hends hlt) (Grammar.advances_recipe rule) hends ?_
    constructor
    · have := Rule.rank_pos rule
      omega
    · intro called hcalled
      have := Grammar.rank_lt_of_mem_openings hcalled
      omega

namespace Builder

/-- **Enough steps.**  No rule runs out of steps. -/
theorem not_exhausted_apply {b : Builder} (hsound : b.cursor.Sound) (rule : Rule) :
    ¬ (b.apply rule).Exhausted := by
  refine Rule.not_exhausted_applyWithin hsound.endsWithin ?_
  have := rule.rank_le
  rw [allowance, Nat.mul_add]
  omega

/-- What applying a rule does is a run of the rule. -/
theorem follows_apply {b : Builder} (hsound : b.cursor.Sound) (rule : Rule) :
    (b.apply rule).Follows (.rule rule) b :=
  (Rule.follows_applyWithin _ rule b).resolve_left (not_exhausted_apply hsound rule)

/-- Passing over line ends does not run out of steps. -/
theorem not_exhausted_skipLineEnds {b : Builder} (hsound : b.cursor.Sound) :
    ¬ b.skipLineEnds.Exhausted := by
  have hallowance : (Rule.all.length + 1) * b.cursor.unread < b.allowance :=
    Nat.mul_lt_mul_of_pos_left (Nat.lt_add_of_pos_right Nat.two_pos) (Nat.succ_pos _)
  refine Recipe.not_exhausted_repeated (fun b => .inr (b.follows_drop .lineEnd)) rfl
    (fun b _ _ _ => b.not_exhausted_drop _) hsound.endsWithin
      ⟨hallowance, fun rule => nofun⟩ ?_
  rw [Nat.add_one_mul] at hallowance
  omega

/-- What passing over line ends does is a run. -/
theorem follows_skipLineEnds {b : Builder} (hsound : b.cursor.Sound) :
    b.skipLineEnds.Follows (.many (.drop .lineEnd)) b :=
  (Outcome.follows_repeated (fun b => .inr (b.follows_drop .lineEnd)) b.allowance b).resolve_left
    (not_exhausted_skipLineEnds hsound)

end Builder

end BugLang
