import BugLang.Proofs.Contract

/-!
# The first token of a sentence

Whether a rule is declined can be told from the next token alone: it is, if and only if no
sentence of the rule begins with that token.  The tokens that sentences begin with are those of
`Rule.first`, and rules that stand beside each other as alternatives have none of them in common.

* `beginsSentence_singleton_iff`: a token begins a sentence if and only if it is listed as one.
* `Outcome.Follows.declined_iff`: a rule is declined if and only if the next token begins no
  sentence of it.
* `Rule.eq_of_beginsSentence`: so at most one of the alternatives of a choice is not declined.
-/

namespace BugLang

open Stream'

namespace Recipe.Run

variable {rule : Rule} {u : List Located} {s : Supply} {before after : Stack} {verdict : Verdict}

/-- A rule that is not declined takes the next token, and a sentence begins with it. -/
theorem beginsSentence_of_ne_declined (h : (Recipe.rule rule).Run u s before verdict after)
    (hverdict : verdict ≠ .declined) : BeginsSentence rule [(u ++ₛ s).head.token] := by
  obtain ⟨hne, v, t, ht⟩ : u ≠ [] ∧ BeginsSentence rule (u.map Located.token) := by
    cases verdict with
    | matched =>
      obtain ⟨a, ha, -⟩ := h.exists_mem_of_matched rfl
      obtain ⟨t, ht, -⟩ := h.derives
      exact ⟨List.ne_nil_of_mem ha, [], t, by rwa [List.append_nil]⟩
    | declined => exact absurd rfl hverdict
    | failed failure =>
      cases failure with
      | incomplete line missing =>
        obtain ⟨v, t, -, ht⟩ := h.exists_derives
        exact ⟨h.ne_nil_of_failed rfl rfl, v, t, ht⟩
      | fault fault => exact absurd rfl (h.not_fault_of_rule fault)
  obtain ⟨a, u, rfl⟩ := List.exists_cons_of_ne_nil hne
  exact ⟨u.map Located.token ++ v, t, ht⟩

/-- A rule is declined if and only if no sentence begins with the next token. -/
theorem declined_iff (h : (Recipe.rule rule).Run u s before verdict after) :
    verdict = .declined ↔ ¬ BeginsSentence rule [(u ++ₛ s).head.token] := by
  constructor
  · rintro rfl
    obtain ⟨rfl, -, -⟩ := h.of_declined rfl
    exact h.not_beginsSentence nofun
  · intro hbegins
    by_contra hverdict
    exact hbegins (h.beginsSentence_of_ne_declined hverdict)

end Recipe.Run

/-- No rule starts with the end of the input. -/
theorem Rule.kind_ne_of_mem_first {rule : Rule} {terminal : Terminal}
    (h : terminal ∈ rule.first) : terminal.kind ≠ .endOfInput := by
  revert terminal
  cases rule <;> decide

/-- **The tokens that sentences begin with.**  A sentence of a rule begins with a token if and only
if the token is one that the rule may start with. -/
theorem beginsSentence_singleton_iff {rule : Rule} {a : Token} :
    BeginsSentence rule [a] ↔ ∃ terminal ∈ rule.first, terminal.fits a := by
  constructor
  · rintro ⟨v, t, ht⟩
    exact ht.exists_fits
  · rintro ⟨terminal, hmem, hfits⟩
    -- Ahead of the token, the rule is not declined, whatever comes of it behind the token.
    let b : Builder := ⟨⟨[], 1, .ahead a⟩, []⟩
    have hsound : b.cursor.Sound := by
      rintro token (hslot | hslot) hkind
      · exact Slot.noConfusion hslot
      · obtain rfl := Slot.ahead.inj hslot
        exact absurd (Terminal.kind_of_fits hfits ▸ hkind) (Rule.kind_ne_of_mem_first hmem)
    obtain ⟨taken, htaken, hrun, -⟩ := Builder.follows_apply hsound rule
    have hhead : (taken ++ₛ (b.apply rule).builder.cursor.supply).head.token = a := by
      rw [← htaken, Cursor.head_supply]
      rfl
    rw [← hhead]
    refine hrun.beginsSentence_of_ne_declined fun hdeclined => ?_
    rw [hdeclined] at hrun
    obtain ⟨rfl, -, hother⟩ := hrun.of_declined rfl
    exact hother terminal hmem (hhead ▸ hfits)

namespace Rule

/-- The rules of which a rule is a choice, in the order in which they are tried. -/
def alternatives : Rule → List Rule
  | .command => [.action, .statement]
  | .action => [.moveAction, .moveToAction, .turnAction, .turnToAction, .lineAction]
  | .statement =>
    [.assignmentStatement, .loopStatement, .exitIfStatement, .switchStatement, .returnStatement,
     .doStatement, .colorStatement]
  | _ => []

/-- No token starts both of two alternatives. -/
theorem apart_of_mem_alternatives {rule : Rule} :
    ∀ p ∈ rule.alternatives, ∀ q ∈ rule.alternatives, p ≠ q →
      ∀ a ∈ p.first, ∀ b ∈ q.first, a.apart b = true := by
  cases rule <;> decide

/-- **Alternatives do not compete.**  At most one of them has a sentence that begins with a given
token. -/
theorem eq_of_beginsSentence {rule p q : Rule} {a : Token} (hp : p ∈ rule.alternatives)
    (hq : q ∈ rule.alternatives) (hbegins : BeginsSentence p [a])
    (hbegins' : BeginsSentence q [a]) : p = q := by
  by_contra hne
  obtain ⟨terminal, hmem, hfits⟩ := beginsSentence_singleton_iff.mp hbegins
  obtain ⟨other, hother, hfits'⟩ := beginsSentence_singleton_iff.mp hbegins'
  have hapart := apart_of_mem_alternatives p hp q hq hne terminal hmem other hother
  exact Terminal.not_fits_of_apart hapart hfits hfits'

end Rule

/-- **The next token decides.**  A rule is declined if and only if no sentence of it begins with the
next token. -/
theorem Outcome.Follows.declined_iff {outcome : Outcome} {rule : Rule} {b : Builder}
    (h : outcome.Follows (.rule rule) b) :
    outcome.verdict = .declined ↔ ¬ BeginsSentence rule [b.cursor.nextLocated.token] := by
  obtain ⟨taken, htaken, hrun, -⟩ := h
  rw [hrun.declined_iff, ← htaken, Cursor.head_supply]

/-- A rule that is not declined is matched, or something is missing in the source. -/
theorem Builder.verdict_apply_cases {b : Builder} (hsound : b.cursor.Sound) {rule : Rule}
    (hverdict : (b.apply rule).verdict ≠ .declined) :
    (b.apply rule).verdict = .matched ∨
      ∃ line missing, (b.apply rule).verdict = .failed (.incomplete line missing) := by
  have hfault := verdict_apply_ne_fault hsound rule
  cases h : (b.apply rule).verdict with
  | matched => exact .inl rfl
  | declined => exact absurd h hverdict
  | failed failure =>
    cases failure with
    | incomplete line missing => exact .inr ⟨line, missing, rfl⟩
    | fault fault => exact absurd h (hfault fault)

end BugLang
