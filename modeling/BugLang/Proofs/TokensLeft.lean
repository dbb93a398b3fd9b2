import BugLang.Proofs.Allowances
import BugLang.Proofs.Bookmark
import BugLang.Proofs.Contract

/-!
# Fewer tokens

The end of the input can be read again and again, but the tokens up to the first one are counted.
Reading never makes them more, and a token other than the end of the input makes them fewer.  In
the grammar no rule is matched and none fails without such a token, and every round of a repetition
takes one before it does anything else.  So repetitions need no more rounds than tokens are left.

* `Cursor.Sound.length_remaining_lt`: behind a token, fewer tokens remain.
* `Recipe.Run.exists_mem_of_takesFirst`: unless it is declined, a recipe takes a token that it
  takes first.
* `Builder.tokensLeft_follow_lt`: so it leaves fewer tokens.
* `Builder.carryOut_apply_eq_follow`: what a builder does is what its recipe says without an
  allowance.
-/

namespace BugLang

open Stream'

/-! ### Tokens that remain -/

namespace Cursor

variable {c d : Cursor} {taken : List Located}

/-- Behind the next token, no more tokens are left. -/
theorem Sound.length_remaining_next_le (hc : c.Sound) :
    c.next.2.remaining.length ≤ c.remaining.length := by
  by_cases hend : c.nextLocated.token.kind = .endOfInput
  · have hnext := hc.nextLocated_next hend
    rw [remaining_of_eq hend, remaining_of_eq (hnext ▸ hend)]
    rfl
  · rw [remaining_of_ne hend]
    exact Nat.le_succ _

/-- Behind some tokens, no more tokens are left. -/
theorem Sound.length_remaining_le (hc : c.Sound) (h : c.supply = taken ++ₛ d.supply) :
    d.remaining.length ≤ c.remaining.length := by
  induction taken generalizing c with
  | nil => rw [remaining_congr h]
  | cons a taken ih =>
    rw [supply_eq, cons_append_stream] at h
    exact (ih hc.next (cons_injective2 h).2).trans hc.length_remaining_next_le

/-- Behind a token that is not the end of the input, fewer tokens are left. -/
theorem Sound.length_remaining_lt (hc : c.Sound) (h : c.supply = taken ++ₛ d.supply)
    (hmem : ∃ a ∈ taken, a.token.kind ≠ .endOfInput) :
    d.remaining.length < c.remaining.length := by
  induction taken generalizing c with
  | nil => exact absurd hmem (by simp)
  | cons a taken ih =>
    rw [supply_eq, cons_append_stream] at h
    obtain ⟨hhead, htail⟩ := cons_injective2 h
    by_cases hend : c.nextLocated.token.kind = .endOfInput
    · obtain ⟨b, hb, hkind⟩ := hmem
      rcases List.mem_cons.mp hb with rfl | hb
      · exact absurd (hhead ▸ hend) hkind
      · exact (ih hc.next htail ⟨b, hb, hkind⟩).trans_le hc.length_remaining_next_le
    · rw [remaining_of_ne hend]
      exact Nat.lt_succ_of_le (hc.next.length_remaining_le htail)

/-- The supply ends with the tokens that are left. -/
theorem Sound.endsWithin_remaining {c : Cursor} (hc : c.Sound) :
    Supply.EndsWithin c.supply (c.remaining.length - 1) := by
  by_cases hend : c.nextLocated.token.kind = .endOfInput
  · intro place _
    rw [hc.supply_eq_const hend, get_const, hend]
  · have hnext := hc.next.endsWithin_remaining
    have hpos := List.length_pos_of_ne_nil c.next.2.remaining_ne_nil
    rw [remaining_of_ne hend, List.length_cons, Nat.add_sub_cancel]
    intro place hplace
    obtain ⟨place, rfl⟩ : ∃ n, place = n + 1 := ⟨place - 1, by omega⟩
    rw [supply_eq, get_succ_cons]
    exact hnext place (by omega)
termination_by c.unread
decreasing_by exact unread_next_lt hend

end Cursor

/-! ### Taking a token first -/

namespace Recipe

/-- Whether a recipe takes a token other than the end of the input before it does anything
else. -/
def takesFirst : Recipe → Bool
  | .keep terminal | .drop terminal => terminal.kind ≠ .endOfInput
  | .rule _ => true
  | .andThen first _ => first.takesFirst
  | .orElse first second => first.takesFirst && second.takesFirst
  | _ => false

/-- Whether every round of a repetition takes a token first. -/
def roundsTake : Recipe → Bool
  | .andThen first second | .orElse first second => first.roundsTake && second.roundsTake
  | .many body => body.takesFirst && body.roundsTake
  | .require body _ | .promised body _ => body.roundsTake
  | _ => true

/-- A recipe that takes a token first does not idle. -/
theorem idles_of_takesFirst {p : Recipe} (h : p.takesFirst = true) : p.idles = false := by
  induction p with
  | keep terminal | drop terminal => simpa [takesFirst, idles] using h
  | rule named => rfl
  | andThen p q ihFirst => exact Bool.and_eq_false_iff.mpr (.inl (ihFirst h))
  | orElse p q ihFirst ihSecond =>
    obtain ⟨hp, hq⟩ := Bool.and_eq_true_iff.mp h
    exact Bool.or_eq_false_iff.mpr ⟨ihFirst hp, ihSecond hq⟩
  | _ => exact Bool.noConfusion h

end Recipe

/-- In the grammar, every round of a repetition takes a token first. -/
theorem Grammar.roundsTake_recipe (rule : Rule) : (recipe rule).roundsTake = true := by
  cases rule <;> rfl

namespace Recipe.Run

variable {p : Recipe} {named : Rule} {u : List Located} {s : Supply} {before after : Stack}
  {verdict : Verdict}

/-- A rule that is not declined takes a token. -/
theorem exists_mem_of_rule (h : (Recipe.rule named).Run u s before verdict after)
    (hverdict : verdict ≠ .declined) : ∃ a ∈ u, a.token.kind ≠ .endOfInput := by
  cases verdict with
  | matched => exact h.exists_mem_of_matched rfl
  | declined => exact absurd rfl hverdict
  | failed failure =>
    cases failure with
    | incomplete line missing =>
      obtain ⟨a, ha⟩ := List.exists_mem_of_ne_nil _ (h.ne_nil_of_failed rfl rfl)
      exact ⟨a, ha, h.kind_ne_of_failed a ha⟩
    | fault fault => exact absurd rfl (h.not_fault_of_rule fault)

/-- A recipe that takes a token first takes one unless it is declined. -/
theorem exists_mem_of_takesFirst (h : p.Run u s before verdict after)
    (hp : p.takesFirst = true) (hverdict : verdict ≠ .declined) :
    ∃ a ∈ u, a.token.kind ≠ .endOfInput := by
  induction h with
  | keep hfits | drop hfits =>
    refine ⟨_, List.mem_cons_self, ?_⟩
    rw [Terminal.kind_of_fits hfits]
    simpa [takesFirst] using hp
  | keepOther | dropOther => exact absurd rfl hverdict
  | rule body => exact exists_mem_of_rule (.rule body) hverdict
  | andThen first =>
    obtain ⟨a, ha, hkind⟩ := first.exists_mem_of_matched (idles_of_takesFirst hp)
    exact ⟨a, List.mem_append_left _ ha, hkind⟩
  | andThenStop _ _ ih => exact ih hp hverdict
  | orElse _ _ _ ihSecond =>
    obtain ⟨a, ha, hkind⟩ := ihSecond (Bool.and_eq_true_iff.mp hp).2 hverdict
    exact ⟨a, List.mem_append_right _ ha, hkind⟩
  | orElseFirst _ _ ih => exact ih (Bool.and_eq_true_iff.mp hp).1 hverdict
  | _ => exact Bool.noConfusion hp

end Recipe.Run

/-! ### Fewer tokens -/

namespace Builder

/-- The number of tokens that are left, up to and including the first end of the input. -/
def tokensLeft (b : Builder) : Nat :=
  b.cursor.remaining.length

variable {p body : Recipe} {b : Builder}

/-- There is always the end of the input. -/
theorem tokensLeft_pos (b : Builder) : 0 < b.tokensLeft :=
  List.length_pos_of_ne_nil b.cursor.remaining_ne_nil

/-- Following a recipe leaves no more tokens. -/
theorem tokensLeft_follow_le (hsound : b.cursor.Sound) (hp : p.advances = true) :
    (b.follow p).builder.tokensLeft ≤ b.tokensLeft := by
  obtain ⟨u, hu, -, -⟩ := follows_follow hsound hp
  exact hsound.length_remaining_le hu

/-- Matching a recipe that does not idle leaves fewer tokens. -/
theorem tokensLeft_follow_lt_of_matched (hsound : b.cursor.Sound) (hp : p.advances = true)
    (hidle : p.idles = false) (hmatched : (b.follow p).verdict = .matched) :
    (b.follow p).builder.tokensLeft < b.tokensLeft := by
  obtain ⟨u, hu, hrun, -⟩ := follows_follow hsound hp
  exact hsound.length_remaining_lt hu ((hmatched ▸ hrun).exists_mem_of_matched hidle)

/-- Unless it is declined, a recipe that takes a token first leaves fewer tokens. -/
theorem tokensLeft_follow_lt (hsound : b.cursor.Sound) (hp : p.advances = true)
    (hfirst : p.takesFirst = true) (hverdict : (b.follow p).verdict ≠ .declined) :
    (b.follow p).builder.tokensLeft < b.tokensLeft := by
  obtain ⟨u, hu, hrun, -⟩ := follows_follow hsound hp
  exact hsound.length_remaining_lt hu (hrun.exists_mem_of_takesFirst hfirst hverdict)

/-- A repetition needs no more rounds than tokens are left. -/
theorem repeated_eq_follow {attempt : Builder → Outcome} {left : Nat}
    (hattempt : ∀ c : Builder, c.cursor.Sound → c.tokensLeft ≤ left → attempt c = c.follow body)
    (h : (Recipe.many body).advances = true) (hsound : b.cursor.Sound)
    (hleft : b.tokensLeft ≤ left) {rounds : Nat} (hrounds : b.tokensLeft ≤ rounds) :
    b.repeated attempt rounds = b.follow (.many body) := by
  obtain ⟨hidle, hbody⟩ := Bool.and_eq_true_iff.mp h
  induction rounds generalizing b with
  | zero => exact absurd b.tokensLeft_pos (Nat.not_lt.mpr hrounds)
  | succ rounds ih =>
    have hafter := sound_follow hsound body
    have hlt := tokensLeft_follow_lt_of_matched hsound hbody (by simpa using hidle)
    rw [repeated, hattempt b hsound hleft, follow_many hsound h]
    rcases hround : b.follow body with ⟨_ | _ | failure, after⟩
    · rw [hround] at hafter hlt
      have hless : after.tokensLeft < b.tokensLeft := hlt rfl
      exact ih hafter (by omega) (by omega)
    · rfl
    · rfl

/-- **Without an allowance.**  To follow a recipe is to carry it out with rules that are applied,
and with no more rounds than tokens are left. -/
theorem carryOut_apply_eq_follow (hsound : b.cursor.Sound) (hp : p.advances = true) {rounds : Nat}
    (hrounds : b.tokensLeft ≤ rounds) :
    p.carryOut (fun rule c => c.apply rule) rounds b = b.follow p := by
  induction p generalizing b with
  | andThen p q ihFirst ihSecond =>
    obtain ⟨hadvances, hadvances'⟩ := Bool.and_eq_true_iff.mp hp
    have hafter := sound_follow hsound p
    have hle := tokensLeft_follow_le hsound hadvances
    rw [Recipe.carryOut, ihFirst hsound hadvances hrounds, follow_andThen hsound hp]
    rcases hfirst : b.follow p with ⟨_ | _ | failure, after⟩ <;> rw [hfirst] at hafter hle <;>
      simp only [Outcome.andThen]
    exact ihSecond hafter hadvances' (hle.trans hrounds)
  | orElse p q ihFirst ihSecond =>
    obtain ⟨hadvances, hadvances'⟩ := Bool.and_eq_true_iff.mp hp
    have hafter := sound_follow hsound p
    have hle := tokensLeft_follow_le hsound hadvances
    rw [Recipe.carryOut, ihFirst hsound hadvances hrounds, follow_orElse hsound hp]
    rcases hfirst : b.follow p with ⟨_ | _ | failure, after⟩ <;> rw [hfirst] at hafter hle <;>
      simp only [Outcome.orElse]
    exact ihSecond hafter hadvances' (hle.trans hrounds)
  | many body ih =>
    exact repeated_eq_follow (fun c hc hleft => ih hc (Bool.and_eq_true_iff.mp hp).2 hleft) hp
      hsound hrounds hrounds
  | require body missing ih =>
    rw [Recipe.carryOut, ih hsound hp hrounds]
    rfl
  | promised body fault ih =>
    rw [Recipe.carryOut, ih hsound (Bool.and_eq_true_iff.mp hp).2 hrounds]
    rfl
  | _ => rfl

end Builder

end BugLang
