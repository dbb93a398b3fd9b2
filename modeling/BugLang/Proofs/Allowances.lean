import BugLang.Proofs.Operations

/-!
# More steps make no difference

An attempt that does not run out of steps does the same with more of them.  As the allowance of a
builder is enough for every recipe of the grammar, what a builder does can be said without an
allowance: the parts of a recipe follow each other, and a repetition is a round and the repetition
again.

* `Recipe.carryOutWithin_of_le`, `Rule.applyWithin_of_le`: more steps make no difference.
* `Builder.follow`: what carrying out a recipe does if there are steps enough.
* `Builder.follow_andThen`, `Builder.follow_orElse`, `Builder.follow_many`: the parts of a recipe.
* `Builder.apply_eq_follow`: applying a rule is to follow its recipe.
-/

namespace BugLang

namespace Outcome

variable {outcome : Outcome} {next : Builder → Outcome}

/-- What goes on after a match has not run out of steps before. -/
theorem not_exhausted_of_andThen (h : ¬ (outcome.andThen next).Exhausted) :
    ¬ outcome.Exhausted := by
  obtain ⟨verdict, after⟩ := outcome
  rintro rfl
  exact h rfl

/-- What goes on after a refusal has not run out of steps before. -/
theorem not_exhausted_of_orElse (h : ¬ (outcome.orElse next).Exhausted) :
    ¬ outcome.Exhausted := by
  obtain ⟨verdict, after⟩ := outcome
  rintro rfl
  exact h rfl

end Outcome

/-! ### More steps -/

/-- More rounds make no difference. -/
theorem Builder.repeated_of_le {attempt attempt' : Builder → Outcome}
    (hattempt : ∀ b, ¬ (attempt b).Exhausted → attempt' b = attempt b) {rounds rounds' : Nat}
    (hrounds : rounds ≤ rounds') {b : Builder} (h : ¬ (b.repeated attempt rounds).Exhausted) :
    b.repeated attempt' rounds' = b.repeated attempt rounds := by
  induction rounds generalizing b rounds' with
  | zero => exact absurd rfl h
  | succ rounds ih =>
    obtain ⟨rounds', rfl⟩ := Nat.exists_eq_add_of_le' hrounds
    have hfirst : ¬ (attempt b).Exhausted := by
      intro hout
      apply h
      rw [repeated]
      rcases hround : attempt b with ⟨verdict, after⟩
      rw [hround] at hout
      obtain rfl : verdict = _ := hout
      rfl
    rw [← Nat.add_assoc, repeated, hattempt b hfirst]
    rw [repeated] at h ⊢
    rcases hround : attempt b with ⟨_ | _ | failure, after⟩
    · rw [hround] at h
      exact ih (Nat.le_add_left _ _) h
    · rfl
    · rfl

namespace Recipe

/-- **More steps make no difference.**  Calls that do the same unless they run out of steps, and
more rounds, make recipes do the same unless they run out of steps. -/
theorem carryOut_of_le {call call' : Rule → Builder → Outcome}
    (hcall : ∀ rule b, ¬ (call rule b).Exhausted → call' rule b = call rule b)
    {rounds rounds' : Nat} (hrounds : rounds ≤ rounds') {p : Recipe} {b : Builder}
    (h : ¬ (p.carryOut call rounds b).Exhausted) :
    p.carryOut call' rounds' b = p.carryOut call rounds b := by
  induction p generalizing b with
  | rule named => exact hcall named b h
  | andThen p q ihFirst ihSecond =>
    rw [carryOut] at h ⊢
    rw [ihFirst (Outcome.not_exhausted_of_andThen h), carryOut]
    rcases hfirst : p.carryOut call rounds b with ⟨_ | _ | failure, after⟩ <;> rw [hfirst] at h
    · exact ihSecond h
    · rfl
    · rfl
  | orElse p q ihFirst ihSecond =>
    rw [carryOut] at h ⊢
    rw [ihFirst (Outcome.not_exhausted_of_orElse h), carryOut]
    rcases hfirst : p.carryOut call rounds b with ⟨_ | _ | failure, after⟩ <;> rw [hfirst] at h
    · rfl
    · exact ihSecond h
    · rfl
  | many body ih => exact Builder.repeated_of_le (fun b hround => ih hround) hrounds h
  | require body missing ih | promised body fault ih =>
    rw [carryOut] at h ⊢
    rw [ih (Outcome.not_exhausted_of_orElse h), carryOut]
  | _ => rfl

/-- Carries out a recipe within an allowance. -/
def carryOutWithin (allowance : Nat) (p : Recipe) (b : Builder) : Outcome :=
  p.carryOut (Rule.applyWithin allowance) allowance b

end Recipe

/-- A rule that does not run out of steps does the same with more of them. -/
theorem Rule.applyWithin_of_le {allowance allowance' : Nat} (hle : allowance ≤ allowance')
    {rule : Rule} {b : Builder} (h : ¬ (rule.applyWithin allowance b).Exhausted) :
    rule.applyWithin allowance' b = rule.applyWithin allowance b := by
  induction allowance generalizing rule b allowance' with
  | zero => exact absurd rfl h
  | succ allowance ih =>
    obtain ⟨more, rfl⟩ := Nat.exists_eq_add_of_le' hle
    exact Recipe.carryOut_of_le (fun rule b hout => ih (Nat.le_add_left _ more) hout)
      (Nat.le_add_left _ more) h

namespace Recipe

variable {allowance allowance' : Nat} {p : Recipe} {b : Builder}

/-- A rule is applied within the same allowance. -/
theorem carryOutWithin_rule (allowance : Nat) (named : Rule) (b : Builder) :
    (rule named).carryOutWithin allowance b = named.applyWithin allowance b :=
  rfl

/-- The parts of a row are carried out within the same allowance. -/
theorem carryOutWithin_andThen (allowance : Nat) (p q : Recipe) (b : Builder) :
    (andThen p q).carryOutWithin allowance b =
      (p.carryOutWithin allowance b).andThen (q.carryOutWithin allowance) :=
  rfl

/-- So are the parts of a choice. -/
theorem carryOutWithin_orElse (allowance : Nat) (p q : Recipe) (b : Builder) :
    (orElse p q).carryOutWithin allowance b =
      (p.carryOutWithin allowance b).orElse (q.carryOutWithin allowance) :=
  rfl

/-- So are the rounds of a repetition, of which there are as many as the allowance. -/
theorem carryOutWithin_many {allowance rounds : Nat} (h : allowance = rounds + 1) (p : Recipe)
    (b : Builder) :
    (many p).carryOutWithin allowance b =
      match p.carryOutWithin allowance b with
      | ⟨.matched, after⟩ => after.repeated (p.carryOutWithin allowance) rounds
      | ⟨.declined, after⟩ => ⟨.matched, after⟩
      | outcome => outcome := by
  subst h
  rfl

/-- A recipe that does not run out of steps does the same with more of them. -/
theorem carryOutWithin_of_le (hle : allowance ≤ allowance')
    (h : ¬ (p.carryOutWithin allowance b).Exhausted) :
    p.carryOutWithin allowance' b = p.carryOutWithin allowance b :=
  carryOut_of_le (fun _ _ => Rule.applyWithin_of_le hle) hle h

/-- A recipe does the same within all allowances that are enough. -/
theorem carryOutWithin_congr (h : ¬ (p.carryOutWithin allowance b).Exhausted)
    (h' : ¬ (p.carryOutWithin allowance' b).Exhausted) :
    p.carryOutWithin allowance b = p.carryOutWithin allowance' b := by
  rcases Nat.le_total allowance allowance' with hle | hle
  · exact (carryOutWithin_of_le hle h).symm
  · exact carryOutWithin_of_le hle h'

end Recipe

/-! ### Steps enough -/

namespace Builder

/-- Carries out a recipe within the allowance of the builder. -/
def follow (p : Recipe) (b : Builder) : Outcome :=
  p.carryOutWithin b.allowance b

variable {p q body : Recipe} {b : Builder}

/-- The allowance of a builder is enough for every recipe in which each round takes a token. -/
theorem not_exhausted_follow (hsound : b.cursor.Sound) (hp : p.advances = true) :
    ¬ (b.follow p).Exhausted := by
  refine Recipe.not_exhausted_carryOut (Rule.follows_applyWithin _)
    (fun rule b places => Rule.not_exhausted_applyWithin) hp hsound.endsWithin ⟨?_, fun rule _ => ?_⟩
  · exact Nat.mul_lt_mul_of_pos_left (Nat.lt_add_of_pos_right Nat.two_pos) (Nat.succ_pos _)
  · have := rule.rank_le
    rw [allowance, Nat.mul_add]
    omega

/-- What following a recipe does is a run of it. -/
theorem follows_follow (hsound : b.cursor.Sound) (hp : p.advances = true) :
    (b.follow p).Follows p b :=
  (Recipe.follows_carryOut (Rule.follows_applyWithin _) _ p b).resolve_left
    (not_exhausted_follow hsound hp)

/-- Following a recipe goes on reading the source. -/
theorem sound_follow (hsound : b.cursor.Sound) (p : Recipe) :
    (b.follow p).builder.cursor.Sound :=
  have hkept : Cursor.Kept Cursor.Sound := ⟨fun _ => .next, fun _ => .putBack⟩
  kept_carryOut hkept (fun rule _ => kept_applyWithin hkept _ rule) _ p hsound

/-- Whatever the allowance is, a recipe that does not run out of steps is followed. -/
theorem carryOutWithin_eq_follow (hsound : b.cursor.Sound) (hp : p.advances = true)
    {allowance : Nat} (h : ¬ (p.carryOutWithin allowance b).Exhausted) :
    p.carryOutWithin allowance b = b.follow p :=
  Recipe.carryOutWithin_congr h (not_exhausted_follow hsound hp)

/-- **Applying a rule is to follow its recipe.** -/
theorem apply_eq_follow (hsound : b.cursor.Sound) (rule : Rule) :
    b.apply rule = b.follow (Grammar.recipe rule) :=
  (Rule.applyWithin_of_le (Nat.le_succ _) (not_exhausted_apply hsound rule)).symm

/-- To follow a recipe that is a rule is to apply the rule. -/
theorem follow_rule (named : Rule) (b : Builder) : b.follow (.rule named) = b.apply named :=
  Recipe.carryOutWithin_rule _ named b

/-- To follow a row is to follow the first recipe and then the second one. -/
theorem follow_andThen (hsound : b.cursor.Sound) (h : (Recipe.andThen p q).advances = true) :
    b.follow (.andThen p q) = (b.follow p).andThen (follow q) := by
  have hout := not_exhausted_follow hsound h
  have hafter := sound_follow hsound p
  have hrow : b.follow (.andThen p q) = (b.follow p).andThen (q.carryOutWithin b.allowance) :=
    Recipe.carryOutWithin_andThen _ p q b
  rw [hrow] at hout ⊢
  rcases hfirst : b.follow p with ⟨_ | _ | failure, after⟩ <;> rw [hfirst] at hout hafter <;>
    simp only [Outcome.andThen] at hout ⊢
  exact carryOutWithin_eq_follow hafter (Bool.and_eq_true_iff.mp h).2 hout

/-- To follow a choice is to follow the first recipe, and the second one if it is declined. -/
theorem follow_orElse (hsound : b.cursor.Sound) (h : (Recipe.orElse p q).advances = true) :
    b.follow (.orElse p q) = (b.follow p).orElse (follow q) := by
  have hout := not_exhausted_follow hsound h
  have hafter := sound_follow hsound p
  have hchoice : b.follow (.orElse p q) = (b.follow p).orElse (q.carryOutWithin b.allowance) :=
    Recipe.carryOutWithin_orElse _ p q b
  rw [hchoice] at hout ⊢
  rcases hfirst : b.follow p with ⟨_ | _ | failure, after⟩ <;> rw [hfirst] at hout hafter <;>
    simp only [Outcome.orElse] at hout ⊢
  exact carryOutWithin_eq_follow hafter (Bool.and_eq_true_iff.mp h).2 hout

/-- **To follow a repetition** is to follow a round, and the repetition again if it is matched. -/
theorem follow_many (hsound : b.cursor.Sound) (h : (Recipe.many body).advances = true) :
    b.follow (.many body) =
      match b.follow body with
      | ⟨.matched, after⟩ => after.follow (.many body)
      | ⟨.declined, after⟩ => ⟨.matched, after⟩
      | outcome => outcome := by
  have hout := not_exhausted_follow hsound h
  have hafter := sound_follow hsound body
  obtain ⟨rounds, hrounds⟩ : ∃ rounds, b.allowance = rounds + 1 :=
    ⟨_, (Nat.succ_pred_eq_of_pos (Nat.mul_pos (Nat.succ_pos _) (Nat.succ_pos _))).symm⟩
  have hround : b.follow (.many body) =
      match b.follow body with
      | ⟨.matched, after⟩ => after.repeated (body.carryOutWithin b.allowance) rounds
      | ⟨.declined, after⟩ => ⟨.matched, after⟩
      | outcome => outcome := Recipe.carryOutWithin_many hrounds body b
  rw [hround] at hout ⊢
  rcases hfirst : b.follow body with ⟨_ | _ | failure, after⟩ <;> rw [hfirst] at hout hafter
  -- One round less is still enough, so that it makes no difference.
  have hle : rounds ≤ b.allowance := hrounds ▸ Nat.le_succ rounds
  have hmore : (Recipe.many body).carryOutWithin b.allowance after =
      after.repeated (body.carryOutWithin b.allowance) rounds :=
    repeated_of_le (fun _ _ => rfl) hle hout
  exact hmore.symm.trans (carryOutWithin_eq_follow hafter h (hmore ▸ hout))

end Builder

end BugLang
