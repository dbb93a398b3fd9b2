import BugLang.Proofs.Completeness
import BugLang.Proofs.Frame

/-!
# Where a run stops

A run that fails because something is missing has taken the beginning of a sentence, and
with the token that comes next this would be the beginning of a sentence no more.  So the
failure is noticed at the first token that is wrong.

* `Derives.exists`: every rule has a sentence.
* `Recipe.Run.exists_derives`: a rule that fails has taken a part of a sentence, and the
  sentence goes on behind it.
* `Recipe.Run.not_beginsSentence`: unless a rule is matched, no sentence begins with what
  it takes and the next token.
* `Recipe.Run.kind_ne_of_failed`: a rule that fails has not taken the end of the input.
-/

namespace BugLang

open Stream'

/-- A terminal asks for some token. -/
theorem Terminal.exists_fits (terminal : Terminal) : ∃ a, terminal.fits a := by
  cases terminal with
  | ofKind kind => exact ⟨⟨kind, ""⟩, decide_eq_true rfl⟩
  | exactly token => exact ⟨token, decide_eq_true rfl⟩

namespace Recipe

/-- Whether a recipe accepts some word if some rules have sentences. -/
def hasWord (known : Rule → Bool) : Recipe → Bool
  | .rule named => known named
  | .andThen first second => first.hasWord known && second.hasWord known
  | .orElse first second => first.hasWord known || second.hasWord known
  | .require body _ | .promised body _ => body.hasWord known
  | _ => true

/-- All recipes accept a word if all rules have sentences. -/
theorem hasWord_of_forall (p : Recipe) : p.hasWord (fun _ => true) = true := by
  induction p <;> simp_all [hasWord]

/-- A recipe accepts a word if the rules that it needs have sentences. -/
theorem exists_accepts {lang : Language} {known : Rule → Bool}
    (hknown : ∀ rule, known rule = true → ∃ w t, lang rule w t) {p : Recipe}
    (hp : p.hasWord known = true) {before : Stack} {n : Nat}
    (hheight : p.height before.length = some n) : ∃ w after, p.Accepts lang w before after := by
  induction p generalizing before n with
  | done | ahead | node => exact ⟨[], _, rfl, rfl⟩
  | keep terminal | drop terminal =>
    obtain ⟨a, ha⟩ := terminal.exists_fits
    exact ⟨[a], _, a, ⟨ha, rfl⟩, rfl⟩
  | rule named =>
    obtain ⟨w, t, ht⟩ := hknown named hp
    exact ⟨w, _, t, ht, rfl⟩
  | replaceTop text =>
    obtain ⟨top, below, rfl⟩ :=
      List.exists_cons_of_length_pos (height_of_replaceTop hheight).1
    exact ⟨[], _, rfl, top, below, rfl, rfl⟩
  | reduce root children =>
    obtain ⟨hlength, hcovers, -⟩ := height_of_reduce hheight
    obtain ⟨after, hafter⟩ := Stack.exists_reduce_eq_ok hlength hcovers
    exact ⟨[], after, rfl, hafter⟩
  | andThen p q ihFirst ihSecond =>
    obtain ⟨hp, hq⟩ := Bool.and_eq_true_iff.mp hp
    obtain ⟨m, hm, hn⟩ := height_of_andThen hheight
    obtain ⟨u, between, hu⟩ := ihFirst hp hm
    obtain ⟨v, after, hv⟩ := ihSecond hq (by rwa [hu.length_eq hm])
    exact ⟨u ++ v, after, u, v, between, rfl, hu, hv⟩
  | orElse p q ihFirst ihSecond =>
    obtain ⟨hfirst, hsecond⟩ := height_of_orElse hheight
    rcases Bool.or_eq_true_iff.mp hp with hp | hq
    · obtain ⟨w, after, hw⟩ := ihFirst hp hfirst
      exact ⟨w, after, .inl hw⟩
    · obtain ⟨w, after, hw⟩ := ihSecond hq hsecond
      exact ⟨w, after, .inr hw⟩
  | many body => exact ⟨[], before, Repeats.nil⟩
  | require body missing ih => exact ih hp hheight
  | promised body fault ih => exact ih hp hheight

end Recipe

/-- Whether a sentence of a rule is found when calls of rules are nested no deeper than
some number. -/
def Rule.hasSentence : Nat → Rule → Bool
  | 0, _ => false
  | depth + 1, rule => (Grammar.recipe rule).hasWord (hasSentence depth)

/-- Calls need not be nested deeper than ten times to find a sentence of any rule. -/
theorem Grammar.hasSentence (rule : Rule) : rule.hasSentence 10 = true := by
  cases rule <;> rfl

/-- A sentence that is found is there. -/
theorem Derives.exists_of_hasSentence {depth : Nat} {rule : Rule}
    (h : rule.hasSentence depth = true) : ∃ w t, Derives rule w t := by
  induction depth generalizing rule with
  | zero => exact Bool.noConfusion h
  | succ depth ih =>
    obtain ⟨w, after, hw⟩ : ∃ w after, (Grammar.recipe rule).Accepts Derives w [] after :=
      Recipe.exists_accepts (fun _ => ih) h (Grammar.height_recipe_zero rule)
    obtain ⟨t, ht, -⟩ := (Derives.reads_recipe rule w [] after).mp hw
    exact ⟨w, t, ht⟩

/-- Every rule has a sentence. -/
theorem Derives.exists (rule : Rule) : ∃ w t, Derives rule w t :=
  exists_of_hasSentence (Grammar.hasSentence rule)

namespace Recipe

/-- Whether a recipe is a token or a rule. -/
def takesToken : Recipe → Bool
  | .keep _ | .drop _ | .rule _ => true
  | _ => false

/-- Whether only tokens and rules are required. -/
def requiresTokens : Recipe → Bool
  | .andThen first second | .orElse first second => first.requiresTokens && second.requiresTokens
  | .many body | .promised body _ => body.requiresTokens
  | .require body _ => body.takesToken
  | _ => true

/-- Whether a recipe fails only behind a token that it took. -/
def commits : Recipe → Bool
  | .andThen first second => first.commits && (!first.idles || second.commits)
  | .orElse first second => first.commits && second.commits
  | .many body | .promised body _ => body.commits
  | .require _ _ => false
  | _ => true

/-- Whether a recipe takes tokens before the end of the input only. -/
def staysInside : Recipe → Bool
  | .keep terminal | .drop terminal => terminal.kind ≠ .endOfInput
  | .rule named => named ≠ .program
  | .andThen first second | .orElse first second => first.staysInside && second.staysInside
  | .many body | .require body _ | .promised body _ => body.staysInside
  | _ => true

end Recipe

namespace Grammar

/-- What the rules require are tokens and rules. -/
theorem requiresTokens_recipe (rule : Rule) : (recipe rule).requiresTokens = true := by
  cases rule <;> rfl

/-- No rule fails before it has taken a token. -/
theorem commits_recipe (rule : Rule) : (recipe rule).commits = true := by
  cases rule <;> rfl

/-- Only a program includes the end of the input. -/
theorem staysInside_recipe {rule : Rule} (h : rule ≠ .program) :
    (recipe rule).staysInside = true := by
  cases rule <;> first | rfl | exact absurd rfl h

end Grammar

namespace Recipe

variable {p : Recipe} {u : List Located} {s : Supply} {before after : Stack} {line : Nat}
  {missing : Missing}

/-- All recipes that stay within the stack can be gone through to their end. -/
theorem exists_accepts_derives {n : Nat} (hheight : p.height before.length = some n) :
    ∃ w after, p.Accepts Derives w before after :=
  exists_accepts (fun rule _ => Derives.exists rule) p.hasWord_of_forall hheight

/-- A token or a sentence is no empty word. -/
theorem Accepts.ne_nil_of_takesToken {w : List Token} (h : p.Accepts Derives w before after)
    (hp : p.takesToken = true) : w ≠ [] := by
  cases p with
  | keep | drop =>
    obtain ⟨a, ⟨-, rfl⟩, -⟩ := h
    exact List.cons_ne_nil a []
  | rule named =>
    obtain ⟨t, ht, -⟩ := h
    obtain ⟨a, ha, -⟩ := ht.exists_mem
    exact List.ne_nil_of_mem ha
  | _ => exact Bool.noConfusion hp

/-- A token or a rule requires nothing of its own. -/
theorem requiresTokens_of_takesToken (hp : p.takesToken = true) : p.requiresTokens = true := by
  cases p with
  | keep | drop | rule => rfl
  | _ => exact Bool.noConfusion hp

/-- **What was taken can be completed.**  Behind the tokens that a recipe takes before it
fails, others make a word that it accepts. -/
theorem Run.exists_accepts (h : p.Run u s before (.failed (.incomplete line missing)) after)
    (hp : p.tidy = true) (hrequires : p.requiresTokens = true) {n : Nat}
    (hheight : p.height before.length = some n) :
    ∃ v after', v ≠ [] ∧ p.Accepts Derives (u.map Located.token ++ v) before after' := by
  generalize hverdict : Verdict.failed (.incomplete line missing) = verdict at h
  induction h generalizing n with
  | rule _ ih =>
    obtain ⟨v, after', hv, haccepts⟩ := ih (Grammar.tidy_recipe _)
      (Grammar.requiresTokens_recipe _) (Grammar.height_recipe _ _) hverdict
    exact ⟨v, after', hv, (Derives.reads_recipe _ _ _ _).mp haccepts⟩
  | andThen first _ _ ihSecond =>
    obtain ⟨hp, hq⟩ := tidy_of_andThen hp
    obtain ⟨m, hm, hn⟩ := height_of_andThen hheight
    obtain ⟨v, after', hv, haccepts⟩ := ihSecond hq (Bool.and_eq_true_iff.mp hrequires).2
      (by rwa [first.length_of_matched hp hm]) hverdict
    refine ⟨v, after', hv, _, _, _, ?_, first.accepts hp, haccepts⟩
    rw [List.map_append, List.append_assoc]
  | andThenStop _ _ ih =>
    obtain ⟨hp, -⟩ := tidy_of_andThen hp
    obtain ⟨m, hm, hn⟩ := height_of_andThen hheight
    obtain ⟨v, between, hv, haccepts⟩ := ih hp (Bool.and_eq_true_iff.mp hrequires).1 hm hverdict
    obtain ⟨w, after', hw⟩ := exists_accepts_derives (by rwa [haccepts.length_eq hm])
    refine ⟨v ++ w, after', by simp [hv], _, _, _, ?_, haccepts, hw⟩
    rw [List.append_assoc]
  | orElse first _ _ ihSecond =>
    obtain ⟨hp, hq⟩ := tidy_of_orElse hp
    obtain ⟨-, hsecond⟩ := height_of_orElse hheight
    obtain ⟨rfl, rfl, -⟩ := first.of_declined hp
    obtain ⟨v, after', hv, haccepts⟩ :=
      ihSecond hq (Bool.and_eq_true_iff.mp hrequires).2 hsecond hverdict
    exact ⟨v, after', hv, .inr haccepts⟩
  | orElseFirst _ _ ih =>
    obtain ⟨v, after', hv, haccepts⟩ := ih (tidy_of_orElse hp).1
      (Bool.and_eq_true_iff.mp hrequires).1 (height_of_orElse hheight).1 hverdict
    exact ⟨v, after', hv, .inl haccepts⟩
  | manyMore first _ _ ihOthers =>
    obtain ⟨hbody, -⟩ := height_of_many hheight
    obtain ⟨v, after', hv, haccepts⟩ :=
      ihOthers hp hrequires (by rwa [first.length_of_matched hp hbody]) hverdict
    refine ⟨v, after', hv, ?_⟩
    rw [List.map_append, List.append_assoc]
    exact Repeats.cons (first.accepts hp) haccepts
  | manyFail _ ih =>
    obtain ⟨hbody, -⟩ := height_of_many hheight
    obtain ⟨v, after', hv, haccepts⟩ := ih hp hrequires hbody hverdict
    refine ⟨v, after', hv, ?_⟩
    rw [← List.append_nil (_ ++ v)]
    exact Repeats.cons haccepts Repeats.nil
  | require _ _ ih => exact ih hp (requiresTokens_of_takesToken hrequires) hheight hverdict
  | @requireOther q _ _ _ _ _ body =>
    obtain ⟨rfl, rfl, -⟩ := body.of_declined hp
    obtain ⟨w, after', hw⟩ := exists_accepts_derives (p := q) hheight
    exact ⟨w, after', hw.ne_nil_of_takesToken hrequires, hw⟩
  | promised _ _ ih => exact ih hp hrequires hheight hverdict
  | _ => cases hverdict

/-- A recipe that commits takes a token before it fails. -/
theorem Run.ne_nil_of_failed (h : p.Run u s before (.failed (.incomplete line missing)) after)
    (hp : p.tidy = true) (hcommits : p.commits = true) : u ≠ [] := by
  generalize hverdict : Verdict.failed (.incomplete line missing) = verdict at h
  induction h with
  | rule _ ih => exact ih (Grammar.tidy_recipe _) (Grammar.commits_recipe _) hverdict
  | @andThen p q _ _ _ _ _ _ _ first _ _ ihSecond =>
    obtain ⟨-, hq⟩ := tidy_of_andThen hp
    obtain ⟨-, hcommits⟩ := Bool.and_eq_true_iff.mp hcommits
    cases hidle : p.idles with
    | false =>
      obtain ⟨a, ha, -⟩ := first.exists_mem_of_matched hidle
      exact List.append_ne_nil_of_left_ne_nil (List.ne_nil_of_mem ha) _
    | true =>
      rw [hidle, Bool.not_true, Bool.false_or] at hcommits
      exact List.append_ne_nil_of_right_ne_nil _ (ihSecond hq hcommits hverdict)
  | andThenStop _ _ ih =>
    obtain ⟨hp, -⟩ := tidy_of_andThen hp
    exact ih hp (Bool.and_eq_true_iff.mp hcommits).1 hverdict
  | orElse _ _ _ ihSecond =>
    exact List.append_ne_nil_of_right_ne_nil _ (ihSecond (tidy_of_orElse hp).2
      (Bool.and_eq_true_iff.mp hcommits).2 hverdict)
  | orElseFirst _ _ ih =>
    exact ih (tidy_of_orElse hp).1 (Bool.and_eq_true_iff.mp hcommits).1 hverdict
  | manyMore _ _ _ ihOthers =>
    exact List.append_ne_nil_of_right_ne_nil _ (ihOthers hp hcommits hverdict)
  | manyFail _ ih => exact ih hp hcommits hverdict
  | promised _ _ ih => exact ih hp hcommits hverdict
  | require | requireOther => exact Bool.noConfusion hcommits
  | _ => cases hverdict

/-- A recipe that stays inside accepts no end of the input. -/
theorem Accepts.kind_ne {lang : Language}
    (hlang : ∀ rule w t, rule ≠ .program → lang rule w t → ∀ a ∈ w, a.kind ≠ .endOfInput)
    {w : List Token} (h : p.Accepts lang w before after) (hp : p.staysInside = true) :
    ∀ a ∈ w, a.kind ≠ .endOfInput := by
  induction p generalizing w before after with
  | keep terminal | drop terminal =>
    obtain ⟨a, ⟨hfits, rfl⟩, -⟩ := h
    rw [List.forall_mem_singleton, Terminal.kind_of_fits hfits]
    exact of_decide_eq_true hp
  | rule named =>
    obtain ⟨t, ht, -⟩ := h
    exact hlang named w t (of_decide_eq_true hp) ht
  | andThen p q ihFirst ihSecond =>
    obtain ⟨hp, hq⟩ := Bool.and_eq_true_iff.mp hp
    obtain ⟨u, v, between, rfl, hu, hv⟩ := h
    exact List.forall_mem_append.mpr ⟨ihFirst hu hp, ihSecond hv hq⟩
  | orElse p q ihFirst ihSecond =>
    obtain ⟨hp, hq⟩ := Bool.and_eq_true_iff.mp hp
    exact h.elim (ihFirst · hp) (ihSecond · hq)
  | many body ih =>
    change Repeats _ w before after at h
    induction h with
    | nil => exact List.forall_mem_nil _
    | cons hround _ ihOthers => exact List.forall_mem_append.mpr ⟨ih hround hp, ihOthers⟩
  | require body missing ih => exact ih h hp
  | promised body fault ih => exact ih h hp
  | _ =>
    obtain rfl := h.1
    exact List.forall_mem_nil _

end Recipe

namespace Derives

/-- A sentence of a rule other than a whole program has no end of the input. -/
theorem kind_ne {rule : Rule} {w : List Token} {t : Tree} (h : Derives rule w t)
    (hrule : rule ≠ .program) : ∀ a ∈ w, a.kind ≠ .endOfInput := by
  induction h with
  | @of parts rule w t _ hproduction ih =>
    exact ((Grammar.reads_recipe rule w [] [t]).mpr ⟨t, hproduction, rfl⟩).kind_ne
      (fun rule w t hrule h => ih rule w t h hrule) (Grammar.staysInside_recipe hrule)

/-- A sequence of sentences has no end of the input. -/
theorem kind_ne_of_sequence {rule : Rule} {w : List Token} {ts : List Tree}
    (h : Sequence (Derives rule) w ts) (hrule : rule ≠ .program) :
    ∀ a ∈ w, a.kind ≠ .endOfInput := by
  induction h with
  | nil => exact List.forall_mem_nil _
  | cons hfirst _ ih => exact List.forall_mem_append.mpr ⟨hfirst.kind_ne hrule, ih⟩

/-- A whole program ends with the end of the input, which comes nowhere else in it. -/
theorem exists_eq_append_end {w : List Token} {t : Tree} (h : Derives .program w t) :
    ∃ v e, w = v ++ [e] ∧ e.kind = .endOfInput ∧ ∀ a ∈ v, a.kind ≠ .endOfInput := by
  cases h.production with
  | program hshared hfirst hothers hend =>
    refine ⟨_, _, rfl, hend, ?_⟩
    simp only [List.forall_mem_append]
    refine ⟨⟨?_, hfirst.kind_ne Rule.noConfusion⟩, kind_ne_of_sequence hothers Rule.noConfusion⟩
    cases hshared with
    | absent => exact List.forall_mem_nil _
    | present hshared => exact hshared.kind_ne Rule.noConfusion

/-- Words that have the end of the input only at their end have none before they end. -/
theorem kind_ne_of_append_eq {u v w : List Token} {e : Token} (h : u ++ v = w ++ [e]) (hv : v ≠ [])
    (hw : ∀ a ∈ w, a.kind ≠ .endOfInput) : ∀ a ∈ u, a.kind ≠ .endOfInput := by
  have hinit : w = u ++ v.dropLast := by
    rw [← List.dropLast_append_of_ne_nil hv, h, List.dropLast_concat]
  exact fun a ha => hw a (hinit ▸ List.mem_append_left _ ha)

/-- A sentence that goes on has not come to the end of the input. -/
theorem kind_ne_of_append {rule : Rule} {u v : List Token} {t : Tree}
    (h : Derives rule (u ++ v) t) (hv : v ≠ []) : ∀ a ∈ u, a.kind ≠ .endOfInput := by
  by_cases hrule : rule = .program
  · subst hrule
    obtain ⟨w, e, hw, -, hkind⟩ := h.exists_eq_append_end
    exact kind_ne_of_append_eq hw hv hkind
  · exact fun a ha => h.kind_ne hrule a (List.mem_append_left v ha)

end Derives

namespace Recipe.Run

variable {p : Recipe} {rule : Rule} {u : List Located} {s : Supply} {before after : Stack}
  {line : Nat} {missing : Missing} {verdict : Verdict}

/-- A failure names the line of the next token. -/
theorem line_eq_of_failed (h : p.Run u s before (.failed (.incomplete line missing)) after) :
    line = s.head.line := by
  have hother : p.Run u s before (.failed (.incomplete s.head.line missing)) after :=
    h.transfer rfl rfl
  obtain ⟨-, -, hequal, -⟩ := h.unique hother rfl
  exact (Failure.incomplete.inj (Verdict.failed.inj hequal)).1

/-- **Nothing goes on with the next token.**  Unless a recipe is matched, no word that it
accepts begins with what it takes and the next token. -/
theorem not_accepts (h : p.Run u s before verdict after) (hverdict : verdict ≠ .matched)
    (hp : p.tidy = true) (hdecides : p.decides = true) (hend : p.StopsAt .endOfInput)
    (v : List Token) (after' : Stack) :
    ¬ p.Accepts Derives (u.map Located.token ++ [s.head.token] ++ v) before after' := by
  intro haccepts
  -- The word would be matched, but the run sees no difference up to the next token.
  let later : Supply := v.map (Located.mk 0) ++ₛ const ⟨0, .endOfInput⟩
  have hmatched := haccepts.run (u := u ++ s.head :: v.map (Located.mk 0))
    (s := const ⟨0, .endOfInput⟩) Derives.readable hp hdecides (by simp [Function.comp_def]) hend
  have hother : p.Run u (s.head :: later) before (verdict.onLine s.head.line) after :=
    h.transfer rfl rfl
  obtain ⟨-, -, hequal, -⟩ := hother.unique hmatched
    (by rw [append_append_stream, cons_append_stream])
  exact Verdict.onLine_ne_matched hverdict hequal

/-- Unless a rule is matched, no sentence begins with what it takes and the next token. -/
theorem not_beginsSentence (h : (Recipe.rule rule).Run u s before verdict after)
    (hverdict : verdict ≠ .matched) :
    ¬ BeginsSentence rule (u.map Located.token ++ [s.head.token]) := by
  intro hbegins
  obtain ⟨v, t, ht⟩ := hbegins
  exact h.not_accepts hverdict rfl rfl ⟨Grammar.stopsAt_endOfInput rule, nofun⟩ v _ ⟨t, ht, rfl⟩

/-- A rule that fails has taken the beginning of a sentence that goes on. -/
theorem exists_derives
    (h : (Recipe.rule rule).Run u s before (.failed (.incomplete line missing)) after) :
    ∃ v t, v ≠ [] ∧ Derives rule (u.map Located.token ++ v) t := by
  obtain ⟨v, after', hv, t, ht, -⟩ := h.exists_accepts rfl rfl rfl
  exact ⟨v, t, hv, ht⟩

/-- A rule that fails has not taken the end of the input. -/
theorem kind_ne_of_failed
    (h : (Recipe.rule rule).Run u s before (.failed (.incomplete line missing)) after) :
    ∀ a ∈ u, a.token.kind ≠ .endOfInput := by
  obtain ⟨v, t, hv, ht⟩ := h.exists_derives
  exact fun a ha => ht.kind_ne_of_append hv a.token (List.mem_map_of_mem ha)

end Recipe.Run

end BugLang
