import BugLang.Proofs.Lookahead
import BugLang.Proofs.Productions

/-!
# What is matched is a sentence

The tokens that a recipe takes until it is matched are a word that it accepts, and the
stack it leaves is the one that it makes of this word.  For a rule, the word is a sentence
and the new entry is its tree.

* `Derives.reads_recipe`: the recipe of a rule reads the sentences of the rule.
* `Recipe.Run.accepts`: a recipe that is matched accepts the tokens that it takes.
-/

namespace BugLang

open Stream'

namespace Recipe

/-- A richer language is enough. -/
theorem Accepts.mono {lang lang' : Language} (hlang : ∀ rule w t, lang rule w t → lang' rule w t)
    {p : Recipe} {w : List Token} {before after : Stack} (h : p.Accepts lang w before after) :
    p.Accepts lang' w before after := by
  induction p generalizing w before after with
  | rule named =>
    obtain ⟨t, ht, rfl⟩ := h
    exact ⟨t, hlang named w t ht, rfl⟩
  | andThen p q ihFirst ihSecond =>
    obtain ⟨u, v, between, rfl, hp, hq⟩ := h
    exact ⟨u, v, between, rfl, ihFirst hp, ihSecond hq⟩
  | orElse p q ihFirst ihSecond => exact h.imp ihFirst ihSecond
  | many body ih =>
    change Repeats _ w before after at h
    induction h with
    | nil => exact Repeats.nil
    | cons hfirst _ ihOthers => exact Repeats.cons (ih hfirst) ihOthers
  | require body missing ih => exact ih h
  | promised body fault ih => exact ih h
  | _ => exact h

end Recipe

namespace Derives

/-- A sentence comes of a production from sentences. -/
theorem production {rule : Rule} {w : List Token} {t : Tree} (h : Derives rule w t) :
    Production Derives rule w t := by
  obtain ⟨hparts, hproduction⟩ := h
  have haccepts := (Grammar.reads_recipe rule w [] [t]).mpr ⟨t, hproduction, rfl⟩
  obtain ⟨t', ht', htree⟩ := (Grammar.reads_recipe rule w [] [t]).mp (haccepts.mono hparts)
  rwa [(List.cons.inj htree).1]

/-- What a production makes of sentences is a sentence. -/
theorem of_production {rule : Rule} {w : List Token} {t : Tree} (h : Production Derives rule w t) :
    Derives rule w t :=
  of (fun _ _ _ hpart => hpart) h

/-- The recipe of a rule reads the sentences of the rule. -/
theorem reads_recipe (rule : Rule) : (Grammar.recipe rule).Reads Derives (Derives rule) :=
  (Grammar.reads_recipe rule).congr fun _ _ => ⟨of_production, production⟩

end Derives

/-- **Soundness.**  A recipe that is matched accepts the tokens that it takes. -/
theorem Recipe.Run.accepts {p : Recipe} {u : List Located} {s : Supply} {before after : Stack}
    (h : p.Run u s before .matched after) (hp : p.tidy = true) :
    p.Accepts Derives (u.map Located.token) before after := by
  generalize hverdict : Verdict.matched = verdict at h
  induction h with
  | done | ahead | node => exact ⟨rfl, rfl⟩
  | keep hfits | drop hfits => exact ⟨_, ⟨hfits, rfl⟩, rfl⟩
  | rule _ ih => exact (Derives.reads_recipe _ _ _ _).mp (ih (Grammar.tidy_recipe _) hverdict)
  | replaceTop => exact ⟨rfl, _, _, rfl, rfl⟩
  | reduce hreduce => exact ⟨rfl, hreduce⟩
  | andThen _ _ ihFirst ihSecond =>
    obtain ⟨hp, hq⟩ := tidy_of_andThen hp
    rw [List.map_append]
    exact ⟨_, _, _, rfl, ihFirst hp rfl, ihSecond hq hverdict⟩
  | orElse first _ _ ihSecond =>
    obtain ⟨hp, hq⟩ := tidy_of_orElse hp
    obtain ⟨rfl, rfl, -⟩ := first.of_declined hp
    exact .inr (ihSecond hq hverdict)
  | orElseFirst _ _ ih => exact .inl (ih (tidy_of_orElse hp).1 hverdict)
  | manyMore _ _ ihFirst ihOthers =>
    rw [List.map_append]
    exact Repeats.cons (ihFirst hp rfl) (ihOthers hp hverdict)
  | manyEnd last =>
    obtain ⟨rfl, rfl, -⟩ := last.of_declined hp
    exact Repeats.nil
  | require _ _ ih => exact ih hp hverdict
  | promised _ _ ih => exact ih hp hverdict
  | andThenStop _ hstop => exact absurd hverdict.symm hstop
  | _ => exact Verdict.noConfusion hverdict

/-- What a rule takes when it is matched is a sentence, and its tree comes on the stack. -/
theorem Recipe.Run.derives {rule : Rule} {u : List Located} {s : Supply} {before after : Stack}
    (h : (Recipe.rule rule).Run u s before .matched after) :
    ∃ t, Derives rule (u.map Located.token) t ∧ after = t :: before :=
  h.accepts rfl

end BugLang
