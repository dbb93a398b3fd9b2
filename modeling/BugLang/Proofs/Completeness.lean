import BugLang.Proofs.Soundness

/-!
# Every sentence is matched

A recipe decides by the next token what to do, and a sentence is matched since these
decisions are never wrong: where two ways are open, they start with different tokens, and
where something may be left out or repeated, no token starts both that and what follows.

`Rule.blocked` lists the tokens that a rule would go on with if they came behind one of
its sentences.  A sentence is matched if no such token comes next.

* `Recipe.Accepts.run`: a word that a recipe accepts is taken, and the recipe is matched.
* `Derives.run`: a sentence of a rule is taken, and the rule is matched.
* `Derives.unique`: a word is a sentence in one way only.
-/

namespace BugLang

open Stream'

/-- Whether no token fits both of two terminals. -/
def Terminal.apart : Terminal → Terminal → Bool
  | .ofKind kind, .ofKind kind' => kind ≠ kind'
  | .ofKind kind, .exactly token => token.kind ≠ kind
  | .exactly token, .ofKind kind => token.kind ≠ kind
  | .exactly token, .exactly token' => token ≠ token'

/-- A token that fits one of two terminals that are apart does not fit the other. -/
theorem Terminal.not_fits_of_apart {a b : Terminal} {token : Token} (h : a.apart b = true)
    (ha : a.fits token) : ¬ b.fits token := by
  intro hb
  cases a <;> cases b <;> simp only [apart, fits, decide_eq_true_eq] at h ha hb
  · exact h (ha.symm.trans hb)
  · exact h (hb ▸ ha)
  · exact h (ha ▸ hb)
  · exact h (ha.symm.trans hb)

namespace Rule

/-- What a call or a property of a name starts with. -/
def blockedByName : List Terminal :=
  [.symbol ".", .symbol "("]

/-- What makes more of a product. -/
def blockedByTerm : List Terminal :=
  [.symbol "*", .symbol "/"] ++ blockedByName

/-- What makes more of a sum. -/
def blockedBySum : List Terminal :=
  [.symbol "+", .symbol "-"] ++ blockedByTerm

/-- The tokens that a rule would go on with if they came behind one of its sentences. -/
def blocked : Rule → List Terminal
  | .program => [.keyword "Bug", .lineEnd]
  | .functionCall | .addOperator | .multiplyOperator | .variable | .parameterList => []
  | .expression => [.symbol "<", .symbol ">", .symbol "!", .symbol "="] ++ blockedBySum
  | .arithmeticExpression => blockedBySum
  | .term => blockedByTerm
  | .factor | .unsignedFactor => blockedByName
  | .comparator => [.symbol "="]
  | _ => [.lineEnd]

end Rule

namespace Recipe

/-- The tokens that a recipe would go on with if they came behind a word that it accepts. -/
def blocked : Recipe → List Terminal
  | .rule named => named.blocked
  | .andThen first second => second.blocked ++ if second.idles then first.blocked else []
  | .orElse first second =>
    first.blocked ++ second.blocked ++ if second.idles then first.first else []
  | .many body => body.first ++ body.blocked
  | .require body _ | .promised body _ => body.blocked
  | _ => []

/-- What the token has to fit that comes behind a word that a recipe accepts. -/
def needed : Recipe → List Terminal
  | .ahead terminal => [terminal]
  | .andThen first second => second.needed ++ if second.idles then first.needed else []
  | .orElse first second => first.needed ++ second.needed
  | .many body | .require body _ | .promised body _ => body.needed
  | _ => []

/-- Whether a recipe stops ahead of all tokens that fit a terminal. -/
def stopsAhead (p : Recipe) (terminal : Terminal) : Bool :=
  p.blocked.all terminal.apart && p.needed.all (· = terminal)

/-- Whether the next token decides all choices and all repetitions. -/
def decides : Recipe → Bool
  | .andThen first second => first.decides && second.decides && second.first.all first.stopsAhead
  | .orElse first second =>
    first.decides && second.decides && !first.certain &&
      first.first.all fun terminal => second.first.all terminal.apart
  | .many body => body.decides && !body.certain && body.first.all body.stopsAhead
  | .require body _ | .promised body _ => body.decides
  | _ => true

/-- Whether a recipe stops ahead of a token. -/
def StopsAt (p : Recipe) (token : Token) : Prop :=
  (∀ terminal ∈ p.blocked, ¬ terminal.fits token) ∧ ∀ terminal ∈ p.needed, terminal.fits token

/-- A recipe that stops ahead of the tokens that fit a terminal stops ahead of each. -/
theorem stopsAt_of_fits {p : Recipe} {terminal : Terminal} {token : Token}
    (h : p.stopsAhead terminal = true) (hfits : terminal.fits token) : p.StopsAt token := by
  obtain ⟨hblocked, hneeded⟩ := Bool.and_eq_true_iff.mp h
  rw [List.all_eq_true] at hblocked hneeded
  refine ⟨fun other hother => Terminal.not_fits_of_apart (hblocked other hother) hfits, ?_⟩
  intro other hother
  rwa [of_decide_eq_true (hneeded other hother)]

end Recipe

/-- Whether a rule stops ahead of a token. -/
def Rule.StopsAt (rule : Rule) (token : Token) : Prop :=
  ∀ terminal ∈ rule.blocked, ¬ terminal.fits token

namespace Grammar

/-- The recipe of a rule goes on with the tokens that the rule goes on with. -/
theorem blocked_recipe_subset (rule : Rule) : (recipe rule).blocked ⊆ rule.blocked := by
  cases rule <;> decide

/-- Behind a sentence, no particular token is needed. -/
theorem needed_recipe (rule : Rule) : (recipe rule).needed = [] := by
  cases rule <;> rfl

/-- The next token decides everything. -/
theorem decides_recipe (rule : Rule) : (recipe rule).decides = true := by
  cases rule <;> decide

/-- All rules stop at the end of the input. -/
theorem stopsAt_endOfInput (rule : Rule) : rule.StopsAt .endOfInput := by
  change ∀ terminal ∈ rule.blocked, ¬ terminal.fits .endOfInput
  cases rule <;> decide

end Grammar

namespace Recipe

variable {lang : Language} {p q : Recipe} {w : List Token} {before after : Stack}

/-- A recipe that does not idle accepts no word without a token. -/
theorem Accepts.exists_mem (hlang : ∀ rule w t, lang rule w t → ∃ a ∈ w, a.kind ≠ .endOfInput)
    (h : p.Accepts lang w before after) (hidle : p.idles = false) :
    ∃ a ∈ w, a.kind ≠ .endOfInput := by
  induction p generalizing w before after with
  | keep terminal | drop terminal =>
    obtain ⟨a, ⟨hfits, rfl⟩, -⟩ := h
    refine ⟨a, List.mem_cons_self, ?_⟩
    rw [Terminal.kind_of_fits hfits]
    simpa [idles] using hidle
  | rule named =>
    obtain ⟨t, ht, -⟩ := h
    exact hlang named w t ht
  | andThen p q ihFirst ihSecond =>
    obtain ⟨u, v, between, rfl, hp, hq⟩ := h
    rcases Bool.and_eq_false_iff.mp hidle with hidle | hidle
    · obtain ⟨a, ha, hkind⟩ := ihFirst hp hidle
      exact ⟨a, List.mem_append_left v ha, hkind⟩
    · obtain ⟨a, ha, hkind⟩ := ihSecond hq hidle
      exact ⟨a, List.mem_append_right u ha, hkind⟩
  | orElse p q ihFirst ihSecond =>
    obtain ⟨hidle, hidle'⟩ := Bool.or_eq_false_iff.mp hidle
    exact h.elim (ihFirst · hidle) (ihSecond · hidle')
  | require body missing ih => exact ih h hidle
  | promised body fault ih => exact ih h hidle
  | _ => exact Bool.noConfusion hidle

/-- A recipe that accepts the empty word idles. -/
theorem Accepts.idles_of_nil
    (hlang : ∀ rule w t, lang rule w t → ∃ a ∈ w, a.kind ≠ .endOfInput)
    (h : p.Accepts lang [] before after) : p.idles = true := by
  rw [← Bool.not_eq_false]
  intro hidle
  obtain ⟨a, ha, -⟩ := h.exists_mem hlang hidle
  exact List.not_mem_nil ha

/-- A word that a recipe accepts starts with a token that the recipe may start with. -/
theorem Accepts.exists_fits
    (hlang : ∀ rule w t, lang rule w t → ∃ a ∈ w, a.kind ≠ .endOfInput)
    (hfirst : ∀ rule a w t, lang rule (a :: w) t → ∃ terminal ∈ rule.first, terminal.fits a)
    {a : Token} (h : p.Accepts lang (a :: w) before after) :
    ∃ terminal ∈ p.first, terminal.fits a := by
  induction p generalizing w before after with
  | keep terminal | drop terminal =>
    obtain ⟨b, ⟨hfits, hb⟩, -⟩ := h
    obtain ⟨rfl, -⟩ := List.cons.inj hb
    exact ⟨terminal, List.mem_cons_self, hfits⟩
  | rule named =>
    obtain ⟨t, ht, -⟩ := h
    exact hfirst named a w t ht
  | andThen p q ihFirst ihSecond =>
    obtain ⟨u, v, between, hword, hp, hq⟩ := h
    rcases List.cons_eq_append_iff.mp hword with ⟨rfl, rfl⟩ | ⟨u, rfl, -⟩
    · obtain ⟨terminal, hmem, hfits⟩ := ihSecond hq
      rw [first, hp.idles_of_nil hlang, if_pos rfl]
      exact ⟨terminal, List.mem_append_right _ hmem, hfits⟩
    · obtain ⟨terminal, hmem, hfits⟩ := ihFirst hp
      exact ⟨terminal, List.mem_append_left _ hmem, hfits⟩
  | orElse p q ihFirst ihSecond =>
    rcases h with h | h
    · obtain ⟨terminal, hmem, hfits⟩ := ihFirst h
      exact ⟨terminal, List.mem_append_left _ hmem, hfits⟩
    · obtain ⟨terminal, hmem, hfits⟩ := ihSecond h
      exact ⟨terminal, List.mem_append_right _ hmem, hfits⟩
  | many body ih =>
    change Repeats _ (a :: w) before after at h
    generalize hword : a :: w = word at h
    induction h with
    | nil => exact absurd hword (List.cons_ne_nil a w)
    | cons hround _ ihOthers =>
      rcases List.cons_eq_append_iff.mp hword with ⟨-, hv⟩ | ⟨u, rfl, -⟩
      · exact ihOthers hv.symm
      · exact ih hround
  | require body missing ih => exact ih h
  | promised body fault ih => exact ih h
  | _ => exact absurd h.1 (List.cons_ne_nil a w)

end Recipe

namespace Derives

/-- A sentence has a token. -/
theorem exists_mem {rule : Rule} {w : List Token} {t : Tree} (h : Derives rule w t) :
    ∃ a ∈ w, a.kind ≠ .endOfInput := by
  induction h with
  | @of _ rule w t _ hproduction ih =>
    exact ((Grammar.reads_recipe rule w [] [t]).mpr ⟨t, hproduction, rfl⟩).exists_mem ih
      (Grammar.idles_recipe rule)

/-- A sentence starts with a token that the rule may start with. -/
theorem exists_fits {rule : Rule} {a : Token} {w : List Token} {t : Tree}
    (h : Derives rule (a :: w) t) : ∃ terminal ∈ rule.first, terminal.fits a := by
  generalize hword : a :: w = word at h
  induction h generalizing a w with
  | @of _ rule word t hparts hproduction ih =>
    subst hword
    have haccepts := (Grammar.reads_recipe rule _ [] [t]).mpr ⟨t, hproduction, rfl⟩
    obtain ⟨terminal, hmem, hfits⟩ := haccepts.exists_fits
      (fun rule w t h => (hparts rule w t h).exists_mem) (fun rule a w t h => ih rule _ t h rfl)
    exact ⟨terminal, Grammar.first_recipe_subset rule hmem, hfits⟩

end Derives

namespace Recipe

/-- What a language needs for its words to be matched. -/
structure Readable (lang : Language) : Prop where
  exists_mem : ∀ rule w t, lang rule w t → ∃ a ∈ w, a.kind ≠ .endOfInput
  exists_fits : ∀ rule a w t, lang rule (a :: w) t → ∃ terminal ∈ rule.first, terminal.fits a
  run : ∀ rule w t, lang rule w t → ∀ (u : List Located) (s : Supply) (before : Stack),
    u.map Located.token = w → rule.StopsAt s.head.token →
      (Recipe.rule rule).Run u s before .matched (t :: before)

variable {lang : Language} {p q : Recipe} {w : List Token} {u : List Located} {s : Supply}
  {before after : Stack}

/-- A recipe stops ahead of what follows it, if it stops ahead of all that can start it. -/
theorem stopsAt_head (hlang : Readable lang) (hq : q.Accepts lang w before after)
    (hfirst : q.first.all p.stopsAhead = true) (hidle : q.idles = true → p.StopsAt s.head.token)
    (hu : u.map Located.token = w) : p.StopsAt (u ++ₛ s).head.token := by
  cases u with
  | nil =>
    subst hu
    exact hidle (hq.idles_of_nil hlang.exists_mem)
  | cons a u =>
    subst hu
    obtain ⟨terminal, hmem, hfits⟩ := hq.exists_fits hlang.exists_mem hlang.exists_fits
    exact stopsAt_of_fits (List.all_eq_true.mp hfirst terminal hmem) hfits

/-- A repetition goes on as long as it may and then stops. -/
private theorem run_of_repeats (hlang : Readable lang) (hp : p.tidy = true)
    (hcertain : p.certain = false) (hfirst : p.first.all p.stopsAhead = true)
    (hround : ∀ {w u s before after}, p.Accepts lang w before after → u.map Located.token = w →
      p.StopsAt s.head.token → p.Run u s before .matched after)
    (h : Repeats (p.Accepts lang) w before after) (hu : u.map Located.token = w)
    (hs : (many p).StopsAt s.head.token) : (many p).Run u s before .matched after := by
  induction h generalizing u with
  | nil =>
    obtain rfl := List.map_eq_nil_iff.mp hu
    refine .manyEnd (declined_of_head hp hcertain ?_ _)
    exact fun terminal hmem => hs.1 terminal (List.mem_append_left _ hmem)
  | cons hbody hothers ih =>
    obtain ⟨u, v, rfl, hu, hv⟩ := List.map_eq_append_iff.mp hu
    refine .manyMore (hround hbody hu ?_) (ih hv)
    refine stopsAt_head (q := many p) hlang hothers hfirst (fun _ => ?_) hv
    exact ⟨fun terminal hmem => hs.1 terminal (List.mem_append_right _ hmem), hs.2⟩

/-- **Completeness.**  A word that a recipe accepts is taken and the recipe is matched, if
the recipe stops ahead of the token that comes next. -/
theorem Accepts.run (hlang : Readable lang) (hp : p.tidy = true) (hdecides : p.decides = true)
    (h : p.Accepts lang w before after) (hu : u.map Located.token = w)
    (hs : p.StopsAt s.head.token) : p.Run u s before .matched after := by
  induction p generalizing w u s before after with
  | done =>
    obtain ⟨rfl, rfl⟩ := h
    obtain rfl := List.map_eq_nil_iff.mp hu
    exact .done
  | keep terminal =>
    obtain ⟨a, ⟨hfits, rfl⟩, rfl⟩ := h
    obtain ⟨b, rfl, rfl⟩ := List.map_eq_singleton_iff.mp hu
    exact .keep hfits
  | drop terminal =>
    obtain ⟨a, ⟨hfits, rfl⟩, rfl⟩ := h
    obtain ⟨b, rfl, rfl⟩ := List.map_eq_singleton_iff.mp hu
    exact .drop hfits
  | ahead terminal =>
    obtain ⟨rfl, rfl⟩ := h
    obtain rfl := List.map_eq_nil_iff.mp hu
    exact .ahead (hs.2 terminal List.mem_cons_self)
  | rule named =>
    obtain ⟨t, ht, rfl⟩ := h
    exact hlang.run named w t ht u s before hu hs.1
  | node text =>
    obtain ⟨rfl, rfl⟩ := h
    obtain rfl := List.map_eq_nil_iff.mp hu
    exact .node
  | replaceTop text =>
    obtain ⟨rfl, top, below, rfl, rfl⟩ := h
    obtain rfl := List.map_eq_nil_iff.mp hu
    exact .replaceTop
  | reduce root children =>
    obtain ⟨rfl, hreduce⟩ := h
    obtain rfl := List.map_eq_nil_iff.mp hu
    exact .reduce hreduce
  | andThen p q ihFirst ihSecond =>
    obtain ⟨hp, hq⟩ := tidy_of_andThen hp
    obtain ⟨⟨hdecides, hdecides'⟩, hfirst⟩ := by
      simpa only [decides, Bool.and_eq_true] using hdecides
    obtain ⟨u, v, between, rfl, haccepts, haccepts'⟩ := h
    obtain ⟨u, v, rfl, hu, hv⟩ := List.map_eq_append_iff.mp hu
    refine .andThen (ihFirst hp hdecides haccepts hu ?_) (ihSecond hq hdecides' haccepts' hv ?_)
    · refine stopsAt_head hlang haccepts' hfirst (fun hidle => ?_) hv
      rw [StopsAt, blocked, needed, if_pos hidle, if_pos hidle] at hs
      exact ⟨fun terminal hmem => hs.1 terminal (List.mem_append_right _ hmem),
        fun terminal hmem => hs.2 terminal (List.mem_append_right _ hmem)⟩
    · exact ⟨fun terminal hmem => hs.1 terminal (List.mem_append_left _ hmem),
        fun terminal hmem => hs.2 terminal (List.mem_append_left _ hmem)⟩
  | orElse p q ihFirst ihSecond =>
    obtain ⟨hp, hq⟩ := tidy_of_orElse hp
    obtain ⟨⟨⟨hdecides, hdecides'⟩, hcertain⟩, hapart⟩ := by
      simpa only [decides, Bool.and_eq_true, Bool.not_eq_true'] using hdecides
    obtain ⟨hblocked, hneeded⟩ := hs
    rw [blocked] at hblocked
    rw [needed] at hneeded
    rcases h with h | h
    · refine .orElseFirst (ihFirst hp hdecides h hu ⟨?_, ?_⟩) Verdict.noConfusion
      · exact fun terminal hmem => hblocked terminal (by simp [hmem])
      · exact fun terminal hmem => hneeded terminal (by simp [hmem])
    · -- The first recipe is declined, since the next token starts the second one or what
      -- follows it.
      refine .orElse (u := []) (declined_of_head hp hcertain ?_ before)
        (ihSecond hq hdecides' h hu ⟨?_, ?_⟩)
      · intro terminal hmem
        cases u with
        | nil =>
          subst hu
          exact hblocked terminal (by simp [h.idles_of_nil hlang.exists_mem, hmem])
        | cons a u =>
          subst hu
          obtain ⟨other, hother, hfits⟩ := h.exists_fits hlang.exists_mem hlang.exists_fits
          have hapart := List.all_eq_true.mp (List.all_eq_true.mp hapart terminal hmem) other hother
          exact fun hterminal => Terminal.not_fits_of_apart hapart hterminal hfits
      · exact fun terminal hmem => hblocked terminal (by simp [hmem])
      · exact fun terminal hmem => hneeded terminal (by simp [hmem])
  | many body ih =>
    obtain ⟨⟨hdecides, hcertain⟩, hfirst⟩ := by
      simpa only [decides, Bool.and_eq_true, Bool.not_eq_true'] using hdecides
    exact run_of_repeats hlang hp hcertain hfirst (fun h hu hs => ih hp hdecides h hu hs) h hu hs
  | require body missing ih => exact .require (ih hp hdecides h hu hs) Verdict.noConfusion
  | promised body fault ih => exact .promised (ih hp hdecides h hu hs) Verdict.noConfusion

end Recipe

namespace Derives

/-- **Every sentence is matched.**  A rule takes a sentence and is matched with its tree, if
the rule stops ahead of the token that comes next. -/
theorem run {rule : Rule} {w : List Token} {t : Tree} (h : Derives rule w t) {u : List Located}
    {s : Supply} (hu : u.map Located.token = w) (hs : rule.StopsAt s.head.token) (before : Stack) :
    (Recipe.rule rule).Run u s before .matched (t :: before) := by
  induction h generalizing u s before with
  | @of parts rule w t hparts hproduction ih =>
    have hreadable : Recipe.Readable parts :=
      ⟨fun rule w t h => (hparts rule w t h).exists_mem,
        fun rule a w t h => (hparts rule _ t h).exists_fits,
        fun rule w t h u s before hu hs => ih rule w t h hu hs before⟩
    refine .rule (((Grammar.reads_recipe rule w before (t :: before)).mpr
      ⟨t, hproduction, rfl⟩).run hreadable (Grammar.tidy_recipe rule)
        (Grammar.decides_recipe rule) hu ⟨?_, ?_⟩)
    · exact fun terminal hmem => hs terminal (Grammar.blocked_recipe_subset rule hmem)
    · rw [Grammar.needed_recipe]
      exact fun terminal hmem => absurd hmem List.not_mem_nil

/-- What is known of sentences lets every recipe match them. -/
theorem readable : Recipe.Readable Derives :=
  ⟨fun _ _ _ => exists_mem, fun _ _ _ _ => exists_fits,
    fun _ _ _ h _ _ before hu hs => h.run hu hs before⟩

/-- Tokens without their lines, put on one line. -/
private theorem map_token_on_line (w : List Token) :
    (w.map (Located.mk 0)).map Located.token = w := by
  simp [Function.comp_def]

/-- A sentence before the end of the input is matched. -/
theorem run_before_end {rule : Rule} {w : List Token} {t : Tree} (h : Derives rule w t) :
    (Recipe.rule rule).Run (w.map (Located.mk 0)) (const ⟨0, .endOfInput⟩) [] .matched [t] :=
  h.run (s := const ⟨0, .endOfInput⟩) (map_token_on_line w) (Grammar.stopsAt_endOfInput rule) []

/-- **No ambiguity.**  No word is a sentence with two trees. -/
theorem unique {rule : Rule} {w : List Token} {t t' : Tree} (h : Derives rule w t)
    (h' : Derives rule w t') : t = t' := by
  obtain ⟨-, -, -, hstack⟩ := h.run_before_end.unique h'.run_before_end rfl
  exact (List.cons.inj hstack).1

end Derives

end BugLang
