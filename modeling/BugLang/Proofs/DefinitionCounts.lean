import BugLang.Summary
import BugLang.Proofs.Programs
import Mathlib.Algebra.BigOperators.Ring.List
import Mathlib.Tactic.Ring

/-!
# The definitions that a summary counts

A summary counts the definitions in the tree of a program by where they hang in it.  The same
counts can be read off the tokens: every bug starts with the keyword `Bug`, every function with
the keyword `define`, and neither keyword stands anywhere else, except behind the keyword
`color`, where any keyword may stand as a color.

A `Tally` is how often a keyword comes up in some tokens.  Tallies of tokens that stand in a row
add up, since no part of a program ends with the keyword `color`.

* `Derives.tally_of_isInner`: below the definitions, neither keyword comes up.
* `Derives.tally_bug`, `Derives.tally_program`: where they come up in definitions.
* `definitions_eq_occurrences`: a summary agrees with the tokens.
-/

namespace BugLang

/-- How often a keyword comes up in some tokens otherwise than as a color, which is right behind
the keyword `color`.  The first argument is the token ahead of them, if there is one. -/
def occurrences (word : String) : Option Token → List Token → Nat
  | _, [] => 0
  | before, a :: w =>
    (if a = .keyword word ∧ before ≠ some (.keyword "color") then 1 else 0) +
      occurrences word (some a) w

/-- What comes up in tokens in a row comes up in the first or in the others.  Ahead of the others
is the last one of the first. -/
theorem occurrences_append (word : String) (before : Option Token) (u v : List Token) :
    occurrences word before (u ++ v) =
      occurrences word before u + occurrences word (u.getLast?.or before) v := by
  induction u generalizing before with
  | nil => rw [List.nil_append, occurrences, Nat.zero_add]; rfl
  | cons a u ih =>
    have hlast : (a :: u).getLast?.or before = u.getLast?.or (some a) := by
      rw [List.getLast?_cons, Option.some_or, Option.or_some]
    rw [List.cons_append, occurrences, ih, occurrences, hlast, Nat.add_assoc]

/-- `Tally word w n`: wherever the tokens `w` stand, if not behind the keyword `color`, the
keyword comes up in them `n` times, and they may be followed by any tokens. -/
structure Tally (word : String) (w : List Token) (n : Nat) : Prop where
  occurrences_eq : ∀ before, before ≠ some (.keyword "color") → occurrences word before w = n
  getLast?_ne : w.getLast? ≠ some (.keyword "color")

namespace Tally

variable {word : String} {u v w e : List Token} {m n : Nat}

/-- In no tokens nothing comes up. -/
theorem nil : Tally word [] 0 :=
  ⟨fun _ _ => rfl, nofun⟩

private theorem or_ne {α : Type} {a b c : Option α} (ha : a ≠ c) (hb : b ≠ c) : a.or b ≠ c := by
  cases a with
  | none => exact hb
  | some a => exact ha

/-- What comes up in tokens in a row adds up. -/
theorem append (hu : Tally word u m) (hv : Tally word v n) : Tally word (u ++ v) (m + n) := by
  constructor
  · intro before hbefore
    have hlast : u.getLast?.or before ≠ some (.keyword "color") :=
      or_ne hu.getLast?_ne hbefore
    rw [occurrences_append, hu.occurrences_eq before hbefore, hv.occurrences_eq _ hlast]
  · rw [List.getLast?_append]
    exact or_ne hv.getLast?_ne hu.getLast?_ne

/-- A keyword other than `color` comes up where it stands. -/
theorem keyword {other : String} (hcolor : other ≠ "color") :
    Tally word [.keyword other] (if other = word then 1 else 0) := by
  have hne : Token.keyword other ≠ .keyword "color" := fun h => hcolor (Token.mk.inj h).2
  refine ⟨fun before hbefore => ?_, fun h => hne (Option.some.inj h)⟩
  have hword : Token.keyword other = .keyword word ↔ other = word :=
    ⟨fun h => (Token.mk.inj h).2, congrArg Token.keyword⟩
  simp [occurrences, hbefore, hword]

/-- Other tokens do not count. -/
theorem of_forall (h : ∀ a ∈ w, a ≠ .keyword word ∧ a ≠ .keyword "color") : Tally word w 0 := by
  induction w with
  | nil => exact nil
  | cons a w ih =>
    obtain ⟨⟨hword, hcolor⟩, hothers⟩ := List.forall_mem_cons.mp h
    have ha : Tally word [a] 0 :=
      ⟨fun _ _ => by simp [occurrences, hword], fun hlast => hcolor (Option.some.inj hlast)⟩
    exact ha.append (ih hothers)

/-- Tokens that are no keywords do not count. -/
theorem of_kind_ne (h : ∀ a ∈ w, a.kind ≠ .keyword) : Tally word w 0 := by
  refine of_forall fun a ha => ⟨?_, ?_⟩ <;> rintro rfl <;> exact h _ ha rfl

/-- Line ends do not count. -/
theorem of_lineEnds (h : LineEnds e) : Tally word e 0 :=
  of_kind_ne fun a ha => by rw [h.2 a ha]; exact Kind.noConfusion

/-- A color does not count, whatever keyword it is. -/
theorem of_color {color : Token} (hword : word ≠ "color") (h : LineEnds e) :
    Tally word ([.keyword "color", color] ++ e) 0 := by
  have hne : Token.keyword "color" ≠ .keyword word := fun h => hword (Token.mk.inj h).2.symm
  obtain ⟨a, e, rfl⟩ := List.exists_cons_of_ne_nil h.1
  have ha : a ≠ .keyword "color" ∧ a ≠ .keyword word := by
    have hkind := h.2 a List.mem_cons_self
    constructor <;> rintro rfl <;> cases hkind
  have hend : Tally word (a :: e) 0 := of_lineEnds h
  -- The line end stands behind the color, which may be the keyword `color` itself.
  have hothers : occurrences word (some a) e = 0 := by
    have hall := hend.occurrences_eq none nofun
    rw [occurrences] at hall
    omega
  refine ⟨fun before _ => ?_, ?_⟩
  · simp [occurrences, hne, ha, hothers]
  · rw [List.getLast?_append, Option.or_of_isSome]
    · exact hend.getLast?_ne
    · simp

end Tally

/-- What comes up in phrases in a row adds up. -/
theorem Sequence.tally {word : String} {phrase : Phrase} {w : List Token} {ts : List Tree}
    (h : Sequence phrase w ts) {count : Tree → Nat}
    (hphrase : ∀ u t, phrase u t → Tally word u (count t)) : Tally word w (ts.map count).sum := by
  induction h with
  | nil => exact .nil
  | cons hfirst _ ih => exact (hphrase _ _ hfirst).append ih

/-- The functions of a program are those of the shared code and those of its bugs. -/
theorem Summary.functions_definitionsOf (program : Tree) :
    (definitionsOf program).functions =
      sharedFunctions program + ((bugsOf program).map (childCount · 4)).sum := by
  rw [definitionsOf]
  generalize sharedFunctions program = count
  induction bugsOf program generalizing count with
  | nil => rfl
  | cons bug bugs ih =>
    rw [List.foldl_cons, ih, List.map_cons, List.sum_cons, Nat.add_assoc]

/-! ### Below the definitions -/

/-- Whether a recipe takes neither a keyword nor the keyword `color`, if this is so for some rules
and the recipe calls no others. -/
def Recipe.avoids (word : String) (rules : List Rule) : Recipe → Bool
  | .keep terminal | .drop terminal =>
    !terminal.fits (.keyword word) && !terminal.fits (.keyword "color")
  | .rule named => named ∈ rules
  | .andThen first second | .orElse first second =>
    first.avoids word rules && second.avoids word rules
  | .many body | .require body _ | .promised body _ => body.avoids word rules
  | _ => true

/-- In what such a recipe accepts, the keyword does not come up. -/
theorem Recipe.Accepts.tally {word : String} {rules : List Rule} {lang : Language}
    (hlang : ∀ rule ∈ rules, ∀ w t, lang rule w t → Tally word w 0) {p : Recipe} {w : List Token}
    {before after : Stack} (h : p.Accepts lang w before after)
    (hp : p.avoids word rules = true) : Tally word w 0 := by
  induction p generalizing w before after with
  | keep terminal | drop terminal =>
    obtain ⟨a, ⟨hfits, rfl⟩, -⟩ := h
    refine .of_forall (List.forall_mem_singleton.mpr ⟨?_, ?_⟩) <;> rintro rfl <;>
      simp [avoids, hfits] at hp
  | rule named =>
    obtain ⟨t, ht, -⟩ := h
    exact hlang named (of_decide_eq_true hp) w t ht
  | andThen p q ihFirst ihSecond =>
    obtain ⟨hp, hq⟩ := Bool.and_eq_true_iff.mp hp
    obtain ⟨u, v, between, rfl, hu, hv⟩ := h
    exact (ihFirst hu hp).append (ihSecond hv hq)
  | orElse p q ihFirst ihSecond =>
    obtain ⟨hp, hq⟩ := Bool.and_eq_true_iff.mp hp
    exact h.elim (ihFirst · hp) (ihSecond · hq)
  | many body ih =>
    change Repeats _ w before after at h
    induction h with
    | nil => exact .nil
    | cons hround _ ihOthers => exact (ih hround hp).append ihOthers
  | require body missing ih => exact ih h hp
  | promised body fault ih => exact ih h hp
  | _ =>
    obtain rfl := h.1
    exact .nil

/-- The rules that have no definitions in their sentences. -/
def Rule.inner : List Rule :=
  Rule.all.filter fun rule =>
    rule ∉ [Rule.program, .allbugsCode, .bugDefinition, .functionDefinition]

/-- The keywords that definitions start with. -/
def definingWords : List String := ["Bug", "define"]

/-- Below the definitions, only a color may be one of their keywords. -/
theorem Grammar.avoids_recipe {word : String} (hword : word ∈ definingWords) {rule : Rule}
    (hrule : rule ∈ Rule.inner) (hcolor : rule ≠ .colorStatement) :
    (recipe rule).avoids word Rule.inner = true := by
  revert rule
  revert word
  decide

namespace Derives

variable {word : String} {w : List Token} {t : Tree}

/-- Below the definitions, their keywords do not come up. -/
theorem tally_of_inner (hword : word ∈ definingWords) {rule : Rule} (hrule : rule ∈ Rule.inner)
    (h : Derives rule w t) : Tally word w 0 := by
  induction h with
  | @of parts rule w t _ hproduction ih =>
    by_cases hcolor : rule = .colorStatement
    · subst hcolor
      cases hproduction with
      | colorStatement _ hend =>
        exact .of_color (by rintro rfl; revert hword; decide) hend
    · exact ((Grammar.reads_recipe rule w [] [t]).mpr ⟨t, hproduction, rfl⟩).tally
        (fun rule hrule w t h => ih rule w t h hrule) (Grammar.avoids_recipe hword hrule hcolor)

/-- The keyword of a function comes up once in it. -/
theorem tally_function (hword : word ∈ definingWords) (h : Derives .functionDefinition w t) :
    Tally word w (if "define" = word then 1 else 0) := by
  obtain ⟨u, v, between, rfl, ⟨a, ⟨hfits, rfl⟩, -⟩, hothers⟩ :=
    (reads_recipe .functionDefinition w [] [t]).mpr ⟨t, h, rfl⟩
  obtain rfl : a = .keyword "define" := of_decide_eq_true hfits
  have hrest : Tally word v 0 := by
    refine hothers.tally (fun rule hrule w t h => tally_of_inner hword hrule h) ?_
    revert word
    decide
  exact (Tally.keyword (by decide)).append hrest

/-- In functions in a row, their keyword comes up as often as there are functions. -/
theorem tally_functions {ts : List Tree} (hword : word ∈ definingWords)
    (h : Sequence (Derives .functionDefinition) w ts) :
    Tally word w (ts.length * if "define" = word then 1 else 0) := by
  have hsum := h.tally fun _ _ => tally_function hword
  rwa [List.map_const', List.sum_replicate_nat] at hsum

/-- In sentences in a row that have no definitions, their keywords do not come up. -/
theorem tally_sequence {rule : Rule} {ts : List Tree} (hword : word ∈ definingWords)
    (hrule : rule ∈ Rule.inner) (h : Sequence (Derives rule) w ts) : Tally word w 0 := by
  have hsum := h.tally fun _ _ => tally_of_inner hword hrule
  rwa [List.map_const', List.sum_replicate_nat, Nat.mul_zero] at hsum

/-- In the shared code, only the functions count. -/
theorem tally_shared (hword : word ∈ definingWords) (h : SharedCode Derives w t) :
    Tally word w (Summary.childCount t 1 * if "define" = word then 1 else 0) := by
  cases h with
  | absent => simpa [Summary.childCount, Tree.child?, Tree.children, Tree.made] using Tally.nil
  | present hcode =>
    cases hcode.production with
    | @allbugsCode e v f e' vars functions hopen hvars hfunctions hclose =>
      have hstart : Tally word [.keyword "Allbugs", .symbol "\x7b"] 0 :=
        .of_forall (by revert word; decide)
      have hend : Tally word (.symbol "\x7d" :: e') 0 :=
        (Tally.of_kind_ne (w := [.symbol "\x7d"]) (by decide)).append (.of_lineEnds hclose)
      have hall := (((hstart.append (.of_lineEnds hopen)).append
        (tally_sequence hword (by decide) hvars)).append (tally_functions hword hfunctions)).append hend
      simpa [Summary.childCount, Tree.child?, Tree.children, Tree.made] using hall

/-- The keyword of a bug comes up once in it, and that of functions as often as it has
functions. -/
theorem tally_bug (hword : word ∈ definingWords) (h : Derives .bugDefinition w t) :
    Tally word w ((if "Bug" = word then 1 else 0) +
      Summary.childCount t 4 * if "define" = word then 1 else 0) := by
  cases h.production with
  | @bugDefinition name e v i c d f e' start command vars commands functions hname hopen hvars
      hstart hcommand hcommands hfunctions hclose =>
    have hcalled : Tally word [name, .symbol "\x7b"] 0 :=
      .of_kind_ne (by simp [hname, Token.symbol])
    have hbug : Tally word [.keyword "Bug"] _ := .keyword (by decide)
    have hfirst : Tally word i 0 := by
      cases hstart with
      | absent => exact .nil
      | present hblock => exact tally_of_inner hword (by decide) hblock
    have hend : Tally word (.symbol "\x7d" :: e') 0 :=
      (Tally.of_kind_ne (w := [.symbol "\x7d"]) (by decide)).append (.of_lineEnds hclose)
    have hvariables := tally_sequence hword (by decide) hvars
    have hbody := (tally_of_inner hword (by decide) hcommand).append
      (tally_sequence hword (by decide) hcommands)
    have hall := (hbug.append hcalled).append <| Tally.append (.of_lineEnds hopen) <|
      hvariables.append <| hfirst.append <| hbody.append <|
      (tally_functions hword hfunctions).append hend
    simpa [Summary.childCount, Tree.child?, Tree.children, Tree.made] using hall

/-- In a program, the keyword of bugs comes up as often as there are bugs, and that of functions
as often as there are functions. -/
theorem tally_program (hword : word ∈ definingWords) (h : Derives .program w t) :
    Tally word w ((Summary.definitionsOf t).bugs * (if "Bug" = word then 1 else 0) +
      (Summary.definitionsOf t).functions * if "define" = word then 1 else 0) := by
  cases h.production with
  | @program s u v e shared first bugs hshared hfirst hothers hend =>
    have hbugs := (Sequence.cons hfirst hothers).tally fun _ _ => tally_bug hword
    have hlast : Tally word [e] 0 := .of_kind_ne (by simp [hend])
    have hall := ((tally_shared hword hshared).append hbugs).append hlast
    have hcount : Summary.bugsOf (.made "program" [shared, .made "list" (first :: bugs)]) =
        first :: bugs := rfl
    have hcode : Summary.sharedFunctions (.made "program" [shared, .made "list" (first :: bugs)]) =
        Summary.childCount shared 1 := rfl
    rw [Summary.functions_definitionsOf, hcode, Summary.definitionsOf, hcount]
    rw [List.sum_map_add, List.map_const', List.sum_replicate_nat, List.sum_map_mul_right] at hall
    convert hall using 1
    · simp only [List.append_assoc]
    · ring

end Derives

/-- Line ends before a program change none of its counts. -/
theorem ProgramText.occurrences_eq {word : String} {w : List Token} {t : Tree}
    (hword : word ∈ definingWords) (h : ProgramText w t) :
    occurrences word none w =
      (Summary.definitionsOf t).bugs * (if "Bug" = word then 1 else 0) +
        (Summary.definitionsOf t).functions * if "define" = word then 1 else 0 := by
  obtain ⟨hlineEnds, hprogram⟩ := h
  have hbefore : Tally word _ 0 :=
    .of_kind_ne fun a ha => by rw [hlineEnds a ha]; exact Kind.noConfusion
  have hall := (hbefore.append (hprogram.tally_program hword)).occurrences_eq none nofun
  rwa [Nat.zero_add] at hall

/-- **A summary agrees with the tokens.**  If a source is a program, then its summary says how
often the keyword `Bug` and how often the keyword `define` come up in its tokens, other than right
behind the keyword `color`.  So no definition is missed, and none is counted twice. -/
theorem definitions_eq_occurrences (source : String) (tree : Tree)
    (h : parse source = .ok tree) :
    let tokens := (Located.ofSource source).map Located.token
    (Summary.ofTree .program tree).definitions =
      some ⟨occurrences "Bug" none tokens, occurrences "define" none tokens⟩ := by
  intro tokens
  have htokens : ProgramText tokens tree := parse_eq_ok_iff.mp h
  rw [htokens.occurrences_eq (by decide), htokens.occurrences_eq (by decide)]
  simp [Summary.ofTree]

/-- A bug with a function counts once, and its function does, although two colors are named like
the keywords of definitions. -/
theorem definitions_among_colors :
    let source := "Bug b \x7b\ncolor Bug\ncolor color\ndefine f \x7b\ncolor define\n\x7d\n\x7d\n"
    let tokens := (Located.ofSource source).map Located.token
    let color := fun word : String => Tree.node (.keyword "color") [.leaf (.keyword word)]
    let tree := Tree.made "program" [.made "Allbugs" [], .made "list" [.node (.keyword "Bug")
      [.leaf ⟨.name, "b"⟩, .made "list" [], .made "initially" [.made "block" []],
       .made "block" [color "Bug", color "color"],
       .made "list" [.made "function"
         [.leaf ⟨.name, "f"⟩, .made "var" [], .made "block" [color "define"]]]]]]
    parse source = .ok tree ∧ tokens.count (.keyword "Bug") = 2 ∧
      (Summary.ofTree .program tree).definitions = some ⟨1, 1⟩ ∧
      occurrences "Bug" none tokens = 1 ∧ occurrences "define" none tokens = 1 := by
  intro source tokens color tree
  have hparse : parse source = .ok tree := by decide +kernel
  have hsummary : (Summary.ofTree .program tree).definitions = some ⟨1, 1⟩ := by decide +kernel
  have hcounts := (definitions_eq_occurrences source tree hparse).symm.trans hsummary
  obtain ⟨hbugs, hfunctions⟩ := Definitions.mk.inj (Option.some.inj hcounts)
  exact ⟨hparse, by decide +kernel, hsummary, hbugs, hfunctions⟩

end BugLang
