import BugLang.Parse
import BugLang.Proofs.Operations
import BugLang.Proofs.Prefixes
import Mathlib.Data.List.TakeWhile

/-!
# Reading a whole program

`parse` passes over line ends and applies the rule of programs.  This is a run of a recipe
too, and what is known of recipes tells when it succeeds and where it fails.

* `parse_cases`: a source is parsed to the tree that a run of `Grammar.text` leaves, or to
  the failure that it ends with.
* `parse_eq_ok_iff`: a source is parsed to a tree if and only if its tokens are a program
  with this tree.
-/

namespace BugLang

open Stream'

/-- A program behind line ends that do not count. -/
inductive ProgramText : Phrase
  | intro {e w : List Token} {t : Tree} (hlineEnds : ∀ a ∈ e, a.kind = .lineEnd)
      (hprogram : Derives .program w t) : ProgramText (e ++ w) t

/-- The recipe of a whole source. -/
def Grammar.text : Recipe :=
  .andThen (.many (.drop .lineEnd)) (.require (.rule .program) programStart)

/-- A whole source is read as a program behind line ends. -/
theorem Grammar.reads_text : text.Reads Derives ProgramText := by
  intro w before after
  constructor
  · intro hread
    obtain ⟨e, u, between, rfl, hlineEnds, t, hprogram, rfl⟩ := hread
    obtain ⟨he, rfl⟩ := Recipe.accepts_many_drop_lineEnd.mp hlineEnds
    exact ⟨t, .intro he hprogram, rfl⟩
  · intro hread
    obtain ⟨t, ⟨he, hprogram⟩, rfl⟩ := hread
    exact ⟨_, _, before, rfl, Recipe.accepts_many_drop_lineEnd.mpr ⟨he, rfl⟩, t, hprogram, rfl⟩

namespace ProgramText

/-- A program text ends with the end of the input, which comes nowhere else in it. -/
theorem exists_eq_append_end {w : List Token} {t : Tree} (h : ProgramText w t) :
    ∃ v e, w = v ++ [e] ∧ e.kind = .endOfInput ∧ ∀ a ∈ v, a.kind ≠ .endOfInput := by
  obtain ⟨he, hprogram⟩ := h
  obtain ⟨v, last, rfl, hlast, hv⟩ := hprogram.exists_eq_append_end
  refine ⟨_, last, (List.append_assoc _ v [last]).symm, hlast, List.forall_mem_append.mpr ⟨?_, hv⟩⟩
  intro a ha
  rw [he a ha]
  exact Kind.noConfusion

/-- A program text that goes on has not come to the end of the input. -/
theorem kind_ne_of_append {u v : List Token} {t : Tree} (h : ProgramText (u ++ v) t)
    (hv : v ≠ []) : ∀ a ∈ u, a.kind ≠ .endOfInput := by
  obtain ⟨w, e, hw, -, hkind⟩ := h.exists_eq_append_end
  exact Derives.kind_ne_of_append_eq hw hv hkind

/-- The line ends before a program are the first tokens that are line ends. -/
theorem iff_derives_dropWhile {w : List Token} {t : Tree} :
    ProgramText w t ↔ Derives .program (w.dropWhile (·.kind = .lineEnd)) t := by
  constructor
  · intro htext
    obtain ⟨he, hprogram⟩ := htext
    rw [List.dropWhile_append_of_pos fun a ha => decide_eq_true (he a ha)]
    obtain ⟨a, ha, -⟩ := hprogram.exists_mem
    obtain ⟨b, v, rfl⟩ := List.exists_cons_of_ne_nil (List.ne_nil_of_mem ha)
    obtain ⟨terminal, hmem, hfits⟩ := hprogram.exists_fits
    have hfirst : ∀ terminal ∈ Rule.program.first, terminal.kind ≠ .lineEnd := by decide
    have hkind : b.kind ≠ .lineEnd := by
      rw [Terminal.kind_of_fits hfits]
      exact hfirst terminal hmem
    rwa [List.dropWhile_cons_of_neg (by simpa using hkind)]
  · intro h
    have htext :
        ProgramText (w.takeWhile (·.kind = .lineEnd) ++ w.dropWhile (·.kind = .lineEnd)) t :=
      .intro (fun a ha => by simpa using List.mem_takeWhile_imp ha) h
    rwa [List.takeWhile_append_dropWhile] at htext

end ProgramText

namespace Grammar

/-- Only the second part of a whole source may be missing. -/
theorem tidy_text : text.tidy = true := by
  decide

/-- The next token decides where the line ends stop. -/
theorem decides_text : text.decides = true := by
  decide

/-- A program ends with its source. -/
theorem stopsAt_text : text.StopsAt .endOfInput := by
  refine ⟨?_, nofun⟩
  decide

end Grammar

namespace Builder

/-- Dropping tokens as often as possible does not fail. -/
theorem verdict_repeated_drop (terminal : Terminal) (rounds : Nat) (b : Builder) :
    (b.repeated (drop terminal) rounds).Exhausted ∨
      (b.repeated (drop terminal) rounds).verdict = .matched := by
  induction rounds generalizing b with
  | zero => exact .inl rfl
  | succ rounds ih =>
    rw [repeated, drop]
    rcases b.take terminal with ⟨_ | a, after⟩
    · exact .inr rfl
    · exact ih after

/-- Passing over line ends does not fail. -/
theorem verdict_skipLineEnds {b : Builder} (hsound : b.cursor.Sound) :
    b.skipLineEnds.verdict = .matched :=
  (b.verdict_repeated_drop .lineEnd b.allowance).resolve_left (not_exhausted_skipLineEnds hsound)

end Builder

/-- The tree of an attempt at a whole source, or its failure. -/
def Outcome.complete (outcome : Outcome) : Except Failure Tree :=
  match outcome.verdict with
  | .failed failure => .error failure
  | _ => outcome.builder.finish

/-- What is done to read a whole source, as `Grammar.text` says it. -/
def Builder.readText (b : Builder) : Outcome :=
  b.skipLineEnds.andThen fun after => (after.apply .program).orElse (Builder.fail programStart)

namespace Builder

/-- Reading a whole source is a run. -/
theorem follows_readText (source : String) :
    (start source).readText.Follows Grammar.text (start source) := by
  have hsound : (start source).cursor.Sound := Cursor.sound_start source
  have hskipped : (start source).skipLineEnds.builder.cursor.Sound :=
    (kept_repeated (fun _ => kept_drop (Cursor.kept_reached source) .lineEnd) _
      Cursor.Reached.start).sound
  exact (follows_skipLineEnds hsound).andThen fun _ =>
    (follows_apply hskipped .program).require programStart

/-- A source is parsed to the outcome of reading it. -/
theorem parse_eq (source : String) : parse source = (start source).readText.complete := by
  have hmatched := verdict_skipLineEnds (b := start source) (Cursor.sound_start source)
  have htext : ((start source).skipLineEnds.andThen (apply .program)).orElse
      (fail programStart) = (start source).readText := by
    simp only [readText, Outcome.andThen, hmatched]
  exact congrArg Outcome.complete htext

end Builder

/-- **Reading a whole source.**  A source is parsed as a run of `Grammar.text` says: to the
tree that the run leaves, or to the failure that it ends with. -/
theorem parse_cases (source : String) :
    ∃ (taken : List Located) (c : Cursor) (verdict : Verdict) (after : Stack),
      (Cursor.start source).supply = taken ++ₛ c.supply ∧
        Grammar.text.Run taken c.supply [] verdict after ∧
        ((∃ tree, verdict = .matched ∧ after = [tree] ∧ parse source = .ok tree) ∨
          ∃ line missing, verdict = .failed (.incomplete line missing) ∧
            parse source = .error (.incomplete line missing)) := by
  obtain ⟨taken, htaken, hrun, -⟩ := Builder.follows_readText source
  have hparse := Builder.parse_eq source
  generalize (Builder.start source).readText = outcome at *
  obtain ⟨verdict, b⟩ := outcome
  refine ⟨taken, b.cursor, verdict, b.stack, htaken, hrun, ?_⟩
  dsimp only at hrun hparse
  cases verdict with
  | matched =>
    obtain ⟨tree, -, hstack⟩ := (Grammar.reads_text _ _ _).mp (hrun.accepts Grammar.tidy_text)
    refine .inl ⟨tree, rfl, hstack, ?_⟩
    rw [hparse]
    change b.finish = _
    rw [Builder.finish, hstack]
    rfl
  | declined => exact Bool.noConfusion hrun.not_certain_of_declined
  | failed failure =>
    cases failure with
    | incomplete line missing => exact .inr ⟨line, missing, rfl, hparse⟩
    | fault fault =>
      exact absurd rfl (hrun.not_fault Grammar.tidy_text (n := 1) rfl (k := none) rfl
        (by simp) fault)

/-- **The language of the parser.**  A source is parsed to a tree if and only if its tokens
are a program with this tree, line ends before it aside. -/
theorem parse_eq_ok_iff {source : String} {tree : Tree} :
    parse source = .ok tree ↔ ProgramText ((Located.ofSource source).map Located.token) tree := by
  obtain ⟨taken, c, verdict, after, hsupply, hrun, hcases⟩ := parse_cases source
  constructor
  · intro hparse
    obtain ⟨tree', rfl, rfl, hok⟩ | ⟨line, missing, -, herror⟩ := hcases
    · obtain rfl : tree' = tree := Except.ok.inj (hok.symm.trans hparse)
      obtain ⟨t, htext, hstack⟩ := (Grammar.reads_text _ _ _).mp (hrun.accepts Grammar.tidy_text)
      obtain rfl : tree' = t := (List.cons.inj hstack).1
      -- All tokens are taken, for a program ends with the end of the input.
      obtain ⟨v, e, hword, hlast, hv⟩ := htext.exists_eq_append_end
      obtain ⟨taken, lasts, rfl, rfl, hlasts⟩ := List.map_eq_append_iff.mp hword
      obtain ⟨last, rfl, rfl⟩ := List.map_eq_singleton_iff.mp hlasts
      rw [← Cursor.remaining_start, Cursor.remaining_of_supply_end hsupply hlast
        fun a ha => hv a.token (List.mem_map_of_mem ha)]
      exact htext
    · cases hparse.symm.trans herror
  · intro htext
    obtain ⟨line, hall⟩ := (Cursor.sound_start source).exists_supply_eq
    rw [← Cursor.remaining_start] at htext
    have hmatched := ((Grammar.reads_text _ [] _).mpr ⟨tree, htext, rfl⟩).run
      (s := const ⟨line, .endOfInput⟩) Derives.readable Grammar.tidy_text Grammar.decides_text rfl
        Grammar.stopsAt_text
    obtain ⟨-, -, hverdict, hstack⟩ := hrun.unique hmatched (hsupply.symm.trans hall)
    obtain ⟨tree', -, hafter, hok⟩ | ⟨line, missing, hfailed, -⟩ := hcases
    · rw [hok, (List.cons.inj (hafter.symm.trans hstack)).1]
    · cases hfailed.symm.trans hverdict

/-- **Parsing is exact.**  A source is parsed to a tree if and only if its tokens, without the
line ends that come first, are a program with this tree.  No tokens are a sentence of a rule
with two trees. -/
theorem parse_iff_derives_unique :
    (∀ (source : String) (tree : Tree),
      parse source = .ok tree ↔
        Derives .program
          (((Located.ofSource source).map Located.token).dropWhile (·.kind = .lineEnd)) tree) ∧
      ∀ (rule : Rule) (w : List Token) (t t' : Tree),
        Derives rule w t → Derives rule w t' → t = t' :=
  ⟨fun _ _ => parse_eq_ok_iff.trans ProgramText.iff_derives_dropWhile,
    fun _ _ _ _ => Derives.unique⟩

/-- A bug that moves is read, and what it is read as is the only tree of its tokens. -/
theorem parse_bug_that_moves :
    let source := "\nBug b \x7b\nmove a\n\n\x7d\n"
    let word := ((Located.ofSource source).map Located.token).dropWhile (·.kind = .lineEnd)
    let tree := Tree.made "program" [.made "Allbugs" [], .made "list" [.node (.keyword "Bug")
      [.leaf ⟨.name, "b"⟩, .made "list" [], .made "initially" [.made "block" []],
       .made "block" [.node (.keyword "move") [.leaf ⟨.name, "a"⟩]], .made "list" []]]]
    parse source = .ok tree ∧ Derives .program word tree ∧
      ∀ tree', Derives .program word tree' → tree' = tree := by
  intro source word tree
  have hparse : parse source = .ok tree := by decide +kernel
  have hderives : Derives .program word tree :=
    (parse_iff_derives_unique.1 source tree).mp hparse
  exact ⟨hparse, hderives, fun tree' htree' =>
    parse_iff_derives_unique.2 .program word tree' tree htree' hderives⟩

end BugLang
