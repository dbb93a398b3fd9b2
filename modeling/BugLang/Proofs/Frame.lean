import BugLang.Proofs.Soundness
import Mathlib.Data.List.Basic

/-!
# What lies below on the stack

A rule puts one tree on the stack and touches nothing that was there before.
`Recipe.height` follows a recipe without carrying it out: from the number of entries that
the recipe may use, it finds the number that it leaves.  All rules pass this check, so
no reduction of theirs meets a stack that is too low.

* `Recipe.Accepts.length_eq`, `Recipe.Run.length_of_matched`: what is left is as high as
  `Recipe.height` says.
* `Recipe.Run.not_fault`: no run of a rule ends with a fault.
* `Recipe.Run.onto`: without a fault, a run goes the same way above further entries.
* `Builder.apply_onto`: further entries below change nothing about what a rule does, and
  stay where they are.
-/

namespace BugLang

open Stream'

/-- A reduction of entries that are there succeeds. -/
theorem Stack.exists_reduce_eq_ok {root : Nat} {children : List Nat} {stack : Stack}
    (hlength : children.length < stack.length) (hcovers : Covers (root :: children)) :
    ∃ after, stack.reduce root children = .ok after := by
  have hroot := hcovers.1 root List.mem_cons_self
  obtain ⟨tree, htree⟩ := at?_eq_some hroot.1 (Nat.le_trans hroot.2 hlength)
  exact ⟨_, reduce_eq_ok_iff.mpr ⟨hlength, hcovers, tree, htree, rfl⟩⟩

/-- A reduction makes one entry of those that it takes. -/
theorem Stack.length_reduce {root : Nat} {children : List Nat} {stack after : Stack}
    (h : stack.reduce root children = .ok after) :
    after.length + children.length = stack.length := by
  obtain ⟨hlength, -, tree, -, rfl⟩ := reduce_eq_ok_iff.mp h
  rw [List.length_cons, List.length_drop]
  omega

/-- The entry at a position of a stack does not change when others are put below. -/
theorem Stack.at?_append {stack : Stack} {position : Nat} (hpos : 1 ≤ position)
    (hle : position ≤ stack.length) (below : Stack) :
    (stack ++ below).at? position = stack.at? position :=
  List.getElem?_append_left (by omega)

/-- A reduction leaves what is below the entries that it takes. -/
theorem Stack.reduce_append {root : Nat} {children : List Nat} {stack after : Stack}
    (h : stack.reduce root children = .ok after) (below : Stack) :
    (stack ++ below).reduce root children = .ok (after ++ below) := by
  obtain ⟨hlength, hcovers, tree, htree, rfl⟩ := reduce_eq_ok_iff.mp h
  have hat : ∀ position ∈ root :: children, (stack ++ below).at? position = stack.at? position :=
    fun position hmem =>
      at?_append (hcovers.1 position hmem).1
        (Nat.le_trans (hcovers.1 position hmem).2 hlength) below
  refine reduce_eq_ok_iff.mpr ⟨?_, hcovers, tree, ?_, ?_⟩
  · rw [List.length_append]
    omega
  · rw [hat root List.mem_cons_self, htree]
  · rw [List.drop_append_of_le_length hlength, List.cons_append,
      List.filterMap_congr fun position hmem => hat position (List.mem_cons_of_mem root hmem)]

namespace Recipe

/-- How many entries a recipe leaves when it may use some number of them, or nothing if it
would reach further down. -/
def height : Recipe → Nat → Option Nat
  | .done, n | .drop _, n | .ahead _, n => some n
  | .keep _, n | .rule _, n | .node _, n => some (n + 1)
  | .replaceTop _, n => if 0 < n then some n else none
  | .reduce root children, n =>
    if children.length < n ∧ Stack.Covers (root :: children) then some (n - children.length)
    else none
  | .andThen first second, n => (first.height n).bind second.height
  | .orElse first second, n => if first.height n = second.height n then first.height n else none
  | .many body, n => if body.height n = some n then some n else none
  | .require body _, n | .promised body _, n => body.height n

/-- A row leaves what its second part leaves behind the first one. -/
theorem height_of_andThen {p q : Recipe} {n k : Nat} (h : (andThen p q).height n = some k) :
    ∃ m, p.height n = some m ∧ q.height m = some k :=
  Option.bind_eq_some_iff.mp h

/-- Both parts of a choice leave as many entries. -/
theorem height_of_orElse {p q : Recipe} {n k : Nat} (h : (orElse p q).height n = some k) :
    p.height n = some k ∧ q.height n = some k := by
  obtain ⟨hequal, hp⟩ := Option.ite_none_right_eq_some.mp h
  exact ⟨hp, hequal ▸ hp⟩

/-- What is repeated leaves as many entries as there were. -/
theorem height_of_many {p : Recipe} {n k : Nat} (h : (many p).height n = some k) :
    p.height n = some n ∧ n = k := by
  obtain ⟨hp, hk⟩ := Option.ite_none_right_eq_some.mp h
  exact ⟨hp, Option.some.inj hk⟩

/-- What is replaced has to be there. -/
theorem height_of_replaceTop {text : String} {n k : Nat} (h : (replaceTop text).height n = some k) :
    0 < n ∧ n = k := by
  obtain ⟨hpos, hk⟩ := Option.ite_none_right_eq_some.mp h
  exact ⟨hpos, Option.some.inj hk⟩

/-- What is reduced has to be there. -/
theorem height_of_reduce {root : Nat} {children : List Nat} {n k : Nat}
    (h : (reduce root children).height n = some k) :
    children.length < n ∧ Stack.Covers (root :: children) ∧ n - children.length = k := by
  obtain ⟨⟨hlength, hcovers⟩, hk⟩ := Option.ite_none_right_eq_some.mp h
  exact ⟨hlength, hcovers, Option.some.inj hk⟩

/-- Further entries are left over. -/
theorem height_add {p : Recipe} {n m : Nat} (h : p.height n = some m) (k : Nat) :
    p.height (n + k) = some (m + k) := by
  induction p generalizing n m with
  | done | drop | ahead => simp_all [height]
  | keep | rule | node =>
    simp only [height, Option.some.injEq] at h ⊢
    omega
  | replaceTop text =>
    obtain ⟨hpos, rfl⟩ := height_of_replaceTop h
    exact if_pos (Nat.add_pos_left hpos k)
  | reduce root children =>
    obtain ⟨hlength, hcovers, rfl⟩ := height_of_reduce h
    rw [height, if_pos ⟨by omega, hcovers⟩, Nat.sub_add_comm (Nat.le_of_lt hlength)]
  | andThen p q ihFirst ihSecond =>
    obtain ⟨l, hl, hm⟩ := height_of_andThen h
    exact Option.bind_eq_some_iff.mpr ⟨l + k, ihFirst hl, ihSecond hm⟩
  | orElse p q ihFirst ihSecond =>
    obtain ⟨hp, hq⟩ := height_of_orElse h
    rw [height, ihFirst hp, ihSecond hq, if_pos rfl]
  | many body ih =>
    obtain ⟨hbody, rfl⟩ := height_of_many h
    rw [height, if_pos (ih hbody)]
  | require body missing ih => exact ih h
  | promised body fault ih => exact ih h

/-- What is known about the next token behind a recipe that was matched. -/
def knownBehind (known : Option Terminal) : Recipe → Option Terminal
  | .ahead terminal => some terminal
  | .done | .node _ | .replaceTop _ | .reduce _ _ => known
  | _ => none

/-- Whether all promises of a recipe are kept if the next token fits a terminal that may be
known. -/
def keepsPromises : Recipe → Option Terminal → Bool
  | .andThen first second, known =>
    first.keepsPromises known && second.keepsPromises (first.knownBehind known)
  | .orElse first second, known => first.keepsPromises known && second.keepsPromises known
  | .many body, _ => body.keepsPromises none
  | .require body _, known => body.keepsPromises known
  | .promised body _, known => body.keepsPromises known && known.any (· ∈ body.first)
  | _, _ => true

end Recipe

namespace Grammar

/-- A rule needs no entries of the stack and leaves one. -/
theorem height_recipe_zero (rule : Rule) : (recipe rule).height 0 = some 1 := by
  cases rule <;> decide

/-- A rule leaves one entry more than there are. -/
theorem height_recipe (rule : Rule) (n : Nat) : (recipe rule).height n = some (n + 1) := by
  simpa [Nat.add_comm] using Recipe.height_add (height_recipe_zero rule) n

/-- The promises of a rule need no knowledge of the next token. -/
theorem keepsPromises_recipe (rule : Rule) : (recipe rule).keepsPromises none = true := by
  cases rule <;> decide

end Grammar

namespace Recipe

/-- What a recipe makes of a word is as high as `Recipe.height` says. -/
theorem Accepts.length_eq {lang : Language} {p : Recipe} {w : List Token} {before after : Stack}
    (h : p.Accepts lang w before after) {n : Nat} (hheight : p.height before.length = some n) :
    after.length = n := by
  induction p generalizing w before after n with
  | done | ahead | node =>
    obtain ⟨-, rfl⟩ := h
    exact Option.some.inj hheight
  | keep | drop | rule =>
    obtain ⟨-, -, rfl⟩ := h
    exact Option.some.inj hheight
  | replaceTop =>
    obtain ⟨-, top, below, rfl, rfl⟩ := h
    exact (height_of_replaceTop hheight).2
  | reduce root children =>
    have hlength := Stack.length_reduce h.2
    obtain ⟨-, -, hn⟩ := height_of_reduce hheight
    omega
  | andThen p q ihFirst ihSecond =>
    obtain ⟨u, v, between, -, hp, hq⟩ := h
    obtain ⟨m, hm, hn⟩ := height_of_andThen hheight
    exact ihSecond hq (by rwa [ihFirst hp hm])
  | orElse p q ihFirst ihSecond =>
    obtain ⟨hfirst, hsecond⟩ := height_of_orElse hheight
    exact h.elim (ihFirst · hfirst) (ihSecond · hsecond)
  | many body ih =>
    obtain ⟨hbody, rfl⟩ := height_of_many hheight
    change Repeats _ w before after at h
    clear hheight
    induction h with
    | nil => rfl
    | cons hround _ ihOthers =>
      have hlength := ih hround hbody
      rw [← hlength]
      exact ihOthers (by rwa [hlength])
  | require body missing ih => exact ih h hheight
  | promised body fault ih => exact ih h hheight

/-- **The height of the stack.**  A recipe that is matched leaves as many entries as
`Recipe.height` says. -/
theorem Run.length_of_matched {p : Recipe} {u : List Located} {s : Supply} {before after : Stack}
    (h : p.Run u s before .matched after) (hp : p.tidy = true) {n : Nat}
    (hheight : p.height before.length = some n) : after.length = n :=
  (h.accepts hp).length_eq hheight

/-- Behind a match, what is known of the next token is so. -/
theorem Run.fits_of_mem_knownBehind {p : Recipe} {u : List Located} {s : Supply}
    {before after : Stack} (h : p.Run u s before .matched after) {known : Option Terminal}
    (hknown : ∀ terminal ∈ known, terminal.fits (u ++ₛ s).head.token) :
    ∀ terminal ∈ p.knownBehind known, terminal.fits s.head.token := by
  cases h with
  | ahead hfits => exact fun terminal hmem => Option.some.inj hmem ▸ hfits
  | done | node | replaceTop | reduce => exact hknown
  | _ => simp [knownBehind]

/-- **No faults.**  A recipe that stays within the stack and keeps its promises does not
end with a fault. -/
theorem Run.not_fault {p : Recipe} {u : List Located} {s : Supply} {before after : Stack}
    {verdict : Verdict} (h : p.Run u s before verdict after) (hp : p.tidy = true) {n : Nat}
    (hheight : p.height before.length = some n) {k : Option Terminal}
    (hpromises : p.keepsPromises k = true)
    (hknown : ∀ terminal ∈ k, terminal.fits (u ++ₛ s).head.token) (fault : Fault) :
    verdict ≠ .failed (.fault fault) := by
  induction h generalizing n k with
  | rule _ ih =>
    exact ih (Grammar.tidy_recipe _) (Grammar.height_recipe _ _) (Grammar.keepsPromises_recipe _)
      (by simp)
  | replaceNone => exact absurd (height_of_replaceTop hheight).1 (Nat.lt_irrefl 0)
  | reduceFault hreduce =>
    obtain ⟨hlength, hcovers, -⟩ := height_of_reduce hheight
    obtain ⟨after, hafter⟩ := Stack.exists_reduce_eq_ok hlength hcovers
    simp [hreduce] at hafter
  | andThen first _ _ ihSecond =>
    obtain ⟨hp, hq⟩ := tidy_of_andThen hp
    obtain ⟨m, hm, hn⟩ := height_of_andThen hheight
    rw [append_append_stream] at hknown
    exact ihSecond hq (by rwa [first.length_of_matched hp hm])
      (Bool.and_eq_true_iff.mp hpromises).2 (first.fits_of_mem_knownBehind hknown)
  | andThenStop _ _ ih =>
    obtain ⟨hp, -⟩ := tidy_of_andThen hp
    obtain ⟨m, hm, -⟩ := height_of_andThen hheight
    exact ih hp hm (Bool.and_eq_true_iff.mp hpromises).1 hknown
  | orElse first _ _ ihSecond =>
    obtain ⟨hp, hq⟩ := tidy_of_orElse hp
    obtain ⟨-, hsecond⟩ := height_of_orElse hheight
    obtain ⟨rfl, rfl, -⟩ := first.of_declined hp
    exact ihSecond hq hsecond (Bool.and_eq_true_iff.mp hpromises).2 hknown
  | orElseFirst _ _ ih =>
    exact ih (tidy_of_orElse hp).1 (height_of_orElse hheight).1
      (Bool.and_eq_true_iff.mp hpromises).1 hknown
  | manyMore first _ _ ihOthers =>
    obtain ⟨hbody, -⟩ := height_of_many hheight
    have hlength := first.length_of_matched hp hbody
    exact ihOthers (k := none) hp (by rwa [hlength]) hpromises (by simp)
  | manyFail _ ih =>
    exact ih hp (height_of_many hheight).1 (k := none) hpromises (by simp)
  | require _ _ ih => exact ih hp hheight hpromises hknown
  | requireOther => exact fun hfail => Failure.noConfusion (Verdict.failed.inj hfail)
  | promised _ _ ih => exact ih hp hheight (Bool.and_eq_true_iff.mp hpromises).1 hknown
  | promisedOther body =>
    -- The next token is one that the body starts with, so the body is not declined.
    obtain ⟨terminal, hmem, hfirst⟩ :=
      (Option.any_eq_true _ _).mp (Bool.and_eq_true_iff.mp hpromises).2
    obtain ⟨rfl, -, hother⟩ := body.of_declined hp
    exact absurd (hknown terminal hmem) (hother terminal (of_decide_eq_true hfirst))
  | _ => exact Verdict.noConfusion

/-- No run of a rule ends with a fault. -/
theorem Run.not_fault_of_rule {rule : Rule} {u : List Located} {s : Supply} {before after : Stack}
    {verdict : Verdict} (h : (Recipe.rule rule).Run u s before verdict after) (fault : Fault) :
    verdict ≠ .failed (.fault fault) :=
  h.not_fault rfl rfl (k := none) rfl (by simp) fault

/-- **The frame of a run.**  A run that does not end with a fault goes the same way above
further entries of the stack, and leaves them where they are. -/
theorem Run.onto {p : Recipe} {u : List Located} {s : Supply} {before after : Stack}
    {verdict : Verdict} (h : p.Run u s before verdict after)
    (hfault : ∀ fault, verdict ≠ .failed (.fault fault)) (below : Stack) :
    p.Run u s (before ++ below) verdict (after ++ below) := by
  induction h with
  | done => exact .done
  | keep hfits => exact .keep hfits
  | keepOther hother => exact .keepOther hother
  | drop hfits => exact .drop hfits
  | dropOther hother => exact .dropOther hother
  | ahead hfits => exact .ahead hfits
  | aheadOther hother => exact .aheadOther hother
  | rule _ ih => exact .rule (ih hfault)
  | node => exact .node
  | replaceTop => exact .replaceTop
  | replaceNone => exact absurd rfl (hfault _)
  | reduce hreduce => exact .reduce (Stack.reduce_append hreduce below)
  | reduceFault => exact absurd rfl (hfault _)
  | andThen _ _ ihFirst ihSecond => exact .andThen (ihFirst nofun) (ihSecond hfault)
  | andThenStop _ hstop ih => exact .andThenStop (ih hfault) hstop
  | orElse _ _ ihFirst ihSecond => exact .orElse (ihFirst nofun) (ihSecond hfault)
  | orElseFirst _ hstop ih => exact .orElseFirst (ih hfault) hstop
  | manyMore _ _ ihFirst ihOthers => exact .manyMore (ihFirst nofun) (ihOthers hfault)
  | manyEnd _ ih => exact .manyEnd (ih nofun)
  | manyFail _ ih => exact .manyFail (ih hfault)
  | require _ hstop ih => exact .require (ih hfault) hstop
  | requireOther _ ih => exact .requireOther (ih nofun)
  | promised _ hstop ih => exact .promised (ih hfault) hstop
  | promisedOther => exact absurd rfl (hfault _)

end Recipe

/-- A builder with further entries below those of its stack. -/
def Builder.onto (stack : Stack) (b : Builder) : Builder :=
  { b with stack := b.stack ++ stack }

/-- An outcome with further entries below those of its stack. -/
def Outcome.onto (stack : Stack) (outcome : Outcome) : Outcome :=
  { outcome with builder := outcome.builder.onto stack }

namespace Builder

/-- Keeping a token changes nothing below. -/
theorem keep_onto (terminal : Terminal) (stack : Stack) (b : Builder) :
    (b.onto stack).keep terminal = (b.keep terminal).onto stack := by
  by_cases hfits : terminal.fits b.cursor.nextLocated.token
  · rw [keep, keep, take_of_fits hfits, take_of_fits (b := b.onto stack) hfits]
    rfl
  · rw [keep, keep, take_of_not_fits hfits, take_of_not_fits (b := b.onto stack) hfits]
    rfl

/-- Dropping a token changes nothing below. -/
theorem drop_onto (terminal : Terminal) (stack : Stack) (b : Builder) :
    (b.onto stack).drop terminal = (b.drop terminal).onto stack := by
  by_cases hfits : terminal.fits b.cursor.nextLocated.token
  · rw [drop, drop, take_of_fits hfits, take_of_fits (b := b.onto stack) hfits]
    rfl
  · rw [drop, drop, take_of_not_fits hfits, take_of_not_fits (b := b.onto stack) hfits]
    rfl

/-- A reduction of entries that are there changes nothing below. -/
theorem reduce_onto {root : Nat} {children : List Nat} {b : Builder}
    (hlength : children.length < b.stack.length) (hcovers : Stack.Covers (root :: children))
    (stack : Stack) :
    (b.onto stack).rearrange ((b.onto stack).stack.reduce root children) =
      (b.rearrange (b.stack.reduce root children)).onto stack := by
  obtain ⟨after, hafter⟩ := Stack.exists_reduce_eq_ok hlength hcovers
  rw [hafter, onto, Stack.reduce_append hafter]
  rfl

end Builder

namespace Recipe

variable {call : Rule → Builder → Outcome}

/-- Repeating an attempt changes nothing below. -/
theorem repeated_onto {attempt : Builder → Outcome} {stack : Stack} {n : Nat}
    (honto : ∀ b, b.stack.length = n → attempt (b.onto stack) = (attempt b).onto stack)
    (hlength : ∀ b, b.stack.length = n → (attempt b).verdict = .matched →
      (attempt b).builder.stack.length = n)
    (rounds : Nat) {b : Builder} (hb : b.stack.length = n) :
    (b.onto stack).repeated attempt rounds = (b.repeated attempt rounds).onto stack := by
  induction rounds generalizing b with
  | zero => rfl
  | succ rounds ih =>
    have hmatched := hlength b hb
    rw [Builder.repeated, Builder.repeated, honto b hb]
    rcases h : attempt b with ⟨verdict, after⟩
    rw [h] at hmatched
    cases verdict with
    | matched => exact ih (hmatched rfl)
    | declined => rfl
    | failed failure => rfl

/-- Following a recipe changes nothing below the entries that it may use. -/
theorem carryOut_onto {stack : Stack}
    (hfollows : ∀ rule b, (call rule b).Exhausted ∨ (call rule b).Follows (.rule rule) b)
    (hcall : ∀ rule b, call rule (b.onto stack) = (call rule b).onto stack)
    (rounds : Nat) {p : Recipe} (hp : p.tidy = true) {b : Builder} {n : Nat}
    (hheight : p.height b.stack.length = some n) :
    p.carryOut call rounds (b.onto stack) = (p.carryOut call rounds b).onto stack := by
  have hruns := follows_carryOut hfollows rounds
  induction p generalizing b n with
  | done => rfl
  | keep terminal => exact b.keep_onto terminal stack
  | drop terminal => exact b.drop_onto terminal stack
  | ahead terminal => rfl
  | rule named => exact hcall named b
  | node text => rfl
  | replaceTop text =>
    obtain ⟨cursor, _ | ⟨top, below⟩⟩ := b
    · exact absurd (height_of_replaceTop hheight).1 (Nat.lt_irrefl 0)
    · rfl
  | reduce root children =>
    obtain ⟨hlength, hcovers, -⟩ := height_of_reduce hheight
    exact Builder.reduce_onto hlength hcovers stack
  | andThen p q ihFirst ihSecond =>
    obtain ⟨hp, hq⟩ := tidy_of_andThen hp
    obtain ⟨m, hm, hn⟩ := height_of_andThen hheight
    have hrun := hruns p b
    rw [carryOut, carryOut, ihFirst hp hm]
    rcases h : p.carryOut call rounds b with ⟨verdict, after⟩
    rw [h] at hrun
    cases verdict with
    | matched =>
      obtain ⟨u, -, hrun, -⟩ := hrun.resolve_left Verdict.noConfusion
      exact ihSecond hq (by rwa [hrun.length_of_matched hp hm])
    | declined => rfl
    | failed failure => rfl
  | orElse p q ihFirst ihSecond =>
    obtain ⟨hp, hq⟩ := tidy_of_orElse hp
    obtain ⟨hfirst, hsecond⟩ := height_of_orElse hheight
    have hrun := hruns p b
    rw [carryOut, carryOut, ihFirst hp hfirst]
    rcases h : p.carryOut call rounds b with ⟨verdict, after⟩
    rw [h] at hrun
    cases verdict with
    | matched => rfl
    | declined =>
      obtain ⟨u, -, hrun, -⟩ := hrun.resolve_left Verdict.noConfusion
      obtain ⟨-, hstack, -⟩ := hrun.of_declined hp
      exact ihSecond hq (by rwa [hstack])
    | failed failure => rfl
  | many body ih =>
    obtain ⟨hbody, -⟩ := height_of_many hheight
    refine repeated_onto (n := b.stack.length) ?_ ?_ rounds rfl
    · exact fun d hd => ih hp (hd ▸ hbody)
    · intro d hd hmatched
      obtain ⟨u, -, hrun, -⟩ := (hruns body d).resolve_left fun hout => by
        rw [Outcome.Exhausted, hmatched] at hout
        exact Verdict.noConfusion hout
      rw [hmatched] at hrun
      exact hrun.length_of_matched hp (hd ▸ hbody)
  | require body missing ih =>
    rw [carryOut, carryOut, ih hp hheight]
    rcases body.carryOut call rounds b with ⟨_ | _ | failure, after⟩ <;> rfl
  | promised body fault ih =>
    rw [carryOut, carryOut, ih hp hheight]
    rcases body.carryOut call rounds b with ⟨_ | _ | failure, after⟩ <;> rfl

end Recipe

/-- Applying a rule changes nothing below. -/
theorem Rule.applyWithin_onto (allowance : Nat) (rule : Rule) (b : Builder) (stack : Stack) :
    rule.applyWithin allowance (b.onto stack) = (rule.applyWithin allowance b).onto stack := by
  induction allowance generalizing rule b with
  | zero => rfl
  | succ allowance ih =>
    exact Recipe.carryOut_onto (follows_applyWithin allowance) ih allowance
      (Grammar.tidy_recipe rule) (Grammar.height_recipe rule _)

/-- **The frame of a rule.**  Further entries below change nothing about what a rule does,
and stay where they are. -/
theorem Builder.apply_onto (rule : Rule) (b : Builder) (stack : Stack) :
    (b.onto stack).apply rule = (b.apply rule).onto stack :=
  rule.applyWithin_onto b.allowance b stack

end BugLang
