import BugLang.Builder
import BugLang.Proofs.Supply

/-!
# How a recipe runs

`Recipe.Run` says how a recipe is followed on an endless supply of tokens, without a
bound on the steps and without a cursor: which tokens it takes, how the attempt
ends, and which stack it leaves.

* `Recipe.Run.unique`: the supply and the stack settle the run.
* `Recipe.Run.transfer`: a run sees the tokens that it takes and one more.
* `Recipe.Run.congr`: so runs on equal tokens do the same.
-/

namespace BugLang

open Stream'

namespace Verdict

/-- The verdict with the line of a failure moved. -/
def onLine (line : Nat) : Verdict → Verdict
  | .failed (.incomplete _ missing) => .failed (.incomplete line missing)
  | verdict => verdict

/-- Moving a line makes nothing match that did not match. -/
theorem onLine_ne_matched {line : Nat} {verdict : Verdict} (h : verdict ≠ .matched) :
    verdict.onLine line ≠ .matched := by
  rcases verdict with _ | _ | ⟨_ | _⟩ <;> simp_all [onLine]

/-- Moving a line makes nothing declined that was not declined. -/
theorem onLine_ne_declined {line : Nat} {verdict : Verdict} (h : verdict ≠ .declined) :
    verdict.onLine line ≠ .declined := by
  rcases verdict with _ | _ | ⟨_ | _⟩ <;> simp_all [onLine]

end Verdict

namespace Recipe

/-- `recipe.Run taken later before verdict after`: on a supply of the tokens `taken` and
the supply `later` behind them, and from the stack `before`, the recipe takes the
tokens `taken`, ends with the verdict, and leaves the stack `after`. -/
inductive Run : Recipe → List Located → Supply → Stack → Verdict → Stack → Prop
  | done {s : Supply} {before : Stack} :
      Run .done [] s before .matched before
  | keep {terminal : Terminal} {a : Located} {s : Supply} {before : Stack}
      (hfits : terminal.fits a.token) :
      Run (.keep terminal) [a] s before .matched (.leaf a.token :: before)
  | keepOther {terminal : Terminal} {s : Supply} {before : Stack}
      (hfits : ¬ terminal.fits s.head.token) :
      Run (.keep terminal) [] s before .declined before
  | drop {terminal : Terminal} {a : Located} {s : Supply} {before : Stack}
      (hfits : terminal.fits a.token) :
      Run (.drop terminal) [a] s before .matched before
  | dropOther {terminal : Terminal} {s : Supply} {before : Stack}
      (hfits : ¬ terminal.fits s.head.token) :
      Run (.drop terminal) [] s before .declined before
  | ahead {terminal : Terminal} {s : Supply} {before : Stack}
      (hfits : terminal.fits s.head.token) :
      Run (.ahead terminal) [] s before .matched before
  | aheadOther {terminal : Terminal} {s : Supply} {before : Stack}
      (hfits : ¬ terminal.fits s.head.token) :
      Run (.ahead terminal) [] s before .declined before
  | rule {named : Rule} {taken : List Located} {s : Supply} {before after : Stack}
      {verdict : Verdict} (body : Run (Grammar.recipe named) taken s before verdict after) :
      Run (.rule named) taken s before verdict after
  | node {text : String} {s : Supply} {before : Stack} :
      Run (.node text) [] s before .matched (.leaf (.ofText text) :: before)
  | replaceTop {text : String} {s : Supply} {top : Tree} {below : Stack} :
      Run (.replaceTop text) [] s (top :: below) .matched (.leaf (.ofText text) :: below)
  | replaceNone {text : String} {s : Supply} :
      Run (.replaceTop text) [] s [] (.failed (.fault .emptyStack)) []
  | reduce {root : Nat} {children : List Nat} {s : Supply} {before after : Stack}
      (hreduce : before.reduce root children = .ok after) :
      Run (.reduce root children) [] s before .matched after
  | reduceFault {root : Nat} {children : List Nat} {s : Supply} {before : Stack} {fault : Fault}
      (hreduce : before.reduce root children = .error fault) :
      Run (.reduce root children) [] s before (.failed (.fault fault)) before
  | andThen {p q : Recipe} {u v : List Located} {s : Supply} {before between after : Stack}
      {verdict : Verdict} (first : Run p u (v ++ₛ s) before .matched between)
      (second : Run q v s between verdict after) :
      Run (.andThen p q) (u ++ v) s before verdict after
  | andThenStop {p q : Recipe} {u : List Located} {s : Supply} {before after : Stack}
      {verdict : Verdict} (first : Run p u s before verdict after) (hstop : verdict ≠ .matched) :
      Run (.andThen p q) u s before verdict after
  | orElse {p q : Recipe} {u v : List Located} {s : Supply} {before between after : Stack}
      {verdict : Verdict} (first : Run p u (v ++ₛ s) before .declined between)
      (second : Run q v s between verdict after) :
      Run (.orElse p q) (u ++ v) s before verdict after
  | orElseFirst {p q : Recipe} {u : List Located} {s : Supply} {before after : Stack}
      {verdict : Verdict} (first : Run p u s before verdict after) (hstop : verdict ≠ .declined) :
      Run (.orElse p q) u s before verdict after
  | manyMore {p : Recipe} {u v : List Located} {s : Supply} {before between after : Stack}
      {verdict : Verdict} (first : Run p u (v ++ₛ s) before .matched between)
      (others : Run (.many p) v s between verdict after) :
      Run (.many p) (u ++ v) s before verdict after
  | manyEnd {p : Recipe} {u : List Located} {s : Supply} {before after : Stack}
      (last : Run p u s before .declined after) :
      Run (.many p) u s before .matched after
  | manyFail {p : Recipe} {u : List Located} {s : Supply} {before after : Stack}
      {failure : Failure} (first : Run p u s before (.failed failure) after) :
      Run (.many p) u s before (.failed failure) after
  | require {p : Recipe} {missing : Missing} {u : List Located} {s : Supply}
      {before after : Stack} {verdict : Verdict} (body : Run p u s before verdict after)
      (hstop : verdict ≠ .declined) :
      Run (.require p missing) u s before verdict after
  | requireOther {p : Recipe} {missing : Missing} {u : List Located} {s : Supply}
      {before after : Stack} (body : Run p u s before .declined after) :
      Run (.require p missing) u s before (.failed (.incomplete s.head.line missing)) after
  | promised {p : Recipe} {fault : Fault} {u : List Located} {s : Supply}
      {before after : Stack} {verdict : Verdict} (body : Run p u s before verdict after)
      (hstop : verdict ≠ .declined) :
      Run (.promised p fault) u s before verdict after
  | promisedOther {p : Recipe} {fault : Fault} {u : List Located} {s : Supply}
      {before after : Stack} (body : Run p u s before .declined after) :
      Run (.promised p fault) u s before (.failed (.fault fault)) after

private theorem head_singleton_append {a : Located} {s z : Supply} (h : [a] ++ₛ s = z) :
    z.head = a := by
  rw [← h]
  rfl

private theorem singleton_append_inj {a b : Located} {s z : Supply}
    (h : [a] ++ₛ s = [b] ++ₛ z) : a = b ∧ s = z :=
  cons_injective2 h

/-- **One run only.**  The supply and the stack settle which tokens a recipe takes, how
it ends, and what it leaves. -/
theorem Run.unique {p : Recipe} {u v : List Located} {s z : Supply} {before after after' : Stack}
    {verdict verdict' : Verdict} (h : p.Run u s before verdict after)
    (h' : p.Run v z before verdict' after') (hsupply : u ++ₛ s = v ++ₛ z) :
    u = v ∧ s = z ∧ verdict = verdict' ∧ after = after' := by
  induction h generalizing v z verdict' after' with
  | done =>
    cases h'
    exact ⟨rfl, hsupply, rfl, rfl⟩
  | keep hfits =>
    cases h' with
    | keep =>
      obtain ⟨rfl, rfl⟩ := singleton_append_inj hsupply
      exact ⟨rfl, rfl, rfl, rfl⟩
    | keepOther hother => exact absurd (head_singleton_append hsupply ▸ hfits) hother
  | keepOther hother =>
    cases h' with
    | keep hfits => exact absurd (head_singleton_append hsupply.symm ▸ hfits) hother
    | keepOther => exact ⟨rfl, hsupply, rfl, rfl⟩
  | drop hfits =>
    cases h' with
    | drop =>
      obtain ⟨rfl, rfl⟩ := singleton_append_inj hsupply
      exact ⟨rfl, rfl, rfl, rfl⟩
    | dropOther hother => exact absurd (head_singleton_append hsupply ▸ hfits) hother
  | dropOther hother =>
    cases h' with
    | drop hfits => exact absurd (head_singleton_append hsupply.symm ▸ hfits) hother
    | dropOther => exact ⟨rfl, hsupply, rfl, rfl⟩
  | ahead hfits =>
    obtain rfl : _ = z := by cases h' <;> exact hsupply
    cases h' with
    | ahead => exact ⟨rfl, rfl, rfl, rfl⟩
    | aheadOther hother => exact absurd hfits hother
  | aheadOther hother =>
    cases h' with
    | ahead hfits => exact absurd (congrArg head hsupply ▸ hfits) hother
    | aheadOther => exact ⟨rfl, hsupply, rfl, rfl⟩
  | rule _ ih =>
    cases h' with
    | rule body => exact ih body hsupply
  | node =>
    cases h'
    exact ⟨rfl, hsupply, rfl, rfl⟩
  | replaceTop =>
    cases h'
    exact ⟨rfl, hsupply, rfl, rfl⟩
  | replaceNone =>
    cases h'
    exact ⟨rfl, hsupply, rfl, rfl⟩
  | reduce hreduce =>
    cases h' with
    | reduce hreduce' =>
      rw [hreduce] at hreduce'
      exact ⟨rfl, hsupply, rfl, Except.ok.inj hreduce'⟩
    | reduceFault hreduce' => simp [hreduce] at hreduce'
  | reduceFault hreduce =>
    cases h' with
    | reduce hreduce' => simp [hreduce] at hreduce'
    | reduceFault hreduce' =>
      rw [hreduce] at hreduce'
      obtain rfl := Except.error.inj hreduce'
      exact ⟨rfl, hsupply, rfl, rfl⟩
  | andThen _ _ ihFirst ihSecond =>
    cases h' with
    | andThen first second =>
      rw [append_append_stream, append_append_stream] at hsupply
      obtain ⟨rfl, hlater, -, rfl⟩ := ihFirst first hsupply
      obtain ⟨rfl, rfl, rfl, rfl⟩ := ihSecond second hlater
      exact ⟨rfl, rfl, rfl, rfl⟩
    | andThenStop first hstop =>
      rw [append_append_stream] at hsupply
      exact absurd (ihFirst first hsupply).2.2.1.symm hstop
  | andThenStop _ hstop ih =>
    cases h' with
    | andThen first second =>
      rw [append_append_stream] at hsupply
      exact absurd (ih first hsupply).2.2.1 hstop
    | andThenStop first => exact ih first hsupply
  | orElse _ _ ihFirst ihSecond =>
    cases h' with
    | orElse first second =>
      rw [append_append_stream, append_append_stream] at hsupply
      obtain ⟨rfl, hlater, -, rfl⟩ := ihFirst first hsupply
      obtain ⟨rfl, rfl, rfl, rfl⟩ := ihSecond second hlater
      exact ⟨rfl, rfl, rfl, rfl⟩
    | orElseFirst first hstop =>
      rw [append_append_stream] at hsupply
      exact absurd (ihFirst first hsupply).2.2.1.symm hstop
  | orElseFirst _ hstop ih =>
    cases h' with
    | orElse first second =>
      rw [append_append_stream] at hsupply
      exact absurd (ih first hsupply).2.2.1 hstop
    | orElseFirst first => exact ih first hsupply
  | manyMore _ _ ihFirst ihOthers =>
    cases h' with
    | manyMore first others =>
      rw [append_append_stream, append_append_stream] at hsupply
      obtain ⟨rfl, hlater, -, rfl⟩ := ihFirst first hsupply
      obtain ⟨rfl, rfl, rfl, rfl⟩ := ihOthers others hlater
      exact ⟨rfl, rfl, rfl, rfl⟩
    | manyEnd last =>
      rw [append_append_stream] at hsupply
      exact Verdict.noConfusion (ihFirst last hsupply).2.2.1
    | manyFail first =>
      rw [append_append_stream] at hsupply
      exact Verdict.noConfusion (ihFirst first hsupply).2.2.1
  | manyEnd _ ih =>
    cases h' with
    | manyMore first others =>
      rw [append_append_stream] at hsupply
      exact Verdict.noConfusion (ih first hsupply).2.2.1
    | manyEnd last =>
      obtain ⟨rfl, rfl, -, rfl⟩ := ih last hsupply
      exact ⟨rfl, rfl, rfl, rfl⟩
    | manyFail first => exact Verdict.noConfusion (ih first hsupply).2.2.1
  | manyFail _ ih =>
    cases h' with
    | manyMore first others =>
      rw [append_append_stream] at hsupply
      exact Verdict.noConfusion (ih first hsupply).2.2.1
    | manyEnd last => exact Verdict.noConfusion (ih last hsupply).2.2.1
    | manyFail first => exact ih first hsupply
  | require _ hstop ih =>
    cases h' with
    | require body => exact ih body hsupply
    | requireOther body => exact absurd (ih body hsupply).2.2.1 hstop
  | requireOther _ ih =>
    cases h' with
    | require body hstop => exact absurd (ih body hsupply).2.2.1.symm hstop
    | requireOther body =>
      obtain ⟨rfl, rfl, -, rfl⟩ := ih body hsupply
      exact ⟨rfl, rfl, rfl, rfl⟩
  | promised _ hstop ih =>
    cases h' with
    | promised body => exact ih body hsupply
    | promisedOther body => exact absurd (ih body hsupply).2.2.1 hstop
  | promisedOther _ ih =>
    cases h' with
    | promised body hstop => exact absurd (ih body hsupply).2.2.1.symm hstop
    | promisedOther body =>
      obtain ⟨rfl, rfl, -, rfl⟩ := ih body hsupply
      exact ⟨rfl, rfl, rfl, rfl⟩

private theorem head_append_token {v v' : List Located} {s s' : Supply}
    (hmap : v'.map Located.token = v.map Located.token)
    (hhead : s'.head.token = s.head.token) :
    (v' ++ₛ s').head.token = (v ++ₛ s).head.token := by
  cases v with
  | nil =>
    obtain rfl := List.map_eq_nil_iff.mp hmap
    exact hhead
  | cons a v =>
    obtain ⟨b, w, rfl, hb, -⟩ := List.map_eq_cons_iff.mp hmap
    exact hb

/-- **One token of foresight.**  A run sees the tokens that it takes and the next one, and
of their lines only that of the next one, which a failure names. -/
theorem Run.transfer {p : Recipe} {u u' : List Located} {s s' : Supply} {before after : Stack}
    {verdict : Verdict} (h : p.Run u s before verdict after)
    (hmap : u'.map Located.token = u.map Located.token)
    (hhead : s'.head.token = s.head.token) :
    p.Run u' s' before (verdict.onLine s'.head.line) after := by
  induction h generalizing u' s' with
  | done =>
    obtain rfl := List.map_eq_nil_iff.mp hmap
    exact .done
  | keep hfits =>
    obtain ⟨b, rfl, hb⟩ := List.map_eq_singleton_iff.mp hmap
    rw [← hb] at hfits ⊢
    exact .keep hfits
  | keepOther hother =>
    obtain rfl := List.map_eq_nil_iff.mp hmap
    exact .keepOther (hhead ▸ hother)
  | drop hfits =>
    obtain ⟨b, rfl, hb⟩ := List.map_eq_singleton_iff.mp hmap
    rw [← hb] at hfits
    exact .drop hfits
  | dropOther hother =>
    obtain rfl := List.map_eq_nil_iff.mp hmap
    exact .dropOther (hhead ▸ hother)
  | ahead hfits =>
    obtain rfl := List.map_eq_nil_iff.mp hmap
    exact .ahead (hhead ▸ hfits)
  | aheadOther hother =>
    obtain rfl := List.map_eq_nil_iff.mp hmap
    exact .aheadOther (hhead ▸ hother)
  | rule _ ih => exact .rule (ih hmap hhead)
  | node =>
    obtain rfl := List.map_eq_nil_iff.mp hmap
    exact .node
  | replaceTop =>
    obtain rfl := List.map_eq_nil_iff.mp hmap
    exact .replaceTop
  | replaceNone =>
    obtain rfl := List.map_eq_nil_iff.mp hmap
    exact .replaceNone
  | reduce hreduce =>
    obtain rfl := List.map_eq_nil_iff.mp hmap
    exact .reduce hreduce
  | reduceFault hreduce =>
    obtain rfl := List.map_eq_nil_iff.mp hmap
    exact .reduceFault hreduce
  | andThen _ _ ihFirst ihSecond =>
    rw [List.map_append] at hmap
    obtain ⟨v, w, rfl, hv, hw⟩ := List.map_eq_append_iff.mp hmap
    exact .andThen (ihFirst hv (head_append_token hw hhead)) (ihSecond hw hhead)
  | andThenStop _ hstop ih => exact .andThenStop (ih hmap hhead) (Verdict.onLine_ne_matched hstop)
  | orElse _ _ ihFirst ihSecond =>
    rw [List.map_append] at hmap
    obtain ⟨v, w, rfl, hv, hw⟩ := List.map_eq_append_iff.mp hmap
    exact .orElse (ihFirst hv (head_append_token hw hhead)) (ihSecond hw hhead)
  | orElseFirst _ hstop ih => exact .orElseFirst (ih hmap hhead) (Verdict.onLine_ne_declined hstop)
  | manyMore _ _ ihFirst ihOthers =>
    rw [List.map_append] at hmap
    obtain ⟨v, w, rfl, hv, hw⟩ := List.map_eq_append_iff.mp hmap
    exact .manyMore (ihFirst hv (head_append_token hw hhead)) (ihOthers hw hhead)
  | manyEnd _ ih => exact .manyEnd (ih hmap hhead)
  | @manyFail _ _ _ _ _ failure _ ih =>
    have hfirst := ih hmap hhead
    cases failure <;> exact .manyFail hfirst
  | require _ hstop ih => exact .require (ih hmap hhead) (Verdict.onLine_ne_declined hstop)
  | requireOther _ ih => exact .requireOther (ih hmap hhead)
  | promised _ hstop ih => exact .promised (ih hmap hhead) (Verdict.onLine_ne_declined hstop)
  | promisedOther _ ih => exact .promisedOther (ih hmap hhead)

private theorem exists_append_of_tokens {u : List Located} {s z : Supply}
    (h : ∀ place ≤ u.length, (z.get place).token = ((u ++ₛ s).get place).token) :
    ∃ v y, z = v ++ₛ y ∧ v.map Located.token = u.map Located.token ∧
      y.head.token = s.head.token := by
  induction u generalizing z with
  | nil => exact ⟨[], z, rfl, rfl, h 0 (Nat.le_refl 0)⟩
  | cons a u ih =>
    obtain ⟨v, y, hz, hv, hy⟩ := ih (z := z.tail) fun place hplace =>
      h (place + 1) (Nat.succ_le_succ hplace)
    refine ⟨z.head :: v, y, ?_, ?_, hy⟩
    · rw [cons_append_stream, ← hz]
      exact z.eta.symm
    · rw [List.map_cons, List.map_cons, hv]
      exact congrArg (List.cons · _) (h 0 (Nat.zero_le _))

/-- **Runs on equal tokens.**  Where the supplies agree on the tokens that a run takes and
the next one, another run takes tokens that are equal and does the same. -/
theorem Run.congr {p : Recipe} {u v : List Located} {s z : Supply} {before after after' : Stack}
    {verdict verdict' : Verdict} (h : p.Run u s before verdict after)
    (h' : p.Run v z before verdict' after')
    (htokens : ∀ place ≤ u.length,
      ((v ++ₛ z).get place).token = ((u ++ₛ s).get place).token) :
    v.map Located.token = u.map Located.token ∧
      verdict' = verdict.onLine z.head.line ∧ after' = after := by
  obtain ⟨w, y, hz, hw, hy⟩ := exists_append_of_tokens htokens
  obtain ⟨rfl, rfl, rfl, rfl⟩ := h'.unique (h.transfer hw hy) hz
  exact ⟨hw, rfl, rfl⟩

end Recipe

end BugLang
