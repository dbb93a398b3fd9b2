import BugLang.Proofs.Foresight
import Mathlib.Data.List.Destutter

/-!
# Blank lines

Wherever the grammar asks for the end of a line, it takes all line ends that come, and it makes
of them what it makes of one.  So it is of no account how many line ends there are between two
other tokens, as long as there are any.

`foldLineEnds` leaves one line end of each run.  A run of a recipe on some tokens is a run on the
folded tokens too, and runs on tokens that begin in the same way end in the same way.

* `Recipe.Run.fold`: a recipe that folds line ends does the same on folded tokens.
* `Recipe.Run.congr_of_seen`: runs that see beginnings of the same tokens do the same.
* `blank_lines_do_not_count`: this for the rules and for whole sources.
-/

namespace BugLang

open Stream'

/-- Whether two tokens do not both end a line. -/
def NotBothLineEnds (a b : Token) : Prop :=
  ¬ (a.kind = .lineEnd ∧ b.kind = .lineEnd)

instance : DecidableRel NotBothLineEnds :=
  fun _ _ => inferInstanceAs (Decidable (¬ _))

/-- The tokens with each run of line ends folded into its first one. -/
def foldLineEnds (w : List Token) : List Token :=
  w.destutter NotBothLineEnds

/-- Whether a word and what follows it do not meet within a run of line ends. -/
def MeetOutside (v w : List Token) : Prop :=
  ∀ a ∈ v.getLast?, ∀ b ∈ w.head?, NotBothLineEnds a b

/-! ### Folding -/

private theorem exists_destutter'_eq (a : Token) (w : List Token) :
    ∃ v : List Token, w.destutter' NotBothLineEnds a = a :: v := by
  induction w with
  | nil => exact ⟨[], rfl⟩
  | cons b w ih =>
    by_cases h : NotBothLineEnds a b
    · exact ⟨_, List.destutter'_cons_pos w h⟩
    · rwa [List.destutter'_cons_neg w h]

/-- Folding keeps the first token. -/
theorem head?_foldLineEnds (w : List Token) : (foldLineEnds w).head? = w.head? := by
  cases w with
  | nil => rfl
  | cons a w =>
    obtain ⟨v, hv⟩ := exists_destutter'_eq a w
    rw [foldLineEnds, List.destutter_cons', hv]
    rfl

/-- Folding adds no tokens. -/
theorem mem_of_mem_foldLineEnds {a : Token} {w : List Token} (h : a ∈ foldLineEnds w) : a ∈ w :=
  (List.destutter_sublist _ w).subset h

private theorem destutter'_append (a : Token) (v w : List Token) (h : MeetOutside (a :: v) w) :
    (v ++ w).destutter' NotBothLineEnds a =
      v.destutter' NotBothLineEnds a ++ w.destutter NotBothLineEnds := by
  induction v generalizing a with
  | nil =>
    cases w with
    | nil => rfl
    | cons b w => exact List.destutter'_cons_pos w (h a rfl b rfl)
  | cons x v ih =>
    rw [List.cons_append]
    by_cases hax : NotBothLineEnds a x
    · rw [List.destutter'_cons_pos _ hax, List.destutter'_cons_pos _ hax, List.cons_append,
        ih x fun y hy => h y (by rwa [List.getLast?_cons_cons])]
    · -- The token that is left out ends a line as the one before it does.
      rw [List.destutter'_cons_neg _ hax, List.destutter'_cons_neg _ hax, ih a]
      obtain ⟨ha, hx⟩ := not_not.mp hax
      intro y hy b hb
      cases v with
      | nil =>
        obtain rfl : a = y := Option.some.inj hy
        exact fun hboth => h x rfl b hb ⟨hx, hboth.2⟩
      | cons z v => exact h y (by rwa [List.getLast?_cons_cons] at hy ⊢) b hb

/-- Words that do not meet within a run of line ends are folded one by one. -/
theorem foldLineEnds_append {v w : List Token} (h : MeetOutside v w) :
    foldLineEnds (v ++ w) = foldLineEnds v ++ foldLineEnds w := by
  cases v with
  | nil => rfl
  | cons a v => exact destutter'_append a v w h

/-- Line ends are folded into one. -/
theorem foldLineEnds_of_lineEnd {a : Token} {w : List Token} (ha : a.kind = .lineEnd)
    (hw : ∀ b ∈ w, b.kind = .lineEnd) : foldLineEnds (a :: w) = [a] := by
  rw [foldLineEnds, List.destutter_cons']
  induction w with
  | nil => rfl
  | cons b w ih =>
    obtain ⟨hb, hw⟩ := List.forall_mem_cons.mp hw
    rw [List.destutter'_cons_neg w (not_not.mpr ⟨ha, hb⟩), ih hw]

/-- The beginning of a word is folded into the beginning of what the word is folded into. -/
theorem foldLineEnds_mono {v w : List Token} (h : v <+: w) :
    foldLineEnds v <+: foldLineEnds w := by
  obtain ⟨w, rfl⟩ := h
  cases v with
  | nil => exact List.nil_prefix
  | cons a v =>
    rw [foldLineEnds, foldLineEnds, List.cons_append, List.destutter_cons', List.destutter_cons']
    induction v generalizing a with
    | nil =>
      obtain ⟨v, hv⟩ := exists_destutter'_eq a w
      rw [List.nil_append, hv]
      exact ⟨v, rfl⟩
    | cons x v ih =>
      rw [List.cons_append]
      by_cases hax : NotBothLineEnds a x
      · rw [List.destutter'_cons_pos _ hax, List.destutter'_cons_pos _ hax]
        exact List.cons_prefix_cons.mpr ⟨rfl, ih x⟩
      · rw [List.destutter'_cons_neg _ hax, List.destutter'_cons_neg _ hax]
        exact ih a

namespace MeetOutside

variable {v w : List Token} {a : Token}

/-- Behind no tokens, nothing follows a line end. -/
theorem nil (w : List Token) : MeetOutside [] w :=
  fun _ h => nomatch h

/-- A token that ends no line does not follow a line end within a run of them. -/
theorem of_kind_ne (h : a.kind ≠ .lineEnd) (v : List Token) : MeetOutside v [a] := by
  intro b _ c hc hboth
  obtain rfl : a = c := Option.some.inj hc
  exact h hboth.2

/-- Behind a token that ends no line, no run of line ends goes on. -/
theorem of_single (h : a.kind ≠ .lineEnd) (w : List Token) : MeetOutside [a] w := by
  intro b hb c _ hboth
  obtain rfl : a = b := Option.some.inj hb
  exact h hboth.1

/-- Behind two words, a run of line ends goes on only if it does behind the second one, or
behind the first one where the second one is empty. -/
theorem append {u : List Located} {s : Supply}
    (hfirst : MeetOutside v [(u ++ₛ s).head.token])
    (hsecond : MeetOutside (u.map Located.token) [s.head.token]) :
    MeetOutside (v ++ u.map Located.token) [s.head.token] := by
  cases u with
  | nil => rwa [List.map_nil, List.append_nil]
  | cons b u => rwa [MeetOutside, List.map_cons, List.getLast?_append_cons]

/-- What comes next is the next word. -/
theorem of_head {u : List Located} {s : Supply} (h : MeetOutside v [(u ++ₛ s).head.token]) :
    MeetOutside v (u.map Located.token) := by
  cases u with
  | nil => exact fun _ _ _ hnone => nomatch hnone
  | cons b u => exact h

end MeetOutside

namespace Recipe

/-- Whether a recipe is a single line end. -/
def isLineEnd : Recipe → Bool
  | .keep terminal | .drop terminal => terminal = .lineEnd
  | .require body _ => body.isLineEnd
  | _ => false

/-- Whether a recipe that takes a line end takes all that follow it. -/
def foldsLineEnds : Recipe → Bool
  | .keep terminal | .drop terminal => terminal.kind ≠ .lineEnd
  | .andThen first second =>
    (first.isLineEnd && second = .many (.drop .lineEnd)) ||
      (first.foldsLineEnds && second.foldsLineEnds)
  | .orElse first second => first.foldsLineEnds && second.foldsLineEnds
  | .many body => body = .drop .lineEnd || body.foldsLineEnds
  | .require body _ | .promised body _ => body.foldsLineEnds
  | _ => true

end Recipe

namespace Grammar

/-- Every rule that takes a line end takes all that follow it. -/
theorem foldsLineEnds_recipe (rule : Rule) : (recipe rule).foldsLineEnds = true := by
  cases rule <;> rfl

/-- A whole source that takes a line end takes all that follow it. -/
theorem foldsLineEnds_text : text.foldsLineEnds = true := rfl

end Grammar

/-! ### What a run sees -/

/-- The tokens that a run sees: those that it takes, and the next one. -/
def seen (u : List Located) (s : Supply) : List Token :=
  u.map Located.token ++ [s.head.token]

/-- Behind tokens that are taken first, the others are seen. -/
theorem seen_append (u v : List Located) (s : Supply) :
    seen (u ++ v) s = u.map Located.token ++ seen v s := by
  rw [seen, seen, List.map_append, List.append_assoc]

/-- What a run sees is at the front of its supply. -/
theorem exists_seen_eq_cons (u : List Located) (s : Supply) :
    ∃ w : List Token, seen u s = (u ++ₛ s).head.token :: w := by
  cases u with
  | nil => exact ⟨[], rfl⟩
  | cons a u => exact ⟨_, rfl⟩

/-- A word that begins with what a run sees has the tokens of the supply. -/
theorem getElem?_of_seen {u : List Located} {s : Supply} {w : List Token} {place : Nat}
    (h : seen u s <+: w) (hplace : place ≤ u.length) :
    w[place]? = some ((u ++ₛ s).get place).token := by
  obtain ⟨w, rfl⟩ := h
  induction u generalizing place with
  | nil =>
    obtain rfl := Nat.le_zero.mp hplace
    rfl
  | cons a u ih =>
    cases place with
    | zero => rfl
    | succ place => exact ih (Nat.le_of_succ_le_succ hplace)

/-- Runs that see beginnings of one word see the same token at each place that both see. -/
theorem token_get_of_seen {u v : List Located} {s z : Supply} {w : List Token} {place : Nat}
    (hu : seen u s <+: w) (hv : seen v z <+: w) (hplace : place ≤ u.length)
    (hplace' : place ≤ v.length) :
    ((u ++ₛ s).get place).token = ((v ++ₛ z).get place).token :=
  Option.some.inj ((getElem?_of_seen hu hplace).symm.trans
    (getElem?_of_seen hv hplace'))

/-- What is seen of a supply that comes to an end are its tokens, and then ends of the input. -/
theorem seen_of_append_eq {u v : List Located} {s : Supply} {line places : Nat}
    (h : u ++ₛ s = v ++ₛ const ⟨line, .endOfInput⟩) (hplaces : u.length < places) :
    seen u s <+: v.map Located.token ++ List.replicate places .endOfInput := by
  induction u generalizing v places with
  | nil =>
    obtain ⟨places, rfl⟩ : ∃ n, places = n + 1 := ⟨places - 1, by omega⟩
    cases v with
    | nil =>
      rw [show s = const ⟨line, .endOfInput⟩ from h]
      exact List.cons_prefix_cons.mpr ⟨rfl, List.nil_prefix⟩
    | cons a v =>
      rw [show s = a :: (v ++ₛ const ⟨line, .endOfInput⟩) from h]
      exact List.cons_prefix_cons.mpr ⟨rfl, List.nil_prefix⟩
  | cons b u ih =>
    cases v with
    | nil =>
      rw [nil_append_stream, const_eq] at h
      obtain ⟨rfl, hsupply⟩ := cons_injective2 h
      obtain ⟨places, rfl⟩ : ∃ n, places = n + 1 := ⟨places - 1, by omega⟩
      exact List.cons_prefix_cons.mpr
        ⟨rfl, ih (v := []) hsupply (Nat.lt_of_succ_lt_succ hplaces)⟩
    | cons a v =>
      obtain ⟨rfl, hsupply⟩ := cons_injective2 h
      exact List.cons_prefix_cons.mpr ⟨rfl, ih hsupply (Nat.lt_of_succ_lt hplaces)⟩

/-- What is seen of a cursor are the tokens to come, and then ends of the input. -/
theorem Cursor.Sound.seen_of_supply {c : Cursor} {u : List Located} {s : Supply} {places : Nat}
    (h : c.Sound) (hsupply : c.supply = u ++ₛ s) (hplaces : u.length < places) :
    seen u s <+: c.upcoming ++ List.replicate places .endOfInput := by
  obtain ⟨line, hline⟩ := h.exists_supply_eq
  rw [← map_remaining]
  exact seen_of_append_eq (hsupply.symm.trans hline) hplaces

/-- A verdict with its line moved is got back by moving its line. -/
theorem Verdict.exists_eq_onLine {verdict verdict' : Verdict} {line : Nat}
    (h : verdict = verdict'.onLine line) : ∃ line, verdict' = verdict.onLine line := by
  subst h
  rcases verdict' with _ | _ | ⟨line' | _⟩
  · exact ⟨0, rfl⟩
  · exact ⟨0, rfl⟩
  · exact ⟨line', rfl⟩
  · exact ⟨0, rfl⟩

namespace Recipe

variable {p q : Recipe} {u v : List Located} {s : Supply} {before between after : Stack}
  {verdict : Verdict} {terminal : Terminal}

/-- A row folds line ends if it is a line end and all that follow, or if both of its parts fold
line ends. -/
theorem foldsLineEnds_of_andThen (h : (andThen p q).foldsLineEnds = true) :
    p.isLineEnd = true ∧ q = .many (.drop .lineEnd) ∨
      p.foldsLineEnds = true ∧ q.foldsLineEnds = true := by
  simpa [foldsLineEnds] using h

/-- A repetition folds line ends if it takes all line ends that come, or if each round folds
them. -/
theorem foldsLineEnds_of_many (h : (many p).foldsLineEnds = true) :
    p = .drop .lineEnd ∨ p.foldsLineEnds = true := by
  simpa [foldsLineEnds] using h

/-- Dropping tokens as often as possible takes those that fit, up to one that does not. -/
theorem Run.of_many_drop (h : (Recipe.many (.drop terminal)).Run u s before verdict after) :
    verdict = .matched ∧ after = before ∧ (∀ a ∈ u, terminal.fits a.token) ∧
      ¬ terminal.fits s.head.token := by
  generalize hp : Recipe.many (.drop terminal) = p at h
  induction h with
  | manyMore first _ _ ih =>
    obtain rfl := Recipe.many.inj hp
    cases first with
    | drop hfits =>
      obtain ⟨hverdict, hafter, hothers, hnext⟩ := ih rfl
      exact ⟨hverdict, hafter, List.forall_mem_cons.mpr ⟨hfits, hothers⟩, hnext⟩
  | manyEnd last =>
    obtain rfl := Recipe.many.inj hp
    cases last with
    | dropOther hother => exact ⟨rfl, rfl, nofun, hother⟩
  | manyFail first =>
    obtain rfl := Recipe.many.inj hp
    cases first
  | _ => exact Recipe.noConfusion hp

/-- Tokens that fit are dropped up to one that does not. -/
theorem run_many_drop (hu : ∀ a ∈ u, terminal.fits a.token) (hs : ¬ terminal.fits s.head.token)
    (stack : Stack) : (Recipe.many (.drop terminal)).Run u s stack .matched stack := by
  induction u with
  | nil => exact .manyEnd (.dropOther hs)
  | cons a u ih =>
    obtain ⟨ha, hu⟩ := List.forall_mem_cons.mp hu
    exact .manyMore (u := [a]) (.drop ha) (ih hu)

/-- A line end that is asked for is taken whatever follows it. -/
theorem Run.of_isLineEnd (h : p.Run u s before .matched after) (hp : p.isLineEnd = true) :
    ∃ a, a.kind = .lineEnd ∧ u.map Located.token = [a] ∧
      ∀ b : Located, b.token = a → ∀ z, p.Run [b] z before .matched after := by
  generalize hverdict : Verdict.matched = verdict at h
  induction h with
  | keep hfits =>
    obtain rfl : _ = Terminal.lineEnd := of_decide_eq_true hp
    refine ⟨_, Terminal.fits_lineEnd.mp hfits, rfl, fun b hb z => ?_⟩
    rw [← hb] at hfits ⊢
    exact .keep hfits
  | drop hfits =>
    obtain rfl : _ = Terminal.lineEnd := of_decide_eq_true hp
    refine ⟨_, Terminal.fits_lineEnd.mp hfits, rfl, fun b hb z => ?_⟩
    rw [← hb] at hfits
    exact .drop hfits
  | require _ hstop ih =>
    obtain ⟨a, ha, hu, hrun⟩ := ih hp hverdict
    exact ⟨a, ha, hu, fun b hb z => .require (hrun b hb z) hstop⟩
  | keepOther | dropOther | requireOther => exact Verdict.noConfusion hverdict
  | _ => exact Bool.noConfusion hp

/-- Where a line end is asked for and does not come, nothing is taken. -/
theorem Run.eq_nil_of_isLineEnd (h : p.Run u s before verdict after) (hp : p.isLineEnd = true)
    (hverdict : verdict ≠ .matched) : u = [] := by
  induction h with
  | keep | drop => exact absurd rfl hverdict
  | require _ _ ih => exact ih hp hverdict
  | requireOther _ ih => exact ih hp Verdict.noConfusion
  | keepOther | dropOther => rfl
  | _ => exact Bool.noConfusion hp

/-- Whether a run does not stop within a run of line ends, and is a run on the folded tokens
too. -/
structure Run.Folds (p : Recipe) (u : List Located) (s : Supply) (before : Stack)
    (verdict : Verdict) (after : Stack) : Prop where
  outside : MeetOutside (u.map Located.token) [s.head.token]
  run : ∀ u' : List Located, u'.map Located.token = foldLineEnds (u.map Located.token) →
    p.Run u' s before verdict after

namespace Run.Folds

/-- A run that takes nothing folds nothing. -/
theorem of_nil (h : p.Run [] s before verdict after) : Folds p [] s before verdict after := by
  refine ⟨MeetOutside.nil _, fun u' hu' => ?_⟩
  obtain rfl := List.map_eq_nil_iff.mp hu'
  exact h

/-- Two runs in a row fold one by one. -/
theorem append {first : Verdict} (hfirst : Folds p u (v ++ₛ s) before first between)
    (hsecond : Folds q v s between verdict after) (hline : ∀ line, first.onLine line = first) :
    MeetOutside ((u ++ v).map Located.token) [s.head.token] ∧
      ∀ w : List Located, w.map Located.token = foldLineEnds ((u ++ v).map Located.token) →
        ∃ u' v' : List Located, w = u' ++ v' ∧ p.Run u' (v' ++ₛ s) before first between ∧
          q.Run v' s between verdict after := by
  rw [List.map_append]
  refine ⟨MeetOutside.append hfirst.outside hsecond.outside, fun w hw => ?_⟩
  rw [foldLineEnds_append hfirst.outside.of_head] at hw
  obtain ⟨u', v', rfl, hu', hv'⟩ := List.map_eq_append_iff.mp hw
  refine ⟨u', v', rfl, ?_, hsecond.run v' hv'⟩
  -- Folding keeps the token that the first run sees next.
  have hhead : (v' ++ₛ s).head.token = (v ++ₛ s).head.token := by
    have hnext := head?_foldLineEnds (v.map Located.token)
    rw [← hv'] at hnext
    rcases v with _ | ⟨a, v⟩ <;> rcases v' with _ | ⟨b, v'⟩
    · rfl
    · cases hnext
    · cases hnext
    · exact Option.some.inj hnext
  have hrun : p.Run u' (v' ++ₛ s) before (first.onLine (v' ++ₛ s).head.line) between :=
    (hfirst.run u' hu').transfer rfl hhead
  rwa [hline] at hrun

/-- All line ends that come are as good as one. -/
theorem of_many_drop (h : (Recipe.many (.drop .lineEnd)).Run u s before verdict after) :
    Folds (.many (.drop .lineEnd)) u s before verdict after := by
  obtain ⟨rfl, rfl, hu, hnext⟩ := h.of_many_drop
  refine ⟨MeetOutside.of_kind_ne (fun hkind => hnext (Terminal.fits_lineEnd.mpr hkind)) _,
    fun u' hu' => run_many_drop (fun a ha => ?_) hnext _⟩
  have hmem := mem_of_mem_foldLineEnds (hu' ▸ List.mem_map_of_mem ha)
  obtain ⟨b, hb, hab⟩ := List.mem_map.mp hmem
  exact hab ▸ hu b hb

/-- A line end and all that follow are as good as one. -/
theorem of_isLineEnd (hfirst : p.Run u (v ++ₛ s) before .matched between)
    (hsecond : (Recipe.many (.drop .lineEnd)).Run v s between verdict after)
    (hp : p.isLineEnd = true) :
    Folds (.andThen p (.many (.drop .lineEnd))) (u ++ v) s before verdict after := by
  obtain ⟨a, ha, hu, htake⟩ := hfirst.of_isLineEnd hp
  obtain ⟨rfl, rfl, hv, hnext⟩ := hsecond.of_many_drop
  refine ⟨MeetOutside.of_kind_ne (fun hkind => hnext (Terminal.fits_lineEnd.mpr hkind)) _,
    fun u' hu' => ?_⟩
  have hlineEnds : ∀ b ∈ v.map Located.token, b.kind = .lineEnd := by
    intro b hb
    obtain ⟨c, hc, rfl⟩ := List.mem_map.mp hb
    exact Terminal.fits_lineEnd.mp (hv c hc)
  rw [List.map_append, hu, List.singleton_append, foldLineEnds_of_lineEnd ha hlineEnds] at hu'
  obtain ⟨b, rfl, hb⟩ := List.map_eq_singleton_iff.mp hu'
  exact .andThen (u := [b]) (htake b hb _) (.manyEnd (.dropOther hnext))

end Run.Folds

/-- **Folding line ends.**  A recipe that takes all line ends that follow one does the same on
the folded tokens. -/
theorem Run.fold (h : p.Run u s before verdict after) (hp : p.foldsLineEnds = true) :
    Folds p u s before verdict after := by
  induction h with
  | done => exact .of_nil .done
  | @keep terminal a _ _ hfits =>
    have hkind : a.token.kind ≠ .lineEnd := by
      rw [Terminal.kind_of_fits hfits]
      exact of_decide_eq_true hp
    refine ⟨MeetOutside.of_single hkind _, fun u' hu' => ?_⟩
    obtain ⟨b, rfl, hb⟩ := List.map_eq_singleton_iff.mp hu'
    rw [← hb] at hfits ⊢
    exact .keep hfits
  | @drop terminal a _ _ hfits =>
    have hkind : a.token.kind ≠ .lineEnd := by
      rw [Terminal.kind_of_fits hfits]
      exact of_decide_eq_true hp
    refine ⟨MeetOutside.of_single hkind _, fun u' hu' => ?_⟩
    obtain ⟨b, rfl, hb⟩ := List.map_eq_singleton_iff.mp hu'
    rw [← hb] at hfits
    exact .drop hfits
  | keepOther hother => exact .of_nil (.keepOther hother)
  | dropOther hother => exact .of_nil (.dropOther hother)
  | ahead hfits => exact .of_nil (.ahead hfits)
  | aheadOther hother => exact .of_nil (.aheadOther hother)
  | rule _ ih =>
    have hbody := ih (Grammar.foldsLineEnds_recipe _)
    exact ⟨hbody.outside, fun u' hu' => .rule (hbody.run u' hu')⟩
  | node => exact .of_nil .node
  | replaceTop => exact .of_nil .replaceTop
  | replaceNone => exact .of_nil .replaceNone
  | reduce hreduce => exact .of_nil (.reduce hreduce)
  | reduceFault hreduce => exact .of_nil (.reduceFault hreduce)
  | andThen first second ihFirst ihSecond =>
    obtain ⟨hline, rfl⟩ | ⟨hp, hq⟩ := foldsLineEnds_of_andThen hp
    · exact .of_isLineEnd first second hline
    · obtain ⟨houtside, hsplit⟩ := (ihFirst hp).append (ihSecond hq) fun _ => rfl
      refine ⟨houtside, fun w hw => ?_⟩
      obtain ⟨u', v', rfl, hu', hv'⟩ := hsplit w hw
      exact .andThen hu' hv'
  | andThenStop first hstop ih =>
    obtain ⟨hline, rfl⟩ | ⟨hp, -⟩ := foldsLineEnds_of_andThen hp
    · obtain rfl := first.eq_nil_of_isLineEnd hline hstop
      exact .of_nil (.andThenStop first hstop)
    · exact ⟨(ih hp).outside, fun u' hu' => .andThenStop ((ih hp).run u' hu') hstop⟩
  | orElse _ _ ihFirst ihSecond =>
    obtain ⟨hp, hq⟩ := Bool.and_eq_true_iff.mp hp
    obtain ⟨houtside, hsplit⟩ := (ihFirst hp).append (ihSecond hq) fun _ => rfl
    refine ⟨houtside, fun w hw => ?_⟩
    obtain ⟨u', v', rfl, hu', hv'⟩ := hsplit w hw
    exact .orElse hu' hv'
  | orElseFirst _ hstop ih =>
    have hfirst := ih (Bool.and_eq_true_iff.mp hp).1
    exact ⟨hfirst.outside, fun u' hu' => .orElseFirst (hfirst.run u' hu') hstop⟩
  | manyMore first others ihFirst ihOthers =>
    obtain rfl | hbody := foldsLineEnds_of_many hp
    · exact .of_many_drop (.manyMore first others)
    · obtain ⟨houtside, hsplit⟩ := (ihFirst hbody).append (ihOthers hp) fun _ => rfl
      refine ⟨houtside, fun w hw => ?_⟩
      obtain ⟨u', v', rfl, hu', hv'⟩ := hsplit w hw
      exact .manyMore hu' hv'
  | manyEnd last ih =>
    obtain rfl | hbody := foldsLineEnds_of_many hp
    · exact .of_many_drop (.manyEnd last)
    · exact ⟨(ih hbody).outside, fun u' hu' => .manyEnd ((ih hbody).run u' hu')⟩
  | manyFail first ih =>
    obtain rfl | hbody := foldsLineEnds_of_many hp
    · exact .of_many_drop (.manyFail first)
    · exact ⟨(ih hbody).outside, fun u' hu' => .manyFail ((ih hbody).run u' hu')⟩
  | require _ hstop ih =>
    exact ⟨(ih hp).outside, fun u' hu' => .require ((ih hp).run u' hu') hstop⟩
  | requireOther _ ih => exact ⟨(ih hp).outside, fun u' hu' => .requireOther ((ih hp).run u' hu')⟩
  | promised _ hstop ih =>
    exact ⟨(ih hp).outside, fun u' hu' => .promised ((ih hp).run u' hu') hstop⟩
  | promisedOther _ ih => exact ⟨(ih hp).outside, fun u' hu' => .promisedOther ((ih hp).run u' hu')⟩

/-- A run has a run on the folded tokens beside it, which sees what the run sees folded. -/
theorem Run.exists_fold (h : p.Run u s before verdict after) (hp : p.foldsLineEnds = true) :
    ∃ v, p.Run v s before verdict after ∧ seen v s = foldLineEnds (seen u s) := by
  have hfold := h.fold hp
  refine ⟨(foldLineEnds (u.map Located.token)).map (Located.mk 0), hfold.run _ ?_, ?_⟩
  · exact List.map_map.trans (List.map_id _)
  · rw [seen, seen, foldLineEnds_append hfold.outside, List.map_map]
    exact congrArg (· ++ _) (List.map_id _)

/-- **Runs that see the same.**  If two runs see beginnings of one word, then they do the same,
but for the line of a failure. -/
theorem Run.congr_of_seen {z : Supply} {w : List Token} {verdict' : Verdict} {after' : Stack}
    (h : p.Run u s before verdict after) (h' : p.Run v z before verdict' after')
    (hu : seen u s <+: w) (hv : seen v z <+: w) :
    ∃ line, verdict' = verdict.onLine line ∧ after' = after := by
  rcases Nat.le_total u.length v.length with hle | hle
  · obtain ⟨-, hverdict, hafter⟩ := h.congr h' fun place hplace =>
      token_get_of_seen hv hu (Nat.le_trans hplace hle) hplace
    exact ⟨_, hverdict, hafter⟩
  · obtain ⟨-, hverdict, hafter⟩ := h'.congr h fun place hplace =>
      token_get_of_seen hu hv (Nat.le_trans hplace hle) hplace
    obtain ⟨line, hline⟩ := Verdict.exists_eq_onLine hverdict
    exact ⟨line, hline, hafter.symm⟩

/-- A whole source is read from its first token on that is no line end. -/
theorem Run.of_text {w : List Token} (h : Grammar.text.Run u s before verdict after)
    (hw : seen u s <+: w) :
    ∃ v, (Recipe.require (.rule .program) programStart).Run v s before verdict after ∧
      seen v s <+: w.dropWhile (·.kind = .lineEnd) := by
  cases h with
  | @andThen _ _ e v _ _ _ _ _ first second =>
    obtain ⟨-, rfl, hlineEnds, hnext⟩ := first.of_many_drop
    refine ⟨v, second, ?_⟩
    obtain ⟨w, rfl⟩ := hw
    have hskip : ∀ a ∈ e.map Located.token, decide (a.kind = .lineEnd) = true := by
      intro a ha
      obtain ⟨b, hb, rfl⟩ := List.mem_map.mp ha
      exact decide_eq_true (Terminal.fits_lineEnd.mp (hlineEnds b hb))
    rw [seen_append, List.append_assoc, List.dropWhile_append_of_pos hskip]
    obtain ⟨x, hx⟩ := exists_seen_eq_cons v s
    rw [hx, List.cons_append, List.dropWhile_cons_of_neg]
    · exact List.cons_prefix_cons.mpr ⟨rfl, List.prefix_append _ _⟩
    · simpa [Terminal.fits_lineEnd] using hnext
  | andThenStop first hstop => exact absurd first.of_many_drop.1 hstop

end Recipe

/-! ### Sources -/

/-- Tokens of which none ends a line stay as they are. -/
theorem foldLineEnds_of_forall_ne {w : List Token} (h : ∀ a ∈ w, a.kind ≠ .lineEnd) :
    foldLineEnds w = w := by
  induction w with
  | nil => rfl
  | cons a w ih =>
    obtain ⟨ha, hw⟩ := List.forall_mem_cons.mp h
    change foldLineEnds ([a] ++ w) = _
    rw [foldLineEnds_append (MeetOutside.of_single ha w), ih hw]
    rfl

namespace Outcome

variable {first second : Outcome} {p : Recipe} {b d : Builder}

/-- What a recipe does with a builder, it does with the folded tokens to come. -/
theorem Follows.exists_fold (h : first.Follows p b) (hb : b.cursor.Sound)
    (hp : p.foldsLineEnds = true) :
    ∃ (u : List Located) (least : Nat),
      p.Run u first.builder.cursor.supply b.stack first.verdict first.builder.stack ∧
        ∀ places > least, seen u first.builder.cursor.supply <+:
          foldLineEnds b.cursor.upcoming ++ List.replicate places .endOfInput := by
  obtain ⟨u, hu, hrun, -⟩ := h
  obtain ⟨v, hrun', hseen⟩ := hrun.exists_fold hp
  refine ⟨v, u.length, hrun', fun places hplaces => ?_⟩
  rw [hseen]
  have hprefix := foldLineEnds_mono (hb.seen_of_supply hu hplaces)
  have hends : ∀ a ∈ List.replicate places Token.endOfInput, a.kind ≠ .lineEnd := by
    intro a ha
    rw [List.eq_of_mem_replicate ha]
    exact Kind.noConfusion
  rwa [foldLineEnds_append, foldLineEnds_of_forall_ne hends] at hprefix
  intro a _ x hx hboth
  exact hends x (List.mem_of_mem_head? hx) hboth.2

/-- Two outcomes of one recipe are the same but for the line of a failure, if the tokens to
come were equal but for blank lines. -/
theorem Follows.congr_of_fold (hfirst : first.Follows p b) (hsecond : second.Follows p d)
    (hb : b.cursor.Sound) (hd : d.cursor.Sound) (hp : p.foldsLineEnds = true)
    (hfold : foldLineEnds b.cursor.upcoming = foldLineEnds d.cursor.upcoming)
    (hstack : d.stack = b.stack) :
    ∃ line, second.verdict = first.verdict.onLine line ∧
      second.builder.stack = first.builder.stack := by
  obtain ⟨u, m, hrun, hu⟩ := hfirst.exists_fold hb hp
  obtain ⟨v, n, hrun', hv⟩ := hsecond.exists_fold hd hp
  rw [hstack] at hrun'
  refine hrun.congr_of_seen hrun' (hu (m + n + 1) (by omega)) ?_
  rw [hfold]
  exact hv (m + n + 1) (by omega)

/-- Whole sources come to the same but for the line of a failure, if their tokens are equal but
for blank lines and line ends that come first. -/
theorem Follows.congr_of_text (hfirst : first.Follows Grammar.text b)
    (hsecond : second.Follows Grammar.text d) (hb : b.cursor.Sound) (hd : d.cursor.Sound)
    (hfold : (foldLineEnds b.cursor.upcoming).dropWhile (·.kind = .lineEnd) =
      (foldLineEnds d.cursor.upcoming).dropWhile (·.kind = .lineEnd))
    (hstack : d.stack = b.stack) :
    ∃ line, second.verdict = first.verdict.onLine line ∧
      second.builder.stack = first.builder.stack := by
  obtain ⟨u, m, hrun, hu⟩ := hfirst.exists_fold hb Grammar.foldsLineEnds_text
  obtain ⟨v, n, hrun', hv⟩ := hsecond.exists_fold hd Grammar.foldsLineEnds_text
  obtain ⟨u, hrun, hu⟩ := hrun.of_text (hu (m + n + 1) (by omega))
  obtain ⟨v, hrun', hv⟩ := hrun'.of_text (hv (m + n + 1) (by omega))
  rw [hstack] at hrun'
  rw [List.dropWhile_append] at hu hv
  rw [← hfold] at hv
  exact hrun.congr_of_seen hrun' hu hv

end Outcome

/-- **Blank lines do not count.**  Let each run of line ends in the tokens of two sources be
folded into one line end.  If the tokens are equal then, each rule makes the same of both
sources: the same tree, or none, or the same failure but for its line.  If they are equal up to
a line end that comes first, then the two sources are parsed to the same. -/
theorem blank_lines_do_not_count (source source' : String) :
    (foldLineEnds ((Located.ofSource source).map Located.token) =
        foldLineEnds ((Located.ofSource source').map Located.token) →
      ∀ rule, ∃ line,
        parseRule rule source' = (parseRule rule source).mapError (Failure.onLine line)) ∧
    ((foldLineEnds ((Located.ofSource source).map Located.token)).dropWhile (·.kind = .lineEnd) =
        (foldLineEnds ((Located.ofSource source').map Located.token)).dropWhile
          (·.kind = .lineEnd) →
      ∃ line, parse source' = (parse source).mapError (Failure.onLine line)) := by
  have hb : (Builder.start source).cursor.Sound := Cursor.sound_start source
  have hd : (Builder.start source').cursor.Sound := Cursor.sound_start source'
  rw [← Cursor.upcoming_start, ← Cursor.upcoming_start]
  constructor
  · intro hfold rule
    obtain ⟨line, hverdict, hstack⟩ := (Builder.follows_apply hb rule).congr_of_fold
      (Builder.follows_apply hd rule) hb hd rfl hfold rfl
    exact ⟨line, Outcome.tree?_congr hverdict hstack⟩
  · intro hfold
    obtain ⟨line, hverdict, hstack⟩ := (Builder.follows_readText source).congr_of_text
      (Builder.follows_readText source') hb hd hfold rfl
    rw [Builder.parse_eq, Builder.parse_eq]
    exact ⟨line, Outcome.complete_congr hverdict hstack⟩

/-- A declaration with a comment behind it and one on a line of its own, and a program with
blank lines before it that breaks off in a block. -/
theorem blank_lines_around_comments :
    let broken := "Bug b \x7b\nmove\n\x7d"
    let spaced := "\n// b\n\nBug b \x7b // c\n/**/\n\n\nmove\n\n\x7d"
    (∃ line, parseRule .varDeclaration "var a // b\n// c\n\r\n" =
        (parseRule .varDeclaration "var a\n").mapError (Failure.onLine line)) ∧
      parse broken = .error (.incomplete 2 (.item "an expression after 'move'")) ∧
      ∃ line, parse spaced = .error (.incomplete line (.item "an expression after 'move'")) := by
  intro broken spaced
  have hbroken : parse broken = .error (.incomplete 2 (.item "an expression after 'move'")) := by
    decide +kernel
  obtain ⟨line, hspaced⟩ := (blank_lines_do_not_count broken spaced).2 (by decide +kernel)
  refine ⟨(blank_lines_do_not_count _ _).1 (by decide +kernel) .varDeclaration, hbroken, line, ?_⟩
  rw [hspaced, hbroken]
  rfl

end BugLang
