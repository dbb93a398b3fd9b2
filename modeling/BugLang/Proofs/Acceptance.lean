import BugLang.Recipe
import BugLang.Proofs.Sentence

/-!
# What a recipe accepts

`Recipe.Accepts` says which words a recipe can read and what it makes of the stack, if
every choice and every repetition may go as it likes.  It does not ask what stands behind
the word.

The recipes of the grammar are rows of smaller recipes, so there is a lemma for each kind
of recipe at the front of a row.  With these lemmas, a row of recipes turns into a list of
the words that it reads and the tree that grows on top of the stack.

* `Recipe.Reads`: a recipe reads a phrase and puts its tree on the stack.
* `Recipe.accepts_cons`: a row accepts what its first recipe and the others accept.
-/

namespace BugLang

namespace Tree

/-- No further children. -/
@[simp] theorem addChildren_nil (tree : Tree) : tree.addChildren [] = tree := by
  cases tree
  simp [addChildren, value, children]

/-- Children that are added one after another. -/
@[simp] theorem addChildren_addChildren (tree : Tree) (more others : List Tree) :
    (tree.addChildren more).addChildren others = tree.addChildren (more ++ others) := by
  simp [addChildren, value, children]

/-- Children of a leaf. -/
@[simp] theorem addChildren_leaf (value : Token) (more : List Tree) :
    (leaf value).addChildren more = .node value more := rfl

/-- Further children of a node. -/
@[simp] theorem addChildren_node (value : Token) (children more : List Tree) :
    (node value children).addChildren more = .node value (children ++ more) := rfl

/-- Further children of a node that has no token in the source. -/
@[simp] theorem addChildren_made (text : String) (children more : List Tree) :
    (made text children).addChildren more = .made text (children ++ more) := rfl

end Tree

namespace Terminal

/-- A line end is a token of its kind. -/
@[simp] theorem fits_lineEnd {a : Token} : lineEnd.fits a ↔ a.kind = .lineEnd :=
  decide_eq_true_iff

/-- A given symbol is one token. -/
@[simp] theorem fits_symbol {text : String} {a : Token} :
    (symbol text).fits a ↔ a = .symbol text :=
  decide_eq_true_iff

end Terminal

namespace Stack

/-- A reduction of two entries, the lower one the root. -/
theorem reduce_lower (child root : Tree) (below : Stack) :
    reduce 2 [1] (child :: root :: below) = .ok (root.addChildren [child] :: below) := by
  simp [reduce, Covers, at?]

/-- A reduction of two entries, the upper one the root. -/
theorem reduce_upper (root child : Tree) (below : Stack) :
    reduce 1 [2] (root :: child :: below) = .ok (root.addChildren [child] :: below) := by
  simp [reduce, Covers, at?]

/-- A reduction of three entries, the one between the others the root. -/
theorem reduce_between (right root left : Tree) (below : Stack) :
    reduce 2 [3, 1] (right :: root :: left :: below) =
      .ok (root.addChildren [left, right] :: below) := by
  simp [reduce, Covers, at?]

/-- A reduction of three entries, the lowest one the root. -/
theorem reduce_lowest (second first root : Tree) (below : Stack) :
    reduce 3 [2, 1] (second :: first :: root :: below) =
      .ok (root.addChildren [first, second] :: below) := by
  simp [reduce, Covers, at?]

/-- A reduction of three entries, the uppermost one the root. -/
theorem reduce_uppermost (root second first : Tree) (below : Stack) :
    reduce 1 [3, 2] (root :: second :: first :: below) =
      .ok (root.addChildren [first, second] :: below) := by
  simp [reduce, Covers, at?]

end Stack

namespace Recipe

/-- Going on some number of times from one stack to the next. -/
inductive Repeats (round : List Token → Stack → Stack → Prop) : List Token → Stack → Stack → Prop
  | nil {stack : Stack} : Repeats round [] stack stack
  | cons {u v : List Token} {before between after : Stack} (hfirst : round u before between)
      (hothers : Repeats round v between after) : Repeats round (u ++ v) before after

/-- `recipe.Accepts lang w before after`: the recipe can read the word `w` and turn the stack
`before` into the stack `after`, if the rules that it calls read the phrases of a language. -/
def Accepts (lang : Language) : Recipe → List Token → Stack → Stack → Prop
  | .done, w, before, after => w = [] ∧ after = before
  | .keep terminal, w, before, after =>
    ∃ a, (terminal.fits a ∧ w = [a]) ∧ after = .leaf a :: before
  | .drop terminal, w, before, after => ∃ a, (terminal.fits a ∧ w = [a]) ∧ after = before
  | .ahead _, w, before, after => w = [] ∧ after = before
  | .rule named, w, before, after => ∃ t, lang named w t ∧ after = t :: before
  | .node text, w, before, after => w = [] ∧ after = .made text [] :: before
  | .replaceTop text, w, before, after =>
    w = [] ∧ ∃ top below, before = top :: below ∧ after = .made text [] :: below
  | .reduce root children, w, before, after => w = [] ∧ before.reduce root children = .ok after
  | .andThen first second, w, before, after =>
    ∃ u v between, w = u ++ v ∧ first.Accepts lang u before between ∧
      second.Accepts lang v between after
  | .orElse first second, w, before, after =>
    first.Accepts lang w before after ∨ second.Accepts lang w before after
  | .many body, w, before, after => Repeats (body.Accepts lang) w before after
  | .require body _, w, before, after => body.Accepts lang w before after
  | .promised body _, w, before, after => body.Accepts lang w before after

/-- Whether a recipe reads the words of a phrase and puts their tree on the stack. -/
def Reads (lang : Language) (p : Recipe) (phrase : Phrase) : Prop :=
  ∀ w before after, p.Accepts lang w before after ↔ ∃ t, phrase w t ∧ after = t :: before

variable {lang : Language} {p q : Recipe} {ps : List Recipe} {phrase : Phrase} {w : List Token}
  {before after below : Stack} {top : Tree}

/-- A phrase may be put in another way. -/
theorem Reads.congr {phrase' : Phrase} (h : p.Reads lang phrase)
    (hphrase : ∀ w t, phrase w t ↔ phrase' w t) : p.Reads lang phrase' :=
  fun w before after =>
    (h w before after).trans (exists_congr fun t => and_congr_left fun _ => hphrase w t)

/-- A rule reads its phrases. -/
theorem reads_rule (rule : Rule) : (Recipe.rule rule).Reads lang (lang rule) :=
  fun _ _ _ => Iff.rfl

/-- A token that is kept is read as a leaf. -/
theorem reads_keep (terminal : Terminal) : (keep terminal).Reads lang (Single terminal) := by
  intro w before after
  constructor
  · intro hword
    obtain ⟨a, ⟨hfits, rfl⟩, rfl⟩ := hword
    exact ⟨_, .intro hfits, rfl⟩
  · intro hword
    obtain ⟨t, ⟨hfits⟩, rfl⟩ := hword
    exact ⟨_, ⟨hfits, rfl⟩, rfl⟩

/-- A symbol that is kept. -/
theorem accepts_keep_symbol {text : String} :
    (keep (.symbol text)).Accepts lang w before after ↔
      w = [.symbol text] ∧ after = .leaf (.symbol text) :: before := by
  constructor
  · intro hword
    obtain ⟨a, ⟨hfits, rfl⟩, rfl⟩ := hword
    obtain rfl := Terminal.fits_symbol.mp hfits
    exact ⟨rfl, rfl⟩
  · intro hword
    obtain ⟨rfl, rfl⟩ := hword
    exact ⟨_, ⟨Terminal.fits_symbol.mpr rfl, rfl⟩, rfl⟩

/-- A token of some kind that is kept. -/
theorem accepts_keep_ofKind {kind : Kind} :
    (keep (.ofKind kind)).Accepts lang w before after ↔
      ∃ a, a.kind = kind ∧ w = [a] ∧ after = .leaf a :: before := by
  constructor
  · intro hword
    obtain ⟨a, ⟨hfits, rfl⟩, rfl⟩ := hword
    exact ⟨a, of_decide_eq_true hfits, rfl, rfl⟩
  · intro hword
    obtain ⟨a, ha, rfl, rfl⟩ := hword
    exact ⟨a, ⟨decide_eq_true ha, rfl⟩, rfl⟩

/-- Two recipes in a row. -/
theorem accepts_andThen :
    (andThen p q).Accepts lang w before after ↔
      (inOrder [p, q]).Accepts lang w before after :=
  Iff.rfl

/-- One of two recipes. -/
theorem accepts_orElse :
    (orElse p q).Accepts lang w before after ↔
      p.Accepts lang w before after ∨ q.Accepts lang w before after :=
  Iff.rfl

/-- What is read behind a token that is dropped. -/
theorem Reads.behind (h : p.Reads lang phrase) (text : String) :
    (andThen (drop (.symbol text)) p).Reads lang (Behind (.symbol text) phrase) := by
  intro w before after
  constructor
  · intro hword
    obtain ⟨u, v, between, rfl, ⟨a, ⟨hfits, rfl⟩, rfl⟩, hp⟩ := hword
    obtain rfl := Terminal.fits_symbol.mp hfits
    obtain ⟨t, ht, rfl⟩ := (h _ _ _).mp hp
    exact ⟨t, .intro ht, rfl⟩
  · intro hword
    obtain ⟨t, ⟨ht⟩, rfl⟩ := hword
    exact ⟨[_], _, before, rfl, ⟨_, ⟨Terminal.fits_symbol.mpr rfl, rfl⟩, rfl⟩,
      (h _ _ _).mpr ⟨t, ht, rfl⟩⟩

/-- A further tree becomes a child of the top entry. -/
theorem Reads.accepts_attached (h : p.Reads lang phrase) (what : String) :
    (attached p what).Accepts lang w (top :: below) after ↔
      ∃ t, phrase w t ∧ after = top.addChildren [t] :: below := by
  constructor
  · intro hword
    obtain ⟨u, v, between, rfl, hp, rfl, hreduce⟩ := hword
    obtain ⟨t, ht, rfl⟩ := (h _ _ _).mp hp
    rw [Stack.reduce_lower] at hreduce
    exact ⟨t, by rwa [List.append_nil], (Except.ok.inj hreduce).symm⟩
  · intro hword
    obtain ⟨t, ht, rfl⟩ := hword
    exact ⟨w, [], t :: top :: below, (List.append_nil w).symm, (h _ _ _).mpr ⟨t, ht, rfl⟩, rfl,
      Stack.reduce_lower t top below⟩

/-- What is accepted round by round, each round with one more child of the top entry, is
a sequence of phrases, whose trees become children. -/
theorem repeats_iff_sequence {round : List Token → Stack → Stack → Prop}
    (h : ∀ u top after, round u (top :: below) after ↔
      ∃ t, phrase u t ∧ after = top.addChildren [t] :: below) :
    Repeats round w (top :: below) after ↔
      ∃ ts, Sequence phrase w ts ∧ after = top.addChildren ts :: below := by
  constructor
  · intro hrounds
    generalize hbefore : top :: below = before at hrounds
    induction hrounds generalizing top with
    | nil =>
      subst hbefore
      exact ⟨[], .nil, by rw [Tree.addChildren_nil]⟩
    | cons hfirst _ ih =>
      subst hbefore
      obtain ⟨t, ht, rfl⟩ := (h _ _ _).mp hfirst
      obtain ⟨ts, hts, rfl⟩ := ih rfl
      exact ⟨t :: ts, .cons ht hts, by rw [Tree.addChildren_addChildren, List.singleton_append]⟩
  · intro hword
    obtain ⟨ts, hts, rfl⟩ := hword
    induction hts generalizing top with
    | nil =>
      rw [Tree.addChildren_nil]
      exact .nil
    | @cons u v t ts ht _ ih =>
      have hothers := @ih (top.addChildren [t])
      rw [Tree.addChildren_addChildren, List.singleton_append] at hothers
      exact .cons ((h _ _ _).mpr ⟨t, ht, rfl⟩) hothers

/-- Trees that are gathered are those of a sequence of phrases. -/
theorem Reads.accepts_gather (h : p.Reads lang phrase) :
    (gather p).Accepts lang w (top :: below) after ↔
      ∃ ts, Sequence phrase w ts ∧ after = top.addChildren ts :: below :=
  repeats_iff_sequence fun _ _ _ => h.accepts_attached ""

/-- Names behind commas are a sequence of phrases with commas before them. -/
theorem Reads.accepts_furtherBehindCommas (h : p.Reads lang phrase) (what : String) :
    (many (andThen (drop (.symbol ",")) (attached p what))).Accepts lang w (top :: below) after ↔
      ∃ ts, Sequence (Behind (.symbol ",") phrase) w ts ∧ after = top.addChildren ts :: below := by
  refine repeats_iff_sequence fun u top after => ?_
  constructor
  · intro hword
    obtain ⟨u, v, between, rfl, ⟨a, ⟨hfits, rfl⟩, rfl⟩, hp⟩ := hword
    obtain rfl := Terminal.fits_symbol.mp hfits
    obtain ⟨t, ht, rfl⟩ := (h.accepts_attached what).mp hp
    exact ⟨t, .intro ht, rfl⟩
  · intro hword
    obtain ⟨t, ⟨ht⟩, rfl⟩ := hword
    exact ⟨[_], _, _, rfl, ⟨_, ⟨Terminal.fits_symbol.mpr rfl, rfl⟩, rfl⟩,
      (h.accepts_attached what).mpr ⟨t, ht, rfl⟩⟩

/-- Line ends that are dropped one by one. -/
theorem accepts_many_drop_lineEnd :
    (many (drop .lineEnd)).Accepts lang w before after ↔
      (∀ a ∈ w, a.kind = .lineEnd) ∧ after = before := by
  constructor
  · intro h
    induction h with
    | nil => exact ⟨nofun, rfl⟩
    | cons hfirst _ ih =>
      obtain ⟨a, ⟨hfits, rfl⟩, rfl⟩ := hfirst
      exact ⟨List.forall_mem_cons.mpr ⟨Terminal.fits_lineEnd.mp hfits, ih.1⟩, ih.2⟩
  · intro hword
    obtain ⟨hw, rfl⟩ := hword
    induction w with
    | nil => exact .nil
    | cons a w ih =>
      obtain ⟨ha, hw⟩ := List.forall_mem_cons.mp hw
      exact .cons (u := [a]) ⟨a, ⟨Terminal.fits_lineEnd.mpr ha, rfl⟩, rfl⟩ (ih hw)

/-- Line ends that have to come. -/
theorem accepts_endLine {what : String} :
    (endLine what).Accepts lang w before after ↔ LineEnds w ∧ after = before := by
  constructor
  · intro hword
    obtain ⟨u, v, between, rfl, ⟨a, ⟨hfits, rfl⟩, rfl⟩, hothers⟩ := hword
    obtain ⟨hv, rfl⟩ := accepts_many_drop_lineEnd.mp hothers
    exact ⟨⟨List.cons_ne_nil a v, List.forall_mem_cons.mpr ⟨Terminal.fits_lineEnd.mp hfits, hv⟩⟩,
      rfl⟩
  · intro hword
    obtain ⟨⟨hne, hw⟩, rfl⟩ := hword
    obtain ⟨a, v, rfl⟩ := List.exists_cons_of_ne_nil hne
    obtain ⟨ha, hv⟩ := List.forall_mem_cons.mp hw
    exact ⟨[a], v, after, rfl, ⟨a, ⟨Terminal.fits_lineEnd.mpr ha, rfl⟩, rfl⟩,
      accepts_many_drop_lineEnd.mpr ⟨hv, rfl⟩⟩

/-! ### Rows -/

/-- A row accepts what its first recipe and the others accept. -/
theorem accepts_cons :
    (inOrder (p :: ps)).Accepts lang w before after ↔
      ∃ u v between, w = u ++ v ∧ p.Accepts lang u before between ∧
        (inOrder ps).Accepts lang v between after := by
  cases ps with
  | nil =>
    constructor
    · exact fun h => ⟨w, [], after, (List.append_nil w).symm, h, rfl, rfl⟩
    · intro hword
      obtain ⟨u, v, between, rfl, h, rfl, rfl⟩ := hword
      rwa [List.append_nil]
  | cons q ps => exact Iff.rfl

/-- A row whose first recipe leaves a stack that is known. -/
theorem accepts_cons_of_iff {ι : Type} {shape : ι → List Token → Prop} {left : ι → Stack}
    (h : ∀ u between, p.Accepts lang u before between ↔ ∃ i, shape i u ∧ between = left i) :
    (inOrder (p :: ps)).Accepts lang w before after ↔
      ∃ i u v, shape i u ∧ w = u ++ v ∧ (inOrder ps).Accepts lang v (left i) after := by
  rw [accepts_cons]
  constructor
  · intro hword
    obtain ⟨u, v, between, rfl, hp, hps⟩ := hword
    obtain ⟨i, hi, rfl⟩ := (h u between).mp hp
    exact ⟨i, u, v, hi, rfl, hps⟩
  · intro hword
    obtain ⟨i, u, v, hi, rfl, hps⟩ := hword
    exact ⟨u, v, left i, rfl, (h u _).mpr ⟨i, hi, rfl⟩, hps⟩

/-- A row whose first recipe reads nothing and leaves a stack that is known. -/
theorem accepts_cons_of_eq {left : Stack}
    (h : ∀ u between, p.Accepts lang u before between ↔ u = [] ∧ between = left) :
    (inOrder (p :: ps)).Accepts lang w before after ↔ (inOrder ps).Accepts lang w left after := by
  rw [accepts_cons]
  constructor
  · intro hword
    obtain ⟨u, v, between, rfl, hp, hps⟩ := hword
    obtain ⟨rfl, rfl⟩ := (h u between).mp hp
    exact hps
  · exact fun hps => ⟨[], w, left, rfl, (h [] left).mpr ⟨rfl, rfl⟩, hps⟩

/-- A row that ends. -/
theorem accepts_nil : (inOrder []).Accepts lang w before after ↔ w = [] ∧ after = before :=
  Iff.rfl

/-- A row with a phrase at the front. -/
theorem Reads.accepts_cons (h : p.Reads lang phrase) :
    (inOrder (p :: ps)).Accepts lang w before after ↔
      ∃ t u v, phrase u t ∧ w = u ++ v ∧ (inOrder ps).Accepts lang v (t :: before) after :=
  accepts_cons_of_iff (h · before ·)

/-- A row with a rule at the front. -/
theorem accepts_rule_cons {named : Rule} :
    (inOrder (rule named :: ps)).Accepts lang w before after ↔
      ∃ t u v, lang named u t ∧ w = u ++ v ∧ (inOrder ps).Accepts lang v (t :: before) after :=
  (reads_rule named).accepts_cons

/-- A row with a token of some kind at the front that is kept. -/
theorem accepts_keep_ofKind_cons {kind : Kind} :
    (inOrder (keep (.ofKind kind) :: ps)).Accepts lang w before after ↔
      ∃ a v, a.kind = kind ∧ w = a :: v ∧
        (inOrder ps).Accepts lang v (.leaf a :: before) after := by
  rw [(reads_keep _).accepts_cons]
  constructor
  · intro hword
    obtain ⟨t, u, v, ⟨hfits⟩, rfl, h⟩ := hword
    exact ⟨_, v, of_decide_eq_true hfits, rfl, h⟩
  · intro hword
    obtain ⟨a, v, ha, rfl, h⟩ := hword
    exact ⟨_, _, v, .intro (decide_eq_true ha), rfl, h⟩

private theorem accepts_keep_exactly_cons {a : Token} :
    (inOrder (keep (.exactly a) :: ps)).Accepts lang w before after ↔
      ∃ v, w = a :: v ∧ (inOrder ps).Accepts lang v (.leaf a :: before) after := by
  rw [(reads_keep _).accepts_cons]
  constructor
  · intro hword
    obtain ⟨t, u, v, ⟨hfits⟩, rfl, h⟩ := hword
    obtain rfl := of_decide_eq_true hfits
    exact ⟨v, rfl, h⟩
  · intro hword
    obtain ⟨v, rfl, h⟩ := hword
    exact ⟨_, _, v, .intro (decide_eq_true rfl), rfl, h⟩

/-- A row with a keyword at the front that is kept. -/
theorem accepts_keep_keyword_cons {word : String} :
    (inOrder (keep (.keyword word) :: ps)).Accepts lang w before after ↔
      ∃ v, w = .keyword word :: v ∧
        (inOrder ps).Accepts lang v (.leaf (.keyword word) :: before) after :=
  accepts_keep_exactly_cons

/-- A row with a symbol at the front that is kept. -/
theorem accepts_keep_symbol_cons {text : String} :
    (inOrder (keep (.symbol text) :: ps)).Accepts lang w before after ↔
      ∃ v, w = .symbol text :: v ∧
        (inOrder ps).Accepts lang v (.leaf (.symbol text) :: before) after :=
  accepts_keep_exactly_cons

private theorem accepts_drop_exactly_cons {a : Token} :
    (inOrder (drop (.exactly a) :: ps)).Accepts lang w before after ↔
      ∃ v, w = a :: v ∧ (inOrder ps).Accepts lang v before after := by
  rw [Recipe.accepts_cons]
  constructor
  · intro hword
    obtain ⟨u, v, between, rfl, ⟨b, ⟨hfits, rfl⟩, rfl⟩, h⟩ := hword
    obtain rfl := of_decide_eq_true hfits
    exact ⟨v, rfl, h⟩
  · intro hword
    obtain ⟨v, rfl, h⟩ := hword
    exact ⟨[a], v, before, rfl, ⟨a, ⟨decide_eq_true rfl, rfl⟩, rfl⟩, h⟩

/-- A row with a keyword at the front that is dropped. -/
theorem accepts_drop_keyword_cons {word : String} :
    (inOrder (drop (.keyword word) :: ps)).Accepts lang w before after ↔
      ∃ v, w = .keyword word :: v ∧ (inOrder ps).Accepts lang v before after :=
  accepts_drop_exactly_cons

/-- A row with a symbol at the front that is dropped. -/
theorem accepts_drop_symbol_cons {text : String} :
    (inOrder (drop (.symbol text) :: ps)).Accepts lang w before after ↔
      ∃ v, w = .symbol text :: v ∧ (inOrder ps).Accepts lang v before after :=
  accepts_drop_exactly_cons

/-- A row with a token of some kind at the front that is dropped. -/
theorem accepts_drop_ofKind_cons {kind : Kind} :
    (inOrder (drop (.ofKind kind) :: ps)).Accepts lang w before after ↔
      ∃ a v, a.kind = kind ∧ w = a :: v ∧ (inOrder ps).Accepts lang v before after := by
  rw [Recipe.accepts_cons]
  constructor
  · intro hword
    obtain ⟨u, v, between, rfl, ⟨a, ⟨hfits, rfl⟩, rfl⟩, h⟩ := hword
    exact ⟨a, v, of_decide_eq_true hfits, rfl, h⟩
  · intro hword
    obtain ⟨a, v, ha, rfl, h⟩ := hword
    exact ⟨[a], v, before, rfl, ⟨a, ⟨decide_eq_true ha, rfl⟩, rfl⟩, h⟩

/-- A row with a node at the front. -/
theorem accepts_node_cons {text : String} :
    (inOrder (node text :: ps)).Accepts lang w before after ↔
      (inOrder ps).Accepts lang w (.made text [] :: before) after :=
  accepts_cons_of_eq fun _ _ => Iff.rfl

/-- A row with a look at the next token at the front. -/
theorem accepts_ahead_cons {terminal : Terminal} :
    (inOrder (ahead terminal :: ps)).Accepts lang w before after ↔
      (inOrder ps).Accepts lang w before after :=
  accepts_cons_of_eq fun _ _ => Iff.rfl

/-- A row with a required recipe at the front. -/
theorem accepts_require_cons {missing : Missing} :
    (inOrder (require p missing :: ps)).Accepts lang w before after ↔
      (inOrder (p :: ps)).Accepts lang w before after := by
  rw [Recipe.accepts_cons, Recipe.accepts_cons]
  exact Iff.rfl

/-- A row with a promised recipe at the front. -/
theorem accepts_promised_cons {fault : Fault} :
    (inOrder (promised p fault :: ps)).Accepts lang w before after ↔
      (inOrder (p :: ps)).Accepts lang w before after := by
  rw [Recipe.accepts_cons, Recipe.accepts_cons]
  exact Iff.rfl

/-- A row with a choice at the front. -/
theorem accepts_orElse_cons :
    (inOrder (orElse p q :: ps)).Accepts lang w before after ↔
      (inOrder (p :: ps)).Accepts lang w before after ∨
        (inOrder (q :: ps)).Accepts lang w before after := by
  simp only [Recipe.accepts_cons]
  constructor
  · intro hword
    obtain ⟨u, v, between, hw, hp | hq, h⟩ := hword
    · exact .inl ⟨u, v, between, hw, hp, h⟩
    · exact .inr ⟨u, v, between, hw, hq, h⟩
  · intro hword
    obtain (⟨u, v, between, hw, hp, h⟩ | ⟨u, v, between, hw, hq, h⟩) := hword
    · exact ⟨u, v, between, hw, .inl hp, h⟩
    · exact ⟨u, v, between, hw, .inr hq, h⟩

/-- A row with a row at the front. -/
theorem accepts_inOrder_cons {qs : List Recipe} :
    (inOrder (inOrder qs :: ps)).Accepts lang w before after ↔
      (inOrder (qs ++ ps)).Accepts lang w before after := by
  induction qs generalizing w before with
  | nil => exact accepts_cons_of_eq fun _ _ => Iff.rfl
  | cons q qs ih =>
    simp only [List.cons_append, Recipe.accepts_cons (p := q), ← ih]
    simp only [Recipe.accepts_cons]
    constructor
    · intro hword
      obtain ⟨_, v, between, rfl, ⟨u, u', middle, rfl, hq, hqs⟩, h⟩ := hword
      exact ⟨u, u' ++ v, middle, List.append_assoc u u' v, hq, u', v, between, rfl, hqs, h⟩
    · intro hword
      obtain ⟨u, _, middle, rfl, hq, u', v, between, rfl, hqs, h⟩ := hword
      exact ⟨u ++ u', v, between, (List.append_assoc u u' v).symm, ⟨u, u', middle, rfl, hq, hqs⟩, h⟩

/-- A row with two recipes in one at the front. -/
theorem accepts_andThen_cons :
    (inOrder (andThen p q :: ps)).Accepts lang w before after ↔
      (inOrder (p :: q :: ps)).Accepts lang w before after := by
  change (inOrder (inOrder [p, q] :: ps)).Accepts lang w before after ↔ _
  exact accepts_inOrder_cons

/-- A row with a recipe at the front that may be left out. -/
theorem accepts_maybe_cons :
    (inOrder (maybe p :: ps)).Accepts lang w before after ↔
      (inOrder (p :: ps)).Accepts lang w before after ∨
        (inOrder ps).Accepts lang w before after := by
  rw [maybe, accepts_orElse_cons, accepts_cons_of_eq (p := done) fun _ _ => Iff.rfl]

/-- A row with a rule at the front whose tree becomes a child. -/
theorem accepts_attached_rule_cons {named : Rule} {what : String} :
    (inOrder (attached (rule named) what :: ps)).Accepts lang w (top :: below) after ↔
      ∃ t u v, lang named u t ∧ w = u ++ v ∧
        (inOrder ps).Accepts lang v (top.addChildren [t] :: below) after :=
  accepts_cons_of_iff fun _ _ => (reads_rule named).accepts_attached what

/-- A row with a token of some kind at the front that becomes a child. -/
theorem accepts_attached_keep_cons {kind : Kind} {what : String} :
    (inOrder (attached (keep (.ofKind kind)) what :: ps)).Accepts lang w (top :: below) after ↔
      ∃ a v, a.kind = kind ∧ w = a :: v ∧
        (inOrder ps).Accepts lang v (top.addChildren [.leaf a] :: below) after := by
  rw [accepts_cons_of_iff fun _ _ => (reads_keep _).accepts_attached what]
  constructor
  · intro hword
    obtain ⟨t, u, v, ⟨hfits⟩, rfl, h⟩ := hword
    exact ⟨_, v, of_decide_eq_true hfits, rfl, h⟩
  · intro hword
    obtain ⟨a, v, ha, rfl, h⟩ := hword
    exact ⟨_, _, v, .intro (decide_eq_true ha), rfl, h⟩

/-- A row with phrases at the front whose trees are gathered. -/
theorem Reads.accepts_gather_cons (h : p.Reads lang phrase) :
    (inOrder (gather p :: ps)).Accepts lang w (top :: below) after ↔
      ∃ ts u v, Sequence phrase u ts ∧ w = u ++ v ∧
        (inOrder ps).Accepts lang v (top.addChildren ts :: below) after :=
  accepts_cons_of_iff fun _ _ => h.accepts_gather

/-- A row with sentences of a rule at the front whose trees are gathered. -/
theorem accepts_gather_rule_cons {named : Rule} :
    (inOrder (gather (rule named) :: ps)).Accepts lang w (top :: below) after ↔
      ∃ ts u v, Sequence (lang named) u ts ∧ w = u ++ v ∧
        (inOrder ps).Accepts lang v (top.addChildren ts :: below) after :=
  (reads_rule named).accepts_gather_cons

/-- A row with phrases behind commas at the front. -/
theorem Reads.accepts_behindCommas_cons (h : p.Reads lang phrase) {what : String} :
    (inOrder (many (andThen (drop (.symbol ",")) (attached p what)) :: ps)).Accepts lang w
        (top :: below) after ↔
      ∃ ts u v, Sequence (Behind (.symbol ",") phrase) u ts ∧ w = u ++ v ∧
        (inOrder ps).Accepts lang v (top.addChildren ts :: below) after :=
  accepts_cons_of_iff fun _ _ => h.accepts_furtherBehindCommas what

/-- A row with a symbol at the front that has to come. -/
theorem accepts_punctuation_cons {text place : String} :
    (inOrder (punctuation text place :: ps)).Accepts lang w before after ↔
      ∃ v, w = .symbol text :: v ∧ (inOrder ps).Accepts lang v before after := by
  rw [punctuation, accepts_require_cons]
  exact accepts_drop_exactly_cons

/-- A row with line ends at the front. -/
theorem accepts_endLine_cons {what : String} :
    (inOrder (endLine what :: ps)).Accepts lang w before after ↔
      ∃ e v, LineEnds e ∧ w = e ++ v ∧ (inOrder ps).Accepts lang v before after := by
  rw [Recipe.accepts_cons]
  constructor
  · intro hword
    obtain ⟨e, v, between, rfl, hread, h⟩ := hword
    obtain ⟨hend, rfl⟩ := accepts_endLine.mp hread
    exact ⟨e, v, hend, rfl, h⟩
  · intro hword
    obtain ⟨e, v, hend, rfl, h⟩ := hword
    exact ⟨e, v, before, rfl, accepts_endLine.mpr ⟨hend, rfl⟩, h⟩

/-- A row with a reduction at the front. -/
theorem accepts_reduce_cons {root : Nat} {children : List Nat} {left : Stack}
    (h : before.reduce root children = .ok left) :
    (inOrder (reduce root children :: ps)).Accepts lang w before after ↔
      (inOrder ps).Accepts lang w left after :=
  accepts_cons_of_eq fun _ between => by
    rw [Accepts, h, Except.ok.injEq, eq_comm (a := left)]

/-- A row with the top entry made the last child of the one below it. -/
theorem accepts_attach_cons {child : Tree} :
    (inOrder (attach :: ps)).Accepts lang w (child :: top :: below) after ↔
      (inOrder ps).Accepts lang w (top.addChildren [child] :: below) after :=
  accepts_reduce_cons (Stack.reduce_lower child top below)

end Recipe

end BugLang
