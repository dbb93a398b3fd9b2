import BugLang.Proofs.Progress

/-!
# Builders in use

A user of a builder reads tokens, looks at them, takes them back, keeps them, and applies
rules, in any order and also after rules have failed.  A builder never moves its cursor in
another way than by reading a token and taking it back, so whatever was done, the cursor
has come about from reading the source.

* `Builder.reached_after`: whatever is done, the cursor has read the source.
-/

namespace BugLang

/-- A condition on cursors that reading and taking back do not break. -/
structure Cursor.Kept (holds : Cursor → Prop) : Prop where
  next : ∀ c, holds c → holds c.next.2
  putBack : ∀ c, holds c → holds c.putBack

namespace Builder

variable {holds : Cursor → Prop} (hkept : Cursor.Kept holds)

include hkept

/-- Taking a token or leaving it keeps the condition. -/
theorem kept_take (terminal : Terminal) {b : Builder} (hb : holds b.cursor) :
    holds (b.take terminal).2.cursor := by
  by_cases hfits : terminal.fits b.cursor.nextLocated.token
  · rw [take_of_fits hfits]
    exact hkept.next _ hb
  · rw [take_of_not_fits hfits]
    exact hkept.putBack _ (hkept.next _ hb)

/-- Keeping a token keeps the condition. -/
theorem kept_keep (terminal : Terminal) {b : Builder} (hb : holds b.cursor) :
    holds (b.keep terminal).builder.cursor := by
  have htake := kept_take hkept terminal hb
  unfold keep
  split <;> rename_i h <;> rw [h] at htake <;> exact htake

/-- Dropping a token keeps the condition. -/
theorem kept_drop (terminal : Terminal) {b : Builder} (hb : holds b.cursor) :
    holds (b.drop terminal).builder.cursor := by
  have htake := kept_take hkept terminal hb
  unfold drop
  split <;> rename_i h <;> rw [h] at htake <;> exact htake

omit hkept in
/-- Repeating an attempt keeps what the attempt keeps. -/
theorem kept_repeated {attempt : Builder → Outcome}
    (hattempt : ∀ b : Builder, holds b.cursor → holds (attempt b).builder.cursor) (rounds : Nat)
    {b : Builder} (hb : holds b.cursor) : holds (b.repeated attempt rounds).builder.cursor := by
  induction rounds generalizing b with
  | zero => exact hb
  | succ rounds ih =>
    have hfirst := hattempt b hb
    rw [repeated]
    rcases h : attempt b with ⟨_ | _ | failure, after⟩ <;> rw [h] at hfirst
    · exact ih hfirst
    · exact hfirst
    · exact hfirst

/-- Following a recipe keeps what applying rules keeps. -/
theorem kept_carryOut {call : Rule → Builder → Outcome}
    (hcall : ∀ rule (b : Builder), holds b.cursor → holds (call rule b).builder.cursor)
    (rounds : Nat) (p : Recipe) {b : Builder} (hb : holds b.cursor) :
    holds (p.carryOut call rounds b).builder.cursor := by
  induction p generalizing b with
  | done | node => exact hb
  | keep terminal => exact kept_keep hkept terminal hb
  | drop terminal => exact kept_drop hkept terminal hb
  | ahead terminal => exact hkept.putBack _ (hkept.next _ hb)
  | rule named => exact hcall named b hb
  | replaceTop text =>
    obtain ⟨cursor, _ | ⟨top, below⟩⟩ := b <;> exact hb
  | reduce root children =>
    rw [Recipe.carryOut]
    cases b.stack.reduce root children <;> exact hb
  | andThen p q ihFirst ihSecond =>
    have hfirst := ihFirst hb
    rw [Recipe.carryOut]
    rcases h : p.carryOut call rounds b with ⟨_ | _ | failure, after⟩ <;> rw [h] at hfirst
    · exact ihSecond hfirst
    · exact hfirst
    · exact hfirst
  | orElse p q ihFirst ihSecond =>
    have hfirst := ihFirst hb
    rw [Recipe.carryOut]
    rcases h : p.carryOut call rounds b with ⟨_ | _ | failure, after⟩ <;> rw [h] at hfirst
    · exact hfirst
    · exact ihSecond hfirst
    · exact hfirst
  | many body ih => exact kept_repeated (fun b hb => ih hb) rounds hb
  | require body missing ih | promised body fault ih =>
    have hbody := ih hb
    rw [Recipe.carryOut]
    rcases h : body.carryOut call rounds b with ⟨_ | _ | failure, after⟩ <;> rw [h] at hbody <;>
      exact hbody

/-- Applying a rule keeps the condition. -/
theorem kept_applyWithin (allowance : Nat) (rule : Rule) {b : Builder} (hb : holds b.cursor) :
    holds (rule.applyWithin allowance b).builder.cursor := by
  induction allowance generalizing rule b with
  | zero => exact hb
  | succ allowance ih => exact kept_carryOut hkept (fun rule b hb => ih rule hb) allowance _ hb

end Builder

/-- Cursors that have read a source go on reading it. -/
theorem Cursor.kept_reached (source : String) : Kept (Reached source) :=
  ⟨fun _ => .next, fun _ => .putBack⟩

/-- What a user can do with a builder. -/
inductive Operation
  /-- Read a token. -/
  | next
  /-- Look at the next token. -/
  | peek
  /-- Take the last token back. -/
  | putBack
  /-- Put the next token on the stack if it fits. -/
  | keep (terminal : Terminal)
  /-- Apply a rule. -/
  | apply (rule : Rule)

/-- The builder behind an operation. -/
def Operation.perform : Operation → Builder → Builder
  | .next, b => { b with cursor := b.cursor.next.2 }
  | .peek, b => { b with cursor := b.cursor.peek.2 }
  | .putBack, b => { b with cursor := b.cursor.putBack }
  | .keep terminal, b => (b.keep terminal).builder
  | .apply rule, b => (b.apply rule).builder

namespace Builder

/-- The builder behind some operations. -/
def after (b : Builder) (operations : List Operation) : Builder :=
  operations.foldl (fun b operation => operation.perform b) b

/-- An operation goes on reading the source. -/
theorem reached_perform {source : String} {b : Builder} (hb : Cursor.Reached source b.cursor)
    (operation : Operation) : Cursor.Reached source (operation.perform b).cursor := by
  cases operation with
  | next => exact hb.next
  | peek => exact hb.next.putBack
  | putBack => exact hb.putBack
  | keep terminal => exact kept_keep (Cursor.kept_reached source) terminal hb
  | apply rule => exact kept_applyWithin (Cursor.kept_reached source) _ rule hb

/-- **The states of a builder.**  Whatever is done with a builder, its cursor has read the
source. -/
theorem reached_after {source : String} {b : Builder} (hb : Cursor.Reached source b.cursor)
    (operations : List Operation) : Cursor.Reached source (b.after operations).cursor := by
  induction operations generalizing b with
  | nil => exact hb
  | cons operation operations ih => exact ih (reached_perform hb operation)

end Builder

end BugLang
