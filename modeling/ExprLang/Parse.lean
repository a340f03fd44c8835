import ExprLang.Cursor
import ExprLang.Steps

/-!
Parses read tokens at a cursor. A parse is done with a value, or it fails, and in both cases
it tells where the cursor stands then. As parses call each other with a budget, there is a
third outcome: the budget is spent. `Ensures` says that an outcome is not that one, and what
holds if it is done; it passes through sequences of parses.
-/
namespace ExprLang

inductive Outcome (α : Type) where
  | done (value : α) (next : Cursor)
  | failed (failure : Failure) (stop : Cursor)
  | spent

namespace Outcome

def Ensures {α : Type} (post : α → Cursor → Prop) : Outcome α → Prop
  | .done value next => post value next
  | .failed _ _ => True
  | .spent => False

theorem Ensures.imp {α : Type} {post weaker : α → Cursor → Prop} {outcome : Outcome α}
    (h : outcome.Ensures post) (himp : ∀ value next, post value next → weaker value next) :
    outcome.Ensures weaker := by
  cases outcome with
  | done value next => exact himp value next h
  | failed failure stop => trivial
  | spent => exact h

theorem Ensures.ne_spent {α : Type} {post : α → Cursor → Prop} {outcome : Outcome α}
    (h : outcome.Ensures post) : outcome ≠ .spent := by
  rintro rfl
  exact h

/-- The result of a parse whose budget was enough, and where the cursor stands then. -/
def result {α : Type} (outcome : Outcome α) (h : outcome ≠ .spent) :
    Except Failure α × Cursor :=
  match outcome, h with
  | .done value next, _ => (.ok value, next)
  | .failed failure stop, _ => (.error failure, stop)
  | .spent, h => absurd rfl h

end Outcome

def Parse (α : Type) : Type := Cursor → Outcome α

namespace Parse

instance : Monad Parse where
  pure value := fun c => .done value c
  bind p f := fun c =>
    match p c with
    | .done value next => f value next
    | .failed failure stop => .failed failure stop
    | .spent => .spent

instance : Steps Parse where
  current := fun c => .done c.current c
  advance := fun c => .done c.current c.advance
  lastEnd := fun c => .done c.lastEnd c
  fail failure := fun c => .failed failure c

/-- The parse that has no budget left. -/
def spent {α : Type} : Parse α := fun _ => .spent

section Steps

open Steps

variable {α : Type} (c : Cursor)

theorem advance_apply : (advance : Parse Token) c = .done c.current c.advance := rfl

theorem lastEnd_apply : (lastEnd : Parse Position) c = .done c.lastEnd c := rfl

theorem ifAt_apply (kind : Token.Kind) (yes no : Parse α) :
    ifAt kind yes no c = if c.current.kind = kind then yes c else no c :=
  apply_ite (fun p : Parse α => p c) _ _ _

theorem inspect_apply (f : Token → Except Failure α) :
    (inspect f : Parse α) c =
      match f c.current with
      | .ok value => .done value c
      | .error failure => .failed failure c := by
  simp only [inspect, bind, current]
  cases f c.current <;> rfl

end Steps

end Parse

end ExprLang
