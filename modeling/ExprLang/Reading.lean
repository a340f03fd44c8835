import ExprLang.Progress

/-!
Readings at a cursor. Every construct can be read at any cursor: the remaining tokens give a
budget that is always enough, so a reading is a value or a failure, and the cursor after it.
-/
namespace ExprLang

/-- A value or a failure, and where the cursor stands then. -/
abbrev Reading (α : Type) : Type := Except Failure α × Cursor

namespace Cursor

open Construct Parse Steps

/-- The parse of the expressions that a construct at the cursor holds. -/
def nested (c : Cursor) : Parse (Option Node) := Construct.expression c.remaining

def budget (c : Cursor) : Nat := c.remaining + 1

theorem progresses_nested (c : Cursor) : c.nested.Progresses c.remaining :=
  progresses_expression c.remaining

theorem remaining_lt_budget (c : Cursor) : c.remaining < c.budget := Nat.lt_succ_self _

/-- This is for both ways to expect a token. -/
theorem expected_ne_spent (kind : Token.Kind) (cause : String → Failure.Cause) (c : Cursor) :
    (ifAt kind Steps.advance (refuse cause) : Parse Token) c ≠ .spent := by
  rw [ifAt_apply]
  split <;> nofun

def expect (c : Cursor) (kind : Token.Kind) : Reading Token :=
  ((Steps.expect kind : Parse Token) c).result (expected_ne_spent kind .unexpected c)

def expectFor (c : Cursor) (kind : Token.Kind) (message : String) : Reading Token :=
  ((Steps.expectFor kind message : Parse Token) c).result (expected_ne_spent kind _ c)

/-- The failure that the current token is not what the message asks for. -/
def misplaced (c : Cursor) (message : String) : Failure :=
  ⟨.misplaced c.current.value message, c.current.span.start⟩

def expression (c : Cursor) : Reading (Option Node) :=
  (chain c.nested c.budget c).result
    (progresses_chain c.progresses_nested c.remaining_lt_budget c c.remaining_lt_budget).ne_spent

def required (c : Cursor) (message : String) : Reading Node :=
  (Steps.required (chain c.nested c.budget) message c).result
    (passes_required (progresses_chain c.progresses_nested c.remaining_lt_budget)
      c.remaining_lt_budget message).ne_spent

def primary (c : Cursor) : Reading (Option Node) :=
  (Construct.primary c.nested c.budget c).result
    (progresses_primary c.progresses_nested c.remaining_lt_budget c c.remaining_lt_budget).ne_spent

def number (c : Cursor) : Reading Node := (Construct.number c).result passes_number.ne_spent

def named (c : Cursor) : Reading Node :=
  (Construct.named c.nested c.budget c).result
    (passes_named c.progresses_nested (Nat.le_refl _) c.remaining_lt_budget).ne_spent

def parenthesised (c : Cursor) : Reading Node :=
  (Construct.parenthesised c.nested c).result
    (passes_parenthesised c.progresses_nested (Nat.le_refl _)).ne_spent

def conditional (c : Cursor) : Reading Node :=
  (Construct.conditional c.nested c.budget c).result
    (passes_conditional c.progresses_nested (Nat.le_refl _) c.remaining_lt_budget).ne_spent

def returning (c : Cursor) : Reading Node :=
  (Construct.returning c.nested c).result
    (passes_returning c.progresses_nested (Nat.le_refl _)).ne_spent

def parameter (c : Cursor) : Reading Parameter :=
  (Construct.parameter c).result passes_parameter.ne_spent

def definition (c : Cursor) : Reading Node :=
  (Construct.definition c.nested c.budget c).result
    (passes_definition c.progresses_nested (Nat.le_refl _) c.remaining_lt_budget).ne_spent

/-- The operators after the left operand that bind at least as tightly as the threshold. -/
def operators (c : Cursor) (threshold : Int) (lhs : Node) : Reading Node :=
  (Construct.operators (Construct.primary c.nested c.budget) c.budget threshold lhs c).result
    (keeps_operators (progresses_primary c.progresses_nested c.remaining_lt_budget)
      (Nat.le_of_lt c.remaining_lt_budget) c.remaining_lt_budget threshold lhs).ne_spent

def entry (c : Cursor) : Reading (Option Node) :=
  (Construct.entry c.nested c.budget c).result
    (progresses_entry c.progresses_nested c.remaining_lt_budget c c.remaining_lt_budget).ne_spent

def units (c : Cursor) : Reading (List Node) :=
  (Construct.units c.nested c.budget c).result
    (keeps_units c.progresses_nested (Nat.le_refl _) c.remaining_lt_budget).ne_spent

end Cursor

end ExprLang
