import ExprLang.Proofs.Climbing
import ExprLang.Proofs.Scripts

/-!
Answers to calls. A call is answered by the reading that it calls for. Every budget above the
number of remaining tokens gives that answer, since runs with two budgets are the same unless one
of them is spent. With budgets that are enough, each construct is the parse that comes of its
script.
-/
namespace ExprLang

open Construct

/-- What may be spent on an expression that is called for, on the expressions inside of another
construct, on that construct, and on the rounds of a repetition. -/
structure Budget where
  whole : Nat
  nested : Nat
  construct : Nat
  rounds : Nat

/-- The budget is enough for so many tokens. -/
structure Budget.Covers (b : Budget) (size : Nat) : Prop where
  whole : size < b.whole
  nested : size ≤ b.nested
  construct : size < b.construct
  rounds : size < b.rounds

namespace Budget

variable {b : Budget} {size smaller : Nat}

theorem Covers.mono (h : b.Covers size) (hle : smaller ≤ size) : b.Covers smaller :=
  ⟨Nat.lt_of_le_of_lt hle h.whole, Nat.le_trans hle h.nested, Nat.lt_of_le_of_lt hle h.construct,
    Nat.lt_of_le_of_lt hle h.rounds⟩

/-- The budget that readings have. -/
def own (size : Nat) : Budget := ⟨size + 1, size, size + 1, size + 1⟩

theorem covers_own (size : Nat) : (own size).Covers size := by
  constructor <;> simp [own]

end Budget

namespace Call

variable {α : Type} {b : Budget} {c : Cursor}

/-- The parse that is called for, with the budget. -/
def parse (b : Budget) : Call α → Parse α
  | .asked .expression => expression b.whole
  | .asked (.required message) => Steps.required (expression b.whole) message
  | .asked .primary => primary (expression b.nested) b.construct
  | .asked .number => number
  | .asked .named => named (expression b.nested) b.construct
  | .asked (.operators threshold lhs) =>
    operators (primary (expression b.nested) b.construct) b.rounds threshold lhs
  | .asked .parenthesised => parenthesised (expression b.nested)
  | .asked .conditional => conditional (expression b.nested) b.rounds
  | .asked .returning => returning (expression b.nested)
  | .asked .definition => definition (expression b.nested) b.construct
  | .asked .parameter => parameter
  | .asked .entry => entry (expression b.nested) b.construct
  | .branch => Construct.branch (expression b.nested)
  | .arguments => Construct.arguments (expression b.nested) b.rounds
  | .parameters => Construct.parameters b.rounds
  | .units => Construct.units (expression b.nested) b.rounds

/-- Whether a token must have been passed for the value. -/
def Consumes : Call α → α → Prop
  | .asked request, value => request.Consumes value
  | .branch, _ => True
  | .arguments, _ | .parameters, _ | .units, _ => False

theorem ensures_parse (call : Call α) (h : b.Covers c.remaining) :
    (call.parse b c).Ensures fun value next =>
      next.remaining ≤ c.remaining ∧ (call.Consumes value → next.remaining < c.remaining) := by
  have hwhole : (expression b.whole).Progresses b.whole := progresses_expression b.whole
  have hnested : (expression b.nested).Progresses c.remaining :=
    (progresses_expression b.nested).mono h.nested
  have hprimary := progresses_primary hnested h.construct
  have hle := Nat.le_refl c.remaining
  have hlt := Nat.lt_succ_self c.remaining
  have hpasses : ∀ {β : Type} {p : Parse β} {consumes : β → Prop}, Passes p c →
      (p c).Ensures fun value next =>
        next.remaining ≤ c.remaining ∧ (consumes value → next.remaining < c.remaining) :=
    fun hp => hp.imp fun _ _ h => ⟨Nat.le_of_lt h, fun _ => h⟩
  have hkeeps : ∀ {β : Type} {p : Parse β}, Keeps p c →
      (p c).Ensures fun _ next =>
        next.remaining ≤ c.remaining ∧ (False → next.remaining < c.remaining) :=
    fun hp => hp.imp fun _ _ h => ⟨h, False.elim⟩
  cases call with
  | asked request =>
    cases request with
    | expression => exact hwhole c h.whole
    | required message => exact hpasses (passes_required hwhole h.whole message)
    | primary => exact hprimary c hlt
    | number => exact hpasses passes_number
    | named => exact hpasses (passes_named hnested hle h.construct)
    | operators threshold lhs =>
      exact hkeeps (keeps_operators hprimary (Nat.le_of_lt hlt) h.rounds threshold lhs)
    | parenthesised => exact hpasses (passes_parenthesised hnested hle)
    | conditional => exact hpasses (passes_conditional hnested hle h.rounds)
    | returning => exact hpasses (passes_returning hnested hle)
    | definition => exact hpasses (passes_definition hnested hle h.construct)
    | parameter => exact hpasses passes_parameter
    | entry => exact progresses_entry hnested h.construct c hlt
  | branch => exact hpasses (passes_branch hnested hle)
  | arguments => exact hkeeps (keeps_arguments hnested hle h.rounds)
  | parameters => exact hkeeps (keeps_parameters h.rounds)
  | units => exact hkeeps (keeps_units hnested hle h.rounds)

/-- The reading that is called for. -/
def read : Call α → Cursor → Reading α
  | .asked request, c => request.read c
  | .branch, c =>
    (Construct.branch c.nested c).result
      (passes_branch c.progresses_nested (Nat.le_refl _)).ne_spent
  | .arguments, c =>
    (Construct.arguments c.nested c.budget c).result
      (keeps_arguments c.progresses_nested (Nat.le_refl _) c.remaining_lt_budget).ne_spent
  | .parameters, c =>
    (Construct.parameters c.budget c).result (keeps_parameters c.remaining_lt_budget).ne_spent
  | .units, c => c.units

def answer (call : Call α) : Parse α := fun c => (call.read c).outcome

theorem answer_eq_parse (call : Call α) (c : Cursor) :
    call.answer c = call.parse (.own c.remaining) c := by
  cases call with
  | asked request => cases request <;> exact Reading.outcome_result _
  | branch | arguments | parameters | units => exact Reading.outcome_result _

theorem ensures_answer (call : Call α) (c : Cursor) :
    (call.answer c).Ensures fun value next =>
      next.remaining ≤ c.remaining ∧ (call.Consumes value → next.remaining < c.remaining) := by
  rw [answer_eq_parse]
  exact call.ensures_parse (Budget.covers_own _)

/-- Runs with two budgets are the same unless one of them is spent. -/
theorem mirrors_parse (call : Call α) (b b' : Budget) (c : Cursor) :
    (call.parse b c).Mirrors id id False c (call.parse b') := by
  have hnode : Node.relocate id = id := Node.relocate_id_eq
  have hoption : Option.map (Node.relocate id) = id := by rw [hnode, Option.map_id]
  have harguments : Node.relocateArguments id = id := funext Node.relocateArguments_id
  have hlist : List.map (Node.relocate id) = id := by rw [hnode, List.map_id_fun]
  have hview : ∀ {β : Type} {view : β → β} {p q : Parse β}, view = id →
      (p c).Mirrors id view False c q → (p c).Mirrors id id False c q := by
    rintro β view p q rfl h
    exact h
  have hinner : ∀ c, (expression b.nested c).Mirrors id (Option.map (Node.relocate id)) False c
      (expression b'.nested) := fun _ => mirrors_expression _ _
  cases call with
  | asked request =>
    cases request with
    | expression => exact hview hoption (mirrors_expression _ _)
    | required message =>
      exact hview hnode (Parse.mirrors_required (mirrors_expression _ _) message)
    | primary => exact hview hoption (mirrors_primary hinner _ _)
    | number => exact hview hnode mirrors_number
    | named => exact hview hnode (mirrors_named hinner _ _)
    | operators threshold lhs =>
      exact hview hnode
        (mirrors_operators (fun _ => mirrors_primary hinner _ _) _ _ threshold rfl)
    | parenthesised => exact hview hnode (mirrors_parenthesised hinner)
    | conditional => exact hview hnode (mirrors_conditional hinner _ _)
    | returning => exact hview hnode (mirrors_returning hinner)
    | definition => exact hview hnode (mirrors_definition hinner _ _)
    | parameter => exact mirrors_parameter
    | entry => exact hview hoption (mirrors_entry hinner _ _)
  | branch => exact hview hnode (mirrors_branch hinner)
  | arguments => exact hview harguments (mirrors_arguments hinner _ _)
  | parameters => exact mirrors_parameters _ _
  | units => exact hview hlist (mirrors_units hinner _ _)

/-- Every budget that is enough gives the answer. -/
theorem parse_eq_answer (call : Call α) (h : b.Covers c.remaining) :
    call.parse b c = call.answer c := by
  rw [answer_eq_parse]
  exact (call.mirrors_parse (.own c.remaining) b c).eq
    (call.ensures_parse (Budget.covers_own _)).ne_spent (call.ensures_parse h).ne_spent

/-- With some budget that is enough, the parse is what comes of its script if the calls have a
budget that is enough too. -/
theorem exists_parse_eq_run (call : Call α) (size : Nat) :
    ∃ b b' : Budget, b.Covers size ∧ b'.Covers size ∧
      call.parse b = call.script.run fun _ call => call.parse b' := by
  have hown := Budget.covers_own size
  -- A round has one more to spend than the next one. All else that it calls for has the same
  -- budget for expressions as the round itself, so that the two agree as they stand.
  have houter : Budget.Covers ⟨size + 1, size + 1, size + 1, size + 2⟩ size := by
    constructor <;> simp
  have hinner : Budget.Covers ⟨size + 1, size + 1, size + 1, size + 1⟩ size := by
    constructor <;> simp
  cases call with
  | asked request =>
    cases request with
    | expression =>
      refine ⟨_, _, hown, hown, ?_⟩
      simp only [script, Body.chain, Script.run_bind, Script.run_read]
      refine congrArg (primary _ _ >>= ·) (funext fun lhs => ?_)
      cases lhs <;> simp [parse, Budget.own]
    | required message => exact ⟨_, _, hown, hown, by simp [script, parse]⟩
    | primary =>
      refine ⟨_, _, hown, hown, ?_⟩
      simp only [script, Body.primary, Script.run_bind, Script.run_current]
      refine congrArg (Steps.current >>= ·) (funext fun token => ?_)
      cases token.kind <;> simp [parse, Budget.own]
    | number =>
      refine ⟨_, _, hown, hown, ?_⟩
      simp only [script, Body.number, Script.run_bind, Script.run_current]
      refine congrArg (Steps.current >>= ·) (funext fun token => ?_)
      cases Binary64.read? token.value <;> simp
    | named =>
      refine ⟨_, _, houter, hinner, ?_⟩
      simp [script, parse, Construct.named, Body.named, Body.call]
    | operators threshold lhs =>
      refine ⟨_, _, houter, hinner, ?_⟩
      simp only [script, Body.operators, Script.run_bind, Script.run_inspect]
      refine congrArg (Steps.inspect _ >>= ·) (funext fun op => ?_)
      cases op <;> simp [parse, Body.rightOperand, Body.dueOperand, Body.extended]
    | parenthesised =>
      refine ⟨_, _, houter, hinner, ?_⟩
      simp [script, parse, Construct.parenthesised, Body.parenthesised]
    | conditional =>
      refine ⟨_, _, houter, hinner, ?_⟩
      simp [script, parse, Construct.conditional, Body.conditional, Body.alternative]
    | returning =>
      refine ⟨_, _, houter, hinner, ?_⟩
      simp [script, parse, Construct.returning, Body.returning]
    | definition =>
      refine ⟨_, _, houter, hinner, ?_⟩
      simp [script, parse, Construct.definition, Body.definition]
    | parameter =>
      refine ⟨_, _, houter, hinner, ?_⟩
      simp [script, parse, Construct.parameter, Body.parameter]
    | entry =>
      refine ⟨_, _, hown, hown, ?_⟩
      simp [script, parse, Construct.entry, Body.entry, Construct.expression, Budget.own]
  | branch =>
    refine ⟨_, _, houter, hinner, ?_⟩
    simp [script, parse, Construct.branch, Body.branch]
  | arguments =>
    refine ⟨_, _, houter, hinner, ?_⟩
    simp [script, parse, Construct.arguments, Body.arguments]
  | parameters =>
    refine ⟨_, _, houter, hinner, ?_⟩
    simp [script, parse, Construct.parameters, Body.parameters]
  | units =>
    have hunits : Budget.Covers ⟨size + 1, size + 1, size + 2, size + 1⟩ size := by
      constructor <;> simp
    refine ⟨_, _, houter, hunits, ?_⟩
    simp only [script, parse, Construct.units, Construct.unit, Body.units, Body.unit,
      Script.run_ifAt, Script.run_bind, Script.run_map, Script.run_pure, Script.run_read]
    refine congrArg (Steps.ifAt _ _ <| _ >>= ·) (funext fun first => ?_)
    cases first <;> simp

end Call

end ExprLang
