import ExprLang.Program
import ExprLang.Proofs.Answers
import Mathlib.Data.List.Basic

/-!
Why readings end. All that a reading calls for, each further round of a repetition included, is
called for when fewer tokens remain than when the reading started, or at the same cursor and
lower in a fixed order: the units of a program, a bare expression, a required one, any expression,
an operand, and the constructs that an operand can be. No end token is ever passed, so this rests
on what is refused there. Hence calls inside one another come to an end, after at most seven of
them for each remaining token and seven more.
-/
namespace ExprLang

/-- Where a call stands in the order of those that are made at one cursor. A parameter stands below
the round that reads it, as no token is passed in between. -/
def Call.level {α : Type} : Call α → Nat
  | .units => 6
  | .asked .entry => 5
  | .asked (.required _) => 4
  | .asked .expression => 3
  | .asked .primary => 2
  | .asked .parameter => 0
  | .asked .number | .asked .named | .asked (.operators _ _) | .asked .parenthesised
  | .asked .conditional | .asked .returning | .asked .definition
  | .branch | .arguments | .parameters => 1

def Call.answers : ∀ β : Type, Call β → Parse β := fun _ call => call.answer

namespace Activation

variable {a b : Activation}

/-- Fewer tokens remain, or the cursor is the same and the call stands lower. -/
def Below (b a : Activation) : Prop :=
  b.cursor.remaining < a.cursor.remaining ∨ b.cursor = a.cursor ∧ b.call.level < a.call.level

/-- A bound on how many activations below it can stand inside one another. -/
def height (a : Activation) : Nat := 7 * a.cursor.remaining + a.call.level

theorem Below.remaining_le (h : b.Below a) : b.cursor.remaining ≤ a.cursor.remaining := by
  rcases h with hlt | ⟨hcursor, -⟩
  · exact Nat.le_of_lt hlt
  · rw [hcursor]

end Activation

theorem Call.level_le {α : Type} (call : Call α) : call.level ≤ 6 := by
  unfold level
  split <;> omega

theorem Activation.Below.height_lt {a b : Activation} (h : b.Below a) : b.height < a.height := by
  have hlevel := b.call.level_le
  unfold height
  rcases h with hlt | ⟨hcursor, hlower⟩
  · omega
  · rw [hcursor]
    omega

namespace Script

open Call (answers)

variable {α β : Type} {c d : Cursor} {caller : Call β}

theorem ensures_ask_later (h : d.remaining < c.remaining) (call : Call α) :
    (ask call).Ensures answers (·.Below ⟨caller, c⟩)
      (fun value next =>
        next.remaining ≤ d.remaining ∧ (call.Consumes value → next.remaining < d.remaining)) d :=
  ⟨.inl h, call.ensures_answer d⟩

theorem ensures_ask_last (h : d.remaining < c.remaining) (call : Call α) :
    (ask call).Ensures answers (·.Below ⟨caller, c⟩) (fun _ _ => True) d :=
  (ensures_ask_later h call).imp fun _ _ _ => trivial

theorem ensures_ask_lower (call : Call α) (h : call.level < caller.level) :
    (ask call).Ensures answers (·.Below ⟨caller, c⟩)
      (fun value next =>
        next.remaining ≤ c.remaining ∧ (call.Consumes value → next.remaining < c.remaining)) c :=
  ⟨.inr ⟨rfl, h⟩, call.ensures_answer c⟩

end Script

namespace Call

open Script

variable {α : Type}

/-- Every call that the script makes at the cursor is below the one that the script is for. -/
abbrev Descends (call : Call α) (c : Cursor) : Prop :=
  call.script.Ensures answers (·.Below ⟨call, c⟩) (fun _ _ => True) c

theorem descends_number (c : Cursor) : Descends (.asked .number) c := by
  refine ensures_current ?_
  split
  · rename_i hkind
    have heof : c.current.kind ≠ .eof := by rcases hkind with h | h <;> simp [h]
    cases Binary64.read? c.current.value with
    | some value => exact ensures_bind (ensures_advance heof) fun _ _ _ => trivial
    | none => trivial
  · trivial

theorem descends_arguments (c : Cursor) : Descends .arguments c := by
  refine ensures_ifAt (fun _ => trivial) fun _ => ?_
  refine ensures_bind (ensures_expectFor (by decide) _ _) fun _ c₁ h₁ => ?_
  refine ensures_bind (ensures_expectFor (by decide) _ _) fun _ c₂ h₂ => ?_
  refine ensures_bind (ensures_ask_later (by omega) _) fun _ c₃ h₃ => ?_
  refine ensures_bind_any (ensures_ifAt (fun hcomma => ?_) fun _ => trivial) fun _ _ => trivial
  refine ensures_bind (ensures_advance (by simp [hcomma])) fun _ c₄ h₄ => ?_
  exact ensures_ask_last (by omega) _

theorem descends_named (c : Cursor) : Descends (.asked .named) c := by
  refine ensures_bind (ensures_expectFor (by decide) _ _) fun name c₁ h₁ => ?_
  refine ensures_ifAt (fun hopen => ?_) fun _ => trivial
  refine ensures_bind (ensures_advance (by simp [hopen])) fun _ c₂ h₂ => ?_
  refine ensures_bind (ensures_ask_later (by omega) _) fun _ c₃ _ => ?_
  exact ensures_bind (ensures_expectFor (by decide) _ _) fun _ _ _ => trivial

theorem descends_parenthesised (c : Cursor) : Descends (.asked .parenthesised) c := by
  refine ensures_bind (ensures_expect (by decide) _) fun _ c₁ h₁ => ?_
  refine ensures_bind (ensures_ask_later h₁ _) fun _ c₂ _ => ?_
  exact ensures_bind (ensures_expectFor (by decide) _ _) fun _ _ _ => trivial

theorem descends_branch (c : Cursor) : Descends .branch c := by
  refine ensures_bind (ensures_expectFor (by decide) _ _) fun _ c₁ h₁ => ?_
  refine ensures_bind (ensures_ask_later h₁ _) fun _ c₂ _ => ?_
  exact ensures_bind (ensures_expectFor (by decide) _ _) fun _ _ _ => trivial

theorem descends_conditional (c : Cursor) : Descends (.asked .conditional) c := by
  refine ensures_bind (ensures_expect (by decide) _) fun _ c₁ h₁ => ?_
  refine ensures_bind (ensures_ask_later h₁ _) fun _ c₂ h₂ => ?_
  refine ensures_bind (ensures_ask_later (by omega) _) fun _ c₃ h₃ => ?_
  refine ensures_bind_any (ensures_ifAt (fun helse => ?_) fun _ => trivial) fun _ _ => trivial
  refine ensures_bind (ensures_advance (by simp [helse])) fun _ c₄ h₄ => ?_
  refine ensures_map (ensures_ifAt (fun _ => ?_) fun _ => ?_)
  · exact ensures_ask_last (by omega) _
  · exact ensures_ask_last (by omega) _

theorem descends_parameter (c : Cursor) : Descends (.asked .parameter) c := by
  refine ensures_bind (ensures_expectFor (by decide) _ _) fun _ c₁ _ => ?_
  refine ensures_bind (ensures_expectFor (by decide) _ _) fun _ c₂ _ => ?_
  exact ensures_bind (ensures_expectFor (by decide) _ _) fun _ _ _ => trivial

theorem descends_parameters (c : Cursor) : Descends .parameters c := by
  refine ensures_ifAt (fun _ => trivial) fun _ => ?_
  refine ensures_bind (ensures_ask_lower _ (by decide)) fun _ c₁ h₁ => ?_
  have hlt := h₁.2 trivial
  refine ensures_bind_any (ensures_ifAt (fun hcomma => ?_) fun _ => trivial) fun _ _ => trivial
  refine ensures_bind (ensures_advance (by simp [hcomma])) fun _ c₂ h₂ => ?_
  exact ensures_ask_last (by omega) _

theorem descends_definition (c : Cursor) : Descends (.asked .definition) c := by
  refine ensures_bind (ensures_expectFor (by decide) _ _) fun _ c₁ h₁ => ?_
  refine ensures_bind (ensures_expectFor (by decide) _ _) fun _ c₂ h₂ => ?_
  refine ensures_bind (ensures_expectFor (by decide) _ _) fun _ c₃ h₃ => ?_
  refine ensures_bind (ensures_ask_later (by omega) _) fun _ c₄ h₄ => ?_
  refine ensures_bind (ensures_expectFor (by decide) _ _) fun _ c₅ h₅ => ?_
  refine ensures_bind (ensures_expectFor (by decide) _ _) fun _ c₆ h₆ => ?_
  refine ensures_bind (ensures_expectFor (by decide) _ _) fun _ c₇ h₇ => ?_
  refine ensures_bind (ensures_expectFor (by decide) _ _) fun _ c₈ h₈ => ?_
  refine ensures_bind (ensures_ask_later (by omega) _) fun _ c₉ _ => ?_
  exact ensures_bind (ensures_expectFor (by decide) _ _) fun _ _ _ => trivial

theorem descends_returning (c : Cursor) : Descends (.asked .returning) c := by
  refine ensures_bind (ensures_expect (by decide) _) fun _ c₁ h₁ => ?_
  refine ensures_current ?_
  split
  · exact ensures_bind (ensures_ask_later h₁ _) fun _ _ _ => trivial
  · trivial

theorem descends_primary (c : Cursor) : Descends (.asked .primary) c := by
  have hlower : ∀ request : Cursor.Request Node,
      (Call.asked request).level < (Call.asked .primary).level →
        (some <$> Script.read request).Ensures answers (·.Below ⟨.asked .primary, c⟩)
          (fun _ _ => True) c := fun request h =>
    ensures_map ((ensures_ask_lower (.asked request) h).imp fun _ _ _ => trivial)
  refine ensures_current ?_
  cases c.current.kind with
  | identifier | integer | float | openParen | funcWord | returnWord | ifWord =>
    exact hlower _ (by decide)
  | _ => trivial

/-- The operator is passed before anything is called for, and an operand before the next round. -/
theorem descends_operators (threshold : Int) (lhs : Node) (c : Cursor) :
    Descends (.asked (.operators threshold lhs)) c := by
  refine ensures_bind (ensures_inspect _ _) ?_
  rintro (_ | op) c ⟨rfl, hop⟩
  · trivial
  · simp only
    split
    · trivial
    have hkind := Token.kind_of_operator hop
    refine ensures_bind (ensures_advance (by simp [hkind])) fun _ c₁ h₁ => ?_
    refine ensures_bind (?_ : Ensures answers _ (fun _ next => next.remaining < c₁.remaining) _ c₁)
      fun rhs c₂ h₂ => ensures_ask_last (by omega) _
    -- Without an operand behind the operator there is no next round.
    have hoperand : (Body.dueOperand (Script.read .primary) op).Ensures answers
        (·.Below ⟨.asked (.operators threshold lhs), c⟩)
        (fun _ next => next.remaining < c₁.remaining) c₁ := by
      refine ensures_bind (ensures_ask_later h₁ _) ?_
      rintro (_ | first) c₂ h₂
      · trivial
      · exact h₂.2 rfl
    refine ensures_bind hoperand fun first c₂ h₂ => ?_
    refine ensures_bind (ensures_inspect _ _) ?_
    rintro power c₂ ⟨rfl, _⟩
    split
    · exact (ensures_ask_later (by omega) _).imp fun _ _ h => Nat.lt_of_le_of_lt h.1 h₂
    · exact h₂

theorem descends_expression (c : Cursor) : Descends (.asked .expression) c := by
  refine ensures_bind (ensures_ask_lower _ (by decide)) ?_
  rintro (_ | lhs) c₁ h₁
  · trivial
  · exact ensures_map (ensures_ask_last (h₁.2 rfl) _)

theorem descends_required (message : String) (c : Cursor) :
    Descends (.asked (.required message)) c := by
  refine ensures_bind (ensures_ask_lower _ (by simp [Call.level])) ?_
  rintro (_ | node) c₁ _ <;> trivial

theorem descends_entry (c : Cursor) : Descends (.asked .entry) c :=
  ensures_bind (ensures_ask_lower _ (by decide)) fun _ _ _ => trivial

theorem descends_units (c : Cursor) : Descends .units c := by
  refine ensures_ifAt (fun _ => trivial) fun _ => ?_
  have hunit : (Body.unit (Script.read .definition) (Script.read .entry)).Ensures answers
      (·.Below ⟨.units, c⟩) (fun unit next => unit.isSome → next.remaining < c.remaining) c := by
    refine ensures_ifAt (fun _ => ensures_map ?_) fun _ => ?_
    · exact (ensures_ask_lower _ (by decide)).imp fun _ _ h _ => h.2 trivial
    · exact (ensures_ask_lower _ (by decide)).imp fun _ _ h => h.2
  refine ensures_bind hunit ?_
  rintro (_ | first) c₁ h₁
  · trivial
  · exact ensures_bind (ensures_ask_later (h₁ rfl) _) fun _ _ _ => trivial

theorem descends (call : Call α) (c : Cursor) : call.Descends c := by
  cases call with
  | asked request =>
    cases request with
    | expression => exact descends_expression c
    | required message => exact descends_required message c
    | primary => exact descends_primary c
    | number => exact descends_number c
    | named => exact descends_named c
    | operators threshold lhs => exact descends_operators threshold lhs c
    | parenthesised => exact descends_parenthesised c
    | conditional => exact descends_conditional c
    | returning => exact descends_returning c
    | definition => exact descends_definition c
    | parameter => exact descends_parameter c
    | entry => exact descends_entry c
  | branch => exact descends_branch c
  | arguments => exact descends_arguments c
  | parameters => exact descends_parameters c
  | units => exact descends_units c

/-- A reading is the run of its script, whose calls are answered by readings. -/
theorem run_script (call : Call α) (c : Cursor) : call.script.run answers c = call.answer c := by
  obtain ⟨b, b', hb, hb', hrun⟩ := call.exists_parse_eq_run c.remaining
  rw [← call.parse_eq_answer hb, hrun]
  refine ((call.descends c).run_congr fun below h => ?_).symm
  exact below.call.parse_eq_answer (hb'.mono h.remaining_le)

/-- The reading by scripts alone, as long as no more than so many calls stand inside one another. -/
def within : Nat → ∀ {α : Type}, Call α → Parse α
  | 0, _, _ => Parse.spent
  | depth + 1, _, call => call.script.run fun _ call => within depth call

end Call

namespace Activation

def calls (a : Activation) : List Activation := a.call.script.calls Call.answers a.cursor

/-- An activation and all that come of it, down to so many calls inside one another. -/
def log : Nat → Activation → List Activation
  | 0, _ => []
  | depth + 1, a => a :: a.calls.flatMap (log depth)

variable {a b : Activation}

theorem below_of_mem_calls (h : b ∈ a.calls) : b.Below a :=
  (a.call.descends a.cursor).ok_of_mem h

theorem wellFounded_calls : WellFounded fun b a : Activation => b ∈ a.calls :=
  Subrelation.wf (fun h => (below_of_mem_calls h).height_lt) (measure height).wf

theorem within_eq_answer {depth : Nat} (h : a.height < depth) :
    a.call.within depth a.cursor = a.call.answer a.cursor := by
  induction depth generalizing a with
  | zero => omega
  | succ depth ih =>
    rw [← a.call.run_script]
    refine (a.call.descends a.cursor).run_congr fun b hb => ?_
    have hlower : b.height < a.height := hb.height_lt
    exact ih (by omega)

theorem log_eq_log {depth depth' : Nat} (h : a.height < depth) (h' : a.height < depth') :
    a.log depth = a.log depth' := by
  induction depth generalizing a depth' with
  | zero => omega
  | succ depth ih =>
    obtain ⟨depth', rfl⟩ : ∃ n, depth' = n + 1 := ⟨depth' - 1, by omega⟩
    refine congrArg (a :: ·) (List.flatMap_congr fun b hb => ?_)
    have hlower := (below_of_mem_calls hb).height_lt
    exact ih (by omega) (by omega)

theorem height_units_start_le (tokens : List Token) (file : String) :
    height ⟨.units, Cursor.start tokens file⟩ ≤ 7 * tokens.length + 6 := by
  have hle : (Cursor.start tokens file).word.length ≤ tokens.length := by
    rw [Cursor.word_start]
    exact (List.takeWhile_prefix _).length_le
  have hremaining : (Cursor.start tokens file).remaining ≤ tokens.length := hle
  simp only [height, Call.level]
  omega

/-- Every reading is what comes of its script if the calls of the script are read. Each of these
calls, further rounds among them, is made with fewer tokens left, or at the same cursor and lower
in the order of calls, so calls inside one another come to an end. It is enough that seven of them
may stand inside one another for each remaining token, and seven more: then the scripts give the
reading, with all calls that come of it, and nothing changes if more may. Likewise all budgets of
the constructs above the number of remaining tokens give the reading. Programs are read so,
whatever their tokens are. -/
theorem calls_descend :
    (∀ (α : Type) (call : Call α) (c : Cursor),
        call.script.run Call.answers c = (call.read c).outcome) ∧
      (∀ a b : Activation, b ∈ a.calls → b.Below a) ∧
      (WellFounded fun b a : Activation => b ∈ a.calls) ∧
      (∀ (a : Activation) (depth : Nat), 7 * a.cursor.remaining + a.call.level < depth →
        a.call.within depth a.cursor = (a.call.read a.cursor).outcome ∧
          a.log depth = a.log (7 * a.cursor.remaining + a.call.level + 1)) ∧
      (∀ (α : Type) (call : Call α) (c : Cursor) (b : Budget), b.Covers c.remaining →
        call.parse b c = (call.read c).outcome) ∧
      ∀ (tokens : List Token) (file : String) (depth : Nat), 7 * tokens.length + 6 < depth →
        ∃ stop, Call.units.within depth (Cursor.start tokens file) =
          Reading.outcome (Program.ofTokens tokens file, stop) := by
  refine ⟨fun _ call c => call.run_script c, fun _ _ => below_of_mem_calls, wellFounded_calls,
    fun a depth h => ⟨within_eq_answer h, log_eq_log h (Nat.lt_succ_self _)⟩,
    fun _ call _ _ h => call.parse_eq_answer h, fun tokens file depth h => ?_⟩
  have hheight := Nat.lt_of_le_of_lt (height_units_start_le tokens file) h
  exact ⟨(Cursor.start tokens file).units.2, within_eq_answer hheight⟩

/-- Behind `x`, the operators of `x + y * z < w` are read in rounds: the first one calls for `y`,
for the operators that bind tighter than `+`, and for the next round, which starts at `<`. -/
theorem calls_of_operators :
    let tok (kind : Token.Kind) (value : String) (start : Nat) : Token :=
      ⟨kind, value, .between start (start + 1) "f"⟩
    let name (value : String) (start : Nat) : Node :=
      .reference value (.between start (start + 1) "f")
    let c : Cursor := ⟨"f", [tok .identifier "x" 0], tok .operator "+" 1,
      [tok .identifier "y" 2, tok .operator "*" 3, tok .identifier "z" 4, tok .operator "<" 5,
        tok .identifier "w" 6, tok .eof "EOF" 7, tok .operator "+" 8, tok .eof "EOF" 9], rfl⟩
    let product : Node := .binary .mul (name "y" 2) (name "z" 4) (.between 2 5 "f")
    let sum : Node := .binary .add (name "x" 0) product (.between 0 5 "f")
    let round : Activation := ⟨.asked (.operators 0 (name "x" 0)), c⟩
    let tighter : Activation := ⟨.asked (.operators 21 (name "y" 2)), c.advance.advance⟩
    let next : Activation :=
      ⟨.asked (.operators 0 sum), c.advance.advance.advance.advance⟩
    round.calls = [⟨.asked .primary, c.advance⟩, tighter, next] ∧
      tighter.Below round ∧ next.Below round ∧
      round.call.within 100 c = (c.operators 0 (name "x" 0)).outcome ∧
      round.log 100 = round.log 44 ∧
      round.call.parse ⟨9, 8, 7, 7⟩ c = (c.operators 0 (name "x" 0)).outcome ∧
      ∃ stop, Call.units.within 100 (Cursor.start c.ahead "f") =
        Reading.outcome (Program.ofTokens c.ahead "f", stop) := by
  intro tok name c product sum round tighter next
  have hcalls : round.calls = [⟨.asked .primary, c.advance⟩, tighter, next] := rfl
  obtain ⟨-, hbelow, -, hdepth, hbudget, hprogram⟩ := calls_descend
  have hremaining : c.remaining = 6 := rfl
  obtain ⟨hwithin, hlog⟩ := hdepth round 100 (by decide)
  refine ⟨hcalls, hbelow round tighter ?_, hbelow round next ?_, hwithin, hlog, ?_, ?_⟩
  · rw [hcalls]
    simp
  · rw [hcalls]
    simp
  · exact hbudget _ round.call c _ (by rw [hremaining]; constructor <;> decide)
  · exact hprogram c.ahead "f" 100 (by decide)

end Activation

end ExprLang
