import ExprLang.Proofs.Reads

/-!
What the grammar derives is read. At a cursor before a word of some part, the parse of that
part is done behind the word, with the value of the word, if the budget exceeds the number of
remaining tokens and the token behind the word does not go on with it: an operator goes on
with an expression, and `else` with a conditional.
-/
namespace ExprLang

open Operator (Tier)
open Grammar

namespace Parse

open Steps

variable {α β : Type} {p : Parse α} {f : α → Parse β} {c d : Cursor} {w : List Token} {t : Token}

theorem bind_of_done {value : α} (h : p c = .done value d) : (p >>= f) c = f value d := by
  simp only [bind, h]

theorem bind_of_failed {failure : Failure} (h : p c = .failed failure d) :
    (p >>= f) c = .failed failure d := by
  simp only [bind, h]

theorem map_of_done {g : α → β} {value : α} (h : p c = .done value d) :
    (g <$> p) c = .done (g value) d := bind_of_done h

theorem required_of_done {p : Parse (Option α)} {value : α} (h : p c = .done (some value) d)
    (message : String) : required p message c = .done value d := bind_of_done h

section Mark

variable {kind : Token.Kind} (h : c.Moves (t :: w) d) (ht : t.kind = kind)

include h ht

theorem token_bind {f : Token → Parse β} {no : Parse Token} :
    (ifAt kind advance no >>= f) c = f t c.advance := by
  have hc := h.current_of_cons
  rw [bind_congr_left (ifAt_pos (by rw [hc, ht])), advance_bind, hc]

theorem expectFor_bind {f : Token → Parse β} {message : String} :
    (expectFor kind message >>= f) c = f t c.advance := token_bind h ht

theorem expect_bind {f : Token → Parse β} : (expect kind >>= f) c = f t c.advance :=
  token_bind h ht

end Mark

/-- Expressions of fewer tokens than the bound are read where nothing goes on with them. -/
def Accepts (inner : Parse (Option Node)) (bound : Nat) : Prop :=
  ∀ {c d : Cursor} {w : List Token} {n : Node}, c.remaining < bound → c.Moves w d →
    Derives .expression w d.current.kind n → d.current.kind ≠ .operator →
    d.current.kind ≠ .elseWord → inner c = .done (some n) d

theorem Accepts.mono {inner : Parse (Option Node)} {bound smaller : Nat}
    (h : inner.Accepts bound) (hle : smaller ≤ bound) : inner.Accepts smaller :=
  fun hc => h (Nat.lt_of_lt_of_le hc hle)

/-- A nested expression is read up to the mark behind it. -/
theorem Accepts.required {inner : Parse (Option Node)} {bound : Nat} (hinner : inner.Accepts bound)
    {n : Node} {kind : Token.Kind} {rest : List Token} (hc : c.remaining < bound)
    (h : c.Moves (w ++ t :: rest) d) (ht : t.kind = kind) (hn : Derives .expression w kind n)
    (hkind : kind ≠ .operator ∧ kind ≠ .elseWord) (message : String) :
    ∃ e, Steps.required inner message c = .done n e ∧ e.Moves (t :: rest) d ∧
      e.remaining ≤ c.remaining := by
  obtain ⟨e, hw, hrest⟩ := h.split
  have he : e.current.kind = kind := by rw [hrest.current_of_cons, ht]
  refine ⟨e, required_of_done (hinner hc hw (by rwa [he]) ?_ ?_) message, hrest, hw.remaining_le⟩
  · rw [he]
    exact hkind.1
  · rw [he]
    exact hkind.2

end Parse

namespace Construct

open Parse Steps

variable {inner : Parse (Option Node)} {bound budget : Nat} {c d : Cursor} {w : List Token}
  {n : Node}

section

variable (hinner : inner.Accepts bound)

include hinner

theorem arguments_of_derives {values : List (String × Node)} (hbound : c.remaining ≤ bound)
    (hbudget : c.remaining < budget) (hmoves : c.Moves w d)
    (h : Derives .arguments w d.current.kind values) (hclose : d.current.kind = .closeParen) :
    arguments inner budget c = .done values d := by
  induction budget generalizing c w values with
  | zero => omega
  | succ budget ih =>
    unfold arguments Body.arguments
    cases h with
    | noArgument =>
      obtain rfl := hmoves.eq_of_nil
      rw [ifAt_pos hclose]
      rfl
    | @lastArgument label colon u _ n hkinds hn =>
      simp only [List.map_cons, List.cons.injEq] at hkinds
      have hlabel : c.current.kind = .identifier := by rw [hmoves.current_of_cons, hkinds.1]
      have m₁ := hmoves.advance_of_cons
      have m₂ := m₁.advance_of_cons
      have h₁ := hmoves.remaining_advance_lt
      have h₂ := m₁.remaining_advance_lt
      rw [ifAt_neg (by simp [hlabel]), expectFor_bind hmoves hkinds.1, expectFor_bind m₁ hkinds.2.1]
      have hvalue := hinner (by omega) m₂ hn (by simp [hclose]) (by simp [hclose])
      rw [bind_of_done (required_of_done hvalue _), bind_congr_left (ifAt_neg (by simp [hclose]))]
      rfl
    | @argument label colon comma u rest _ n values hkinds hn hrest =>
      simp only [List.map_cons, List.cons.injEq] at hkinds
      have hmoves : c.Moves (label :: colon :: (u ++ comma :: rest)) d := hmoves
      have hlabel : c.current.kind = .identifier := by rw [hmoves.current_of_cons, hkinds.1]
      have m₁ := hmoves.advance_of_cons
      have h₁ := hmoves.remaining_advance_lt
      have h₂ := m₁.remaining_advance_lt
      rw [ifAt_neg (by simp [hlabel]), expectFor_bind hmoves hkinds.1, expectFor_bind m₁ hkinds.2.1]
      obtain ⟨e, hvalue, m₃, h₃⟩ := hinner.required (by omega) m₁.advance_of_cons hkinds.2.2.1 hn
        (by decide) "expected an argument value"
      have hcomma : e.current.kind = .comma := by rw [m₃.current_of_cons, hkinds.2.2.1]
      have h₄ := m₃.remaining_advance_lt
      rw [bind_of_done hvalue, bind_congr_left (ifAt_pos hcomma), bind_assoc]
      have htail := ih (by omega) (by omega) m₃.advance_of_cons hrest
      exact advance_bind.trans (bind_of_done htail)

theorem call_of_derives {name lparen rparen : Token} {values : List (String × Node)}
    (hbound : c.remaining ≤ bound) (hbudget : c.remaining < budget)
    (hmoves : c.Moves (name :: lparen :: w ++ [rparen]) d)
    (hkinds : [name, lparen, rparen].map Token.kind = [.identifier, .openParen, .closeParen])
    (hvalues : Derives .arguments w .closeParen values) :
    named inner budget c =
      .done (.call name.value values (extent (name :: lparen :: w ++ [rparen]))) d := by
  simp only [List.map_cons, List.cons.injEq] at hkinds
  have hmoves : c.Moves (name :: lparen :: (w ++ [rparen])) d := hmoves
  have m₁ := hmoves.advance_of_cons
  have h₁ := hmoves.remaining_advance_lt
  have h₂ := m₁.remaining_advance_lt
  have hopen : c.advance.current.kind = .openParen := by rw [m₁.current_of_cons, hkinds.2.1]
  obtain ⟨e, m₂, m₃⟩ := m₁.advance_of_cons.split
  have he : e.current.kind = .closeParen := by rw [m₃.current_of_cons, hkinds.2.2.1]
  unfold named Body.named
  rw [expectFor_bind hmoves hkinds.1, ifAt_pos hopen, Body.call, advance_bind,
    bind_of_done (arguments_of_derives hinner (by omega) (by omega) m₂ (by rwa [he]) he),
    expectFor_bind m₃ hkinds.2.2.1, ← m₃.advance_of_cons.eq_of_nil]
  have hextent : extent (name :: lparen :: w ++ [rparen]) = name.span.join rparen.span := by
    simp [extent, Span.join, List.getLast?_cons]
  rw [hextent]
  rfl

theorem parenthesised_of_derives {lparen rparen : Token} (hbound : c.remaining ≤ bound)
    (hmoves : c.Moves (lparen :: w ++ [rparen]) d)
    (hkinds : [lparen, rparen].map Token.kind = [.openParen, .closeParen])
    (hn : Derives .expression w .closeParen n) : parenthesised inner c = .done n d := by
  simp only [List.map_cons, List.cons.injEq] at hkinds
  have hmoves : c.Moves (lparen :: (w ++ [rparen])) d := hmoves
  have h₁ := hmoves.remaining_advance_lt
  obtain ⟨e, hread, m₂, -⟩ := hinner.required (by omega) hmoves.advance_of_cons hkinds.2.1 hn
    (by decide) "expected an expression after `(`"
  unfold parenthesised Body.parenthesised
  rw [expect_bind hmoves hkinds.1, bind_of_done hread, expectFor_bind m₂ hkinds.2.1]
  rw [m₂.advance_of_cons.eq_of_nil]
  rfl

theorem branch_of_derives {next : Token.Kind} (hbound : c.remaining ≤ bound)
    (hmoves : c.Moves w d) (h : Derives .branch w next n) : branch inner c = .done n d := by
  cases h with
  | @branch lbrace rbrace w _ n hkinds hn =>
  simp only [List.map_cons, List.cons.injEq] at hkinds
  have hmoves : c.Moves (lbrace :: (w ++ [rbrace])) d := hmoves
  have h₁ := hmoves.remaining_advance_lt
  obtain ⟨e, hread, m₂, -⟩ := hinner.required (by omega) hmoves.advance_of_cons hkinds.2.1 hn
    (by decide) "expected an expression in the branch"
  unfold Construct.branch Body.branch
  rw [expectFor_bind hmoves hkinds.1, bind_of_done hread, expectFor_bind m₂ hkinds.2.1]
  rw [m₂.advance_of_cons.eq_of_nil]
  rfl

/-- The beginning of a conditional, up to the end of its first branch. -/
theorem conditional_of_condition {t : Token} {u v rest : List Token} {next : Token.Kind}
    {condition consequence : Node}
    (hbound : c.remaining ≤ bound) (hmoves : c.Moves (t :: u ++ v ++ rest) d)
    (ht : t.kind = .ifWord) (hcondition : Derives .expression u .openCurly condition)
    (hconsequence : Derives .branch v next consequence) :
    ∃ e : Cursor, e.Moves rest d ∧ e.remaining < c.remaining ∧ ∀ budget alternative,
      Body.alternative (Construct.branch inner) (conditional inner budget) e =
        .done alternative d →
      conditional inner (budget + 1) c =
        .done (.conditional condition consequence alternative ⟨t.span.start, d.lastEnd⟩) d := by
  obtain ⟨lbrace, v', rfl, hlbrace⟩ := hconsequence.branch_eq_cons
  have hmoves : c.Moves (t :: (u ++ lbrace :: (v' ++ rest))) d := by simpa using hmoves
  have h₁ := hmoves.remaining_advance_lt
  obtain ⟨e₁, hread, m₂, h₂⟩ := hinner.required (by omega) hmoves.advance_of_cons hlbrace hcondition
    (by decide) "expected a condition after `if`"
  have m₂ : e₁.Moves ((lbrace :: v') ++ rest) d := m₂
  obtain ⟨e, m₃, m₄⟩ := m₂.split
  have h₃ := m₃.remaining_le
  refine ⟨e, m₄, by omega, fun budget alternative halternative => ?_⟩
  rw [conditional, Body.conditional, expect_bind hmoves ht, bind_of_done hread,
    bind_of_done (branch_of_derives hinner (by omega) m₃ hconsequence), bind_of_done halternative]
  rfl

theorem conditional_of_derives (hbound : c.remaining ≤ bound) (hbudget : c.remaining < budget)
    (hmoves : c.Moves w d) (h : Derives .conditional w d.current.kind n)
    (helse : d.current.kind ≠ .elseWord) : conditional inner budget c = .done n d := by
  induction budget generalizing c w n with
  | zero => omega
  | succ budget ih =>
    cases h with
    | ifThen hkind hcondition hconsequence =>
      rw [hmoves.extent_eq rfl]
      rw [← List.append_nil (_ ++ _)] at hmoves
      obtain ⟨e, m, -, hstep⟩ :=
        conditional_of_condition hinner hbound hmoves hkind hcondition hconsequence
      obtain rfl := m.eq_of_nil
      refine hstep budget none ?_
      rw [Body.alternative, ifAt_neg helse]
      rfl
    | ifThenElse hkinds hcondition hconsequence halternative =>
      simp only [List.map_cons, List.cons.injEq] at hkinds
      obtain ⟨e, m, hlt, hstep⟩ :=
        conditional_of_condition hinner hbound hmoves hkinds.1 hcondition hconsequence
      have heelse : e.current.kind = .elseWord := by rw [m.current_of_cons, hkinds.2.1]
      have h₁ := m.remaining_advance_lt
      have hbrace : e.advance.current.kind ≠ .ifWord := by
        obtain ⟨lbrace, v, rfl, hlbrace⟩ := halternative.branch_eq_cons
        simp [m.advance_of_cons.current_of_cons, hlbrace]
      rw [hmoves.extent_eq rfl]
      refine hstep budget (some _) ?_
      rw [Body.alternative, ifAt_pos heelse, advance_bind]
      refine map_of_done ?_
      rw [ifAt_neg hbrace, branch_of_derives hinner (by omega) m.advance_of_cons halternative]
    | ifThenElseIf hkinds hcondition hconsequence halternative =>
      simp only [List.map_cons, List.cons.injEq] at hkinds
      obtain ⟨e, m, hlt, hstep⟩ :=
        conditional_of_condition hinner hbound hmoves hkinds.1 hcondition hconsequence
      have heelse : e.current.kind = .elseWord := by rw [m.current_of_cons, hkinds.2.1]
      have h₁ := m.remaining_advance_lt
      have hif : e.advance.current.kind = .ifWord := by
        obtain ⟨t, v, rfl, ht⟩ := halternative.conditional_eq_cons
        rw [m.advance_of_cons.current_of_cons, ht]
      rw [hmoves.extent_eq rfl]
      refine hstep budget (some _) ?_
      rw [Body.alternative, ifAt_pos heelse, advance_bind]
      refine map_of_done ?_
      rw [ifAt_pos hif, ih (by omega) (by omega) m.advance_of_cons halternative]

theorem returning_of_derives {t : Token} (hbound : c.remaining ≤ bound)
    (hmoves : c.Moves (t :: w) d) (ht : t.kind = .returnWord)
    (hn : Derives .expression w d.current.kind n) (hoperator : d.current.kind ≠ .operator)
    (helse : d.current.kind ≠ .elseWord) :
    returning inner c = .done (.returned (some n) (extent (t :: w))) d := by
  have m₁ := hmoves.advance_of_cons
  have h₁ := hmoves.remaining_advance_lt
  have hstarts : c.advance.current.kind.startsExpression := by
    obtain ⟨t', u, rfl, ht'⟩ := hn.exists_cons trivial
    rw [m₁.current_of_cons, ht']
  unfold returning Body.returning
  rw [expect_bind hmoves ht, current_bind, if_pos hstarts,
    bind_of_done (hinner (by omega) m₁ hn hoperator helse), hmoves.extent_eq rfl]
  rfl

end

theorem returning_of_nothing {t : Token} (hmoves : c.Moves [t] d) (ht : t.kind = .returnWord)
    (hstarts : d.current.kind.startsExpression = false) :
    returning inner c = .done (.returned none (extent [t])) d := by
  have hd := hmoves.advance_of_cons.eq_of_nil
  unfold returning Body.returning
  rw [expect_bind hmoves ht, current_bind, ← hd, if_neg (by simp [hstarts]),
    hmoves.extent_eq rfl]
  rfl

theorem parameter_of_moves {name colon type : Token} {rest : List Token}
    (hmoves : c.Moves (name :: colon :: type :: rest) d)
    (hkinds : [name, colon, type].map Token.kind = [.identifier, .colon, .identifier]) :
    ∃ e, parameter c = .done ⟨name.value, name.value⟩ e ∧ e.Moves rest d ∧
      e.remaining < c.remaining := by
  simp only [List.map_cons, List.cons.injEq] at hkinds
  have m₁ := hmoves.advance_of_cons
  have m₂ := m₁.advance_of_cons
  have h₁ := hmoves.remaining_advance_lt
  have h₂ := m₁.remaining_advance_lt
  have h₃ := m₂.remaining_advance_lt
  refine ⟨_, ?_, m₂.advance_of_cons, by omega⟩
  rw [parameter, Body.parameter, expectFor_bind hmoves hkinds.1, expectFor_bind m₁ hkinds.2.1,
    expectFor_bind m₂ hkinds.2.2.1]
  rfl

theorem parameters_of_derives {ps : List Parameter} (hbudget : c.remaining < budget)
    (hmoves : c.Moves w d) (h : Derives .parameters w d.current.kind ps)
    (hclose : d.current.kind = .closeParen) : parameters budget c = .done ps d := by
  induction budget generalizing c w ps with
  | zero => omega
  | succ budget ih =>
    unfold parameters Body.parameters
    cases h with
    | noParameter =>
      obtain rfl := hmoves.eq_of_nil
      rw [ifAt_pos hclose]
      rfl
    | lastParameter hkinds =>
      obtain ⟨e, hread, m₁, -⟩ := parameter_of_moves hmoves hkinds
      obtain rfl := m₁.eq_of_nil
      simp only [List.map_cons, List.cons.injEq] at hkinds
      have hname : c.current.kind = .identifier := by rw [hmoves.current_of_cons, hkinds.1]
      rw [ifAt_neg (by simp [hname]), bind_of_done hread,
        bind_congr_left (ifAt_neg (by simp [hclose]))]
      rfl
    | parameter hkinds hrest =>
      simp only [List.map_cons, List.cons.injEq] at hkinds
      have hname : c.current.kind = .identifier := by rw [hmoves.current_of_cons, hkinds.1]
      obtain ⟨e, hread, m₁, h₁⟩ := parameter_of_moves hmoves (by simp [hkinds])
      have hcomma : e.current.kind = .comma := by rw [m₁.current_of_cons, hkinds.2.2.2.1]
      have h₂ := m₁.remaining_advance_lt
      rw [ifAt_neg (by simp [hname]), bind_of_done hread, bind_congr_left (ifAt_pos hcomma),
        bind_assoc, advance_bind, bind_of_done (ih (by omega) m₁.advance_of_cons hrest)]
      rfl

theorem number_of_read {t : Token} {x : Binary64} (hmoves : c.Moves [t] d)
    (hkind : t.kind = .integer ∨ t.kind = .float) (hread : Binary64.read? t.value = some x) :
    number c = .done (.number x (extent [t])) d := by
  have hc := hmoves.current_of_cons
  have hd := hmoves.advance_of_cons.eq_of_nil
  unfold number Body.number
  rw [current_bind, hc, if_pos hkind, hread, hd]
  rfl

section

variable (hinner : inner.Accepts bound)

include hinner

theorem definition_of_derives {next : Token.Kind} (hbound : c.remaining ≤ bound)
    (hbudget : c.remaining < budget) (hmoves : c.Moves w d) (h : Derives .definition w next n) :
    definition inner budget c = .done n d := by
  cases h with
  | @definition func name lparen rparen arrow type lbrace rbrace w body _ ps n hkinds hps hn =>
  simp only [List.map_cons, List.cons.injEq] at hkinds
  obtain ⟨hfunc, hname, hlparen, hrparen, harrow, htype, hlbrace, hrbrace, -⟩ := hkinds
  have hmoves : c.Moves (func :: name :: lparen ::
      (w ++ rparen :: arrow :: type :: lbrace :: (body ++ [rbrace]))) d := by simpa using hmoves
  have m₁ := hmoves.advance_of_cons
  have m₂ := m₁.advance_of_cons
  obtain ⟨e, m₃, m₄⟩ := m₂.advance_of_cons.split
  have m₅ := m₄.advance_of_cons
  have m₆ := m₅.advance_of_cons
  have m₇ := m₆.advance_of_cons
  have he : e.current.kind = .closeParen := by rw [m₄.current_of_cons, hrparen]
  have h₁ := hmoves.remaining_advance_lt
  have h₂ := m₁.remaining_advance_lt
  have h₃ := m₂.remaining_advance_lt
  have h₄ := m₃.remaining_le
  have h₅ := m₄.remaining_advance_lt
  have h₆ := m₅.remaining_advance_lt
  have h₇ := m₆.remaining_advance_lt
  have h₈ := m₇.remaining_advance_lt
  obtain ⟨e', hbody, m₈, -⟩ := hinner.required (by omega) m₇.advance_of_cons hrbrace hn (by decide)
    "expected function body"
  have hextent : extent (func :: name :: lparen :: w ++
      rparen :: arrow :: type :: lbrace :: body ++ [rbrace]) = func.span.join rbrace.span := by
    simp [extent, Span.join, List.getLast?_cons]
  unfold Construct.definition Body.definition
  rw [expectFor_bind hmoves hfunc, expectFor_bind m₁ hname, expectFor_bind m₂ hlparen,
    bind_of_done (parameters_of_derives (by omega) m₃ (by rwa [he]) he), expectFor_bind m₄ hrparen,
    expectFor_bind m₅ harrow, expectFor_bind m₆ htype, expectFor_bind m₇ hlbrace,
    bind_of_done hbody, expectFor_bind m₈ hrbrace, ← m₈.advance_of_cons.eq_of_nil, hextent]
  rfl

/-- An operand is read by the parse that its first token chooses. -/
theorem primary_of_derives (hbound : c.remaining ≤ bound) (hbudget : c.remaining < budget)
    (hmoves : c.Moves w d) (h : Derives .operand w d.current.kind n)
    (helse : d.current.kind ≠ .elseWord) : primary inner budget c = .done (some n) d := by
  rw [primary, Body.primary, current_bind]
  cases h with
  | number hkind hread =>
    have hnumber := number_of_read hmoves hkind hread
    rcases hkind with hkind | hkind <;> rw [hmoves.current_of_cons, hkind] <;>
      exact map_of_done hnumber
  | reference hkind hnext =>
    rw [hmoves.current_of_cons, hkind]
    refine map_of_done ?_
    rw [named, Body.named, expectFor_bind hmoves hkind, ← hmoves.advance_of_cons.eq_of_nil,
      ifAt_neg hnext]
    rfl
  | call hkinds hvalues =>
    have hcall := call_of_derives hinner hbound hbudget hmoves hkinds hvalues
    simp only [List.map_cons, List.cons.injEq] at hkinds
    rw [Cursor.Moves.current_of_cons hmoves, hkinds.1]
    exact map_of_done hcall
  | parenthesised hkinds hn =>
    have hparens := parenthesised_of_derives hinner hbound hmoves hkinds hn
    simp only [List.map_cons, List.cons.injEq] at hkinds
    rw [Cursor.Moves.current_of_cons hmoves, hkinds.1]
    exact map_of_done hparens
  | defined hn =>
    obtain ⟨t, u, rfl, ht⟩ := hn.definition_eq_cons
    rw [hmoves.current_of_cons, ht]
    exact map_of_done (definition_of_derives hinner hbound hbudget hmoves hn)
  | chosen hn =>
    obtain ⟨t, u, rfl, ht⟩ := hn.conditional_eq_cons
    rw [hmoves.current_of_cons, ht]
    exact map_of_done (conditional_of_derives hinner hbound hbudget hmoves hn helse)
  | returnNothing hkind hnext =>
    rw [hmoves.current_of_cons, hkind]
    exact map_of_done (returning_of_nothing hmoves hkind hnext)
  | returnValue hkind hn hnext =>
    rw [hmoves.current_of_cons, hkind]
    exact map_of_done (returning_of_derives hinner hbound hmoves hkind hn hnext helse)

end

/-- How tightly the loosest operator of a chain binds; operands bind tighter than any. -/
def ceiling : Option Tier → Int
  | some tier => tier.power
  | none => Tier.multiplicative.power + 1

theorem power_lt_ceiling_above (tier : Tier) : tier.power < ceiling (above tier) := by
  cases tier <;> decide

section Climbing

variable {operand : Parse (Option Node)}

/-- An operator takes as its right operand all that binds tighter, also if that is nothing. -/
theorem extended_eq (budget : Nat) (op : Operator) :
    Body.extended (operators operand (budget + 1)) op =
      operators operand (budget + 1) (op.power + 1) := by
  funext first d
  rw [Body.extended]
  cases hnext : d.current.operator with
  | error failure =>
    rw [inspect_bind_of_error (Token.precedence_of_error hnext), operators_of_error hnext]
  | ok op? =>
    rw [inspect_bind_of_ok (Token.precedence_of_operator hnext)]
    by_cases hlt : op.power < (op?.map Operator.power).getD (-1)
    · rw [if_pos hlt]
    · have hstops : d.current.Stops (op.power + 1) := by
        refine ⟨op?, hnext, fun op' hop' => ?_⟩
        rw [Option.mem_def.mp hop'] at hlt
        simp only [Option.map_some, Option.getD_some] at hlt
        omega
      rw [if_neg hlt, operators_of_stops hstops]
      rfl

theorem rightOperand_eq (budget : Nat) (op : Operator) :
    rightOperand operand (budget + 1) op =
      Body.dueOperand operand op >>= operators operand (budget + 1) (op.power + 1) := by
  rw [rightOperand, Body.rightOperand, extended_eq]

/-- A right operand is one that is read with the operators above the one before it. -/
theorem rightOperand_of_operators {op : Operator} {first : Node} {e : Cursor}
    (hfirst : operand c = .done (some first) e) (hbudget : 0 < budget)
    (h : operators operand budget (op.power + 1) first e = .done n d) :
    rightOperand operand budget op c = .done n d := by
  obtain ⟨budget, rfl⟩ : ∃ b, budget = b + 1 := ⟨budget - 1, by omega⟩
  rw [rightOperand_eq, Body.dueOperand, bind_of_done (required_of_done hfirst _), h]

variable (hoperand : ∀ {c d : Cursor} {w : List Token} {n : Node}, c.remaining < bound →
  c.Moves w d → Derives .operand w d.current.kind n → d.current.kind ≠ .elseWord →
  operand c = .done (some n) d)

include hoperand

/-- Before a chain the loop over operators comes to the end of the chain with its tree, if the
threshold lets it take the loosest operator of the chain and the next operator binds no tighter
than that one. -/
theorem climb {tier : Option Tier} {threshold : Int} (hc : c.remaining < bound)
    (hmoves : c.Moves w d) (h : Derives (.chain tier) w d.current.kind n)
    (hthreshold : threshold ≤ ceiling tier) (hstops : d.current.Stops (ceiling tier + 1))
    (helse : d.current.kind ≠ .elseWord) :
    ∃ first e, operand c = .done (some first) e ∧ e.remaining ≤ c.remaining ∧
      ∀ {budget : Nat} {outcome : Outcome Node}, e.remaining < budget →
        (∀ {rest : Nat}, d.remaining < rest → operators operand rest threshold n d = outcome) →
        operators operand budget threshold first e = outcome := by
  -- A chain is made of shorter ones, or of one word that is a chain of the next tier.
  induction hsize : 4 * w.length + (3 - rank tier) using Nat.strongRecOn
    generalizing c d w n tier threshold with
  | ind size ih =>
  cases tier with
  | none =>
    exact ⟨n, d, hoperand hc hmoves h helse, hmoves.remaining_le,
      fun hbudget hrest => hrest hbudget⟩
  | some tier =>
  have habove := power_lt_ceiling_above tier
  have hrank : 3 - rank (above tier) < 3 - rank (some tier) := by cases tier <;> decide
  simp only [ceiling] at hthreshold hstops
  cases h with
  | tighter hn => exact ih _ (by omega) hc hmoves hn (by omega) (hstops.mono (by omega)) helse rfl
  | @binary _ op t u v _ lhs rhs hkind hrow hlhs hrhs =>
    obtain ⟨hsymbol, htier⟩ := mem_rows_iff.mp hrow
    have hpower : op.power = tier.power := congrArg Tier.power htier.symm
    simp only [List.length_append, List.length_cons] at hsize
    obtain ⟨e₁, m₁, m₂⟩ := hmoves.split
    have he : e₁.current = t := m₂.current_of_cons
    have hop : e₁.current.operator = .ok (some op) := by
      rw [he]
      exact Token.operator_eq_some_iff.mpr ⟨hkind, hsymbol⟩
    have hle₁ := m₁.remaining_le
    have hlt₂ := m₂.remaining_advance_lt
    have hle₃ := m₂.advance_of_cons.remaining_le
    -- The left operand ends at the operator, which is as tight as its own loosest one.
    have hbefore : e₁.current.Stops (ceiling (some tier) + 1) :=
      ⟨some op, hop, by rintro op' ⟨⟩; simp only [ceiling]; omega⟩
    rw [← hkind, ← he] at hlhs
    obtain ⟨first, e, hread, hle, hloop⟩ :=
      ih _ (by omega) hc m₁ hlhs hthreshold hbefore (by simp [he, hkind]) rfl
    -- The right operand takes all operators above this one and ends with the chain.
    have hthreshold' : op.power + 1 ≤ ceiling (above tier) := by omega
    obtain ⟨first', e', hread', hle', hloop'⟩ :=
      ih _ (by omega) (by omega) m₂.advance_of_cons hrhs hthreshold' (hstops.mono (by omega)) helse
        rfl
    have hafter : ∀ {rest : Nat}, d.remaining < rest →
        operators operand rest (op.power + 1) rhs d = .done rhs d := by
      intro rest hrest
      obtain ⟨rest, rfl⟩ : ∃ b, rest = b + 1 := ⟨rest - 1, by omega⟩
      exact operators_of_stops (hstops.mono (by omega))
    refine ⟨first, e, hread, hle, fun {budget outcome} hbudget hrest => ?_⟩
    refine hloop hbudget fun {rest} hlt => ?_
    obtain ⟨rest, rfl⟩ : ∃ b, rest = b + 1 := ⟨rest - 1, by omega⟩
    have hright : rightOperand operand rest op e₁.advance = .done rhs d :=
      rightOperand_of_operators hread' (by omega) (hloop' (by omega) hafter)
    rw [operators_of_some hop (by omega), bind_of_done hright]
    exact hrest (by omega)

end Climbing

theorem accepts_chain (hinner : inner.Accepts bound) (hbudget : bound < budget) :
    (chain inner budget).Accepts (bound + 1) := by
  intro c d w n hc hmoves hn hoperator helse
  have hnone : d.current.operator = .ok none := Token.operator_eq_none_iff.mpr hoperator
  have hstops : ∀ threshold, d.current.Stops threshold := fun _ => ⟨none, hnone, nofun⟩
  have hprimary : ∀ {c d : Cursor} {w : List Token} {n : Node}, c.remaining < bound + 1 →
      c.Moves w d → Derives .operand w d.current.kind n → d.current.kind ≠ .elseWord →
      primary inner budget c = .done (some n) d := by
    intro c d w n hc hmoves hn helse
    exact primary_of_derives hinner (by omega) (by omega) hmoves hn helse
  have hzero : (0 : Int) ≤ ceiling (some .relational) := by decide
  obtain ⟨first, e, hread, hle, hloop⟩ := climb hprimary hc hmoves hn hzero (hstops _) helse
  unfold chain Body.chain
  rw [bind_of_done hread]
  refine map_of_done (hloop (by omega) fun {rest} hrest => ?_)
  obtain ⟨rest, rfl⟩ : ∃ b, rest = b + 1 := ⟨rest - 1, by omega⟩
  exact operators_of_stops (hstops 0)

theorem accepts_expression (budget : Nat) : (expression budget).Accepts budget := by
  induction budget with
  | zero => exact fun hc => absurd hc (Nat.not_lt_zero _)
  | succ budget ih => exact accepts_chain ih (Nat.lt_succ_self _)

theorem entry_of_eof (heof : c.current.kind = .eof) : entry inner budget c = .done none c := by
  have hprimary : primary inner budget c = .done none c := by
    rw [primary, Body.primary, current_bind, heof]
    rfl
  have hchain : chain inner budget c = .done none c := bind_of_done hprimary
  rw [entry, Body.entry, bind_of_done hchain]
  rfl

/-- A bare expression is read up to the unit or the end token behind it. -/
theorem entry_of_derives {e : Cursor} {rest : List Token} {ns : List Node}
    (hinner : inner.Accepts bound) (hbound : c.remaining ≤ bound) (hbudget : c.remaining < budget)
    (hmoves : c.Moves w e) (hafter : e.Moves rest d) (heof : d.current.kind = .eof)
    (h : Derives .expression w (firstKind rest d.current.kind) n)
    (hrest : Derives .units rest d.current.kind ns) :
    entry inner budget c = .done (some n.entry) e := by
  have hnext := hrest.firstKind_units
  rw [hafter.firstKind_eq] at h hnext
  have hends : e.current.kind ≠ .operator ∧ e.current.kind ≠ .elseWord := by
    rcases hnext with hnext | hnext
    · simp [hnext, heof]
    · constructor <;> intro hkind <;> simp [hkind, Token.Kind.startsExpression] at hnext
  have hchain : chain inner budget c = .done (some n) e :=
    accepts_chain (hinner.mono hbound) hbudget (Nat.lt_succ_self _) hmoves h hends.1 hends.2
  rw [entry, Body.entry, bind_of_done hchain]
  rfl

/-- Units are read up to the end token behind them. -/
theorem units_of_derives (hinner : inner.Accepts bound) (hbound : c.remaining ≤ bound)
    (hbudget : c.remaining < budget) {ns : List Node} (hmoves : c.Moves w d)
    (h : Derives .units w d.current.kind ns) (heof : d.current.kind = .eof) :
    units inner budget c = .done ns d := by
  induction budget generalizing c w ns with
  | zero => omega
  | succ budget ih =>
    unfold units Body.units
    cases h with
    | noUnit =>
      obtain rfl := hmoves.eq_of_nil
      rw [ifAt_pos heof]
      rfl
    | @definedUnit w rest _ n _ hn hrest =>
      obtain ⟨t, u, rfl, ht⟩ := hn.definition_eq_cons
      have hfunc : c.current.kind = .funcWord := by
        rw [Cursor.Moves.current_of_cons hmoves, ht]
      have hne : c.current.kind ≠ .eof := by simp [hfunc]
      obtain ⟨e, m₁, m₂⟩ := hmoves.split
      have h₁ := m₁.remaining_advance_lt
      have h₂ := m₁.advance_of_cons.remaining_le
      have hunit : unit inner (budget + 1) c = .done (some n) e := by
        rw [unit, Body.unit, ifAt_pos hfunc]
        exact map_of_done (definition_of_derives hinner hbound hbudget m₁ hn)
      rw [ifAt_neg hne, bind_of_done hunit]
      exact bind_of_done (ih (by omega) (by omega) m₂ hrest)
    | @bareUnit w rest _ n _ hn hfirst hrest =>
      obtain ⟨t, u, rfl, ht⟩ := hn.exists_cons trivial
      have hfunc : c.current.kind ≠ .funcWord := by
        rw [Cursor.Moves.current_of_cons hmoves]
        simpa using hfirst
      have hne : c.current.kind ≠ .eof := hmoves.current_ne_eof
      obtain ⟨e, m₁, m₂⟩ := hmoves.split
      have h₁ := m₁.remaining_advance_lt
      have h₂ := m₁.advance_of_cons.remaining_le
      have hunit : unit inner (budget + 1) c = .done (some n.entry) e := by
        rw [unit, Body.unit, ifAt_neg hfunc,
          entry_of_derives hinner hbound hbudget m₁ m₂ heof hn hrest]
      rw [ifAt_neg hne, bind_of_done hunit]
      exact bind_of_done (ih (by omega) (by omega) m₂ hrest)

end Construct

end ExprLang
