import ExprLang.Proofs.Lookahead
import ExprLang.Report

/-!
What a failed parse blames. It is the token that the parse stopped at, where the failure has its
position, and the report cites nothing but that token and a message. All messages have one line,
which passes through sequences of parses; so a token of one line is reported on one.
-/
namespace ExprLang

/-- The message has one line, if there is one beside the text of a token. -/
def Failure.Cause.Terse : Failure.Cause → Prop
  | .misplaced _ message => '\n' ∉ message.toList
  | _ => True

/-- The failure is at the token, and it is reported on one line if the token stands on one. -/
structure Token.Blamed (t : Token) (failure : Failure) : Prop where
  position_eq : failure.position = t.span.start
  header_on_line : '\n' ∉ t.value.toList → '\n' ∉ (Report.header failure.cause).toList

namespace Token

variable {t : Token} {failure : Failure}

theorem Faults.blamed {cause : String → Failure.Cause} (h : t.Faults cause)
    (hterse : (cause t.value).Terse) : t.Blamed ⟨cause t.value, t.span.start⟩ := by
  refine ⟨rfl, fun hvalue => ?_⟩
  cases h with
  | misplaced message =>
    have hmessage : '\n' ∉ message.toList := hterse
    simp [Report.header, Failure.Cause.tip?, Failure.Cause.name, hvalue, hmessage]
  | unexpected | malformedNumber | notOperator =>
    simpa [Report.header, Failure.Cause.tip?, Failure.Cause.name, Token.notOperator] using hvalue

theorem terse_of_operator (h : t.operator = .error failure) : failure.cause.Terse := by
  unfold operator at h
  split at h
  · split at h
    · cases h
    · cases h
      trivial
  · cases h

theorem terse_of_precedence (h : t.precedence = .error failure) : failure.cause.Terse := by
  cases hop : t.operator with
  | ok op? => simp [precedence_of_operator hop] at h
  | error failure' =>
    obtain rfl : failure' = failure := by simpa [precedence_of_error hop] using h
    exact terse_of_operator hop

end Token

namespace Parse

open Steps

variable {α β : Type} {p : Parse α} {f : α → Parse β}

/-- The parse fails with messages of one line only. -/
def Terse (p : Parse α) : Prop := ∀ c failure stop, p c = .failed failure stop → failure.cause.Terse

theorem terse_pure (value : α) : (pure value : Parse α).Terse := by
  intro c failure stop h
  cases h

theorem terse_spent : (spent : Parse α).Terse := by
  intro c failure stop h
  cases h

theorem terse_current : (current : Parse Token).Terse := by
  intro c failure stop h
  cases h

theorem terse_advance : (advance : Parse Token).Terse := by
  intro c failure stop h
  cases h

theorem terse_lastEnd : (lastEnd : Parse Position).Terse := by
  intro c failure stop h
  cases h

theorem terse_bind (hp : p.Terse) (hf : ∀ value, (f value).Terse) : (p >>= f).Terse := by
  intro c failure stop h
  simp only [bind] at h
  cases hpc : p c with
  | done value next =>
    rw [hpc] at h
    exact hf value next failure stop h
  | failed failure' stop' =>
    rw [hpc] at h
    cases h
    exact hp c failure stop hpc
  | spent =>
    rw [hpc] at h
    cases h

theorem terse_map (hp : p.Terse) (g : α → β) : (g <$> p).Terse :=
  terse_bind hp fun value => terse_pure (g value)

theorem terse_ite {q : Prop} [Decidable q] {yes no : Parse α} (hyes : yes.Terse) (hno : no.Terse) :
    (if q then yes else no).Terse := by
  split
  · exact hyes
  · exact hno

theorem terse_ifAt {kind : Token.Kind} {yes no : Parse α} (hyes : yes.Terse) (hno : no.Terse) :
    (ifAt kind yes no).Terse :=
  terse_bind terse_current fun _ => terse_ite hyes hno

theorem terse_inspect {g : Token → Except Failure α}
    (hg : ∀ t failure, g t = .error failure → failure.cause.Terse) :
    (inspect g : Parse α).Terse := by
  intro c failure stop h
  rw [inspect_apply] at h
  split at h
  · cases h
  · cases h
    exact hg c.current failure (by assumption)

theorem terse_refuse {cause : String → Failure.Cause} (hcause : ∀ value, (cause value).Terse) :
    (refuse cause : Parse α).Terse := by
  intro c failure stop h
  cases h
  exact hcause _

theorem terse_misplaced {message : String} (hmessage : '\n' ∉ message.toList) :
    (misplaced message : Parse α).Terse :=
  terse_refuse fun _ => hmessage

theorem terse_expect (kind : Token.Kind) : (expect kind : Parse Token).Terse :=
  terse_ifAt terse_advance (terse_refuse fun _ => trivial)

theorem terse_expectFor (kind : Token.Kind) {message : String}
    (hmessage : '\n' ∉ message.toList) : (expectFor kind message : Parse Token).Terse :=
  terse_ifAt terse_advance (terse_misplaced hmessage)

theorem terse_required {p : Parse (Option α)} {message : String} (hp : p.Terse)
    (hmessage : '\n' ∉ message.toList) : (required p message).Terse := by
  apply terse_bind hp
  intro value
  cases value with
  | some value => exact terse_pure value
  | none => exact terse_misplaced hmessage

end Parse

namespace Construct

open Parse Steps

theorem terse_number : number.Terse := by
  apply terse_bind terse_current
  intro token
  split
  · split
    · exact terse_bind terse_advance fun _ => terse_pure _
    · exact terse_refuse fun _ => trivial
  · exact terse_misplaced (by simp)

theorem terse_parameter : parameter.Terse := by
  apply terse_bind (terse_expectFor _ (by simp))
  intro name
  apply terse_bind (terse_expectFor _ (by simp))
  intro colon
  apply terse_bind (terse_expectFor _ (by simp))
  intro type
  exact terse_pure _

theorem terse_parameters (budget : Nat) : (parameters budget).Terse := by
  induction budget with
  | zero => exact terse_spent
  | succ budget ih =>
    apply terse_ifAt (terse_pure _)
    apply terse_bind terse_parameter
    intro first
    apply terse_bind (terse_ifAt (terse_bind terse_advance fun _ => ih) (terse_pure _))
    intro rest
    exact terse_pure _

section

variable {inner : Parse (Option Node)} (hinner : inner.Terse)

include hinner

theorem terse_arguments (budget : Nat) : (arguments inner budget).Terse := by
  induction budget with
  | zero => exact terse_spent
  | succ budget ih =>
    apply terse_ifAt (terse_pure _)
    apply terse_bind (terse_expectFor _ (by simp))
    intro label
    apply terse_bind (terse_expectFor _ (by simp))
    intro colon
    apply terse_bind (terse_required hinner (by simp))
    intro value
    apply terse_bind (terse_ifAt (terse_bind terse_advance fun _ => ih) (terse_pure _))
    intro rest
    exact terse_pure _

theorem terse_named (budget : Nat) : (named inner budget).Terse := by
  apply terse_bind (terse_expectFor _ (by simp))
  intro name
  apply terse_ifAt
  · apply terse_bind terse_advance
    intro lparen
    apply terse_bind (terse_arguments hinner budget)
    intro values
    exact terse_bind (terse_expectFor _ (by simp)) fun _ => terse_pure _
  · exact terse_pure _

theorem terse_parenthesised : (parenthesised inner).Terse := by
  apply terse_bind (terse_expect _)
  intro lparen
  apply terse_bind (terse_required hinner (by simp))
  intro node
  exact terse_bind (terse_expectFor _ (by simp)) fun _ => terse_pure _

theorem terse_branch : (branch inner).Terse := by
  apply terse_bind (terse_expectFor _ (by simp))
  intro lbrace
  apply terse_bind (terse_required hinner (by simp))
  intro node
  exact terse_bind (terse_expectFor _ (by simp)) fun _ => terse_pure _

theorem terse_conditional (budget : Nat) : (conditional inner budget).Terse := by
  induction budget with
  | zero => exact terse_spent
  | succ budget ih =>
    apply terse_bind (terse_expect _)
    intro opening
    apply terse_bind (terse_required hinner (by simp))
    intro condition
    apply terse_bind (terse_branch hinner)
    intro consequence
    have halternative : (ifAt .ifWord (conditional inner budget) (branch inner)).Terse :=
      terse_ifAt ih (terse_branch hinner)
    apply terse_bind (terse_ifAt (terse_bind terse_advance fun _ =>
      terse_map halternative some) (terse_pure none))
    intro alternative
    exact terse_bind terse_lastEnd fun _ => terse_pure _

theorem terse_definition (budget : Nat) : (definition inner budget).Terse := by
  apply terse_bind (terse_expectFor _ (by simp))
  intro opening
  apply terse_bind (terse_expectFor _ (by simp))
  intro name
  apply terse_bind (terse_expectFor _ (by simp))
  intro lparen
  apply terse_bind (terse_parameters budget)
  intro list
  apply terse_bind (terse_expectFor _ (by simp))
  intro rparen
  apply terse_bind (terse_expectFor _ (by simp))
  intro arrow
  apply terse_bind (terse_expectFor _ (by simp))
  intro typeName
  apply terse_bind (terse_expectFor _ (by simp))
  intro lbrace
  apply terse_bind (terse_required hinner (by simp))
  intro body
  exact terse_bind (terse_expectFor _ (by simp)) fun _ => terse_pure _

theorem terse_returning : (returning inner).Terse := by
  apply terse_bind (terse_expect _)
  intro opening
  apply terse_bind terse_current
  intro token
  apply terse_bind (terse_ite hinner (terse_pure none))
  intro body
  exact terse_bind terse_lastEnd fun _ => terse_pure _

theorem terse_primary (budget : Nat) : (primary inner budget).Terse := by
  apply terse_bind terse_current
  intro token
  split
  · exact terse_map (terse_named hinner budget) some
  · exact terse_map terse_number some
  · exact terse_map terse_number some
  · exact terse_map (terse_parenthesised hinner) some
  · exact terse_map (terse_definition hinner budget) some
  · exact terse_map (terse_returning hinner) some
  · exact terse_map (terse_conditional hinner budget) some
  · exact terse_pure none
  · exact terse_refuse fun _ => trivial

theorem terse_rightOperand {budget : Nat} (op : Operator)
    (hoperators : ∀ threshold lhs, (operators inner budget threshold lhs).Terse) :
    (rightOperand inner budget op).Terse := by
  have hmessage : '\n' ∉ ("expected an operand after `" ++ op.symbol ++ "`").toList := by
    cases op <;> decide
  apply terse_bind (terse_required hinner hmessage)
  intro first
  apply terse_bind (terse_inspect fun _ _ => Token.terse_of_precedence)
  intro next
  exact terse_ite (hoperators _ _) (terse_pure first)

theorem terse_operators (budget : Nat) (threshold : Int) (lhs : Node) :
    (operators inner budget threshold lhs).Terse := by
  induction budget generalizing threshold lhs with
  | zero => exact terse_spent
  | succ budget ih =>
    apply terse_bind (terse_inspect fun _ _ => Token.terse_of_operator)
    intro op?
    cases op? with
    | none => exact terse_pure lhs
    | some op =>
      apply terse_ite (terse_pure lhs)
      apply terse_bind terse_advance
      intro token
      exact terse_bind (terse_rightOperand hinner op ih) fun _ => ih _ _

theorem terse_chain (budget : Nat) : (chain inner budget).Terse := by
  have hprimary := terse_primary hinner budget
  apply terse_bind hprimary
  intro lhs
  cases lhs with
  | none => exact terse_pure none
  | some lhs => exact terse_map (terse_operators hprimary budget 0 lhs) some

theorem terse_unit (budget : Nat) : (unit inner budget).Terse := by
  apply terse_ifAt
  · exact terse_map (terse_definition hinner budget) some
  · exact terse_bind (terse_chain hinner budget) fun _ => terse_pure _

theorem terse_units (budget : Nat) : (units inner budget).Terse := by
  induction budget with
  | zero => exact terse_spent
  | succ budget ih =>
    apply terse_ifAt (terse_pure [])
    apply terse_bind (terse_unit hinner (budget + 1))
    intro first
    cases first with
    | none => exact terse_pure []
    | some first => exact terse_bind ih fun _ => terse_pure _

end

theorem terse_expression (budget : Nat) : (expression budget).Terse := by
  induction budget with
  | zero => exact terse_spent
  | succ budget ih => exact terse_chain ih (budget + 1)

end Construct

/-- Nothing is put behind tokens of which the last one is an end token. -/
theorem Cursor.start_concat (words : List Token) {last : Token} (hlast : last.kind = .eof)
    (file : String) :
    (start (words ++ [last]) file).current :: (start (words ++ [last]) file).ahead =
      words ++ [last] := by
  obtain ⟨p, htokens⟩ := exists_start_eq (words ++ [last]) file
  rw [htokens, if_pos (by simp [hlast])]

/-- Tokens that are no program have one of them to blame. -/
theorem Program.exists_blamed_of_ofTokens {words : List Token} {last : Token} {file : String}
    {failure : Failure} (hlast : last.kind = .eof)
    (h : ofTokens (words ++ [last]) file = .error failure) :
    ∃ t ∈ words ++ [last], t.Blamed failure := by
  have hunits : (Cursor.start (words ++ [last]) file).units =
      (.error failure, (Cursor.start (words ++ [last]) file).units.2) := Prod.ext h rfl
  generalize (Cursor.start (words ++ [last]) file).units.2 = stop at hunits
  obtain ⟨w, cause, hmoves, hfaults, rfl⟩ := Cursor.exists_faults_of_units hunits
  rw [Cursor.units, Outcome.result_eq_error_iff] at hunits
  refine ⟨stop.current, ?_, hfaults.blamed ?_⟩
  · rw [← Cursor.start_concat words hlast file, hmoves.tokens]
    simp
  · exact Construct.terse_units (Construct.terse_expression _) _ _ _ _ hunits

end ExprLang
