import ExprLang.Proofs.Exchange

/-!
Why a reading fails. Whatever is asked for, a failure stands at the token that the reading stops
at, and its cause cites that token in one of four ways. Only an operator that is not known has
two of them: behind an operand it is refused as an operator, and elsewhere it is out of place.
What does not begin like an operand fails at once, and operators fail as the expression does
that has a name before them.
-/
namespace ExprLang

open Grammar

namespace Parse

open Steps

variable {α β : Type} {p : Parse α} {f : α → Parse β} {c d : Cursor} {failure : Failure}

theorem bind_eq_failed (h : (p >>= f) c = .failed failure d) :
    p c = .failed failure d ∨ ∃ value e, p c = .done value e ∧ f value e = .failed failure d := by
  simp only [bind] at h
  cases hpc : p c with
  | done value e =>
    rw [hpc] at h
    exact .inr ⟨value, e, rfl, h⟩
  | failed failure' d' =>
    rw [hpc] at h
    cases h
    exact .inl rfl
  | spent =>
    rw [hpc] at h
    cases h

section Token

-- This is for both ways to expect a token.
variable {kind : Token.Kind} {cause : String → Failure.Cause}

theorem token_eq_failed
    (h : (ifAt kind advance (refuse cause) : Parse Token) c = .failed failure d) :
    failure = ⟨cause c.current.value, c.current.span.start⟩ ∧ d = c := by
  rw [ifAt_apply] at h
  split at h
  · cases h
  · cases h
    exact ⟨rfl, rfl⟩

theorem token_bind_of_ne {f : Token → Parse β} (h : c.current.kind ≠ kind) :
    (ifAt kind advance (refuse cause) >>= f) c =
      .failed ⟨cause c.current.value, c.current.span.start⟩ c := by
  rw [bind_congr_left (ifAt_neg h)]
  rfl

end Token

end Parse

namespace Construct

open Parse

variable {operand : Parse (Option Node)} {budget : Nat} {threshold : Int} {lhs : Node}
  {c d : Cursor} {failure : Failure}

/-- Operators fail in the same way from any threshold on and behind any left operand. -/
theorem operators_zero_of_failed
    (h : operators operand budget threshold lhs c = .failed failure d) (lhs' : Node) :
    operators operand budget 0 lhs' c = .failed failure d := by
  induction budget generalizing threshold lhs lhs' c with
  | zero => cases h
  | succ budget ih =>
    cases hop : c.current.operator with
    | error failure' =>
      rw [operators_of_error hop] at h ⊢
      exact h
    | ok op? =>
      rcases Token.stops_or_le threshold hop with hstops | ⟨op, rfl, hle⟩
      · rw [operators_of_stops hstops] at h
        cases h
      · rw [operators_of_some hop hle] at h
        rw [operators_of_some hop (power_nonneg op)]
        rcases bind_eq_failed h with hrhs | ⟨rhs, e, hrhs, hrest⟩
        · exact bind_of_failed hrhs
        · rw [bind_of_done hrhs]
          exact ih hrest _

end Construct

namespace Cursor

open Construct Parse Steps

variable {c d : Cursor} {w : List Token} {failure : Failure}

/-- What starts with a certain token fails as an operand does if it stands there, and at once
if another one does. -/
theorem unimplemented_iff_of_primary {q : Parse Node} (starts : Prop)
    (hyes : starts → Construct.primary c.nested c.budget c = (some <$> q) c)
    (hno : ¬ starts → ∃ failure, q c = .failed failure c ∧ failure.cause.kind = .syntactic)
    (h : q c = .failed failure d) (hw : c.Moves w d) (ht : d.current.kind = .operator)
    (hsymbol : Operator.ofSymbol? d.current.value = none) :
    failure.cause.kind = .unimplemented ↔ AfterOperand .operand w := by
  by_cases hstarts : starts
  · refine operandReader.unimplemented_iff (c := c) (d := d) ?_ hw ht hsymbol
    refine (hyes hstarts).trans ?_
    rw [map_eq_bind]
    simp only [bind, h]
  · obtain ⟨failure', hfailed, hkind⟩ := hno hstarts
    obtain ⟨rfl, rfl⟩ := Outcome.failed.inj (hfailed.symm.trans h)
    obtain rfl := hw.word_unique (.refl c)
    simp [hkind, AfterOperand, not_endsOperand_nil]

theorem kind_of_parameter_failed (h : Construct.parameter c = .failed failure d) :
    failure.cause.kind = .syntactic := by
  have hexpect {kind : Token.Kind} {message : String} {c : Cursor}
      (h : (Steps.expectFor kind message : Parse Token) c = .failed failure d) :
      failure.cause.kind = .syntactic := by
    rw [(token_eq_failed h).1]
    rfl
  rcases bind_eq_failed h with hname | ⟨name, c₁, -, h⟩
  · exact hexpect hname
  rcases bind_eq_failed h with hcolon | ⟨colon, c₂, -, h⟩
  · exact hexpect hcolon
  rcases bind_eq_failed h with htype | ⟨type, c₃, -, h⟩
  · exact hexpect htype
  · cases h

theorem kind_of_operators_failed {operand : Parse (Option Node)} {budget : Nat} {threshold : Int}
    {lhs : Node} (h : Construct.operators operand (budget + 1) threshold lhs c =
      .failed failure d) : c.current.kind = .operator := by
  refine Token.kind_of_not_stops fun hstops : c.current.Stops threshold => ?_
  rw [operators_of_stops hstops] at h
  cases h

/-- Operators fail as an expression does that has a name before them. -/
theorem unimplemented_iff_of_operators {threshold : Int} {lhs : Node}
    (h : Construct.operators (Construct.primary c.nested c.budget) c.budget threshold lhs c =
      .failed failure d) (hw : c.Moves w d) (ht : d.current.kind = .operator)
    (hsymbol : Operator.ofSymbol? d.current.value = none) :
    failure.cause.kind = .unimplemented ↔
      AfterOperand .expression (sample .identifier :: w) := by
  have hkinds : ∀ t ∈ sample .identifier :: w, t.kind ≠ .eof :=
    List.forall_mem_cons.mpr ⟨by decide, hw.kinds⟩
  obtain ⟨d', hword, hcurrent⟩ := c.exists_moves_onto (t := d.current) [] hkinds
  have hword' : (c.onto (sample .identifier :: w ++ [d.current])).Moves
      ([sample .identifier] ++ w) d' := hword
  obtain ⟨c', hname, hw'⟩ := hword'.split
  generalize c.onto (sample .identifier :: w ++ [d.current]) = c₀ at hword hname
  let lhs' : Node := .reference "x" (extent [sample .identifier])
  have hzero := operators_zero_of_failed h lhs'
  have hoperator : c'.current.kind = .operator := by
    rw [(hw.replacedBy hw' (.inl hcurrent)).kind_eq]
    exact kind_of_operators_failed h
  have hprimary : Construct.primary c₀.nested c₀.budget c₀ = .done (some lhs') c' :=
    primary_of_derives (accepts_expression _) (Nat.le_refl _) c₀.remaining_lt_budget hname
      (.reference rfl (by simp [hoperator])) (by simp [hoperator])
  -- The chain reads the name and then goes on as the operators do.
  have hchain : chain c₀.nested c₀.budget c₀ =
      (some <$> (Request.operators 0 lhs').parse c₀) c' := bind_of_done hprimary
  have hmirrors := (Request.operators 0 lhs').mirrors id c c₀ c
  rw [show (Request.operators 0 lhs').parse c c = .failed failure d from hzero] at hmirrors
  obtain ⟨u, hu, hsecond⟩ := hmirrors
  obtain rfl := hu.word_unique hw
  rw [map_eq_bind] at hchain
  rcases hsecond c' d' ⟨False.elim, by rw [hcurrent], u, hw', rfl⟩ with
    hspent | ⟨cause, -, hfailure, hfailed⟩
  · simp only [bind, hspent] at hchain
    exact absurd hchain (expressionReader.ne_spent c₀)
  simp only [bind, hfailed, hcurrent, ← hfailure] at hchain
  exact expressionReader.unimplemented_iff hchain hword (by rw [hcurrent, ht])
    (by rw [hcurrent, hsymbol])

namespace Request

variable {α : Type}

/-- The word that was read from the request on ends with an operand of an expression. Operators
are asked for behind an operand, for which a name stands here, and parameters have none. -/
def AfterOperand : Request α → List Token → Prop
  | .expression, w | .required _, w | .entry, w => Grammar.AfterOperand .expression w
  | .primary, w | .number, w | .named, w | .parenthesised, w | .conditional, w | .returning, w
  | .definition, w => Grammar.AfterOperand .operand w
  | .operators _ _, w => Grammar.AfterOperand .expression (sample .identifier :: w)
  | .parameter, _ => False

theorem unimplemented_iff (request : Request α) (h : request.parse c c = .failed failure d)
    (hw : c.Moves w d) (ht : d.current.kind = .operator)
    (hsymbol : Operator.ofSymbol? d.current.value = none) :
    failure.cause.kind = .unimplemented ↔ request.AfterOperand w := by
  cases request with
  | expression => exact expressionReader.unimplemented_iff h hw ht hsymbol
  | required message =>
    refine expressionReader.unimplemented_iff (c := c) (d := d) ?_ hw ht hsymbol
    rcases bind_eq_failed h with hchain | ⟨_ | n, e, hchain, hmissing⟩
    · exact hchain
    · have hreads : (chain c.nested c.budget c).ReadsChain _ c :=
        readsChain_chain (readsChain_expression _) _
      rw [hchain] at hreads
      cases hmissing
      simp [hreads.1, hreads.2] at ht
    · cases hmissing
  | entry =>
    refine expressionReader.unimplemented_iff (c := c) (d := d) ?_ hw ht hsymbol
    rcases bind_eq_failed h with hchain | ⟨n, e, hchain, hpure⟩
    · exact hchain
    · cases hpure
  | primary => exact operandReader.unimplemented_iff h hw ht hsymbol
  | number =>
    refine unimplemented_iff_of_primary (c.current.kind = .integer ∨ c.current.kind = .float)
      (fun hkind => ?_) (fun hkind => ?_) h hw ht hsymbol
    · rw [Construct.primary, Body.primary, current_bind]
      rcases hkind with hkind | hkind <;> rw [hkind] <;> rfl
    · have hfailed : Construct.number c =
          .failed (c.misplaced "any number is expected") c := by
        rw [Construct.number, Body.number, current_bind, if_neg hkind]
        rfl
      exact ⟨_, hfailed, rfl⟩
  | named | parenthesised | conditional | returning | definition =>
    refine unimplemented_iff_of_primary (c.current.kind = _) (fun hkind => ?_)
      (fun hkind => ⟨_, token_bind_of_ne hkind, rfl⟩) h hw ht hsymbol
    rw [Construct.primary, Body.primary, current_bind, hkind]
    rfl
  | operators threshold lhs => exact unimplemented_iff_of_operators h hw ht hsymbol
  | parameter => simp [AfterOperand, kind_of_parameter_failed h]

end Request

end Cursor

/-- The failure is the token's: it stands where the token starts, and its cause cites the token
in the one of four ways that fits it. If the token is an operator that is not known, it matters
whether it stands behind an operand. -/
structure Token.AccountsFor (t : Token) (failure : Failure) (afterOperand : Prop) : Prop where
  position_eq : failure.position = t.span.start
  cause_eq : failure.cause = .unexpected t.value ∨
    (∃ message, failure.cause = .misplaced t.value message) ∨
    (failure.cause = .malformedNumber t.value ∧ (t.kind = .integer ∨ t.kind = .float) ∧
      Binary64.read? t.value = none) ∨
    (failure.cause = .unsupported ("operator `" ++ t.value ++ "`") ∧ t.kind = .operator ∧
      Operator.ofSymbol? t.value = none)
  kind_eq : failure.cause.kind = .syntactic ∨ failure.cause.kind = .unimplemented
  behind_operand : t.kind = .operator → Operator.ofSymbol? t.value = none → afterOperand →
    failure.cause = .unsupported ("operator `" ++ t.value ++ "`")
  elsewhere : t.kind = .operator → Operator.ofSymbol? t.value = none → ¬ afterOperand →
    failure.cause = .unexpected t.value ∨ ∃ message, failure.cause = .misplaced t.value message

theorem Token.Faults.accountsFor {t : Token} {cause : String → Failure.Cause}
    {afterOperand : Prop} (h : t.Faults cause)
    (hiff : t.kind = .operator → Operator.ofSymbol? t.value = none →
      ((cause t.value).kind = .unimplemented ↔ afterOperand)) :
    t.AccountsFor ⟨cause t.value, t.span.start⟩ afterOperand := by
  refine ⟨rfl, ?_, h.kind_eq _, fun hkind hsymbol hafter => ?_, fun hkind hsymbol hafter => ?_⟩
  · cases h with
    | unexpected => exact .inl rfl
    | misplaced message => exact .inr (.inl ⟨message, rfl⟩)
    | malformedNumber hkind hread => exact .inr (.inr (.inl ⟨rfl, hkind, hread⟩))
    | notOperator hkind hsymbol => exact .inr (.inr (.inr ⟨rfl, hkind, hsymbol⟩))
  · have hunimplemented := (hiff hkind hsymbol).mpr hafter
    cases h with
    | unexpected | misplaced | malformedNumber => cases hunimplemented
    | notOperator => rfl
  · have hsyntactic := mt (hiff hkind hsymbol).mp hafter
    cases h with
    | unexpected => exact .inl rfl
    | misplaced message => exact .inr ⟨message, rfl⟩
    | malformedNumber hnumber => simp [hkind] at hnumber
    | notOperator => exact absurd rfl hsyntactic

namespace Cursor

open Parse Steps

/-- A token that was expected is missed at the cursor itself, where no expression is read. -/
theorem accountsFor_of_expect {kind : Token.Kind} {cause : String → Failure.Cause} {c d : Cursor}
    {failure : Failure}
    (h : (ifAt kind Steps.advance (refuse cause) : Parse Token) c = .failed failure d)
    (hfaults : c.current.Faults cause) (hkind : (cause c.current.value).kind = .syntactic) :
    d = c ∧ d.current.AccountsFor failure False := by
  obtain ⟨rfl, rfl⟩ := token_eq_failed h
  exact ⟨rfl, hfaults.accountsFor fun _ _ => by simp [hkind]⟩

/-- Every reading that fails does so at the token that it stops at, which accounts for the
failure. So does the reading of a whole program, and that of a single token. -/
theorem read_fails_at_current :
    (∀ (α : Type) (request : Request α) (c d : Cursor) (failure : Failure),
      request.read c = (.error failure, d) →
        ∃ w, c.Moves w d ∧ d.current.AccountsFor failure (request.AfterOperand w)) ∧
      (∀ (c d : Cursor) (failure : Failure), c.units = (.error failure, d) →
        ∃ w, c.Moves w d ∧ d.current.AccountsFor failure (AfterOperand .units w)) ∧
      ∀ (c d : Cursor) (kind : Token.Kind) (message : String) (failure : Failure),
        c.expect kind = (.error failure, d) ∨ c.expectFor kind message = (.error failure, d) →
          d = c ∧ d.current.AccountsFor failure False := by
  refine ⟨?_, ?_, ?_⟩
  · intro α request c d failure h
    obtain ⟨hspent, hread⟩ := request.read_eq c
    rw [hread, Outcome.result_eq_error_iff] at h
    obtain ⟨w, cause, hw, hfaults, rfl⟩ := (request.mirrors id c c c).exists_faults h
    exact ⟨w, hw, hfaults.accountsFor (request.unimplemented_iff h hw)⟩
  · intro c d failure h
    obtain ⟨w, cause, hw, hfaults, rfl⟩ := exists_faults_of_units h
    rw [units, Outcome.result_eq_error_iff] at h
    exact ⟨w, hw, hfaults.accountsFor (Construct.unitsReader.unimplemented_iff h hw)⟩
  · rintro c d kind message failure (h | h)
    · exact accountsFor_of_expect (Outcome.result_eq_error_iff.mp h) .unexpected rfl
    · exact accountsFor_of_expect (Outcome.result_eq_error_iff.mp h) (.misplaced message) rfl

/-- An unknown operator behind a name, and one behind a name that labels an argument. -/
theorem read_fails_at_unknown_operator :
    let plain := start ([.identifier, .operator].map sample) ""
    let label := start ([.identifier, .openParen, .identifier, .operator].map sample) ""
    let missing := "expected `:` after the argument label"
    (∃ d w, plain.units = (.error ⟨.unsupported "operator `x`", .null⟩, d) ∧
      plain.Moves w d ∧ AfterOperand .units w) ∧
      ∃ d w, Request.expression.read label = (.error ⟨.misplaced "x" missing, .null⟩, d) ∧
        label.Moves w d ∧ ¬ Request.expression.AfterOperand w := by
  intro plain label missing
  have hplain : plain.units =
      (.error ⟨.unsupported "operator `x`", .null⟩, plain.units.2) := rfl
  have hlabel : Request.expression.read label =
      (.error ⟨.misplaced "x" missing, .null⟩, (Request.expression.read label).2) := rfl
  obtain ⟨w, hw, hbehind⟩ := read_fails_at_current.2.1 _ _ _ hplain
  obtain ⟨w', hw', helsewhere⟩ := read_fails_at_current.1 _ _ _ _ _ hlabel
  refine ⟨⟨_, w, hplain, hw, ?_⟩, _, w', hlabel, hw', fun hafter => ?_⟩
  · by_contra hafter
    rcases hbehind.elsewhere rfl (by decide) hafter with hcause | ⟨_, hcause⟩
    · cases hcause
    · cases hcause
  · cases helsewhere.behind_operand rfl (by decide) hafter

end Cursor

end ExprLang
