import ExprLang.Proofs.Accepts

/-!
Replaced tokens. But for numbers and operators a parse tells tokens by their kinds. So a
parse that ends before an operator, without having looked for one there, ends in the same way
before any other token of that kind. A chain of operators does look for them; it is not done
before an operator of the tightest tier, nor before one that is not known, which it fails at.
-/
namespace ExprLang

open Operator (Tier)

namespace Token

variable {t t' : Token} {failure : Failure}

/-- The second token is the first one, or it is an operator as the first one is, and that is
none before which a chain of operators is done. -/
def ReplacedBy (t t' : Token) : Prop :=
  t' = t ∨ (¬ t.Stops Tier.multiplicative.power ∧ t'.kind = .operator)

theorem kind_of_not_stops {threshold : Int} (h : ¬ t.Stops threshold) : t.kind = .operator := by
  by_cases hkind : t.kind = .operator
  · exact hkind
  · exact absurd ⟨none, operator_eq_none_iff.mpr hkind, nofun⟩ h

theorem ReplacedBy.kind_eq (h : t.ReplacedBy t') : t'.kind = t.kind := by
  rcases h with rfl | ⟨hstops, hkind⟩
  · rfl
  · rw [hkind, kind_of_not_stops hstops]

theorem ReplacedBy.eq_of_kind (h : t.ReplacedBy t') (hkind : t.kind ≠ .operator) : t' = t :=
  h.resolve_right fun hother => hkind (kind_of_not_stops hother.1)

theorem cause_of_operator (h : t.operator = .error failure) :
    failure.cause.kind = .unimplemented := by
  unfold operator at h
  split at h
  · split at h
    · cases h
    · cases h
      rfl
  · cases h

end Token

namespace Cursor

variable {c d c' d' e' : Cursor} {u v w : List Token}

/-- The second cursor has passed the same tokens as the first one, and it moves over the word. -/
structure Follows (c c' : Cursor) (w : List Token) (d' : Cursor) : Prop where
  file : c'.file = c.file
  passed : c'.passed = c.passed
  moves : c'.Moves w d'

theorem Follows.split (h : c.Follows c' (u ++ v) e') (hu : c.Moves u d) :
    ∃ d', c.Follows c' u d' ∧ d.Follows d' v e' := by
  obtain ⟨d', hu', hv'⟩ := h.moves.split
  refine ⟨d', ⟨h.file, h.passed, hu'⟩, ?_, ?_, hv'⟩
  · rw [hu'.file, hu.file, h.file]
  · rw [hu'.passed, hu.passed, h.passed]

/-- If the token behind a word is replaced, then at most that one is so at its front. -/
theorem Moves.replacedBy (h : c.Moves w d) (h' : c'.Moves w d')
    (hstop : d.current.ReplacedBy d'.current) : c.current.ReplacedBy c'.current := by
  cases w with
  | nil => rwa [← h.eq_of_nil, ← h'.eq_of_nil]
  | cons t w => exact .inl (h'.current_of_cons.trans h.current_of_cons.symm)

theorem Moves.ne_of_ne_nil (h : c.Moves w d) (hw : w ≠ []) : d ≠ c := by
  intro heq
  have hindex := h.index
  have := List.length_pos_iff.mpr hw
  rw [heq] at hindex
  omega

theorem Moves.ne_nil_of_ne (h : c.Moves w d) (hne : d ≠ c) : w ≠ [] := by
  rintro rfl
  exact hne h.eq_of_nil

end Cursor

section

variable {α β : Type}

/-- The outcome is the same for the second parse wherever only the token that the first one
stops at is replaced, unless the first one fails for that token not being a known operator. -/
def Outcome.Repeats (c : Cursor) (q : Parse α) : Outcome α → Prop
  | .done value d => ∃ w, c.Moves w d ∧ ∀ c' d', c.Follows c' w d' →
      d.current.ReplacedBy d'.current → q c' = .done value d'
  | .failed failure d => ∃ w, c.Moves w d ∧ ∀ c' d', c.Follows c' w d' →
      d.current.ReplacedBy d'.current →
      (d'.current = d.current ∨ failure.cause.kind = .syntactic) →
      ∃ failure', q c' = .failed failure' d' ∧ failure'.cause.kind = failure.cause.kind
  | .spent => True

/-- The outcome is not one at the cursor itself, unless it is that failure. -/
def Outcome.Leaves (c : Cursor) : Outcome α → Prop
  | .done _ d => d ≠ c
  | .failed failure d => failure.cause.kind = .syntactic → d ≠ c
  | .spent => True

namespace Parse

open Steps

variable {p q : Parse α} {f : α → Parse β} {c : Cursor}

def Repeats (p : Parse α) : Prop := ∀ c, (p c).Repeats c p

theorem repeats_bind_at (hp : (p c).Repeats c p)
    (hf : ∀ value d, p c = .done value d → (f value d).Repeats d (f value)) :
    ((p >>= f) c).Repeats c (p >>= f) := by
  cases hpc : p c with
  | spent =>
    rw [show (p >>= f) c = .spent by simp only [bind, hpc]]
    trivial
  | failed failure d =>
    rw [bind_of_failed hpc]
    rw [hpc] at hp
    obtain ⟨w, hmoves, hsecond⟩ := hp
    refine ⟨w, hmoves, fun c' d' hfollows hstop hkind => ?_⟩
    obtain ⟨failure', hfailed, hkind'⟩ := hsecond c' d' hfollows hstop hkind
    exact ⟨failure', bind_of_failed hfailed, hkind'⟩
  | done value d =>
    have hrest := hf value d hpc
    rw [bind_of_done hpc]
    rw [hpc] at hp
    obtain ⟨u, hu, hsecond⟩ := hp
    -- The second run has come to where the first one goes on.
    have hstep : ∀ {v : List Token} {e c' e' : Cursor}, d.Moves v e → c.Follows c' (u ++ v) e' →
        e.current.ReplacedBy e'.current →
        ∃ d', (p >>= f) c' = f value d' ∧ d.Follows d' v e' := by
      intro v e c' e' hv hfollows hstop
      obtain ⟨d', hfirst, hlast⟩ := hfollows.split hu
      exact ⟨d', bind_of_done (hsecond c' d' hfirst (hv.replacedBy hlast.moves hstop)), hlast⟩
    cases hfd : f value d with
    | spent => trivial
    | done result e =>
      rw [hfd] at hrest
      obtain ⟨v, hv, hrest⟩ := hrest
      refine ⟨u ++ v, hu.trans hv, fun c' e' hfollows hstop => ?_⟩
      obtain ⟨d', heq, hlast⟩ := hstep hv hfollows hstop
      rw [heq]
      exact hrest d' e' hlast hstop
    | failed failure e =>
      rw [hfd] at hrest
      obtain ⟨v, hv, hrest⟩ := hrest
      refine ⟨u ++ v, hu.trans hv, fun c' e' hfollows hstop hkind => ?_⟩
      obtain ⟨d', heq, hlast⟩ := hstep hv hfollows hstop
      rw [heq]
      exact hrest d' e' hlast hstop hkind

theorem repeats_bind (hp : p.Repeats) (hf : ∀ value, (f value).Repeats) : (p >>= f).Repeats :=
  fun c => repeats_bind_at (hp c) fun value d _ => hf value d

theorem repeats_pure (value : α) : (pure value : Parse α).Repeats := by
  intro c
  refine ⟨[], .refl c, fun c' d' hfollows _ => ?_⟩
  rw [hfollows.moves.eq_of_nil]
  rfl

theorem repeats_map (hp : p.Repeats) (g : α → β) : (g <$> p).Repeats :=
  repeats_bind hp fun value => repeats_pure (g value)

theorem repeats_spent : (spent : Parse α).Repeats := fun _ => trivial

theorem repeats_refuse {cause : String → Failure.Cause}
    (hcause : ∀ value value', (cause value).kind = (cause value').kind) :
    (refuse cause : Parse α).Repeats := by
  intro c
  refine ⟨[], .refl c, fun c' d' hfollows _ _ => ⟨⟨cause c'.current.value, c'.current.span.start⟩,
    ?_, hcause _ _⟩⟩
  rw [hfollows.moves.eq_of_nil]
  rfl

theorem repeats_misplaced (message : String) : (misplaced message : Parse α).Repeats :=
  repeats_refuse fun _ _ => rfl

theorem repeats_advance : (advance : Parse Token).Repeats := by
  intro c
  by_cases heof : c.current.kind = .eof
  · rw [advance_apply, Cursor.advance_of_eof heof]
    refine ⟨[], .refl c, fun c' d' hfollows hstop => ?_⟩
    rw [hfollows.moves.eq_of_nil] at hstop ⊢
    have hcurrent := hstop.eq_of_kind (by simp [heof])
    rw [advance_apply, Cursor.advance_of_eof (by rw [hcurrent, heof]), hcurrent]
  · refine ⟨[c.current], Cursor.moves_advance heof, fun c' d' hfollows _ => ?_⟩
    have hmoves := hfollows.moves
    rw [advance_apply, ← hmoves.advance_of_cons.eq_of_nil, hmoves.current_of_cons]

theorem repeats_lastEnd : (lastEnd : Parse Position).Repeats := by
  intro c
  refine ⟨[], .refl c, fun c' d' hfollows _ => ?_⟩
  have hlastEnd : c'.lastEnd = c.lastEnd := by
    rw [Cursor.lastEnd, Cursor.lastEnd, hfollows.passed, hfollows.file]
  rw [hfollows.moves.eq_of_nil, lastEnd_apply, hlastEnd]

/-- A second parse only has to do the same at cursors before a token that is, at most,
replaced. -/
theorem repeats_of_replacedBy (hq : (q c).Repeats c q)
    (hp : ∀ c', c.current.ReplacedBy c'.current → p c' = q c') : (p c).Repeats c p := by
  rw [hp c (.inl rfl)]
  cases hqc : q c with
  | spent => trivial
  | done value d =>
    rw [hqc] at hq
    obtain ⟨w, hmoves, hsecond⟩ := hq
    refine ⟨w, hmoves, fun c' d' hfollows hstop => ?_⟩
    rw [hp c' (hmoves.replacedBy hfollows.moves hstop)]
    exact hsecond c' d' hfollows hstop
  | failed failure d =>
    rw [hqc] at hq
    obtain ⟨w, hmoves, hsecond⟩ := hq
    refine ⟨w, hmoves, fun c' d' hfollows hstop hkind => ?_⟩
    rw [hp c' (hmoves.replacedBy hfollows.moves hstop)]
    exact hsecond c' d' hfollows hstop hkind

theorem repeats_ifAt {kind : Token.Kind} {yes no : Parse α} (hyes : yes.Repeats)
    (hno : no.Repeats) : (ifAt kind yes no).Repeats := by
  intro c
  by_cases hkind : c.current.kind = kind
  · exact repeats_of_replacedBy (hyes c) fun c' h => ifAt_pos (by rw [h.kind_eq, hkind])
  · exact repeats_of_replacedBy (hno c) fun c' h => ifAt_neg (by rwa [h.kind_eq])

/-- What depends on the current token must not tell operators apart. -/
theorem repeats_current_bind {f : Token → Parse β} (hf : ∀ t, (f t).Repeats)
    (hkind : ∀ t t', t.kind = .operator → t'.kind = .operator → f t' = f t) :
    (current >>= f).Repeats := by
  intro c
  refine repeats_of_replacedBy (hf c.current c) fun c' h => ?_
  rw [current_bind]
  rcases h with hcurrent | ⟨hstops, hother⟩
  · rw [hcurrent]
  · rw [hkind c.current c'.current (Token.kind_of_not_stops hstops) hother]

theorem repeats_expect (kind : Token.Kind) : (expect kind : Parse Token).Repeats :=
  repeats_ifAt repeats_advance (repeats_refuse fun _ _ => rfl)

theorem repeats_expectFor (kind : Token.Kind) (message : String) :
    (expectFor kind message : Parse Token).Repeats :=
  repeats_ifAt repeats_advance (repeats_misplaced message)

theorem repeats_required {p : Parse (Option α)} (hp : p.Repeats) (message : String) :
    (required p message).Repeats := by
  apply repeats_bind hp
  intro value
  cases value with
  | some value => exact repeats_pure value
  | none => exact repeats_misplaced message

/-- A parse that looks for an operator at its start may do so if it does not end there. -/
theorem repeats_of_leaves (hq : (q c).Repeats c q)
    (hleaves : ¬ c.current.Stops Tier.multiplicative.power → (q c).Leaves c)
    (hp : ∀ c', c'.current = c.current → p c' = q c') : (p c).Repeats c p := by
  rw [hp c rfl]
  have hcurrent {w : List Token} {d c' d' : Cursor} (hmoves : c.Moves w d)
      (hfollows : c.Follows c' w d') (hstop : d'.current = d.current ∨ d ≠ c) :
      c'.current = c.current := by
    cases w with
    | cons t w => rw [hfollows.moves.current_of_cons, hmoves.current_of_cons]
    | nil =>
      rw [← hmoves.eq_of_nil, ← hfollows.moves.eq_of_nil]
      exact hstop.resolve_right fun hne => hne hmoves.eq_of_nil
  cases hqc : q c with
  | spent => trivial
  | done value d =>
    rw [hqc] at hq hleaves
    obtain ⟨w, hmoves, hsecond⟩ := hq
    refine ⟨w, hmoves, fun c' d' hfollows hstop => ?_⟩
    have hends : d'.current = d.current ∨ d ≠ c :=
      hstop.imp_right fun hother heq => hleaves (heq ▸ hother.1) heq
    rw [hp c' (hcurrent hmoves hfollows hends)]
    exact hsecond c' d' hfollows hstop
  | failed failure d =>
    rw [hqc] at hq hleaves
    obtain ⟨w, hmoves, hsecond⟩ := hq
    refine ⟨w, hmoves, fun c' d' hfollows hstop hkind => ?_⟩
    have hends : d'.current = d.current ∨ d ≠ c := by
      rcases hkind with hsame | hkind
      · exact .inl hsame
      · exact hstop.imp_right fun hother heq => hleaves (heq ▸ hother.1) hkind heq
    rw [hp c' (hcurrent hmoves hfollows hends)]
    exact hsecond c' d' hfollows hstop hkind

/-- A parse may fail for the current token not being a known operator. -/
theorem repeats_of_operator {failure : Failure} (hop : c.current.operator = .error failure)
    (hp : ∀ c', c'.current = c.current → p c' = .failed failure c') : (p c).Repeats c p := by
  rw [hp c rfl]
  refine ⟨[], .refl c, fun c' d' hfollows _ hkind => ⟨failure, ?_, rfl⟩⟩
  obtain rfl := hfollows.moves.eq_of_nil
  exact hp d' (hkind.resolve_right (by simp [Token.cause_of_operator hop]))

/-- A parse that starts behind the current token does not end before it. -/
theorem leaves_of_advance (heof : c.current.kind ≠ .eof)
    (h : (p c.advance).Repeats c.advance q) : (p c.advance).Leaves c := by
  have hstep := Cursor.moves_advance heof
  cases hpc : p c.advance with
  | spent => trivial
  | done value d =>
    rw [hpc] at h
    obtain ⟨w, hmoves, -⟩ := h
    exact (hstep.trans hmoves).ne_of_ne_nil (by simp)
  | failed failure d =>
    rw [hpc] at h
    obtain ⟨w, hmoves, -⟩ := h
    exact fun _ => (hstep.trans hmoves).ne_of_ne_nil (by simp)

/-- Once the cursor is left it stays so. -/
theorem leaves_bind (hp : (p c).Repeats c q) (hleaves : (p c).Leaves c)
    (hf : ∀ value, (f value).Repeats) : ((p >>= f) c).Leaves c := by
  cases hpc : p c with
  | spent =>
    rw [show (p >>= f) c = .spent by simp only [bind, hpc]]
    trivial
  | failed failure d =>
    rw [bind_of_failed hpc]
    rwa [hpc] at hleaves
  | done value d =>
    rw [bind_of_done hpc]
    rw [hpc] at hp hleaves
    obtain ⟨u, hu, -⟩ := hp
    have hrest := hf value d
    cases hfd : f value d with
    | spent => trivial
    | done result e =>
      rw [hfd] at hrest
      obtain ⟨v, hv, -⟩ := hrest
      exact (hu.trans hv).ne_of_ne_nil (by simp [hu.ne_nil_of_ne hleaves])
    | failed failure e =>
      rw [hfd] at hrest
      obtain ⟨v, hv, -⟩ := hrest
      exact fun _ => (hu.trans hv).ne_of_ne_nil (by simp [hu.ne_nil_of_ne hleaves])

end Parse

end

namespace Construct

open Parse Steps

theorem repeats_number : number.Repeats := by
  apply repeats_current_bind
  · intro token
    split
    · split
      · exact repeats_bind repeats_advance fun _ => repeats_pure _
      · exact repeats_refuse fun _ _ => rfl
    · exact repeats_misplaced _
  · intro t t' ht ht'
    simp [ht, ht']

theorem repeats_parameter : parameter.Repeats := by
  apply repeats_bind (repeats_expectFor _ _)
  intro name
  apply repeats_bind (repeats_expectFor _ _)
  intro colon
  apply repeats_bind (repeats_expectFor _ _)
  intro type
  exact repeats_pure _

theorem repeats_parameters (budget : Nat) : (parameters budget).Repeats := by
  induction budget with
  | zero => exact repeats_spent
  | succ budget ih =>
    apply repeats_ifAt (repeats_pure _)
    apply repeats_bind repeats_parameter
    intro first
    apply repeats_bind (repeats_ifAt (repeats_bind repeats_advance fun _ => ih) (repeats_pure _))
    intro rest
    exact repeats_pure _

section

variable {inner : Parse (Option Node)} (hinner : inner.Repeats)

include hinner

theorem repeats_arguments (budget : Nat) : (arguments inner budget).Repeats := by
  induction budget with
  | zero => exact repeats_spent
  | succ budget ih =>
    apply repeats_ifAt (repeats_pure _)
    apply repeats_bind (repeats_expectFor _ _)
    intro label
    apply repeats_bind (repeats_expectFor _ _)
    intro colon
    apply repeats_bind (repeats_required hinner _)
    intro value
    apply repeats_bind (repeats_ifAt (repeats_bind repeats_advance fun _ => ih) (repeats_pure _))
    intro rest
    exact repeats_pure _

theorem repeats_named (budget : Nat) : (named inner budget).Repeats := by
  apply repeats_bind (repeats_expectFor _ _)
  intro name
  apply repeats_ifAt
  · apply repeats_bind repeats_advance
    intro lparen
    apply repeats_bind (repeats_arguments hinner budget)
    intro values
    exact repeats_bind (repeats_expectFor _ _) fun _ => repeats_pure _
  · exact repeats_pure _

theorem repeats_parenthesised : (parenthesised inner).Repeats := by
  apply repeats_bind (repeats_expect _)
  intro lparen
  apply repeats_bind (repeats_required hinner _)
  intro node
  exact repeats_bind (repeats_expectFor _ _) fun _ => repeats_pure _

theorem repeats_branch : (branch inner).Repeats := by
  apply repeats_bind (repeats_expectFor _ _)
  intro lbrace
  apply repeats_bind (repeats_required hinner _)
  intro node
  exact repeats_bind (repeats_expectFor _ _) fun _ => repeats_pure _

theorem repeats_conditional (budget : Nat) : (conditional inner budget).Repeats := by
  induction budget with
  | zero => exact repeats_spent
  | succ budget ih =>
    apply repeats_bind (repeats_expect _)
    intro opening
    apply repeats_bind (repeats_required hinner _)
    intro condition
    apply repeats_bind (repeats_branch hinner)
    intro consequence
    have halternative : (ifAt .ifWord (conditional inner budget) (branch inner)).Repeats :=
      repeats_ifAt ih (repeats_branch hinner)
    apply repeats_bind (repeats_ifAt (repeats_bind repeats_advance fun _ =>
      repeats_map halternative some) (repeats_pure none))
    intro alternative
    exact repeats_bind repeats_lastEnd fun _ => repeats_pure _

theorem repeats_definition (budget : Nat) : (definition inner budget).Repeats := by
  apply repeats_bind (repeats_expectFor _ _)
  intro opening
  apply repeats_bind (repeats_expectFor _ _)
  intro name
  apply repeats_bind (repeats_expectFor _ _)
  intro lparen
  apply repeats_bind (repeats_parameters budget)
  intro list
  apply repeats_bind (repeats_expectFor _ _)
  intro rparen
  apply repeats_bind (repeats_expectFor _ _)
  intro arrow
  apply repeats_bind (repeats_expectFor _ _)
  intro typeName
  apply repeats_bind (repeats_expectFor _ _)
  intro lbrace
  apply repeats_bind (repeats_required hinner _)
  intro body
  exact repeats_bind (repeats_expectFor _ _) fun _ => repeats_pure _

theorem repeats_returning : (returning inner).Repeats := by
  apply repeats_bind (repeats_expect _)
  intro opening
  apply repeats_current_bind
  · intro token
    have hbody : (if token.kind.startsExpression then inner else pure none).Repeats := by
      split
      · exact hinner
      · exact repeats_pure none
    exact repeats_bind hbody fun _ => repeats_bind repeats_lastEnd fun _ => repeats_pure _
  · intro t t' ht ht'
    rw [ht, ht']

theorem repeats_primary (budget : Nat) : (primary inner budget).Repeats := by
  apply repeats_current_bind
  · intro token
    split
    · exact repeats_map (repeats_named hinner budget) some
    · exact repeats_map repeats_number some
    · exact repeats_map repeats_number some
    · exact repeats_map (repeats_parenthesised hinner) some
    · exact repeats_map (repeats_definition hinner budget) some
    · exact repeats_map (repeats_returning hinner) some
    · exact repeats_map (repeats_conditional hinner budget) some
    · exact repeats_pure none
    · exact repeats_refuse fun _ _ => rfl
  · intro t t' ht ht'
    rw [ht, ht']

end

section Operators

variable {operand : Parse (Option Node)} {budget : Nat} {threshold : Int}

/-- The operators behind a right operand: the tighter ones, then those from the threshold on. -/
def furtherOperators (operand : Parse (Option Node)) (budget : Nat) (threshold : Int)
    (op : Operator) (lhs first : Node) : Parse Node := do
  let rhs ← Body.extended (operators operand budget) op first
  operators operand budget threshold (.binary op lhs rhs (lhs.span.join rhs.span))

theorem power_le (op : Operator) : op.power ≤ Tier.multiplicative.power := by
  cases op <;> decide

/-- An operator that no chain is done before is not known or of the tightest tier. -/
theorem le_power_of_not_stops {t : Token} {op? : Option Operator}
    (h : ¬ t.Stops Tier.multiplicative.power) (hop : t.operator = .ok op?) :
    ∃ op, op? = some op ∧ Tier.multiplicative.power ≤ op.power :=
  (Token.stops_or_le Tier.multiplicative.power hop).resolve_left h

theorem repeats_furtherOperators
    (hoperators : ∀ threshold lhs, threshold ≤ Tier.multiplicative.power →
      (operators operand budget threshold lhs).Repeats ∧
        ∀ c, ¬ c.current.Stops Tier.multiplicative.power →
          (operators operand budget threshold lhs c).Leaves c)
    (hthreshold : threshold ≤ Tier.multiplicative.power) (op : Operator) (lhs first : Node) :
    (furtherOperators operand budget threshold op lhs first).Repeats := by
  intro c
  cases hop : c.current.operator with
  | error failure =>
    refine repeats_of_operator hop fun c' hcurrent => ?_
    rw [furtherOperators, Body.extended, bind_assoc]
    exact inspect_bind_of_error (Token.precedence_of_error (by rw [hcurrent, hop]))
  | ok op? =>
    let next := (op?.map Operator.power).getD (-1)
    let rhs : Parse Node :=
      if op.power < next then operators operand budget (op.power + 1) first else pure first
    have hnext (hlt : op.power < next) : op.power + 1 ≤ Tier.multiplicative.power := by
      have hpositive := power_nonneg op
      cases op? with
      | none =>
        have hnone : op.power < -1 := hlt
        omega
      | some op' =>
        have hsome : op.power < op'.power := hlt
        have := power_le op'
        omega
    have hrhs : rhs.Repeats := by
      by_cases hlt : op.power < next
      · simp only [rhs, if_pos hlt]
        exact (hoperators _ first (hnext hlt)).1
      · simp only [rhs, if_neg hlt]
        exact repeats_pure first
    let loop (rhs : Node) : Parse Node :=
      operators operand budget threshold (.binary op lhs rhs (lhs.span.join rhs.span))
    have hloop (rhs : Node) : (loop rhs).Repeats := (hoperators threshold _ hthreshold).1
    refine repeats_of_leaves (repeats_bind hrhs hloop c) (fun hstops => ?_) ?_
    · by_cases hlt : op.power < next
      · refine leaves_bind (hrhs c) ?_ hloop
        simp only [rhs, if_pos hlt]
        exact (hoperators _ first (hnext hlt)).2 c hstops
      · simp only [rhs, if_neg hlt]
        exact (hoperators threshold _ hthreshold).2 c hstops
    · intro c' hcurrent
      rw [furtherOperators, Body.extended, bind_assoc]
      exact inspect_bind_of_ok (Token.precedence_of_operator (by rw [hcurrent, hop]))

theorem operators_of_some_eq_further {c : Cursor} {op : Operator} {lhs : Node}
    (hop : c.current.operator = .ok (some op)) (hle : threshold ≤ op.power) :
    operators operand (budget + 1) threshold lhs c =
      (Body.dueOperand operand op >>=
        furtherOperators operand budget threshold op lhs) c.advance := by
  rw [operators_of_some hop hle, rightOperand, Body.rightOperand, Parse.bind_assoc]
  rfl

/-- Operators up to the tightest tier are repeated, and they go past an operator that no chain
is done before. -/
theorem repeats_operators (hoperand : operand.Repeats) (budget : Nat) (threshold : Int)
    (lhs : Node) (hthreshold : threshold ≤ Tier.multiplicative.power) :
    (operators operand budget threshold lhs).Repeats ∧
      ∀ c, ¬ c.current.Stops Tier.multiplicative.power →
        (operators operand budget threshold lhs c).Leaves c := by
  induction budget generalizing threshold lhs with
  | zero => exact ⟨repeats_spent, fun _ _ => trivial⟩
  | succ budget ih =>
    have hfurther (op : Operator) :
        (Body.dueOperand operand op >>= furtherOperators operand budget threshold op lhs).Repeats :=
      repeats_bind (repeats_required hoperand _)
        (repeats_furtherOperators (fun threshold lhs => ih threshold lhs) hthreshold op lhs)
    constructor
    · intro c
      cases hop : c.current.operator with
      | error failure =>
        exact repeats_of_operator hop fun c' hcurrent => operators_of_error (by rw [hcurrent, hop])
      | ok op? =>
        rcases Token.stops_or_le threshold hop with hstops | ⟨op, rfl, hle⟩
        · rw [operators_of_stops hstops]
          refine ⟨[], .refl c, fun c' d' hfollows hstop => ?_⟩
          obtain rfl := hfollows.moves.eq_of_nil
          have hcurrent := hstop.resolve_right fun hother => hother.1 (hstops.mono hthreshold)
          exact operators_of_stops (hcurrent ▸ hstops)
        · have heof : c.current.kind ≠ .eof := by simp [Token.kind_of_operator hop]
          have hstep := repeats_bind repeats_advance (fun _ => hfurther op) c
          refine repeats_of_leaves hstep (fun _ => ?_) fun c' hcurrent => ?_
          · exact leaves_of_advance heof (hfurther op c.advance)
          · exact operators_of_some_eq_further (by rw [hcurrent, hop]) hle
    · intro c hstops
      cases hop : c.current.operator with
      | error failure =>
        rw [operators_of_error hop]
        simp [Outcome.Leaves, Token.cause_of_operator hop]
      | ok op? =>
        obtain ⟨op, rfl, hle⟩ := le_power_of_not_stops hstops hop
        rw [operators_of_some_eq_further hop (by omega)]
        refine leaves_of_advance ?_ (hfurther op c.advance)
        rw [Token.kind_of_not_stops hstops]
        decide

end Operators

section

variable {inner : Parse (Option Node)} (hinner : inner.Repeats)

include hinner

theorem repeats_chain (budget : Nat) : (chain inner budget).Repeats := by
  have hprimary := repeats_primary hinner budget
  apply repeats_bind hprimary
  intro lhs
  cases lhs with
  | none => exact repeats_pure none
  | some lhs => exact repeats_map (repeats_operators hprimary budget 0 lhs (by decide)).1 some

theorem repeats_unit (budget : Nat) : (unit inner budget).Repeats := by
  apply repeats_ifAt
  · exact repeats_map (repeats_definition hinner budget) some
  · exact repeats_bind (repeats_chain hinner budget) fun _ => repeats_pure _

theorem repeats_units (budget : Nat) : (units inner budget).Repeats := by
  induction budget with
  | zero => exact repeats_spent
  | succ budget ih =>
    apply repeats_ifAt (repeats_pure [])
    apply repeats_bind (repeats_unit hinner (budget + 1))
    intro first
    cases first with
    | none => exact repeats_pure []
    | some first => exact repeats_bind ih fun _ => repeats_pure _

end

theorem repeats_expression (budget : Nat) : (expression budget).Repeats := by
  induction budget with
  | zero => exact repeats_spent
  | succ budget ih => exact repeats_chain ih (budget + 1)

end Construct

end ExprLang
