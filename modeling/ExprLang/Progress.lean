import ExprLang.Construct

/-!
Constructs make progress. A construct that is done has passed a token, and none runs out of
a budget that exceeds the number of remaining tokens, as long as the parse of nested
expressions behaves so for fewer tokens. Hence `expression` behaves so, by induction on the
budget.
-/
namespace ExprLang

namespace Parse

open Steps

variable {α β : Type}

theorem ensures_pure {post : α → Cursor → Prop} {value : α} {c : Cursor} (h : post value c) :
    ((pure value : Parse α) c).Ensures post := h

theorem ensures_bind {p : Parse α} {f : α → Parse β} {mid : α → Cursor → Prop}
    {post : β → Cursor → Prop} {c : Cursor} (hp : (p c).Ensures mid)
    (hf : ∀ value next, mid value next → (f value next).Ensures post) :
    ((p >>= f) c).Ensures post := by
  simp only [bind]
  cases hpc : p c with
  | done value next => exact hf value next (by simpa [hpc, Outcome.Ensures] using hp)
  | failed failure stop => trivial
  | spent => simp [hpc, Outcome.Ensures] at hp

theorem ensures_map {p : Parse α} {f : α → β} {post : β → Cursor → Prop} {c : Cursor}
    (hp : (p c).Ensures fun value next => post (f value) next) : ((f <$> p) c).Ensures post :=
  ensures_bind hp fun _ _ h => h

theorem ensures_bind_pure {p : Parse α} {f : α → β} {post : β → Cursor → Prop} {c : Cursor}
    (hp : (p c).Ensures fun value next => post (f value) next) :
    ((p >>= fun value => pure (f value)) c).Ensures post :=
  ensures_bind hp fun _ _ h => h

theorem ensures_current {f : Token → Parse β} {post : β → Cursor → Prop} {c : Cursor}
    (h : (f c.current c).Ensures post) : ((current >>= f) c).Ensures post := h

theorem ensures_lastEnd {f : Position → Parse β} {post : β → Cursor → Prop} {c : Cursor}
    (h : (f c.lastEnd c).Ensures post) : ((lastEnd >>= f) c).Ensures post := h

theorem ensures_ifAt {kind : Token.Kind} {yes no : Parse α} {post : α → Cursor → Prop}
    {c : Cursor} (hyes : c.current.kind = kind → (yes c).Ensures post)
    (hno : c.current.kind ≠ kind → (no c).Ensures post) : (ifAt kind yes no c).Ensures post := by
  refine ensures_current ?_
  split
  · exact hyes (by assumption)
  · exact hno (by assumption)

theorem ensures_inspect (f : Token → Except Failure α) (c : Cursor) :
    ((inspect f : Parse α) c).Ensures fun value next => next = c ∧ f c.current = .ok value := by
  refine ensures_current ?_
  cases f c.current with
  | ok value => exact ⟨rfl, rfl⟩
  | error failure => trivial

theorem ensures_advance {c : Cursor} (h : c.current.kind ≠ .eof) :
    ((advance : Parse Token) c).Ensures fun _ next => next.remaining < c.remaining := by
  have := Cursor.remaining_advance h
  simp only [advance_apply, Outcome.Ensures]
  omega

theorem ensures_expectFor {kind : Token.Kind} (hkind : kind ≠ .eof) (message : String)
    (c : Cursor) :
    ((expectFor kind message : Parse Token) c).Ensures fun _ next =>
      next.remaining < c.remaining :=
  ensures_ifAt (fun h => ensures_advance (h ▸ hkind)) fun _ => trivial

theorem ensures_expect {kind : Token.Kind} (hkind : kind ≠ .eof) (c : Cursor) :
    ((expect kind : Parse Token) c).Ensures fun _ next => next.remaining < c.remaining :=
  ensures_ifAt (fun h => ensures_advance (h ▸ hkind)) fun _ => trivial

end Parse

/-- A parse of nested expressions that has budget enough for fewer than `bound` tokens, and
that passes a token if it is done with a node. -/
def Parse.Progresses (inner : Parse (Option Node)) (bound : Nat) : Prop :=
  ∀ c : Cursor, c.remaining < bound → (inner c).Ensures fun node next =>
    next.remaining ≤ c.remaining ∧ (node.isSome → next.remaining < c.remaining)

theorem Parse.Progresses.mono {inner : Parse (Option Node)} {bound smaller : Nat}
    (h : inner.Progresses bound) (hle : smaller ≤ bound) : inner.Progresses smaller :=
  fun c hc => h c (Nat.lt_of_lt_of_le hc hle)

namespace Construct

open Parse Steps

variable {inner : Parse (Option Node)} {bound : Nat} {c : Cursor}

/-- The parse has budget enough and passes a token if it is done. -/
abbrev Passes {α : Type} (p : Parse α) (c : Cursor) : Prop :=
  (p c).Ensures fun _ next => next.remaining < c.remaining

/-- The parse has budget enough and does not go back if it is done. -/
abbrev Keeps {α : Type} (p : Parse α) (c : Cursor) : Prop :=
  (p c).Ensures fun _ next => next.remaining ≤ c.remaining

theorem passes_required (hinner : inner.Progresses bound) (hc : c.remaining < bound)
    (message : String) : Passes (required inner message) c := by
  refine ensures_bind (hinner c hc) fun node next h => ?_
  cases node with
  | none => trivial
  | some node => exact h.2 rfl

theorem passes_number : Passes number c := by
  refine ensures_current ?_
  split
  · rename_i hkind
    have heof : c.current.kind ≠ .eof := by rcases hkind with h | h <;> simp [h]
    cases Binary64.read? c.current.value with
    | some value => exact ensures_bind_pure (ensures_advance heof)
    | none => trivial
  · trivial

theorem keeps_arguments (hinner : inner.Progresses bound) {budget : Nat}
    (hbound : c.remaining ≤ bound) (hbudget : c.remaining < budget) :
    Keeps (arguments inner budget) c := by
  induction budget generalizing c with
  | zero => omega
  | succ budget ih =>
    refine ensures_ifAt (fun _ => Nat.le_refl _) fun _ => ?_
    refine ensures_bind (ensures_expectFor (by decide) _ _) fun _ c₁ h₁ => ?_
    refine ensures_bind (ensures_expectFor (by decide) _ _) fun _ c₂ h₂ => ?_
    refine ensures_bind (passes_required hinner (by omega) _) fun _ c₃ h₃ => ?_
    refine ensures_bind_pure (ensures_ifAt (fun hcomma => ?_) fun _ => ?_)
    · refine ensures_bind (ensures_advance (by simp [hcomma])) fun _ c₄ h₄ => ?_
      exact (ih (by omega) (by omega)).imp fun _ _ h => by omega
    · exact ensures_pure (by omega)

theorem passes_call (hinner : inner.Progresses bound) {budget : Nat} (name : Token)
    (hbound : c.remaining ≤ bound) (hbudget : c.remaining < budget)
    (hopen : c.current.kind = .openParen) :
    Passes (Body.call (arguments inner budget) name) c := by
  refine ensures_bind (ensures_advance (by simp [hopen])) fun _ c₁ h₁ => ?_
  refine ensures_bind (keeps_arguments hinner (by omega) (by omega)) fun _ c₂ h₂ => ?_
  refine ensures_bind (ensures_expectFor (by decide) _ _) fun _ c₃ h₃ => ?_
  exact ensures_pure (by omega)

theorem passes_named (hinner : inner.Progresses bound) {budget : Nat}
    (hbound : c.remaining ≤ bound) (hbudget : c.remaining < budget) :
    Passes (named inner budget) c := by
  refine ensures_bind (ensures_expectFor (by decide) _ _) fun name c₁ h₁ => ?_
  refine ensures_ifAt (fun hopen => ?_) fun _ => h₁
  exact (passes_call hinner name (by omega) (by omega) hopen).imp fun _ _ h => by omega

theorem passes_parenthesised (hinner : inner.Progresses bound) (hbound : c.remaining ≤ bound) :
    Passes (parenthesised inner) c := by
  refine ensures_bind (ensures_expect (by decide) _) fun _ c₁ h₁ => ?_
  refine ensures_bind (passes_required hinner (by omega) _) fun _ c₂ h₂ => ?_
  refine ensures_bind (ensures_expectFor (by decide) _ _) fun _ c₃ h₃ => ?_
  exact ensures_pure (by omega)

theorem passes_branch (hinner : inner.Progresses bound) (hbound : c.remaining ≤ bound) :
    Passes (branch inner) c := by
  refine ensures_bind (ensures_expectFor (by decide) _ _) fun _ c₁ h₁ => ?_
  refine ensures_bind (passes_required hinner (by omega) _) fun _ c₂ h₂ => ?_
  refine ensures_bind (ensures_expectFor (by decide) _ _) fun _ c₃ h₃ => ?_
  exact ensures_pure (by omega)

theorem passes_conditional (hinner : inner.Progresses bound) {budget : Nat}
    (hbound : c.remaining ≤ bound) (hbudget : c.remaining < budget) :
    Passes (conditional inner budget) c := by
  induction budget generalizing c with
  | zero => omega
  | succ budget ih =>
    refine ensures_bind (ensures_expect (by decide) _) fun _ c₁ h₁ => ?_
    refine ensures_bind (passes_required hinner (by omega) _) fun _ c₂ h₂ => ?_
    refine ensures_bind (passes_branch hinner (by omega)) fun _ c₃ h₃ => ?_
    refine ensures_bind (?_ : Keeps _ c₃) fun _ c₅ h₅ => ensures_lastEnd (ensures_pure (by omega))
    refine ensures_ifAt (fun helse => ?_) fun _ => ?_
    · refine ensures_bind (ensures_advance (by simp [helse])) fun _ c₄ h₄ => ?_
      refine ensures_map (ensures_ifAt (fun _ => ?_) fun _ => ?_)
      · exact (ih (by omega) (by omega)).imp fun _ _ h => by omega
      · exact (passes_branch hinner (by omega)).imp fun _ _ h => by omega
    · exact ensures_pure (by omega)

theorem passes_parameter : Passes parameter c := by
  refine ensures_bind (ensures_expectFor (by decide) _ _) fun _ c₁ h₁ => ?_
  refine ensures_bind (ensures_expectFor (by decide) _ _) fun _ c₂ h₂ => ?_
  refine ensures_bind (ensures_expectFor (by decide) _ _) fun _ c₃ h₃ => ?_
  exact ensures_pure (by omega)

theorem keeps_parameters {budget : Nat} (hbudget : c.remaining < budget) :
    Keeps (parameters budget) c := by
  induction budget generalizing c with
  | zero => omega
  | succ budget ih =>
    refine ensures_ifAt (fun _ => Nat.le_refl _) fun _ => ?_
    refine ensures_bind passes_parameter fun _ c₁ h₁ => ?_
    refine ensures_bind_pure (ensures_ifAt (fun hcomma => ?_) fun _ => ?_)
    · refine ensures_bind (ensures_advance (by simp [hcomma])) fun _ c₂ h₂ => ?_
      exact (ih (by omega)).imp fun _ _ h => by omega
    · exact ensures_pure (by omega)

theorem passes_definition (hinner : inner.Progresses bound) {budget : Nat}
    (hbound : c.remaining ≤ bound) (hbudget : c.remaining < budget) :
    Passes (definition inner budget) c := by
  refine ensures_bind (ensures_expectFor (by decide) _ _) fun _ c₁ h₁ => ?_
  refine ensures_bind (ensures_expectFor (by decide) _ _) fun _ c₂ h₂ => ?_
  refine ensures_bind (ensures_expectFor (by decide) _ _) fun _ c₃ h₃ => ?_
  refine ensures_bind (keeps_parameters (by omega)) fun _ c₄ h₄ => ?_
  refine ensures_bind (ensures_expectFor (by decide) _ _) fun _ c₅ h₅ => ?_
  refine ensures_bind (ensures_expectFor (by decide) _ _) fun _ c₆ h₆ => ?_
  refine ensures_bind (ensures_expectFor (by decide) _ _) fun _ c₇ h₇ => ?_
  refine ensures_bind (ensures_expectFor (by decide) _ _) fun _ c₈ h₈ => ?_
  refine ensures_bind (passes_required hinner (by omega) _) fun _ c₉ h₉ => ?_
  refine ensures_bind (ensures_expectFor (by decide) _ _) fun _ c₁₀ h₁₀ => ?_
  exact ensures_pure (by omega)

theorem passes_returning (hinner : inner.Progresses bound) (hbound : c.remaining ≤ bound) :
    Passes (returning inner) c := by
  refine ensures_bind (ensures_expect (by decide) _) fun _ c₁ h₁ => ?_
  refine ensures_current ?_
  split
  · exact ensures_bind (hinner c₁ (by omega)) fun _ _ h => Nat.lt_of_le_of_lt h.1 h₁
  · exact h₁

theorem progresses_primary (hinner : inner.Progresses bound) {budget : Nat}
    (hbudget : bound < budget) : (primary inner budget).Progresses (bound + 1) := by
  intro c hc
  have hbound : c.remaining ≤ bound := by omega
  have hsome : ∀ {p : Parse Node}, Passes p c → ((some <$> p) c).Ensures fun node next =>
      next.remaining ≤ c.remaining ∧ (node.isSome → next.remaining < c.remaining) :=
    fun h => ensures_map (h.imp fun _ _ h => ⟨Nat.le_of_lt h, fun _ => h⟩)
  refine ensures_current ?_
  cases c.current.kind with
  | identifier => exact hsome (passes_named hinner hbound (by omega))
  | integer | float => exact hsome passes_number
  | openParen => exact hsome (passes_parenthesised hinner hbound)
  | funcWord => exact hsome (passes_definition hinner hbound (by omega))
  | returnWord => exact hsome (passes_returning hinner hbound)
  | ifWord => exact hsome (passes_conditional hinner hbound (by omega))
  | eof => exact ⟨Nat.le_refl _, fun h => nomatch h⟩
  | _ => trivial

theorem passes_rightOperand {operand : Parse (Option Node)} (hoperand : operand.Progresses bound)
    {budget : Nat} (hc : c.remaining < bound) (op : Operator)
    (hoperators : ∀ {d : Cursor} (lhs : Node), d.remaining < c.remaining →
      Keeps (operators operand budget (op.power + 1) lhs) d) :
    Passes (rightOperand operand budget op) c := by
  refine ensures_bind (passes_required hoperand hc _) fun first c₁ h₁ => ?_
  refine ensures_bind (ensures_inspect _ _) ?_
  rintro next c₁ ⟨rfl, _⟩
  split
  · exact (hoperators first h₁).imp fun _ _ h => by omega
  · exact h₁

theorem keeps_operators {operand : Parse (Option Node)} (hoperand : operand.Progresses bound)
    {budget : Nat} (hbound : c.remaining ≤ bound) (hbudget : c.remaining < budget)
    (threshold : Int) (lhs : Node) :
    Keeps (operators operand budget threshold lhs) c := by
  induction budget generalizing c threshold lhs with
  | zero => omega
  | succ budget ih =>
    refine ensures_bind (ensures_inspect _ _) ?_
    rintro (_ | op) c ⟨rfl, hop⟩
    · exact Nat.le_refl _
    · simp only
      split
      · exact Nat.le_refl _
      · have hkind := Token.kind_of_operator hop
        refine ensures_bind (ensures_advance (by simp [hkind])) fun _ c₁ h₁ => ?_
        have hright := passes_rightOperand hoperand (c := c₁) (by omega) op fun lhs hd =>
          ih (by omega) (by omega) _ lhs
        refine ensures_bind hright fun rhs c₂ h₂ => ?_
        exact (ih (by omega) (by omega) _ _).imp fun _ _ h => by omega

theorem progresses_chain (hinner : inner.Progresses bound) {budget : Nat}
    (hbudget : bound < budget) : (chain inner budget).Progresses (bound + 1) := by
  intro c hc
  have hprimary := progresses_primary hinner hbudget
  refine ensures_bind (hprimary c hc) ?_
  rintro (_ | lhs) c₁ h₁
  · exact ⟨h₁.1, fun h => nomatch h⟩
  · have hlt := h₁.2 rfl
    refine ensures_map ((keeps_operators hprimary (by omega) (by omega) 0 lhs).imp ?_)
    exact fun _ _ h => ⟨by omega, fun _ => by omega⟩

theorem progresses_expression (budget : Nat) : (expression budget).Progresses budget := by
  induction budget with
  | zero => exact fun c hc => absurd hc (Nat.not_lt_zero _)
  | succ budget ih => exact progresses_chain ih (Nat.lt_succ_self _)

theorem progresses_entry (hinner : inner.Progresses bound) {budget : Nat}
    (hbudget : bound < budget) : (entry inner budget).Progresses (bound + 1) := by
  intro c hc
  refine ensures_bind (progresses_chain hinner hbudget c hc) fun body next h => ?_
  exact ⟨h.1, fun hsome => h.2 (by simpa using hsome)⟩

theorem progresses_unit (hinner : inner.Progresses bound) {budget : Nat}
    (hbudget : bound < budget) : (unit inner budget).Progresses (bound + 1) := by
  intro c hc
  refine ensures_ifAt (fun _ => ensures_map ?_) fun _ => progresses_entry hinner hbudget c hc
  exact (passes_definition hinner (by omega) (by omega)).imp
    fun _ _ h => ⟨Nat.le_of_lt h, fun _ => h⟩

theorem keeps_units (hinner : inner.Progresses bound) {budget : Nat}
    (hbound : c.remaining ≤ bound) (hbudget : c.remaining < budget) :
    Keeps (units inner budget) c := by
  induction budget generalizing c with
  | zero => omega
  | succ budget ih =>
    refine ensures_ifAt (fun _ => Nat.le_refl _) fun _ => ?_
    refine ensures_bind (progresses_unit (hinner.mono hbound) hbudget c (Nat.lt_succ_self _)) ?_
    rintro (_ | first) c₁ h₁
    · exact h₁.1
    · have hlt := h₁.2 rfl
      exact ensures_bind_pure ((ih (by omega) (by omega)).imp fun _ _ h => by omega)

end Construct

end ExprLang
