import ExprLang.Construct
import ExprLang.Proofs.Moves
import ExprLang.Proofs.Viable

/-!
What parses read. A construct that is done has moved over a word of its part and returns the
value of that word. One that fails has moved over a word that is viable for its part, so it
fails at the first token that does not fit. Both hold for every budget, and for all constructs
as long as they hold for the parse of nested expressions.
-/
namespace ExprLang

open Operator (Tier)
open Grammar

namespace Token

variable {t : Token}

theorem operator_eq_none_iff : t.operator = .ok none ↔ t.kind ≠ .operator := by
  unfold operator
  by_cases h : t.kind = .operator
  · rw [if_pos h]
    cases Operator.ofSymbol? t.value <;> simp [h]
  · simp [h]

theorem operator_eq_some_iff {op : Operator} :
    t.operator = .ok (some op) ↔ t.kind = .operator ∧ t.value = op.symbol := by
  constructor
  · intro h
    have hkind := kind_of_operator h
    rw [operator, if_pos hkind] at h
    cases hop : Operator.ofSymbol? t.value with
    | none => simp [hop] at h
    | some op' =>
      obtain rfl : op' = op := by simpa [hop] using h
      exact ⟨hkind, (Operator.symbol_of_ofSymbol? hop).symm⟩
  · rintro ⟨hkind, hvalue⟩
    simp [operator, hkind, hvalue, Operator.ofSymbol?_symbol]

theorem precedence_of_operator {op? : Option Operator} (h : t.operator = .ok op?) :
    t.precedence = .ok ((op?.map Operator.power).getD (-1)) := by
  rw [precedence, h]
  rfl

theorem precedence_of_error {failure : Failure} (h : t.operator = .error failure) :
    t.precedence = .error failure := by
  rw [precedence, h]
  rfl

/-- Operators that bind at least as tightly as the threshold end before the token. -/
def Stops (threshold : Int) (t : Token) : Prop :=
  ∃ op?, t.operator = .ok op? ∧ ∀ op ∈ op?, op.power < threshold

theorem Stops.mono {threshold threshold' : Int} (h : t.Stops threshold)
    (hle : threshold ≤ threshold') : t.Stops threshold' := by
  obtain ⟨op?, hop, hstops⟩ := h
  refine ⟨op?, hop, fun op hmem => ?_⟩
  have := hstops op hmem
  omega

theorem stops_or_le {op? : Option Operator} (threshold : Int) (h : t.operator = .ok op?) :
    t.Stops threshold ∨ ∃ op, op? = some op ∧ threshold ≤ op.power := by
  cases op? with
  | none => exact .inl ⟨none, h, nofun⟩
  | some op =>
    by_cases hlt : op.power < threshold
    · exact .inl ⟨some op, h, by simpa using hlt⟩
    · exact .inr ⟨op, rfl, by omega⟩

end Token

namespace Outcome

variable {α : Type}

/-- What holds if the outcome is done and what holds if it failed; it may also be spent. -/
def Ends (post : α → Cursor → Prop) (halt : Cursor → Prop) : Outcome α → Prop
  | .done value next => post value next
  | .failed _ stop => halt stop
  | .spent => True

theorem Ends.imp {post weaker : α → Cursor → Prop} {halt halt' : Cursor → Prop}
    {outcome : Outcome α} (h : outcome.Ends post halt)
    (hpost : ∀ value next, post value next → weaker value next)
    (hhalt : ∀ stop, halt stop → halt' stop) : outcome.Ends weaker halt' := by
  cases outcome with
  | done value next => exact hpost value next h
  | failed failure stop => exact hhalt stop h
  | spent => trivial

/-- The cursor has moved over a word of the part, or failed behind a viable one. -/
def Reads (part : Part) (c : Cursor) : Outcome part.Value → Prop :=
  Ends (fun value d => ∃ w, c.Moves w d ∧ Derives part w d.current.kind value)
    (fun d => ∃ w, c.Moves w d ∧ Viable part w)

/-- The same for what may be missing, which it is at an end token only. A chain with
operators does not stop before a further one. -/
def ReadsChain (tier : Option Tier) (c : Cursor) : Outcome (Option Node) → Prop :=
  Ends
    (fun
      | none, d => d = c ∧ c.current.kind = .eof
      | some n, d => (∃ w, c.Moves w d ∧ Derives (.chain tier) w d.current.kind n) ∧
        (tier ≠ none → d.current.kind ≠ .operator))
    (fun d => ∃ w, c.Moves w d ∧ Viable (.chain tier) w)

/-- The same for the operators from a threshold on, which stop where the next one binds too
loosely. -/
def ReadsFrom (threshold : Int) (c : Cursor) : Outcome Node → Prop :=
  Ends
    (fun n d => (∃ w, c.Moves w d ∧ Derives (.chain (tierAt threshold)) w d.current.kind n) ∧
      d.current.Stops threshold)
    (fun d => ∃ w, c.Moves w d ∧ Viable (.chain (tierAt threshold)) w)

end Outcome

/-- The extent of a word that was read ends where the token before the cursor does. -/
theorem Cursor.Moves.extent_eq {c d : Cursor} {t : Token} {w : List Token} (h : c.Moves w d)
    (hw : w.head? = some t) : extent w = ⟨t.span.start, d.lastEnd⟩ := by
  obtain ⟨u, rfl⟩ : ∃ u, w = t :: u := List.head?_eq_some_iff.mp hw
  rw [h.lastEnd (List.cons_ne_nil t u), List.getLast_eq_getLastD]
  rfl

/-- The token that the cursor stands at is the first one of what it moves over, if any. -/
theorem Cursor.Moves.firstKind_eq {c d : Cursor} {w : List Token} (h : c.Moves w d) :
    firstKind w d.current.kind = c.current.kind := by
  cases w with
  | nil => rw [h.eq_of_nil]; rfl
  | cons t w => rw [h.current_of_cons]; rfl

namespace Parse

open Steps

variable {α β : Type} {p : Parse α} {f : α → Parse β} {c : Cursor}

theorem ends_bind {mid : α → Cursor → Prop} {post : β → Cursor → Prop} {halt : Cursor → Prop}
    (hp : (p c).Ends mid halt) (hf : ∀ value d, mid value d → (f value d).Ends post halt) :
    ((p >>= f) c).Ends post halt := by
  simp only [bind]
  cases hpc : p c with
  | done value next => exact hf value next (by simpa [hpc, Outcome.Ends] using hp)
  | failed failure stop => simpa [hpc, Outcome.Ends] using hp
  | spent => trivial

theorem bind_assoc {γ : Type} {g : β → Parse γ} :
    (p >>= f) >>= g = p >>= fun value => f value >>= g := by
  funext c
  simp only [bind]
  cases p c <;> rfl

theorem ifAt_pos {kind : Token.Kind} {yes no : Parse α} (h : c.current.kind = kind) :
    ifAt kind yes no c = yes c := by
  rw [ifAt_apply, if_pos h]

theorem ifAt_neg {kind : Token.Kind} {yes no : Parse α} (h : c.current.kind ≠ kind) :
    ifAt kind yes no c = no c := by
  rw [ifAt_apply, if_neg h]

theorem map_eq_bind {g : α → β} : (g <$> p) = p >>= fun value => pure (g value) := rfl

theorem bind_congr_left {q : Parse α} (h : p c = q c) : (p >>= f) c = (q >>= f) c := by
  simp only [bind, h]

theorem current_bind {f : Token → Parse β} : (current >>= f) c = f c.current c := rfl

theorem advance_bind {f : Token → Parse β} : (advance >>= f) c = f c.current c.advance := rfl

theorem inspect_bind_of_ok {g : Token → Except Failure α} {value : α}
    (h : g c.current = .ok value) : (inspect g >>= f) c = f value c := by
  simp only [bind, inspect_apply, h]

theorem inspect_bind_of_error {g : Token → Except Failure α} {failure : Failure}
    (h : g c.current = .error failure) : (inspect g >>= f) c = .failed failure c := by
  simp only [bind, inspect_apply, h]

/-- This is for both ways to expect a token. -/
theorem ends_token {kind : Token.Kind} (hkind : kind ≠ .eof) (cause : String → Failure.Cause) :
    ((ifAt kind advance (refuse cause) : Parse Token) c).Ends
      (fun t d => t.kind = kind ∧ c.Moves [t] d) (· = c) := by
  by_cases h : c.current.kind = kind
  · rw [ifAt_pos h]
    exact ⟨h, Cursor.moves_advance (h ▸ hkind)⟩
  · rw [ifAt_neg h]
    rfl

theorem ends_required {p : Parse (Option Node)} {tier : Option Tier}
    (hp : (p c).ReadsChain tier c) (message : String) :
    (required p message c).Reads (.chain tier) c := by
  refine ends_bind hp ?_
  rintro (_ | n) d h
  · obtain ⟨rfl, _⟩ := h
    exact ⟨[], .refl d, .chain_nil⟩
  · exact h.1

end Parse

namespace Construct

open Parse Steps

variable {inner : Parse (Option Node)} {c c₀ : Cursor} {part : Part} {w : List Token}

section Steps

/- A construct that started at `c₀` has come to `c` over the word `w`, and goes on with one
more step. What the step reads is put behind the word. -/

variable (hmoves : c₀.Moves w c)

include hmoves

theorem reads_token_bind {kind : Token.Kind} {cause : String → Failure.Cause}
    {f : Token → Parse part.Value} (hkind : kind ≠ .eof) (hw : Viable part w)
    (hf : ∀ t d, t.kind = kind → c₀.Moves (w ++ [t]) d → (f t d).Reads part c₀) :
    ((ifAt kind advance (refuse cause) >>= f) c).Reads part c₀ := by
  refine ends_bind ((ends_token hkind cause).imp (fun _ _ h => h) ?_) ?_
  · rintro d rfl
    exact ⟨w, hmoves, hw⟩
  · rintro t d ⟨ht, hd⟩
    exact hf t d ht (hmoves.trans hd)

theorem reads_advance_bind {f : Token → Parse part.Value} (hkind : c.current.kind ≠ .eof)
    (hf : ∀ d, c₀.Moves (w ++ [c.current]) d → (f c.current d).Reads part c₀) :
    ((advance >>= f) c).Reads part c₀ :=
  hf c.advance (hmoves.trans (Cursor.moves_advance hkind))

theorem reads_bind {step : Part} {p : Parse step.Value} {f : step.Value → Parse part.Value}
    (hp : (p c).Reads step c) (hw : ∀ u, Viable step u → Viable part (w ++ u))
    (hf : ∀ value u d, c₀.Moves (w ++ u) d → Derives step u d.current.kind value →
      (f value d).Reads part c₀) :
    ((p >>= f) c).Reads part c₀ := by
  refine ends_bind (hp.imp (fun _ _ h => h) ?_) ?_
  · rintro d ⟨u, hd, hu⟩
    exact ⟨w ++ u, hmoves.trans hd, hw u hu⟩
  · rintro value d ⟨u, hd, hvalue⟩
    exact hf value u d (hmoves.trans hd) hvalue

end Steps

theorem reads_number : (number c).Reads .operand c := by
  change Outcome.Reads .operand c ((if c.current.kind = .integer ∨ c.current.kind = .float then
    _ else _ : Parse Node) c)
  by_cases hkind : c.current.kind = .integer ∨ c.current.kind = .float
  · rw [if_pos hkind]
    have heof : c.current.kind ≠ .eof := by rcases hkind with h | h <;> simp [h]
    cases hread : Binary64.read? c.current.value with
    | some x => exact ⟨[c.current], Cursor.moves_advance heof, .number hkind hread⟩
    | none => exact ⟨[], .refl c, .chain_nil⟩
  · rw [if_neg hkind]
    exact ⟨[], .refl c, .chain_nil⟩

section

variable (hinner : ∀ c, (inner c).ReadsChain (some .relational) c)

include hinner

theorem reads_arguments (budget : Nat) : (arguments inner budget c).Reads .arguments c := by
  induction budget generalizing c with
  | zero => trivial
  | succ budget ih =>
    unfold arguments Body.arguments
    by_cases hclose : c.current.kind = .closeParen
    · rw [ifAt_pos hclose]
      exact ⟨[], .refl c, .noArgument⟩
    rw [ifAt_neg hclose]
    refine reads_token_bind (.refl c) (by decide) .arguments_nil fun label c₁ hlabel m₁ => ?_
    have hlabelled : Viable .arguments ([label] ++ [sample .colon]) :=
      .lastArgument (by simp [hlabel]) .chain_nil
    refine reads_token_bind m₁ (by decide) hlabelled.of_append fun colon c₂ hcolon m₂ => ?_
    have hkinds : [label, colon].map Token.kind = [.identifier, .colon] := by simp [hlabel, hcolon]
    refine reads_bind m₂ (ends_required (hinner c₂) _)
      (fun u hu => .lastArgument hkinds hu) fun n u c₃ m₃ hn => ?_
    by_cases hcomma : c₃.current.kind = .comma
    · rw [bind_congr_left (ifAt_pos hcomma), bind_assoc]
      have hn := hn.before_closing (show Closes .comma by decide)
      have hkinds' : [label, colon, c₃.current].map Token.kind = [.identifier, .colon, .comma] := by
        simp [hlabel, hcolon, hcomma]
      refine reads_advance_bind m₃ (by simp [hcomma]) fun c₄ m₄ => ?_
      refine reads_bind m₄ ih (fun v hv => ?_) fun values v c₅ m₅ hvalues => ?_
      · simpa using Viable.argument hkinds' hn hv
      · exact ⟨_, m₅, by simpa using Derives.argument hkinds' hn hvalues⟩
    · rw [bind_congr_left (ifAt_neg hcomma)]
      exact ⟨_, m₃, .lastArgument hkinds hn⟩

theorem reads_named (budget : Nat) : (named inner budget c).Reads .operand c := by
  unfold named Body.named
  refine reads_token_bind (.refl c) (by decide) .chain_nil fun name c₁ hname m₁ => ?_
  by_cases hopen : c₁.current.kind = .openParen
  · rw [ifAt_pos hopen]
    unfold Body.call
    refine reads_advance_bind m₁ (by simp [hopen]) fun c₂ m₂ => ?_
    have hkinds : [name, c₁.current].map Token.kind = [.identifier, .openParen] := by
      simp [hname, hopen]
    refine reads_bind m₂ (reads_arguments hinner budget) (fun u hu => .call hkinds hu)
      fun values u c₃ m₃ hvalues => ?_
    refine reads_token_bind m₃ (by decide) (.call hkinds hvalues.viable)
      fun close c₄ hclose m₄ => ?_
    have hcall : Derives .operand (name :: c₁.current :: u ++ [close]) c₄.current.kind _ :=
      .call (by simp [hname, hopen, hclose]) (hvalues.before_closing (by decide))
    refine ⟨_, m₄, ?_⟩
    simpa [extent, Span.join, List.getLast?_cons] using hcall
  · rw [ifAt_neg hopen]
    exact ⟨[name], m₁, .reference hname hopen⟩

theorem reads_parenthesised : (parenthesised inner c).Reads .operand c := by
  unfold parenthesised Body.parenthesised
  refine reads_token_bind (.refl c) (by decide) .chain_nil fun lparen c₁ hopen m₁ => ?_
  refine reads_bind m₁ (ends_required (hinner c₁) _) (fun u hu => .parenthesised hopen hu)
    fun n u c₂ m₂ hn => ?_
  refine reads_token_bind m₂ (by decide) (.parenthesised hopen hn.viable)
    fun rparen c₃ hclose m₃ => ?_
  exact ⟨_, m₃, .parenthesised (by simp [hopen, hclose]) (hn.before_closing (by decide))⟩

theorem reads_branch : (branch inner c).Reads .branch c := by
  unfold branch Body.branch
  refine reads_token_bind (.refl c) (by decide) .branch_nil fun lbrace c₁ hopen m₁ => ?_
  refine reads_bind m₁ (ends_required (hinner c₁) _) (fun u hu => .branch hopen hu)
    fun n u c₂ m₂ hn => ?_
  refine reads_token_bind m₂ (by decide) (.branch hopen hn.viable)
    fun rbrace c₃ hclose m₃ => ?_
  exact ⟨_, m₃, .branch (by simp [hopen, hclose]) (hn.before_closing (by decide))⟩

theorem reads_conditional (budget : Nat) :
    (conditional inner budget c).Reads .conditional c := by
  induction budget generalizing c with
  | zero => trivial
  | succ budget ih =>
    unfold conditional Body.conditional Body.alternative
    have hnil : Viable .conditional ([] ++ [sample .ifWord]) := .condition rfl .chain_nil
    refine reads_token_bind (.refl c) (by decide) hnil.of_append fun t c₁ ht m₁ => ?_
    refine reads_bind m₁ (ends_required (hinner c₁) _) (fun u hu => .condition ht hu)
      fun condition u c₂ m₂ hcondition => ?_
    have hcondition := hcondition.before_closing (show Closes .openCurly by decide)
    refine reads_bind m₂ (reads_branch hinner) (fun v hv => .consequence ht hcondition hv)
      fun consequence v c₃ m₃ hconsequence => ?_
    by_cases helse : c₃.current.kind = .elseWord
    · rw [bind_congr_left (ifAt_pos helse), bind_assoc]
      rw [helse] at hconsequence
      have hkinds : [t, c₃.current].map Token.kind = [.ifWord, .elseWord] := by simp [ht, helse]
      refine reads_advance_bind m₃ (by simp [helse]) fun c₄ m₄ => ?_
      rw [map_eq_bind, bind_assoc]
      by_cases hif : c₄.current.kind = .ifWord
      · rw [bind_congr_left (ifAt_pos hif)]
        refine reads_bind m₄ ih (fun w hw => ?_) fun alternative w c₅ m₅ halternative => ?_
        · simpa using Viable.nextConditional hkinds hcondition hconsequence hw
        · have hread : c.Moves (t :: u ++ v ++ c₃.current :: w) c₅ := by simpa using m₅
          have hwhole := Derives.ifThenElseIf hkinds hcondition hconsequence halternative
          exact ⟨_, hread, by rwa [hread.extent_eq rfl] at hwhole⟩
      · rw [bind_congr_left (ifAt_neg hif)]
        refine reads_bind m₄ (reads_branch hinner) (fun w hw => ?_)
          fun alternative w c₅ m₅ halternative => ?_
        · simpa using Viable.alternative hkinds hcondition hconsequence hw
        · have hread : c.Moves (t :: u ++ v ++ c₃.current :: w) c₅ := by simpa using m₅
          have hwhole := Derives.ifThenElse hkinds hcondition hconsequence halternative
          exact ⟨_, hread, by rwa [hread.extent_eq rfl] at hwhole⟩
    · rw [bind_congr_left (ifAt_neg helse)]
      have hread : c.Moves (t :: u ++ v) c₃ := by simpa using m₃
      have hwhole := Derives.ifThen ht hcondition hconsequence
      exact ⟨_, hread, by rwa [hread.extent_eq rfl] at hwhole⟩

end

theorem reads_parameters (budget : Nat) : (parameters budget c).Reads .parameters c := by
  induction budget generalizing c with
  | zero => trivial
  | succ budget ih =>
    unfold parameters Body.parameters
    by_cases hclose : c.current.kind = .closeParen
    · rw [ifAt_pos hclose]
      exact ⟨[], .refl c, .noParameter⟩
    rw [ifAt_neg hclose]
    unfold parameter Body.parameter
    rw [bind_assoc]
    refine reads_token_bind (.refl c) (by decide) .parameters_nil fun name c₁ hname m₁ => ?_
    have hnamed : Viable .parameters ([name] ++ [sample .colon, sample .identifier]) :=
      .lastParameter (by simp [hname])
    rw [bind_assoc]
    refine reads_token_bind m₁ (by decide) hnamed.of_append fun colon c₂ hcolon m₂ => ?_
    have htyped : Viable .parameters ([name, colon] ++ [sample .identifier]) :=
      .lastParameter (by simp [hname, hcolon])
    rw [bind_assoc]
    refine reads_token_bind m₂ (by decide) htyped.of_append fun type c₃ htype m₃ => ?_
    by_cases hcomma : c₃.current.kind = .comma
    · have hkinds : [name, colon, type, c₃.current].map Token.kind =
          [.identifier, .colon, .identifier, .comma] := by simp [hname, hcolon, htype, hcomma]
      change Outcome.Reads .parameters c ((ifAt .comma _ _ >>= _ : Parse (List Parameter)) c₃)
      rw [bind_congr_left (ifAt_pos hcomma), bind_assoc]
      refine reads_advance_bind m₃ (by simp [hcomma]) fun c₄ m₄ => ?_
      refine reads_bind m₄ ih (fun u hu => .parameter hkinds hu) fun ps u c₅ m₅ hps => ?_
      exact ⟨_, m₅, .parameter hkinds hps⟩
    · change Outcome.Reads .parameters c ((ifAt .comma _ _ >>= _ : Parse (List Parameter)) c₃)
      rw [bind_congr_left (ifAt_neg hcomma)]
      exact ⟨_, m₃, .lastParameter (by simp [hname, hcolon, htype])⟩

section

variable (hinner : ∀ c, (inner c).ReadsChain (some .relational) c)

include hinner

theorem reads_definition (budget : Nat) : (definition inner budget c).Reads .definition c := by
  unfold definition Body.definition
  -- Every mark up to the parameters can be followed by the ones that are still missing.
  have hnil : Viable .definition ([] ++ [.funcWord, .identifier, .openParen].map sample) :=
    .definitionParameters rfl .parameters_nil
  refine reads_token_bind (.refl c) (by decide) hnil.of_append fun func c₁ hfunc m₁ => ?_
  have hopened : Viable .definition ([func] ++ [.identifier, .openParen].map sample) :=
    .definitionParameters (by simp [hfunc]) .parameters_nil
  refine reads_token_bind m₁ (by decide) hopened.of_append fun name c₂ hname m₂ => ?_
  have hnamed : Viable .definition ([func, name] ++ [.openParen].map sample) :=
    .definitionParameters (by simp [hfunc, hname]) .parameters_nil
  refine reads_token_bind m₂ (by decide) hnamed.of_append fun lparen c₃ hlparen m₃ => ?_
  have hkinds : [func, name, lparen].map Token.kind = [.funcWord, .identifier, .openParen] := by
    simp [hfunc, hname, hlparen]
  refine reads_bind m₃ (reads_parameters budget) (fun u hu => .definitionParameters hkinds hu)
    fun ps w c₄ m₄ hps => ?_
  have hlisted := Viable.definitionParameters hkinds hps.viable
  have hps := hps.before_closing (show Closes .closeParen by decide)
  -- So can every mark up to the body.
  have hmarks : ∀ rparen arrow type lbrace : Token,
      [rparen, arrow, type, lbrace].map Token.kind =
        [.closeParen, .arrow, .identifier, .openCurly] →
      Viable .definition (func :: name :: lparen :: w ++ [rparen, arrow, type, lbrace]) := by
    intro rparen arrow type lbrace h
    exact .definitionBody (by simpa [hfunc, hname, hlparen] using h) hps .chain_nil
  refine reads_token_bind m₄ (by decide) hlisted fun rparen c₅ hrparen m₅ => ?_
  have hclosed := hmarks rparen (sample .arrow) (sample .identifier) (sample .openCurly)
    (by simp [hrparen])
  refine reads_token_bind m₅ (by decide)
    (.of_append (v := [.arrow, .identifier, .openCurly].map sample) (by simpa using hclosed))
    fun arrow c₆ harrow m₆ => ?_
  have hpointed := hmarks rparen arrow (sample .identifier) (sample .openCurly)
    (by simp [hrparen, harrow])
  refine reads_token_bind m₆ (by decide)
    (.of_append (v := [.identifier, .openCurly].map sample) (by simpa using hpointed))
    fun type c₇ htype m₇ => ?_
  have htyped := hmarks rparen arrow type (sample .openCurly) (by simp [hrparen, harrow, htype])
  refine reads_token_bind m₇ (by decide)
    (.of_append (v := [.openCurly].map sample) (by simpa using htyped))
    fun lbrace c₈ hlbrace m₈ => ?_
  have hbody : ∀ body, Viable .expression body → Viable .definition
      (func :: name :: lparen :: w ++ rparen :: arrow :: type :: lbrace :: body) := fun body h =>
    .definitionBody (by simp [hfunc, hname, hlparen, hrparen, harrow, htype, hlbrace]) hps h
  refine reads_bind m₈ (ends_required (hinner c₈) _) (fun u hu => by simpa using hbody u hu)
    fun n body c₉ m₉ hn => ?_
  refine reads_token_bind m₉ (by decide) (by simpa using hbody body hn.viable)
    fun rbrace c₁₀ hrbrace m₁₀ => ?_
  have hwhole : Derives .definition
      (func :: name :: lparen :: w ++ rparen :: arrow :: type :: lbrace :: body ++ [rbrace])
      c₁₀.current.kind _ :=
    .definition (by simp [hfunc, hname, hlparen, hrparen, harrow, htype, hlbrace, hrbrace]) hps
      (hn.before_closing (by decide))
  refine ⟨_, m₁₀, ?_⟩
  simpa [extent, Span.join, List.getLast?_cons] using hwhole

theorem reads_returning : (returning inner c).Reads .operand c := by
  unfold returning Body.returning
  refine reads_token_bind (.refl c) (by decide) .chain_nil fun t c₁ ht m₁ => ?_
  change Outcome.Reads .operand c (((if c₁.current.kind.startsExpression then inner
    else pure none : Parse (Option Node)) >>= _ : Parse Node) c₁)
  by_cases hstarts : c₁.current.kind.startsExpression
  · rw [if_pos hstarts]
    refine ends_bind ((hinner c₁).imp (fun _ _ h => h) ?_) ?_
    · rintro d ⟨u, hd, hu⟩
      exact ⟨[t] ++ u, m₁.trans hd, .returnValue ht hu⟩
    · rintro (_ | n) d h
      · exact absurd hstarts (by rw [h.2]; decide)
      · obtain ⟨⟨u, hd, hn⟩, hnext⟩ := h
        have hread : c.Moves (t :: u) d := m₁.trans hd
        have hwhole := Derives.returnValue ht hn (hnext (by decide))
        exact ⟨_, hread, by rwa [hread.extent_eq rfl] at hwhole⟩
  · rw [if_neg hstarts]
    have hread : c.Moves [t] c₁ := m₁
    have hwhole := Derives.returnNothing ht (by simpa using hstarts)
    exact ⟨_, hread, by rwa [hread.extent_eq rfl] at hwhole⟩

theorem readsChain_primary (budget : Nat) : (primary inner budget c).ReadsChain none c := by
  have hsome : ∀ {p : Parse Node}, (p c).Reads .operand c → ((some <$> p) c).ReadsChain none c := by
    intro p hp
    refine ends_bind hp fun n d hn => ?_
    exact ⟨hn, fun h => absurd rfl h⟩
  unfold primary Body.primary
  rw [current_bind]
  cases hkind : c.current.kind with
  | identifier => exact hsome (reads_named hinner budget)
  | integer | float => exact hsome reads_number
  | openParen => exact hsome (reads_parenthesised hinner)
  | funcWord =>
    refine hsome ((reads_definition hinner budget).imp ?_ ?_)
    · exact fun n d ⟨w, hd, hn⟩ => ⟨w, hd, .defined hn⟩
    · exact fun d ⟨w, hd, hw⟩ => ⟨w, hd, .defined hw⟩
  | returnWord => exact hsome (reads_returning hinner)
  | ifWord =>
    refine hsome ((reads_conditional hinner budget).imp ?_ ?_)
    · exact fun n d ⟨w, hd, hn⟩ => ⟨w, hd, .chosen hn⟩
    · exact fun d ⟨w, hd, hw⟩ => ⟨w, hd, .chosen hw⟩
  | eof => exact ⟨rfl, hkind⟩
  | operator | closeParen | openCurly | closeCurly | colon | comma | arrow | elseWord =>
    exact ⟨[], .refl c, .chain_nil⟩

end

section Operators

variable {operand : Parse (Option Node)} {budget : Nat} {threshold : Int} {lhs : Node}

theorem operators_of_error {failure : Failure} (h : c.current.operator = .error failure) :
    operators operand (budget + 1) threshold lhs c = .failed failure c := by
  unfold operators Body.operators
  exact inspect_bind_of_error h

theorem operators_of_stops (h : c.current.Stops threshold) :
    operators operand (budget + 1) threshold lhs c = .done lhs c := by
  obtain ⟨op?, hop, hstops⟩ := h
  unfold operators Body.operators
  rw [inspect_bind_of_ok hop]
  cases op? with
  | none => rfl
  | some op =>
    simp only
    rw [if_pos (hstops op rfl)]
    rfl

theorem operators_of_some {op : Operator} (hop : c.current.operator = .ok (some op))
    (hle : threshold ≤ op.power) :
    operators operand (budget + 1) threshold lhs c =
      (rightOperand operand budget op >>= fun rhs =>
        operators operand budget threshold (.binary op lhs rhs (lhs.span.join rhs.span)))
        c.advance := by
  rw [operators, Body.operators, inspect_bind_of_ok hop]
  have hlt : ¬ op.power < threshold := by omega
  simp only
  rw [if_neg hlt]
  rfl

end Operators

section Climbing

variable {operand : Parse (Option Node)} {budget : Nat}
  (hoperand : ∀ c, (operand c).ReadsChain none c)
  (hoperators : ∀ {c c₀ : Cursor} {threshold bound : Int} {lhs : Node} {u : List Token},
    c₀.Moves u c → threshold ≤ bound → Derives (.chain (tierAt bound)) u c.current.kind lhs →
    (∀ op, c.current.operator = .ok (some op) → op.power ≤ bound) →
    (operators operand budget threshold lhs c).ReadsFrom threshold c₀)

include hoperand hoperators

theorem readsFrom_rightOperand (op : Operator) :
    (rightOperand operand budget op c).ReadsFrom (op.power + 1) c := by
  refine ends_bind ((ends_required (hoperand c) _).imp (fun _ _ h => h) ?_) ?_
  · rintro d ⟨v, hd, hv⟩
    exact ⟨v, hd, hv.of_operand⟩
  rintro first d ⟨v, hd, hfirst⟩
  unfold Body.extended
  cases hnext : d.current.operator with
  | error failure =>
    rw [inspect_bind_of_error (Token.precedence_of_error hnext)]
    exact ⟨v, hd, hfirst.viable.of_operand⟩
  | ok op? =>
    rw [inspect_bind_of_ok (Token.precedence_of_operator hnext)]
    by_cases hlt : op.power < (op?.map Operator.power).getD (-1)
    · rw [if_pos hlt]
      -- No operator binds tighter than the products, so an operand is left of any operator.
      have hmax : ∀ op : Operator, op.power ≤ 40 := by intro op; cases op <;> decide
      have hfirst : Derives (.chain (tierAt 41)) v d.current.kind first := hfirst
      refine hoperators hd (Int.add_le_add_right (hmax op) 1) hfirst fun op' _ => ?_
      exact Int.le_trans (hmax op') (by decide)
    · rw [if_neg hlt]
      refine ⟨⟨v, hd, hfirst.of_operand⟩, op?, hnext, ?_⟩
      rintro op' rfl
      simp at hlt
      omega

end Climbing

/-- The loop over operators. It has come to `c` over a word `u` that stands for the left
operand, where all operators of that operand bind at least as tightly as `bound`, and the next
one binds no tighter. -/
theorem readsFrom_operators {operand : Parse (Option Node)}
    (hoperand : ∀ c, (operand c).ReadsChain none c) (budget : Nat) {threshold bound : Int}
    {lhs : Node} {u : List Token} (hmoves : c₀.Moves u c) (hthreshold : threshold ≤ bound)
    (hlhs : Derives (.chain (tierAt bound)) u c.current.kind lhs)
    (hbound : ∀ op, c.current.operator = .ok (some op) → op.power ≤ bound) :
    (operators operand budget threshold lhs c).ReadsFrom threshold c₀ := by
  induction budget generalizing c c₀ threshold bound lhs u with
  | zero => trivial
  | succ budget ih =>
    have hwhole := hlhs.loosen hthreshold
    cases hop : c.current.operator with
    | error failure =>
      rw [operators_of_error hop]
      exact ⟨u, hmoves, hwhole.viable⟩
    | ok op? =>
      rcases Token.stops_or_le threshold hop with hstops | ⟨op, rfl, hle⟩
      · rw [operators_of_stops hstops]
        exact ⟨⟨u, hmoves, hwhole⟩, hstops⟩
      rw [operators_of_some hop hle]
      obtain ⟨hkind, hsymbol⟩ := Token.operator_eq_some_iff.mp hop
      have hleft : Derives (.chain (some op.tier)) u .operator lhs := by
        rw [← tierAt_power, ← hkind]
        exact hlhs.loosen (hbound op hop)
      have hstep : c₀.Moves (u ++ [c.current]) c.advance :=
        hmoves.trans (Cursor.moves_advance (by simp [hkind]))
      refine ends_bind ((readsFrom_rightOperand hoperand ih op).imp (fun _ _ h => h) ?_) ?_
      · rintro d ⟨v, hd, hv⟩
        rw [tierAt_power_succ] at hv
        have hbinary := Viable.binary hkind hsymbol hleft hv
        rw [← tierAt_power] at hbinary
        exact ⟨_, hstep.trans hd, by simpa using hbinary.loosen hle⟩
      · rintro rhs d ⟨⟨v, hd, hrhs⟩, op?, hnext, hstops⟩
        rw [tierAt_power_succ] at hrhs
        have hbinary := Derives.of_operator hkind hsymbol hleft hrhs
        rw [← tierAt_power] at hbinary
        refine ih (hstep.trans hd) hle (by simpa using hbinary) fun op' hop' => ?_
        have := hstops op' (by simpa using hnext.symm.trans hop')
        omega

theorem power_nonneg (op : Operator) : 0 ≤ op.power := by
  cases op <;> decide

theorem readsChain_chain (hinner : ∀ c, (inner c).ReadsChain (some .relational) c)
    (budget : Nat) : (chain inner budget c).ReadsChain (some .relational) c := by
  have hprimary := fun c => readsChain_primary (c := c) hinner budget
  refine ends_bind ((hprimary c).imp (fun _ _ h => h) ?_) ?_
  · rintro d ⟨w, hd, hw⟩
    exact ⟨w, hd, hw.of_operand⟩
  rintro (_ | lhs) d h
  · exact h
  obtain ⟨⟨w, hd, hlhs⟩, -⟩ := h
  have hmax : ∀ op : Operator, op.power ≤ 41 := by intro op; cases op <;> decide
  have hlhs : Derives (.chain (tierAt 41)) w d.current.kind lhs := hlhs
  refine ends_bind (readsFrom_operators hprimary budget hd (by decide) hlhs fun op _ => hmax op) ?_
  rintro n e ⟨⟨w, he, hn⟩, op?, hop, hstops⟩
  refine ⟨⟨w, he, hn⟩, fun _ hkind => ?_⟩
  -- All operators bind tighter than nothing, so a chain from zero on leaves none.
  cases op? with
  | none => exact Token.operator_eq_none_iff.mp hop hkind
  | some op =>
    have := hstops op rfl
    have := power_nonneg op
    omega

theorem readsChain_expression (budget : Nat) (c : Cursor) :
    (expression budget c).ReadsChain (some .relational) c := by
  induction budget generalizing c with
  | zero => trivial
  | succ budget ih => exact readsChain_chain ih (budget + 1)

section Units

variable (hinner : ∀ c, (inner c).ReadsChain (some .relational) c)

include hinner

theorem ends_unit (budget : Nat) :
    (unit inner budget c).Ends
      (fun
        | none, d => d = c ∧ c.current.kind = .eof
        | some n, d => ∃ w, c.Moves w d ∧ Derives .units w d.current.kind [n])
      (fun d => ∃ w, c.Moves w d ∧ Viable .units w) := by
  unfold unit Body.unit
  by_cases hfunc : c.current.kind = .funcWord
  · rw [ifAt_pos hfunc, map_eq_bind]
    refine ends_bind ((reads_definition hinner budget).imp (fun _ _ h => h) ?_) ?_
    · rintro d ⟨w, hd, hw⟩
      exact ⟨w, hd, .definedUnit hw⟩
    · rintro n d ⟨w, hd, hn⟩
      have hunit : Derives .units (w ++ []) d.current.kind [n] := .definedUnit hn .noUnit
      exact ⟨w, hd, by simpa using hunit⟩
  · rw [ifAt_neg hfunc]
    unfold entry Body.entry
    refine ends_bind ((readsChain_chain hinner budget).imp (fun _ _ h => h) ?_) ?_
    · rintro d ⟨w, hd, hw⟩
      cases w with
      | nil => exact ⟨[], hd, .units_nil⟩
      | cons t w => exact ⟨t :: w, hd, .bareUnit hw (hd.current_of_cons ▸ hfunc)⟩
    rintro (_ | n) d h
    · exact h
    · obtain ⟨⟨w, hd, hn⟩, -⟩ := h
      have hfirst : w.head?.map Token.kind ≠ some .funcWord := by
        cases w with
        | nil => simp
        | cons t w => simpa [← hd.current_of_cons] using hfunc
      have hunit : Derives .units (w ++ []) d.current.kind [n.entry] :=
        .bareUnit hn hfirst .noUnit
      exact ⟨w, hd, by simpa using hunit⟩

/-- Units are read up to an end token. -/
theorem ends_units (budget : Nat) :
    (units inner budget c).Ends
      (fun ns d => (∃ w, c.Moves w d ∧ Derives .units w d.current.kind ns) ∧
        d.current.kind = .eof)
      (fun d => ∃ w, c.Moves w d ∧ Viable .units w) := by
  induction budget generalizing c with
  | zero => trivial
  | succ budget ih =>
    unfold units Body.units
    by_cases heof : c.current.kind = .eof
    · rw [ifAt_pos heof]
      exact ⟨⟨[], .refl c, .noUnit⟩, heof⟩
    rw [ifAt_neg heof]
    refine ends_bind (ends_unit hinner (budget + 1)) ?_
    rintro (_ | n) d h
    · exact absurd h.2 heof
    obtain ⟨u, hd, hn⟩ := h
    refine ends_bind (ih.imp (fun _ _ h => h) ?_) ?_
    · rintro e ⟨v, he, hv⟩
      rw [← he.firstKind_eq] at hn
      exact ⟨u ++ v, hd.trans he, .append_units hn hv⟩
    · rintro ns e ⟨⟨v, he, hns⟩, heof⟩
      rw [← he.firstKind_eq] at hn
      exact ⟨⟨u ++ v, hd.trans he, .append_units hn hns⟩, heof⟩

end Units

end Construct

end ExprLang
