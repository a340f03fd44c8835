import ExprLang.Proofs.Lookahead

/-!
Runs of a cursor. Whatever is done at a cursor moves it over a word without end tokens, which may
be empty, also where a reading fails. So a cursor always stands among the same tokens, goes
forward only, and stays at the first end token once it is there. A reading that has a value has
passed a token, unless the value may stand for nothing: for no expression at the end of the
tokens, or for a left operand that no operator follows.
-/
namespace ExprLang

namespace Cursor

open Construct
open Steps (ifAt refuse)

variable {c d : Cursor} {w : List Token}

namespace Moves

theorem tokens_eq (h : c.Moves w d) : d.tokens = c.tokens := by
  rw [Cursor.tokens, Cursor.tokens, h.passed, h.tokens]
  simp

theorem eq_of_eof (h : c.Moves w d) (heof : c.current.kind = .eof) : d = c := by
  cases w with
  | nil => exact h.eq_of_nil
  | cons t w => exact absurd heof h.current_ne_eof

end Moves

section Bounds

theorem getElem?_index (c : Cursor) : c.tokens[c.index]? = some c.current := c.getElem?_tokens 0

/-- Looking ahead looks up the token so many places on, or the last one. -/
theorem getElem?_peek (c : Cursor) (count : Nat) :
    c.tokens[min (c.index + count) (c.tokens.length - 1)]? = some (c.peek count) := by
  have hlength : c.tokens.length = c.index + (c.ahead.length + 1) := by
    simp [tokens, index]
  unfold peek
  by_cases hcount : count < c.ahead.length + 1
  · have hmin : min (c.index + count) (c.tokens.length - 1) = c.index + count := by omega
    have hbound : count < (c.current :: c.ahead).length := hcount
    rw [hmin, getElem?_tokens, List.getElem?_eq_getElem hbound, Option.getD_some]
  · have hmin : min (c.index + count) (c.tokens.length - 1) = c.index + c.ahead.length := by omega
    have hnone : (c.current :: c.ahead)[count]? = none :=
      List.getElem?_eq_none (by simp only [List.length_cons]; omega)
    rw [hmin, getElem?_tokens, hnone, Option.getD_none, ← List.getLast?_eq_some_getLast,
      List.getLast?_eq_getElem?]
    rfl

theorem getElem?_lastEnd (c : Cursor) (h : c.index ≠ 0) :
    ∃ t, c.tokens[c.index - 1]? = some t ∧ c.lastEnd = t.span.stop := by
  cases hpassed : c.passed with
  | nil => simp [index, hpassed] at h
  | cons t passed =>
    refine ⟨t, ?_, by simp [lastEnd, hpassed]⟩
    simp [tokens, index, hpassed]

theorem exists_tokens_eq_append (c : Cursor) :
    ∃ front last, c.tokens = front ++ [last] ∧ last.kind = .eof := by
  have hne := List.cons_ne_nil c.current c.ahead
  refine ⟨c.passed.reverse ++ (c.current :: c.ahead).dropLast, _, ?_, c.ends⟩
  rw [List.append_assoc, List.dropLast_concat_getLast hne, tokens]

/-- A cursor that nothing was passed before stands at most at the first end token. -/
theorem Moves.index_le_findIdx (h : c.Moves w d) (hc : c.index = 0) :
    d.index ≤ d.tokens.findIdx fun t => t.kind = .eof := by
  have hpassed : c.passed = [] := List.length_eq_zero_iff.mp hc
  have hall : d.tokens = c.current :: c.ahead := by
    rw [h.tokens_eq, Cursor.tokens, hpassed, List.reverse_nil, List.nil_append]
  have hword : c.word = d.tokens.take (d.tokens.findIdx fun t => t.kind = .eof) := by
    rw [hall, word, Token.word, List.takeWhile_eq_take_findIdx_not]
    simp
  have hle := h.index_le_word
  rw [hword, List.length_take, hc] at hle
  omega

end Bounds

namespace Request

variable {α : Type}

/-- Whether a token must have been passed for the value. -/
def Consumes : Request α → α → Prop
  | .operators _ _, _ => False
  | .expression, node | .primary, node | .entry, node => node.isSome
  | .required _, _ | .number, _ | .named, _ | .parenthesised, _ | .conditional, _ | .returning, _
  | .definition, _ | .parameter, _ => True

theorem moves_read (request : Request α) (c : Cursor) : ∃ w, c.Moves w (request.read c).2 := by
  obtain ⟨hspent, hread⟩ := request.read_eq c
  obtain ⟨w, hmoves, -⟩ := (request.mirrors id c c c).echoes hspent hspent
  rw [hread]
  exact ⟨w, hmoves⟩

theorem ensures_parse (request : Request α) (c : Cursor) :
    (request.parse c c).Ensures fun value d =>
      request.Consumes value → d.remaining < c.remaining := by
  have hnested := c.progresses_nested
  have hbudget := c.remaining_lt_budget
  have hle := Nat.le_refl c.remaining
  cases request with
  | expression => exact (progresses_chain hnested hbudget c hbudget).imp fun _ _ h => h.2
  | required message =>
    exact (passes_required (progresses_chain hnested hbudget) hbudget message).imp fun _ _ h _ => h
  | primary => exact (progresses_primary hnested hbudget c hbudget).imp fun _ _ h => h.2
  | number => exact passes_number.imp fun _ _ h _ => h
  | named => exact (passes_named hnested hle hbudget).imp fun _ _ h _ => h
  | operators threshold lhs =>
    exact (keeps_operators (progresses_primary hnested hbudget) (Nat.le_of_lt hbudget) hbudget
      threshold lhs).imp fun _ _ _ h => h.elim
  | parenthesised => exact (passes_parenthesised hnested hle).imp fun _ _ h _ => h
  | conditional => exact (passes_conditional hnested hle hbudget).imp fun _ _ h _ => h
  | returning => exact (passes_returning hnested hle).imp fun _ _ h _ => h
  | definition => exact (passes_definition hnested hle hbudget).imp fun _ _ h _ => h
  | parameter => exact passes_parameter.imp fun _ _ h _ => h
  | entry => exact (progresses_entry hnested hbudget c hbudget).imp fun _ _ h => h.2

/-- A reading that has such a value has moved the cursor. -/
theorem index_lt_of_read (request : Request α) {value : α} (h : request.read c = (.ok value, d))
    (hvalue : request.Consumes value) : c.index < d.index := by
  obtain ⟨w, hmoves⟩ := request.moves_read c
  obtain ⟨hspent, hread⟩ := request.read_eq c
  have hensures := request.ensures_parse c
  rw [hread] at h
  rw [Outcome.result_eq_ok_iff.mp h] at hensures
  rw [hread, h] at hmoves
  have hless : d.remaining < c.remaining := hensures hvalue
  have hremaining := hmoves.remaining
  have hindex := hmoves.index
  simp only at hremaining hindex
  omega

end Request

/-- What can be done at a cursor. -/
inductive Operation where
  | peek (count : Nat)
  | advance
  | expect (kind : Token.Kind)
  | expectFor (kind : Token.Kind) (message : String)
  | misplaced (message : String)
  | hasTokens
  | lastEnd
  | read {α : Type} (request : Request α)

/-- Where the cursor stands then. Looking leaves it where it is, a failure where it arose. -/
def Operation.next : Operation → Cursor → Cursor
  | .advance, c => c.advance
  | .expect kind, c => (c.expect kind).2
  | .expectFor kind message, c => (c.expectFor kind message).2
  | .read request, c => (request.read c).2
  | .peek _, c | .misplaced _, c | .hasTokens, c | .lastEnd, c => c

def run (c : Cursor) (operations : List Operation) : Cursor :=
  operations.foldl (fun c operation => operation.next c) c

theorem exists_moves_advance (c : Cursor) : ∃ w, c.Moves w c.advance := by
  by_cases heof : c.current.kind = .eof
  · rw [advance_of_eof heof]
    exact ⟨[], .refl c⟩
  · exact ⟨[c.current], moves_advance heof⟩

/-- A token that is asked for is passed, or the cursor stays. -/
theorem exists_moves_ifAt (c : Cursor) (kind : Token.Kind) {cause : String → Failure.Cause}
    (h : (ifAt kind Steps.advance (refuse cause) : Parse Token) c ≠ .spent) :
    ∃ w, c.Moves w (Outcome.result _ h).2 := by
  by_cases hkind : c.current.kind = kind
  · have hdone : Outcome.result _ h = (.ok c.current, c.advance) :=
      Outcome.result_eq_ok_iff.mpr (Parse.ifAt_pos hkind)
    rw [hdone]
    exact c.exists_moves_advance
  · have hfailed : Outcome.result _ h = (.error ⟨cause c.current.value, c.current.span.start⟩, c) :=
      Outcome.result_eq_error_iff.mpr (Parse.ifAt_neg hkind)
    rw [hfailed]
    exact ⟨[], .refl c⟩

theorem Operation.exists_moves_next (operation : Operation) (c : Cursor) :
    ∃ w, c.Moves w (operation.next c) := by
  cases operation with
  | peek | misplaced | hasTokens | lastEnd => exact ⟨[], .refl c⟩
  | advance => exact c.exists_moves_advance
  | expect kind => exact c.exists_moves_ifAt kind _
  | expectFor kind message => exact c.exists_moves_ifAt kind _
  | read request => exact request.moves_read c

theorem exists_moves_run (c : Cursor) (operations : List Operation) :
    ∃ w, c.Moves w (c.run operations) := by
  induction operations generalizing c with
  | nil => exact ⟨[], .refl c⟩
  | cons operation operations ih =>
    obtain ⟨u, hu⟩ := operation.exists_moves_next c
    obtain ⟨v, hv⟩ := ih (operation.next c)
    exact ⟨u ++ v, hu.trans hv⟩

/-- Every index at which tokens are looked up at the cursor is that of one of its tokens. -/
structure InBounds (c : Cursor) : Prop where
  current : c.tokens[c.index]? = some c.current
  peek : ∀ count, c.tokens[min (c.index + count) (c.tokens.length - 1)]? = some (c.peek count)
  lastEnd : c.index ≠ 0 → ∃ t, c.tokens[c.index - 1]? = some t ∧ c.lastEnd = t.span.stop

/-- The second cursor is a later state of the first one. -/
structure Leads (c d : Cursor) : Prop where
  tokens : d.tokens = c.tokens
  index : c.index ≤ d.index
  stays : c.current.kind = .eof → d = c

theorem Moves.leads (h : c.Moves w d) : c.Leads d := by
  refine ⟨h.tokens_eq, ?_, h.eq_of_eof⟩
  have hindex := h.index
  omega

theorem run_append (c : Cursor) (before after : List Operation) :
    c.run (before ++ after) = (c.run before).run after := List.foldl_append ..

/-- In every run the tokens stay the same and end with an end token. The cursor goes forward only,
never past the first end token, at which it stays. It is always in bounds, and wherever it stands
a reading passes a token if its value asks for one. At an end token a bare expression is read as
none, and the cursor stays. -/
theorem run_goes_forward (tokens : List Token) (file : String) (before after : List Operation) :
    let c := (start tokens file).run before
    let d := (start tokens file).run (before ++ after)
    (start tokens file).Leads c ∧ c.Leads d ∧
      (∃ front last, d.tokens = front ++ [last] ∧ last.kind = .eof) ∧
      (d.index ≤ d.tokens.findIdx fun t => t.kind = .eof) ∧ d.InBounds ∧
      (∀ (α : Type) (request : Request α) (value : α) (e : Cursor),
        request.read d = (.ok value, e) → request.Consumes value → d.index < e.index) ∧
      ∀ e : Cursor, e.current.kind = .eof → e.entry = (.ok none, e) := by
  intro c d
  obtain ⟨u, hu⟩ := (start tokens file).exists_moves_run before
  obtain ⟨v, hv⟩ := c.exists_moves_run after
  obtain ⟨w, hw⟩ := (start tokens file).exists_moves_run (before ++ after)
  rw [← run_append] at hv
  refine ⟨hu.leads, hv.leads, d.exists_tokens_eq_append, ?_, ?_, ?_, ?_⟩
  · exact hw.index_le_findIdx (index_start tokens file)
  · exact ⟨d.getElem?_index, d.getElem?_peek, d.getElem?_lastEnd⟩
  · intro α request value e hread hvalue
    exact request.index_lt_of_read hread hvalue
  · intro e heof
    exact Outcome.result_eq_ok_iff.mpr (Construct.entry_of_eof heof)

/-- A number that is not there leaves the cursor at the reference that is read next; then it
stays at the end token, whatever is asked for. -/
theorem run_over_reference :
    let tok (kind : Token.Kind) (value : String) (start : Nat) : Token :=
      ⟨kind, value, .between start (start + 1) "f"⟩
    let tokens := [tok .identifier "x" 0, tok .eof "EOF" 1, tok .integer "7" 2]
    let c := (start tokens "f").run [.read .number]
    let d := (start tokens "f").run [.read .number, .read .expression]
    let e := (start tokens "f").run [.read .number, .read .expression, .advance, .read .returning]
    c.expression = (.ok (some (.reference "x" (.between 0 1 "f"))), d) ∧ c.index < d.index ∧
      d.current.kind = .eof ∧ d.entry = (.ok none, d) ∧ e = d ∧ e.tokens[3]? = some (e.peek 9) ∧
      ∃ t, e.tokens[0]? = some t ∧ e.lastEnd = t.span.stop := by
  intro tok tokens c d e
  have hread : c.expression = (.ok (some (.reference "x" (.between 0 1 "f"))), d) := rfl
  have heof : d.current.kind = .eof := rfl
  obtain ⟨-, -, -, -, -, hpasses, -⟩ := run_goes_forward tokens "f" [] [.read .number]
  obtain ⟨hfirst, hstays, -, -, hbounds, -, hnone⟩ :=
    run_goes_forward tokens "f" [.read .number, .read .expression] [.advance, .read .returning]
  have hpeek : e.tokens[min (e.index + 9) (e.tokens.length - 1)]? = some (e.peek 9) :=
    hbounds.peek 9
  -- The tokens are those of the start, so no run is needed to count them.
  have hlength : e.tokens.length = 4 := congrArg List.length (hstays.tokens.trans hfirst.tokens)
  have hlast : min (e.index + 9) (e.tokens.length - 1) = 3 := by omega
  rw [hlast] at hpeek
  refine ⟨hread, hpasses _ .expression _ d hread rfl, heof, hnone d heof, hstays.stays heof,
    hpeek, ?_⟩
  exact hbounds.lastEnd (by decide)

/-- At the end of the tokens a bare expression is none, and no token is passed for it. -/
theorem entry_of_no_tokens :
    let c := start [] "f"
    c.entry.1 = .ok none ∧ ¬ c.index < c.entry.2.index := by
  intro c
  have hread : c.entry.1 = .ok none ∧ c.entry.2.index = c.index := ⟨rfl, rfl⟩
  refine ⟨hread.1, ?_⟩
  omega

end Cursor

end ExprLang
