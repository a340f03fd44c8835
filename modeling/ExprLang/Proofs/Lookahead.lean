import ExprLang.Proofs.Language
import ExprLang.Proofs.Lockstep
import Mathlib.Data.List.TakeWhile

/-!
How far a reading looks. A reading that is asked for at a cursor depends on the tokens from
there up to the one that it stops at, and on nothing else: neither on the tokens before nor on
those behind, nor on the name of the text. So it looks one token ahead of what it passes. In
particular nothing behind the first end token has an effect.
-/
namespace ExprLang

namespace Reading

variable {α γ : Type}

/-- The second reading has a value of the same view, or it fails for the same cause of the
token that it stops at. -/
def Echoes (view : α → γ) : Reading α → Reading α → Prop
  | (.ok value, _), (.ok value', _) => view value = view value'
  | (.error failure, d), (.error failure', d') => ∃ cause, d.current.Faults cause ∧
      failure = ⟨cause d.current.value, d.current.span.start⟩ ∧
        failure' = ⟨cause d'.current.value, d'.current.span.start⟩
  | _, _ => False

/-- Readings that echo each other and stop at the same token have the same result. -/
theorem Echoes.fst_eq {r r' : Reading α} (h : r.Echoes id r') (hstop : r'.2.current = r.2.current) :
    r'.1 = r.1 := by
  obtain ⟨result, d⟩ := r
  obtain ⟨result', d'⟩ := r'
  cases result with
  | ok value =>
    cases result' with
    | ok value' => exact congrArg Except.ok (Eq.symm h)
    | error failure' => exact h.elim
  | error failure =>
    cases result' with
    | ok value' => exact h.elim
    | error failure' =>
      obtain ⟨cause, -, rfl, rfl⟩ := h
      rw [show d'.current = d.current from hstop]

end Reading

/-- Two parses whose budgets suffice echo each other where they mirror each other. -/
theorem Outcome.Mirrors.echoes {α γ : Type} {move : Position → Position} {view : α → γ}
    {tied : Prop} {c c' : Cursor} {q : Parse α} {outcome : Outcome α}
    (h : outcome.Mirrors move view tied c q) (hspent : outcome ≠ .spent) (hspent' : q c' ≠ .spent) :
    ∃ w, c.Moves w (outcome.result hspent).2 ∧
      ∀ d', Cursor.Parallel move tied c w (outcome.result hspent).2 c' d' →
        ((q c').result hspent').2 = d' ∧
          Reading.Echoes view (outcome.result hspent) ((q c').result hspent') := by
  cases outcome with
  | spent => exact absurd rfl hspent
  | done value d =>
    obtain ⟨w, hmoves, hsecond⟩ := h
    refine ⟨w, hmoves, fun d' hparallel => ?_⟩
    obtain ⟨value', hdone, hview⟩ := (hsecond c' d' hparallel).resolve_left hspent'
    have hresult : (q c').result hspent' = (.ok value', d') := result_eq_ok_iff.mpr hdone
    rw [hresult]
    exact ⟨rfl, hview⟩
  | failed failure d =>
    obtain ⟨w, hmoves, hsecond⟩ := h
    refine ⟨w, hmoves, fun d' hparallel => ?_⟩
    obtain ⟨cause, hfaults, hfailure, hfailed⟩ := (hsecond c' d' hparallel).resolve_left hspent'
    have hresult := (result_eq_error_iff (h := hspent')).mpr hfailed
    rw [hresult]
    exact ⟨rfl, cause, hfaults, hfailure, rfl⟩

namespace Cursor

variable {c c' d : Cursor} {w : List Token}

/-- The cursors move over the same tokens from the first index to the last one. -/
def SameTokens (c c' : Cursor) (first last : Nat) : Prop :=
  ∀ k, first ≤ k → k ≤ last → c'.tokens[k]? = c.tokens[k]?

theorem getElem?_tokens (c : Cursor) (k : Nat) :
    c.tokens[c.index + k]? = (c.current :: c.ahead)[k]? := by
  have hindex : c.index = c.passed.reverse.length := by simp [index]
  rw [tokens, hindex, List.getElem?_append_right (Nat.le_add_right _ _), Nat.add_sub_cancel_left]

/-- What one cursor moves over stands before the other, with the token behind it. -/
theorem SameTokens.prefix_of_moves (hmoves : c.Moves w d) (hindex : c'.index = c.index)
    (h : SameTokens c c' c.index d.index) : w ++ [d.current] <+: c'.current :: c'.ahead := by
  rw [List.prefix_iff_getElem?]
  intro k hk
  have hlast : c.index + k ≤ d.index := by
    have hd := hmoves.index
    simp only [List.length_append, List.length_singleton] at hk
    omega
  calc (c'.current :: c'.ahead)[k]?
      = c'.tokens[c.index + k]? := by rw [← hindex, getElem?_tokens]
    _ = c.tokens[c.index + k]? := h (c.index + k) (Nat.le_add_right _ _) hlast
    _ = (w ++ [d.current] ++ d.ahead)[k]? := by
      rw [getElem?_tokens, hmoves.tokens, List.append_assoc, List.singleton_append]
    _ = some (w ++ [d.current])[k] := by
      rw [List.getElem?_append_left hk, List.getElem?_eq_getElem hk]

end Cursor

/-- Parses that mirror each other at all parallel cursors have the same result wherever the
tokens are the same up to the one that the first of them stops at. -/
theorem Outcome.Mirrors.result_of_sameTokens {α : Type} {c c' : Cursor} {q : Parse α}
    {outcome : Outcome α} (h : outcome.Mirrors id id False c q) (hspent : outcome ≠ .spent)
    (hspent' : q c' ≠ .spent) (hindex : c'.index = c.index)
    (hsame : c.SameTokens c' c.index (outcome.result hspent).2.index) :
    ((q c').result hspent').1 = (outcome.result hspent).1 ∧
      ((q c').result hspent').2.index = (outcome.result hspent).2.index := by
  obtain ⟨w, hmoves, hsecond⟩ := h.echoes hspent hspent'
  obtain ⟨rest, hrest⟩ := hsame.prefix_of_moves hmoves hindex
  rw [List.append_assoc] at hrest
  obtain ⟨d', hmoves', hcurrent⟩ := Cursor.exists_moves hmoves.kinds hrest.symm
  obtain ⟨hstop, hechoes⟩ := hsecond d' ⟨False.elim, by rw [hcurrent], w, hmoves', rfl⟩
  constructor
  · apply hechoes.fst_eq
    rw [hstop, hcurrent]
  · rw [hstop, hmoves'.index, hmoves.index, hindex]

namespace Cursor

open Construct

/-- What can be asked for at a cursor, with the value that it has. -/
inductive Request : Type → Type
  | expression : Request (Option Node)
  | required (message : String) : Request Node
  | primary : Request (Option Node)
  | number : Request Node
  | named : Request Node
  | operators (threshold : Int) (lhs : Node) : Request Node
  | parenthesised : Request Node
  | conditional : Request Node
  | returning : Request Node
  | definition : Request Node
  | parameter : Request Parameter
  | entry : Request (Option Node)

namespace Request

variable {α : Type}

def read : Request α → Cursor → Reading α
  | .expression, c => c.expression
  | .required message, c => c.required message
  | .primary, c => c.primary
  | .number, c => c.number
  | .named, c => c.named
  | .operators threshold lhs, c => c.operators threshold lhs
  | .parenthesised, c => c.parenthesised
  | .conditional, c => c.conditional
  | .returning, c => c.returning
  | .definition, c => c.definition
  | .parameter, c => c.parameter
  | .entry, c => c.entry

/-- The parse that is run, with the budget that the cursor gives. -/
def parse : Request α → Cursor → Parse α
  | .expression, c => chain c.nested c.budget
  | .required message, c => Steps.required (chain c.nested c.budget) message
  | .primary, c => Construct.primary c.nested c.budget
  | .number, _ => Construct.number
  | .named, c => Construct.named c.nested c.budget
  | .operators threshold lhs, c =>
    Construct.operators (Construct.primary c.nested c.budget) c.budget threshold lhs
  | .parenthesised, c => Construct.parenthesised c.nested
  | .conditional, c => Construct.conditional c.nested c.budget
  | .returning, c => Construct.returning c.nested
  | .definition, c => Construct.definition c.nested c.budget
  | .parameter, _ => Construct.parameter
  | .entry, c => Construct.entry c.nested c.budget

theorem read_eq (request : Request α) (c : Cursor) :
    ∃ hspent, request.read c = (request.parse c c).result hspent := by
  cases request <;> exact ⟨_, rfl⟩

/-- What is seen of the value if all positions are moved. -/
def view (move : Position → Position) : Request α → α → α
  | .expression, n | .primary, n | .entry, n => n.map (Node.relocate move)
  | .parameter, p => p
  | .required _, n | .number, n | .named, n | .operators _ _, n | .parenthesised, n
  | .conditional, n | .returning, n | .definition, n => n.relocate move

theorem view_id (request : Request α) : request.view id = id := by
  funext value
  cases request <;> simp [view, Node.relocate_id_eq]

theorem mirrors (move : Position → Position) (request : Request α) (c c' d : Cursor) :
    (request.parse c d).Mirrors move (request.view move) False d (request.parse c') := by
  have hinner : ∀ d,
      (c.nested d).Mirrors move (Option.map (Node.relocate move)) False d c'.nested :=
    fun _ => mirrors_expression c.remaining c'.remaining
  cases request with
  | expression => exact mirrors_chain hinner _ _
  | required message => exact Parse.mirrors_required (mirrors_chain hinner _ _) message
  | primary => exact mirrors_primary hinner _ _
  | number => exact mirrors_number
  | named => exact mirrors_named hinner _ _
  | operators threshold lhs =>
    exact mirrors_operators (fun _ => mirrors_primary hinner _ _) _ _ threshold rfl
  | parenthesised => exact mirrors_parenthesised hinner
  | conditional => exact mirrors_conditional hinner _ _
  | returning => exact mirrors_returning hinner
  | definition => exact mirrors_definition hinner _ _
  | parameter => exact mirrors_parameter
  | entry => exact mirrors_entry hinner _ _

theorem read_of_sameTokens (request : Request α) {c c' : Cursor} (hindex : c'.index = c.index)
    (hsame : c.SameTokens c' c.index (request.read c).2.index) :
    (request.read c').1 = (request.read c).1 ∧
      (request.read c').2.index = (request.read c).2.index := by
  have hmirrors := request.mirrors id c c' c
  rw [view_id] at hmirrors
  obtain ⟨hspent, hread⟩ := request.read_eq c
  obtain ⟨hspent', hread'⟩ := request.read_eq c'
  rw [hread] at hsame
  rw [hread, hread']
  exact hmirrors.result_of_sameTokens hspent hspent' hindex hsame

end Request

theorem mirrors_units (c c' : Cursor) : (Construct.units c.nested c.budget c).Mirrors id id False c
    (Construct.units c'.nested c'.budget) := by
  have hmirrors : (Construct.units c.nested c.budget c).Mirrors id (List.map (Node.relocate id))
      False c (Construct.units c'.nested c'.budget) :=
    Construct.mirrors_units (fun _ => mirrors_expression c.remaining c'.remaining) _ _
  rwa [Node.relocate_id_eq, List.map_id_fun] at hmirrors

/-- A program fails at the token that its reading stops at. -/
theorem exists_faults_of_units {c d : Cursor} {failure : Failure}
    (h : c.units = (.error failure, d)) :
    ∃ w cause, c.Moves w d ∧ d.current.Faults cause ∧
      failure = ⟨cause d.current.value, d.current.span.start⟩ := by
  rw [units, Outcome.result_eq_error_iff] at h
  exact (mirrors_units c c).exists_faults h

theorem units_of_sameTokens {c c' : Cursor} (hindex : c'.index = c.index)
    (hsame : c.SameTokens c' c.index c.units.2.index) : c'.units.1 = c.units.1 :=
  ((mirrors_units c c').result_of_sameTokens _ _ hindex hsame).1

/-- A program is read at most up to the first end token. -/
theorem index_units_le (c : Cursor) : c.units.2.index ≤ c.index + c.word.length := by
  obtain ⟨w, hmoves, -⟩ := (mirrors_units c c).echoes c.units_ne_spent c.units_ne_spent
  have hmoves : c.Moves w c.units.2 := hmoves
  exact hmoves.index_le_word

end Cursor

namespace Program

variable {ts rest : List Token} {last : Token} {file file' : String}

/-- What stands behind an end token has no effect, nor has the name of the text. -/
theorem ofTokens_append_of_eof (hlast : last.kind = .eof) :
    ofTokens (ts ++ [last] ++ rest) file = ofTokens (ts ++ [last]) file' := by
  have hstop : (Cursor.start (ts ++ [last]) file').units.2.index ≤ ts.length := by
    have hle := (Cursor.start (ts ++ [last]) file').index_units_le
    rw [Cursor.index_start, Cursor.word_start, Token.word, List.takeWhile_append,
      List.takeWhile_cons_of_neg (by simpa using hlast), Nat.zero_add] at hle
    split at hle
    · simpa using hle
    · exact Nat.le_trans hle (List.takeWhile_prefix _).length_le
  obtain ⟨added, htokens⟩ := Cursor.exists_tokens_start (ts ++ [last]) file'
  obtain ⟨added', htokens'⟩ := Cursor.exists_tokens_start (ts ++ [last] ++ rest) file
  apply Cursor.units_of_sameTokens
  · rw [Cursor.index_start, Cursor.index_start]
  · intro k _ hk
    have hlt : k < (ts ++ [last]).length := by
      simp only [List.length_append, List.length_singleton]
      omega
    rw [htokens, htokens', List.append_assoc _ rest, List.getElem?_append_left hlt,
      List.getElem?_append_left hlt]

end Program

namespace Cursor

/-- A reading looks at the tokens from the cursor up to the one that it stops at: at every
cursor of the same index that moves over the same tokens in between it has the same result and
stops at the same index. Hence a program does not depend on what stands behind an end token. -/
theorem read_looks_one_token_ahead :
    (∀ (α : Type) (request : Request α) (c c' : Cursor), c'.index = c.index →
        c.SameTokens c' c.index (request.read c).2.index →
        (request.read c').1 = (request.read c).1 ∧
          (request.read c').2.index = (request.read c).2.index) ∧
      ∀ (ts rest : List Token) (last : Token) (file file' : String), last.kind = .eof →
        Program.ofTokens (ts ++ [last] ++ rest) file = Program.ofTokens (ts ++ [last]) file' :=
  ⟨fun _ request _ _ hindex hsame => request.read_of_sameTokens hindex hsame,
    fun _ _ _ _ _ hlast => Program.ofTokens_append_of_eof hlast⟩

/-- A return before a parenthesis that closes nothing is read alike, whatever stands before it and
behind the parenthesis; and a program that ends is read alike, whatever stands behind its end. -/
theorem returning_between_other_tokens :
    let tok (kind : Token.Kind) (value : String) (start : Nat) : Token :=
      ⟨kind, value, .between start (start + 1) "f"⟩
    let word := [tok .identifier "x" 2, tok .closeParen ")" 3]
    let c : Cursor :=
      ⟨"f", [tok .operator "+" 0], tok .returnWord "return" 1, word ++ [tok .eof "EOF" 4], rfl⟩
    let c' : Cursor := ⟨"g", [tok .eof "EOF" 8], tok .returnWord "return" 1,
      word ++ [tok .ifWord "if" 9, tok .eof "EOF" 0], rfl⟩
    let node : Node := .returned (some (.reference "x" (.between 2 3 "f"))) (.between 1 3 "f")
    ((c.returning.1 = .ok node ∧ c.returning.2.index = 3) ∧
      c'.returning.1 = .ok node ∧ c'.returning.2.index = 3) ∧
      Program.ofTokens ([tok .identifier "x" 2] ++ [tok .eof "EOF" 3] ++ word) "g" =
        .ok [.entry (.reference "x" (.between 2 3 "f"))] := by
  intro tok word c c' node
  have hread : c.returning.1 = .ok node ∧ c.returning.2.index = 3 := ⟨rfl, rfl⟩
  have hsame : c.SameTokens c' c.index c.returning.2.index := by
    intro k hfirst hlast
    have hk : k = 1 ∨ k = 2 ∨ k = 3 := by
      have hindex : c.index = 1 := rfl
      omega
    rcases hk with rfl | rfl | rfl <;> rfl
  obtain ⟨hreadings, hprograms⟩ := read_looks_one_token_ahead
  obtain ⟨hresult, hstop⟩ := hreadings _ .returning c c' rfl hsame
  refine ⟨⟨hread, hresult.trans hread.1, hstop.trans hread.2⟩, ?_⟩
  exact hprograms [tok .identifier "x" 2] word (tok .eof "EOF" 3) "g" "f" rfl

end Cursor

end ExprLang
