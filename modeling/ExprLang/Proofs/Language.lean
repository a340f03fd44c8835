import ExprLang.Program
import ExprLang.Proofs.Accepts

/-!
The language that is read. A token list is read as a program exactly if the tokens before its
first end token derive one, and then as the trees that they derive. Hence what stands behind
the first end token never matters, nor does whether there is one.
-/
namespace ExprLang

open Grammar

namespace Outcome

variable {α : Type} {outcome : Outcome α} {h : outcome ≠ .spent} {d : Cursor}

theorem result_eq_ok_iff {value : α} :
    outcome.result h = (.ok value, d) ↔ outcome = .done value d := by
  cases outcome with
  | done | failed => simp [result]
  | spent => exact absurd rfl h

theorem result_eq_error_iff {failure : Failure} :
    outcome.result h = (.error failure, d) ↔ outcome = .failed failure d := by
  cases outcome with
  | done | failed => simp [result]
  | spent => exact absurd rfl h

end Outcome

namespace Cursor

variable {c d : Cursor}

theorem Moves.index_le_word {w : List Token} (h : c.Moves w d) :
    d.index ≤ c.index + c.word.length := by
  rw [h.index, h.word_eq, List.length_append]
  omega

theorem word_of_eof (h : c.current.kind = .eof) : c.word = [] := by
  simp [word, Token.word, h]

theorem exists_moves_word (c : Cursor) : ∃ d, c.Moves c.word d ∧ d.current.kind = .eof := by
  induction hsize : c.remaining generalizing c with
  | zero =>
    have heof : c.current.kind = .eof := by
      by_cases h : c.current.kind = .eof
      · exact h
      · have := remaining_pos h
        omega
    exact ⟨c, by simpa [word_of_eof heof] using Moves.refl c, heof⟩
  | succ size ih =>
    have hkind : c.current.kind ≠ .eof := by
      intro heof
      simp [remaining, word_of_eof heof] at hsize
    have hstep := moves_advance hkind
    obtain ⟨d, hd, heof⟩ := ih c.advance (by have := remaining_advance hkind; omega)
    refine ⟨d, ?_, heof⟩
    rw [hstep.word_eq]
    exact hstep.trans hd

/-- An end token is put behind tokens that do not end with one. -/
theorem exists_start_eq (tokens : List Token) (file : String) :
    ∃ p, (start tokens file).current :: (start tokens file).ahead =
      if tokens.getLast?.map Token.kind = some .eof then tokens else tokens ++ [.endAt p] := by
  cases tokens with
  | nil => exact ⟨.after 0 file, by simp [start]⟩
  | cons t ts =>
    have hlast := List.getLast?_eq_some_getLast (List.cons_ne_nil t ts)
    refine ⟨((t :: ts).getLast (List.cons_ne_nil t ts)).span.stop, ?_⟩
    by_cases heof : ((t :: ts).getLast (List.cons_ne_nil t ts)).kind = .eof
    · simp [start, heof, hlast]
    · simp [start, heof, hlast]

theorem passed_start (tokens : List Token) (file : String) : (start tokens file).passed = [] := by
  unfold start
  split
  · rfl
  · dsimp only
    split <;> rfl

/-- At the start nothing is passed, and at most an end token is put behind the tokens. -/
theorem start_eq (tokens : List Token) (file : String) :
    (start tokens file).passed = [] ∧ ∃ added : List Token,
      (start tokens file).current :: (start tokens file).ahead = tokens ++ added ∧
        ∀ t ∈ added, t.kind = .eof := by
  obtain ⟨p, htokens⟩ := exists_start_eq tokens file
  refine ⟨passed_start tokens file, ?_⟩
  rw [htokens]
  split
  · exact ⟨[], by simp⟩
  · exact ⟨[.endAt p], rfl, by simp [Token.endAt]⟩

theorem index_start (tokens : List Token) (file : String) : (start tokens file).index = 0 := by
  rw [index, (start_eq tokens file).1, List.length_nil]

theorem exists_tokens_start (tokens : List Token) (file : String) :
    ∃ added, (start tokens file).tokens = tokens ++ added := by
  obtain ⟨hpassed, added, htokens, -⟩ := start_eq tokens file
  refine ⟨added, ?_⟩
  rw [Cursor.tokens, hpassed, htokens, List.reverse_nil, List.nil_append]

theorem word_start (tokens : List Token) (file : String) :
    (start tokens file).word = Token.word tokens := by
  obtain ⟨-, added, htokens, hadded⟩ := start_eq tokens file
  rw [word, htokens, Token.word, Token.word]
  clear htokens
  induction tokens with
  | nil => cases added <;> simp_all
  | cons t ts ih => rw [List.cons_append, List.takeWhile_cons, List.takeWhile_cons, ih]

theorem units_ne_spent (c : Cursor) : Construct.units c.nested c.budget c ≠ .spent :=
  (Construct.keeps_units c.progresses_nested (Nat.le_refl _) c.remaining_lt_budget).ne_spent

/-- Reading is done exactly at the end of a program, with its trees. -/
theorem units_eq_ok_iff {nodes : List Node} : c.units = (.ok nodes, d) ↔
    c.Moves c.word d ∧ d.current.kind = .eof ∧ Derives .units c.word .eof nodes := by
  rw [units, Outcome.result_eq_ok_iff]
  constructor
  · intro h
    have hends :=
      Construct.ends_units (c := c) (Construct.readsChain_expression c.remaining) c.budget
    unfold nested at h
    rw [h] at hends
    obtain ⟨⟨w, hmoves, hnodes⟩, heof⟩ := hends
    have hword : c.word = w := by rw [hmoves.word_eq, word_of_eof heof, List.append_nil]
    rw [hword, ← heof]
    exact ⟨hmoves, rfl, hnodes⟩
  · rintro ⟨hmoves, heof, hnodes⟩
    rw [← heof] at hnodes
    exact Construct.units_of_derives (Construct.accepts_expression c.remaining) (Nat.le_refl _)
      c.remaining_lt_budget hmoves hnodes heof

end Cursor

namespace Program

variable {tokens : List Token} {file : String} {nodes : List Node}

theorem ofTokens_of_derives
    (h : Derives .units (Token.word tokens) .eof nodes) :
    ofTokens tokens file = .ok nodes := by
  obtain ⟨d, hd, heof⟩ := (Cursor.start tokens file).exists_moves_word
  rw [← Cursor.word_start tokens file] at h
  rw [ofTokens, Cursor.units_eq_ok_iff.mpr ⟨hd, heof, h⟩]

theorem derives_of_ofTokens (h : ofTokens tokens file = .ok nodes) :
    Derives .units (Token.word tokens) .eof nodes := by
  have hunits : (Cursor.start tokens file).units =
      (.ok nodes, (Cursor.start tokens file).units.2) := Prod.ext h rfl
  rw [← Cursor.word_start tokens file]
  exact (Cursor.units_eq_ok_iff.mp hunits).2.2

/-- Tokens are read as a program exactly if those before the first end token derive it. -/
theorem ofTokens_eq_ok_iff (tokens : List Token) (file : String) (nodes : List Node) :
    ofTokens tokens file = .ok nodes ↔ Derives .units (Token.word tokens) .eof nodes :=
  ⟨derives_of_ofTokens, ofTokens_of_derives⟩

end Program

end ExprLang
