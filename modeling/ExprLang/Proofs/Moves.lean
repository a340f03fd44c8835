import ExprLang.Cursor

/-!
Moves of a cursor. A cursor moves over a word when it passes exactly the tokens of the word,
none of which ends the program. Words compose as moves do, and a word determines where the
cursor stands after it, so a statement about what a parse has read is a statement about a
word and the token behind it.
-/
namespace ExprLang.Cursor

variable {c d e : Cursor} {u v w : List Token} {t : Token}

/-- The second cursor is the first one once it has passed the word. -/
structure Moves (c : Cursor) (w : List Token) (d : Cursor) : Prop where
  file : d.file = c.file
  passed : d.passed = w.reverse ++ c.passed
  tokens : c.current :: c.ahead = w ++ d.current :: d.ahead
  kinds : ∀ t ∈ w, t.kind ≠ .eof

namespace Moves

theorem refl (c : Cursor) : Moves c [] c := ⟨rfl, rfl, rfl, by simp⟩

theorem trans (h : Moves c u d) (h' : Moves d v e) : Moves c (u ++ v) e := by
  refine ⟨h'.file.trans h.file, ?_, ?_, ?_⟩
  · simp [h'.passed, h.passed]
  · rw [h.tokens, h'.tokens, List.append_assoc]
  · intro t ht
    rcases List.mem_append.mp ht with ht | ht
    · exact h.kinds t ht
    · exact h'.kinds t ht

theorem unique (h : Moves c w d) (h' : Moves c w e) : d = e := by
  have htokens : d.current :: d.ahead = e.current :: e.ahead :=
    List.append_cancel_left (h.tokens.symm.trans h'.tokens)
  have hpassed : d.passed = e.passed := h.passed.trans h'.passed.symm
  have hfile : d.file = e.file := h.file.trans h'.file.symm
  exact Cursor.ext hfile hpassed (List.cons.inj htokens).1 (List.cons.inj htokens).2

theorem word_unique (h : Moves c u d) (h' : Moves c v d) : u = v :=
  List.reverse_inj.mp (List.append_cancel_right (h.passed.symm.trans h'.passed))

theorem eq_of_nil (h : Moves c [] d) : d = c := (unique (refl c) h).symm

theorem current_of_cons (h : Moves c (t :: w) d) : c.current = t := (List.cons.inj h.tokens).1

theorem current_ne_eof (h : Moves c (t :: w) d) : c.current.kind ≠ .eof := by
  rw [h.current_of_cons]
  exact h.kinds t (by simp)

end Moves

/-- A cursor that is not at an end token moves over the current one. -/
theorem moves_advance (h : c.current.kind ≠ .eof) : Moves c [c.current] c.advance := by
  obtain ⟨file, passed, t, ahead, ends⟩ := c
  cases ahead with
  | nil => exact absurd (by simpa using ends) h
  | cons t' ts =>
    simp only at h
    simp only [advance, if_neg h]
    exact ⟨rfl, rfl, rfl, by simpa using h⟩

namespace Moves

theorem advance_of_cons (h : Moves c (t :: w) d) : Moves c.advance w d := by
  have hstep := moves_advance h.current_ne_eof
  rw [h.current_of_cons] at hstep
  have htokens : [t] ++ c.advance.current :: c.advance.ahead = [t] ++ (w ++ d.current :: d.ahead) :=
    hstep.tokens.symm.trans h.tokens
  refine ⟨h.file.trans hstep.file.symm, ?_, List.append_cancel_left htokens,
    fun t' ht' => h.kinds t' (List.mem_cons_of_mem _ ht')⟩
  rw [h.passed, hstep.passed]
  simp

/-- Every cut of a word is a place that the cursor passes. -/
theorem split (h : Moves c (u ++ v) e) : ∃ d, Moves c u d ∧ Moves d v e := by
  induction u generalizing c with
  | nil => exact ⟨c, refl c, h⟩
  | cons t u ih =>
    have h : Moves c (t :: (u ++ v)) e := h
    obtain ⟨d, hu, hv⟩ := ih h.advance_of_cons
    have hstep := moves_advance h.current_ne_eof
    rw [h.current_of_cons] at hstep
    exact ⟨d, hstep.trans hu, hv⟩

theorem word_eq (h : Moves c w d) : c.word = w ++ d.word := by
  rw [Cursor.word, h.tokens, Token.word_append h.kinds, Cursor.word]

theorem remaining (h : Moves c w d) : c.remaining = w.length + d.remaining := by
  rw [Cursor.remaining, h.word_eq, List.length_append, Cursor.remaining]

theorem remaining_le (h : Moves c w d) : d.remaining ≤ c.remaining := by
  have := h.remaining
  omega

theorem remaining_advance_lt (h : Moves c (t :: w) d) : c.advance.remaining < c.remaining := by
  have := h.remaining
  have := h.advance_of_cons.remaining
  simp only [List.length_cons] at *
  omega

theorem index (h : Moves c w d) : d.index = c.index + w.length := by
  simp [Cursor.index, h.passed, Nat.add_comm]

/-- The token before the cursor is the last one of the word. -/
theorem lastEnd (h : Moves c w d) (hw : w ≠ []) : d.lastEnd = (w.getLast hw).span.stop := by
  have hpassed : d.passed = w.getLast hw :: (w.dropLast.reverse ++ c.passed) := by
    have hrev := congrArg List.reverse (List.dropLast_concat_getLast hw)
    rw [List.reverse_append] at hrev
    rw [h.passed, ← hrev]
    rfl
  simp [Cursor.lastEnd, hpassed]

end Moves

/-- Every word without end tokens that stands at the cursor is moved over. -/
theorem exists_moves {rest : List Token} (hw : ∀ t ∈ w, t.kind ≠ .eof)
    (h : c.current :: c.ahead = w ++ t :: rest) : ∃ d, c.Moves w d ∧ d.current = t := by
  induction w generalizing c with
  | nil => exact ⟨c, .refl c, (List.cons.inj h).1⟩
  | cons t' w ih =>
    have hcurrent : c.current = t' := (List.cons.inj h).1
    have hstep := moves_advance (c := c) (hcurrent ▸ hw t' (by simp))
    have hrest : c.advance.current :: c.advance.ahead = w ++ t :: rest := by
      rw [hstep.tokens, hcurrent] at h
      exact (List.cons.inj h).2
    obtain ⟨d, hd, rfl⟩ := ih (fun t ht => hw t (by simp [ht])) hrest
    exact ⟨d, hcurrent ▸ hstep.trans hd, rfl⟩

end ExprLang.Cursor
