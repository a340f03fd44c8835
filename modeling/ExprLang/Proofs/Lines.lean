import ExprLang.Line

/-!
The line of a place. Cutting a text behind each newline gives its lines, so a line starts at the
start of the text or behind a newline and reaches over the next newline, or up to the end of the
text where none follows. Looking up an offset finds the line that it lies on, and the newlines
before it are the ones that the number of the line counts.
-/
namespace ExprLang.Line

open Text

variable {body rest cs above below : List Char} {line : Line} {offset : Nat}

theorem split_of_not_mem (h : '\n' ∉ cs) (hne : cs ≠ []) : split cs = [cs] := by
  induction cs with
  | nil => exact absurd rfl hne
  | cons c cs ih =>
    obtain ⟨hc, hcs⟩ := not_or.mp (mt List.mem_cons.mpr h)
    rw [split, if_neg (Ne.symm hc)]
    cases cs with
    | nil => rfl
    | cons d cs => rw [ih hcs (List.cons_ne_nil d cs)]

theorem split_append_newline (h : '\n' ∉ body) :
    split (body ++ '\n' :: rest) = (body ++ ['\n']) :: split rest := by
  induction body with
  | nil => rw [List.nil_append, split, if_pos rfl, List.nil_append]
  | cons c body ih =>
    obtain ⟨hc, hbody⟩ := not_or.mp (mt List.mem_cons.mpr h)
    rw [List.cons_append, split, if_neg (Ne.symm hc), ih hbody]
    rfl

/-- The line stands in the text between the ones above and below it, and the offset is that of
the place on the line. -/
structure Between (line : Line) (cs : List Char) (offset : Nat) (above below : List Char) :
    Prop where
  text_eq : cs = above ++ line.text ++ below
  offset_eq : offset = bytes above + line.column
  starts : ∀ c ∈ above.getLast?, c = '\n'
  ends : (∃ body, line.text = body ++ ['\n'] ∧ '\n' ∉ body ∧ line.column < bytes line.text) ∨
    '\n' ∉ line.text ∧ below = [] ∧ line.column ≤ bytes line.text

/-- A line stays where it is if another one is put above all. -/
theorem Between.under (h : line.Between cs offset above below) :
    line.Between (body ++ '\n' :: cs) (bytes (body ++ ['\n']) + offset)
      (body ++ '\n' :: above) below := by
  refine ⟨?_, ?_, ?_, h.ends⟩
  · rw [List.append_assoc, List.append_assoc, List.cons_append, ← List.append_assoc above,
      ← h.text_eq]
  · rw [h.offset_eq]
    simp only [bytes_append, bytes_cons, bytes_nil]
    omega
  · intro c hc
    cases habove : above.getLast? with
    | none =>
      rw [List.getLast?_eq_none_iff.mp habove] at hc
      simpa using hc.symm
    | some d =>
      have hd := h.starts d habove
      rw [List.getLast?_append, List.getLast?_cons, habove] at hc
      simpa [hd] using hc.symm

theorem exists_between_locate (number : Nat) (h : offset ≤ bytes cs) :
    ∃ above below, (locate number offset (split cs)).Between cs offset above below ∧
      (locate number offset (split cs)).number = number + above.count '\n' := by
  -- The text is used up line by line, so the induction is on its length.
  induction hsize : cs.length using Nat.strongRecOn generalizing cs offset number with
  | ind size ih =>
    by_cases hnewline : '\n' ∈ cs
    · obtain ⟨body, rest, hcs, hbody⟩ := List.eq_append_cons_of_mem hnewline
      subst hcs
      have hbytes : bytes (body ++ '\n' :: rest) = bytes (body ++ ['\n']) + bytes rest := by
        simp only [bytes_append, bytes_cons, bytes_nil]
        omega
      rw [split_append_newline hbody, locate]
      by_cases hlt : offset < bytes (body ++ ['\n'])
      · rw [if_pos (.inl hlt)]
        exact ⟨[], rest, ⟨by simp, by simp, by simp, .inl ⟨body, rfl, hbody, hlt⟩⟩, by simp⟩
      · have hcomplete : isComplete (body ++ ['\n']) = true := by simp [isComplete]
        have hpast : ¬ (offset < bytes (body ++ ['\n']) ∨
            offset = bytes (body ++ ['\n']) ∧ !isComplete (body ++ ['\n'])) := by
          simpa [hcomplete] using hlt
        rw [if_neg hpast]
        have hrest : rest.length < size := by
          rw [← hsize]
          simp only [List.length_append, List.length_cons]
          omega
        obtain ⟨above, below, hbetween, hnumber⟩ :=
          ih rest.length hrest (number + 1)
            (show offset - bytes (body ++ ['\n']) ≤ bytes rest by omega) rfl
        refine ⟨body ++ '\n' :: above, below, ?_, ?_⟩
        · have hoffset : offset = bytes (body ++ ['\n']) + (offset - bytes (body ++ ['\n'])) := by
            omega
          rw [hoffset, Nat.add_sub_cancel_left]
          exact hbetween.under
        · rw [hnumber, List.count_append, List.count_cons_self, List.count_eq_zero.mpr hbody]
          omega
    · cases cs with
      | nil =>
        have hzero : offset = 0 := by simpa using h
        subst hzero
        exact ⟨[], [], ⟨rfl, rfl, by simp, .inr ⟨hnewline, rfl, Nat.le_refl 0⟩⟩, rfl⟩
      | cons c cs =>
        have hincomplete : isComplete (c :: cs) = false := by
          rw [isComplete, decide_eq_false_iff_not]
          intro hlast
          exact hnewline (List.mem_of_getLast? hlast)
        rw [split_of_not_mem hnewline (List.cons_ne_nil c cs), locate, if_pos]
        · exact ⟨[], [], ⟨by simp, by simp, by simp, .inr ⟨hnewline, rfl, h⟩⟩, by simp⟩
        · simp only [hincomplete, Bool.not_false, and_true]
          omega

/-- Every offset up to the end of the text lies on a line of it. -/
theorem exists_at? (h : offset ≤ bytes cs) :
    ∃ line above below, at? cs offset = some line ∧ line.Between cs offset above below ∧
      line.number = 1 + above.count '\n' := by
  obtain ⟨above, below, hline⟩ := exists_between_locate 1 h
  exact ⟨_, above, below, by rw [at?, if_pos h], hline⟩

end ExprLang.Line
