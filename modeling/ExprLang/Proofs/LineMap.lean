import ExprLang.Proofs.Encoding
import ExprLang.Proofs.Lines
import Mathlib.Algebra.Ring.Nat
import Mathlib.Data.List.DropRight

/-!
Lines told from bytes. An offset cuts the bytes of a text in two, also where it falls inside a
character. Its line starts behind the last newline before the cut and reaches over the first newline
behind it, and its number counts the newlines before the cut. So the lines above and the column add
up to the offset again.
-/
namespace ExprLang

open Text

namespace Text

variable {bs bs' : List UInt8}

/-- The bytes up to the first newline and with it, or all of them if there is none. -/
def throughNewline (bs : List UInt8) : List UInt8 :=
  bs.takeWhile (· ≠ newline) ++ (bs.dropWhile (· ≠ newline)).take 1

theorem ne_newline_of_not_mem (h : newline ∉ bs) : ∀ b ∈ bs, decide (b ≠ newline) = true := by
  intro b hb
  rw [decide_eq_true_eq]
  exact ne_of_mem_of_not_mem hb h

theorem throughNewline_append_newline (h : newline ∉ bs) (bs' : List UInt8) :
    throughNewline (bs ++ newline :: bs') = bs ++ [newline] := by
  have hbs := ne_newline_of_not_mem h
  rw [throughNewline, List.takeWhile_append_of_pos hbs, List.dropWhile_append_of_pos hbs]
  simp

theorem throughNewline_of_not_mem (h : newline ∉ bs) : throughNewline bs = bs := by
  have hbs := ne_newline_of_not_mem h
  rw [throughNewline, List.takeWhile_eq_self_iff.mpr hbs, List.dropWhile_eq_nil_iff.mpr hbs]
  simp

/-- What follows the last newline is found from the end. -/
theorem rtakeWhile_append (h : newline ∉ bs) (hbefore : ∀ b ∈ bs'.getLast?, b = newline) :
    (bs' ++ bs).rtakeWhile (· ≠ newline) = bs := by
  have hbs : ∀ b ∈ bs.reverse, decide (b ≠ newline) = true :=
    ne_newline_of_not_mem (mt List.mem_reverse.mp h)
  rw [List.rtakeWhile, List.reverse_append, List.takeWhile_append_of_pos hbs]
  rcases List.eq_nil_or_concat bs' with hnil | ⟨front, last, hconcat⟩
  · simp [hnil]
  · have hlast : last = newline := hbefore last (by simp [hconcat])
    simp [hconcat, hlast]

theorem bytes_flatten (lines : List (List Char)) : bytes lines.flatten = (lines.map bytes).sum := by
  induction lines with
  | nil => rfl
  | cons line lines ih => rw [List.flatten_cons, bytes_append, ih, List.map_cons, List.sum_cons]

end Text

namespace Line

variable {cs above below : List Char} {line : Line} {offset : Nat}

/-- The line holds the place where the offset cuts the bytes. -/
structure Holds (line : Line) (bs : List UInt8) (offset : Nat) : Prop where
  number_eq : line.number = 1 + (bs.take offset).count newline
  text_eq : encoded line.text =
    (bs.take offset).rtakeWhile (· ≠ newline) ++ throughNewline (bs.drop offset)
  column_eq : line.column = ((bs.take offset).rtakeWhile (· ≠ newline)).length

theorem Holds.unique {line' : Line} {bs : List UInt8} (h : line.Holds bs offset)
    (h' : line'.Holds bs offset) : line = line' := by
  obtain ⟨number, text, column⟩ := line
  obtain ⟨number', text', column'⟩ := line'
  obtain rfl : number = number' := h.number_eq.trans h'.number_eq.symm
  obtain rfl : text = text' := encoded_inj.mp (h.text_eq.trans h'.text_eq.symm)
  obtain rfl : column = column' := h.column_eq.trans h'.column_eq.symm
  rfl

namespace Between

theorem column_le (h : line.Between cs offset above below) :
    line.column ≤ (encoded line.text).length := by
  rw [length_encoded]
  rcases h.ends with ⟨-, -, -, hlt⟩ | ⟨-, -, hle⟩ <;> omega

/-- The offset cuts the line at the column and leaves all else on its side. -/
theorem encoded_cut (h : line.Between cs offset above below) :
    (encoded cs).take offset = encoded above ++ (encoded line.text).take line.column ∧
      (encoded cs).drop offset = (encoded line.text).drop line.column ++ encoded below := by
  have htext : encoded cs = encoded above ++ (encoded line.text ++ encoded below) := by
    rw [h.text_eq, encoded_append, encoded_append, List.append_assoc]
  rw [htext, h.offset_eq, ← length_encoded]
  constructor
  · rw [List.take_length_add_append, List.take_append_of_le_length h.column_le]
  · rw [List.drop_length_add_append, List.drop_append_of_le_length h.column_le]

theorem getLast?_encoded_above (h : line.Between cs offset above below) :
    ∀ b ∈ (encoded above).getLast?, b = newline := by
  rcases List.eq_nil_or_concat above with hnil | ⟨front, last, hconcat⟩
  · simp [hnil]
  · have hlast : last = '\n' := h.starts last (by simp [hconcat])
    simp [hconcat, hlast, utf8EncodeChar_newline]

/-- No newline comes before the place on its line, and the first one behind it ends the line. -/
theorem newline_cut (h : line.Between cs offset above below) :
    newline ∉ (encoded line.text).take line.column ∧
      throughNewline ((encoded line.text).drop line.column ++ encoded below) =
        (encoded line.text).drop line.column := by
  rcases h.ends with ⟨body, htext, hbody, hlt⟩ | ⟨hopen, hbelow, -⟩
  · have hbody' : newline ∉ encoded body := mt newline_mem_encoded_iff.mp hbody
    have hline : encoded line.text = encoded body ++ [newline] := by
      rw [htext, encoded_append, encoded_cons, utf8EncodeChar_newline, encoded_nil, List.append_nil]
    have hle : line.column ≤ (encoded body).length := by
      rw [← length_encoded, hline, List.length_append, List.length_singleton] at hlt
      omega
    rw [hline, List.take_append_of_le_length hle, List.drop_append_of_le_length hle,
      List.append_assoc, List.singleton_append]
    refine ⟨fun hmem => hbody' (List.mem_of_mem_take hmem), ?_⟩
    exact throughNewline_append_newline (fun hmem => hbody' (List.mem_of_mem_drop hmem)) _
  · have hopen' : newline ∉ encoded line.text := mt newline_mem_encoded_iff.mp hopen
    rw [hbelow, encoded_nil, List.append_nil]
    refine ⟨fun hmem => hopen' (List.mem_of_mem_take hmem), ?_⟩
    exact throughNewline_of_not_mem fun hmem => hopen' (List.mem_of_mem_drop hmem)

theorem holds (h : line.Between cs offset above below)
    (hnumber : line.number = 1 + above.count '\n') : line.Holds (encoded cs) offset := by
  obtain ⟨htake, hdrop⟩ := h.encoded_cut
  obtain ⟨hleft, hright⟩ := h.newline_cut
  have hfront := rtakeWhile_append hleft h.getLast?_encoded_above
  refine ⟨?_, ?_, ?_⟩
  · rw [htake, List.count_append, List.count_eq_zero.mpr hleft, count_newline_encoded, hnumber,
      Nat.add_zero]
  · rw [htake, hfront, hdrop, hright, List.take_append_drop]
  · rw [htake, hfront, List.length_take, Nat.min_eq_left h.column_le]

end Between

/-- Complete lines are cut on their own, and each has one newline. -/
theorem split_append (h : ∀ c ∈ above.getLast?, c = '\n') (rest : List Char) :
    split (above ++ rest) = split above ++ split rest ∧
      (split above).length = above.count '\n' := by
  induction above with
  | nil => exact ⟨rfl, rfl⟩
  | cons c cs ih =>
    have hcs : ∀ d ∈ cs.getLast?, d = '\n' := by
      intro d hd
      apply h d
      rw [List.getLast?_cons, Option.mem_def.mp hd]
      rfl
    obtain ⟨hsplit, hlength⟩ := ih hcs
    by_cases hc : c = '\n'
    · rw [List.cons_append, split, split, if_pos hc, if_pos hc, hsplit, hc]
      exact ⟨rfl, by rw [List.length_cons, hlength, List.count_cons_self]⟩
    · rw [List.cons_append, split, split, if_neg hc, if_neg hc, hsplit, List.count_cons_of_ne hc,
        ← hlength]
      cases hlines : split cs with
      | nil =>
        have hnil : cs = [] := by rw [← flatten_split cs, hlines, List.flatten_nil]
        exact absurd (h c (by simp [hnil])) hc
      | cons line lines => exact ⟨rfl, rfl⟩

theorem Between.offset_eq_sum (h : line.Between cs offset above below)
    (hnumber : line.number = 1 + above.count '\n') :
    offset = (((split cs).take (line.number - 1)).map bytes).sum + line.column := by
  obtain ⟨hsplit, hlength⟩ := split_append h.starts (line.text ++ below)
  rw [h.text_eq, List.append_assoc, hsplit, hnumber, Nat.add_sub_cancel_left, ← hlength,
    List.take_left, ← bytes_flatten, flatten_split, h.offset_eq]

theorem at?_eq_none_iff : at? cs offset = none ↔ bytes cs < offset := by
  unfold at?
  split <;> simp <;> omega

/-- An offset has a line exactly if it does not lie past the end. It is the line that holds the
place, and the offset is that of the line and the column on it. -/
theorem at?_maps_offset (source : String) (offset : Nat) :
    (at? source.toList offset = none ↔ source.toUTF8.data.toList.length < offset) ∧
      ∀ line, at? source.toList offset = some line ↔
        offset ≤ source.toUTF8.data.toList.length ∧ line.Holds source.toUTF8.data.toList offset ∧
          offset =
            (((split source.toList).take (line.number - 1)).map bytes).sum + line.column := by
  rw [toList_data_toUTF8, length_encoded]
  refine ⟨at?_eq_none_iff, fun line => ?_⟩
  constructor
  · intro h
    have hle : offset ≤ bytes source.toList := by
      by_contra hlt
      rw [at?_eq_none_iff.mpr (by omega)] at h
      cases h
    obtain ⟨line', above, below, hat, hbetween, hnumber⟩ := exists_at? hle
    obtain rfl : line' = line := Option.some.inj (hat.symm.trans h)
    exact ⟨hle, hbetween.holds hnumber, hbetween.offset_eq_sum hnumber⟩
  · rintro ⟨hle, hholds, -⟩
    obtain ⟨line', above, below, hat, hbetween, hnumber⟩ := exists_at? hle
    rw [hat, hholds.unique (hbetween.holds hnumber)]

end Line

end ExprLang
