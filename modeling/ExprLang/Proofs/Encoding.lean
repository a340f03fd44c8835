import ExprLang.Text.Bytes

/-!
The bytes of a text. Offsets count the bytes of the UTF-8 form, so what stands at an offset can be
told from the bytes alone. In particular the byte of a newline is no part of another character, and
the newlines before an offset can be counted wherever it falls.
-/
namespace ExprLang.Text

variable {cs ds left right : List Char} {c : Char}

/-- The UTF-8 form of a text. -/
def encoded (cs : List Char) : List UInt8 := cs.flatMap String.utf8EncodeChar

@[simp]
theorem encoded_nil : encoded [] = [] := rfl

@[simp]
theorem encoded_cons (c : Char) (cs : List Char) :
    encoded (c :: cs) = String.utf8EncodeChar c ++ encoded cs := rfl

@[simp]
theorem encoded_append (left right : List Char) :
    encoded (left ++ right) = encoded left ++ encoded right := List.flatMap_append

theorem length_encoded (cs : List Char) : (encoded cs).length = bytes cs := by
  induction cs with
  | nil => rfl
  | cons c cs ih =>
    rw [encoded_cons, List.length_append, String.length_utf8EncodeChar, ih, bytes_cons]

theorem toUTF8_eq (s : String) : s.toUTF8 = (encoded s.toList).toByteArray :=
  String.utf8Encode_toList.symm

theorem toList_data_toUTF8 (s : String) : s.toUTF8.data.toList = encoded s.toList := by
  rw [toUTF8_eq, List.data_toByteArray]

theorem encoded_inj : encoded cs = encoded ds ↔ cs = ds := by
  constructor
  · intro h
    have hutf8 : (String.ofList cs).toUTF8 = (String.ofList ds).toUTF8 := by
      rw [toUTF8_eq, toUTF8_eq, String.toList_ofList, String.toList_ofList, h]
    exact String.ofList_injective (String.toByteArray_inj.mp hutf8)
  · exact congrArg encoded

theorem exists_utf8EncodeChar_eq_cons (c : Char) :
    ∃ byte rest, String.utf8EncodeChar c = byte :: rest := by
  apply List.exists_cons_of_length_pos
  rw [String.length_utf8EncodeChar]
  exact c.utf8Size_pos

/-- The byte behind the bytes of the left part is the first one of the next character. -/
theorem getElem?_toUTF8 {s : String} (h : s.toList = left ++ c :: right) :
    s.toUTF8[bytes left]? = (String.utf8EncodeChar c).head? := by
  have hget (bs : List UInt8) (i : Nat) : bs.toByteArray[i]? = bs[i]? := by
    simp [getElem?_def]
  obtain ⟨byte, rest, hcons⟩ := exists_utf8EncodeChar_eq_cons c
  rw [toUTF8_eq, h, hget, encoded_append, encoded_cons, ← length_encoded,
    List.getElem?_append_right (Nat.le_refl _), Nat.sub_self, hcons]
  rfl

def newline : UInt8 := 10

theorem utf8EncodeChar_newline : String.utf8EncodeChar '\n' = [newline] := by decide

theorem newline_mem_utf8EncodeChar_iff : newline ∈ String.utf8EncodeChar c ↔ c = '\n' := by
  constructor
  · intro h
    have hbyte {n : Nat} (hn : newline = UInt8.ofNat n) : n % 256 = 10 := by
      rw [← UInt8.toNat_ofNat', ← hn]
      rfl
    simp only [String.utf8EncodeChar] at h
    split at h
    · have hc := hbyte (List.mem_singleton.mp h)
      have hnewline : '\n'.val.toNat = 10 := rfl
      apply Char.val_inj.mp
      apply UInt32.toNat_inj.mp
      omega
    · -- All bytes of a longer character are above those of the short ones.
      exfalso
      split at h
      · simp only [List.mem_cons, List.not_mem_nil, or_false] at h
        rcases h with h | h <;> have := hbyte h <;> omega
      · split at h <;> simp only [List.mem_cons, List.not_mem_nil, or_false] at h
        · rcases h with h | h | h <;> have := hbyte h <;> omega
        · rcases h with h | h | h | h <;> have := hbyte h <;> omega
  · intro h
    rw [h, utf8EncodeChar_newline, List.mem_singleton]

theorem newline_mem_encoded_iff : newline ∈ encoded cs ↔ '\n' ∈ cs := by
  simp [encoded, List.mem_flatMap, newline_mem_utf8EncodeChar_iff]

theorem count_newline_encoded (cs : List Char) : (encoded cs).count newline = cs.count '\n' := by
  induction cs with
  | nil => rfl
  | cons c cs ih =>
    rw [encoded_cons, List.count_append, ih, List.count_cons]
    by_cases hc : c = '\n'
    · rw [hc, utf8EncodeChar_newline, List.count_singleton_self, beq_self_eq_true, if_pos rfl,
        Nat.add_comm]
    · have hnot : newline ∉ String.utf8EncodeChar c := mt newline_mem_utf8EncodeChar_iff.mp hc
      rw [List.count_eq_zero.mpr hnot]
      simp [hc]

end ExprLang.Text
