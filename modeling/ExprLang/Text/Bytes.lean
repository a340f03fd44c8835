/-!
Texts are lists of characters and their offsets count the bytes of the UTF-8
form. A byte offset that falls inside a character, or past the end, belongs to
no rest of the text.
-/
namespace ExprLang.Text

def bytes : List Char → Nat
  | [] => 0
  | c :: cs => c.utf8Size + bytes cs

/-- The text after so many bytes, if a character starts or the text ends there. -/
def dropBytes? : Nat → List Char → Option (List Char)
  | 0, cs => some cs
  | _ + 1, [] => none
  | n + 1, c :: cs => if c.utf8Size ≤ n + 1 then dropBytes? (n + 1 - c.utf8Size) cs else none

@[simp]
theorem bytes_nil : bytes [] = 0 := rfl

@[simp]
theorem bytes_cons (c : Char) (cs : List Char) : bytes (c :: cs) = c.utf8Size + bytes cs := rfl

@[simp]
theorem bytes_append (left right : List Char) :
    bytes (left ++ right) = bytes left + bytes right := by
  induction left with
  | nil => simp
  | cons c cs ih => simp [ih, Nat.add_assoc]

theorem length_le_bytes (cs : List Char) : cs.length ≤ bytes cs := by
  induction cs with
  | nil => exact Nat.le_refl 0
  | cons c cs ih =>
    have hc := c.utf8Size_pos
    simp only [List.length_cons, bytes_cons]
    omega

/-- Dropping the bytes of an initial text leaves the text after it. -/
theorem dropBytes?_append (left right : List Char) :
    dropBytes? (bytes left) (left ++ right) = some right := by
  induction left with
  | nil => cases right <;> rfl
  | cons c cs ih =>
    have hc := c.utf8Size_pos
    obtain ⟨k, hk⟩ : ∃ k, c.utf8Size + bytes cs = k + 1 := ⟨c.utf8Size + bytes cs - 1, by omega⟩
    have hle : c.utf8Size ≤ k + 1 := by omega
    have hsub : k + 1 - c.utf8Size = bytes cs := by omega
    rw [bytes_cons, List.cons_append, hk, dropBytes?, if_pos hle, hsub, ih]

end ExprLang.Text
