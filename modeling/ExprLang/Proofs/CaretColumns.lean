import ExprLang.Proofs.Diagnostics
import ExprLang.Proofs.StrayCharacters

/-!
Columns in reports. The caret of a report is placed by bytes, under a line of characters. The
two counts differ by what the characters before the place have of further bytes. Tokens are made
of characters of one byte, and a comment ends with its line. So only blanks can be wide before a
place on its line, and the caret stands under the character at the place exactly if none is.
-/
namespace ExprLang

open Text

namespace Text

variable {cs rest rest' u v w : List Char} {c : Char}

theorem bytes_eq_length_iff : bytes cs = cs.length ↔ ∀ c ∈ cs, c.utf8Size = 1 := by
  refine ⟨?_, bytes_eq_length⟩
  induction cs with
  | nil => simp
  | cons c cs ih =>
    intro h
    have hc := Char.utf8Size_pos c
    have hcs := length_le_bytes cs
    rw [bytes_cons, List.length_cons] at h
    exact List.forall_mem_cons.mpr ⟨by omega, ih (by omega)⟩

/-- A text is cut at one place after so many bytes. -/
theorem eq_of_bytes_eq (h : u ++ rest = v ++ rest') (hbytes : bytes u = bytes v) : u = v := by
  have hrest : some rest = some rest' := by
    rw [← dropBytes?_append u rest, ← dropBytes?_append v rest', h, hbytes]
  rw [Option.some.inj hrest] at h
  exact List.append_cancel_right h

theorem utf8Size_of_le (h : c.toNat ≤ 127) : c.utf8Size = 1 := by
  rw [Char.utf8Size_eq_one_iff, UInt32.le_iff_toNat_le]
  exact h

theorem utf8Size_of_isDigit (h : c.isDigit = true) : c.utf8Size = 1 :=
  utf8Size_of_le (Nat.le_trans (Lexeme.toNat_of_isDigit h).2 (by decide))

theorem utf8Size_of_isWordPart (h : Lexeme.isWordPart c = true) : c.utf8Size = 1 := by
  rcases Lexeme.isWordPart_iff.mp h with hstart | hdigit
  · exact utf8Size_of_le (Nat.le_trans (Lexeme.toNat_of_isWordStart hstart).2 (by decide))
  · exact utf8Size_of_isDigit hdigit

/-- On the line that the text ends in, no character is wide but blanks. -/
def Clear (cs : List Char) : Prop :=
  ∀ x c y, cs = x ++ c :: y → '\n' ∉ y → c.utf8Size = 1 ∨ isBlank c = true

theorem Clear.append (hrest : Clear rest)
    (hw : (∀ c ∈ w, c.utf8Size = 1 ∨ isBlank c = true) ∨ '\n' ∈ rest) : Clear (w ++ rest) := by
  intro x c y h hy
  rcases List.append_eq_append_iff.mp h with ⟨mid, -, hmid⟩ | ⟨mid, hx, hmid⟩
  · exact hrest mid c y hmid hy
  · cases mid with
    | nil => exact hrest [] c y hmid.symm hy
    | cons d mid =>
      obtain ⟨rfl, rfl⟩ := List.cons.inj hmid
      rcases hw with hw | hnewline
      · exact hw c (by simp [hx])
      · exact absurd (List.mem_append_right mid hnewline) hy

end Text

/-- The values of tokens are made of characters of one byte. -/
theorem Token.utf8Size_of_fits {kind : Token.Kind} {value : String} (h : Token.Fits kind value) :
    ∀ c ∈ value.toList, c.utf8Size = 1 := by
  have hplain {w : String} (hw : (w.toList.all fun c => c.utf8Size = 1) = true) :
      ∀ c ∈ w.toList, c.utf8Size = 1 := by
    intro c hc
    simpa using List.all_eq_true.mp hw c hc
  cases kind with
  | eof => exact h.elim
  | identifier =>
    cases hvalue : value.toList with
    | nil => simp
    | cons d ds =>
      obtain ⟨hname, -⟩ := h
      rw [hvalue] at hname
      have hd := utf8Size_of_isWordPart (Lexeme.isWordPart_iff.mpr (.inl hname.1))
      exact List.forall_mem_cons.mpr ⟨hd, fun c hc => utf8Size_of_isWordPart (hname.2 c hc)⟩
  | integer => exact fun c hc => utf8Size_of_isDigit (h.2 c hc)
  | float =>
    obtain ⟨whole, fraction, hvalue, hwhole, hfraction⟩ := h
    intro c hc
    rw [hvalue, List.mem_append, List.mem_cons] at hc
    rcases hc with hc | hc | hc
    · exact utf8Size_of_isDigit (hwhole.2 c hc)
    · subst hc
      decide
    · exact utf8Size_of_isDigit (hfraction.2 c hc)
  | operator =>
    have hall : (["==", "!=", "<=", ">=", "<", ">", "+", "-", "*", "/", "%"].all
        fun symbol => symbol.toList.all fun c => c.utf8Size = 1) = true := by decide
    exact hplain (List.all_eq_true.mp hall value h)
  | _ =>
    subst h
    exact hplain (by decide)

namespace Lexeme

variable {c : Char} {cs rest : List Char} {l : Lexeme} {before ls ls' : List Lexeme}
  {file : String} {offset : Nat} {t : Token}

/-- Only comments hold characters that are wide and not blank. -/
theorem utf8Size_or_isBlank (h : first? cs = some l) (hcls : l.cls ≠ .comment) :
    ∀ c ∈ l.text, c.utf8Size = 1 ∨ isBlank c = true := by
  intro c hc
  cases hkind : l.kind? with
  | some kind =>
    have hvalue : (String.ofList l.text).toList = l.text := String.toList_ofList
    obtain ⟨hfits, -⟩ := fits_of_first? h hkind hvalue
    exact .inl (Token.utf8Size_of_fits hfits c (by simpa using hc))
  | none =>
    have hblanks : l.cls = .blanks := by
      cases hk : l.cls <;> simp_all [kind?]
    rw [← lead_of_first? h, hblanks] at hc
    exact .inr (List.mem_takeWhile_imp hc)

/-- A text is clear up to a lexeme or a stray character, unless a newline stands there. -/
theorem clear_of_split (h : (split cs).1 = before ++ ls ++ ls')
    (hrest : ls'.flatMap text ++ (split cs).2 = c :: rest) (hc : c ≠ '\n') :
    Clear (ls.flatMap text) := by
  induction ls generalizing before with
  | nil =>
    intro x c y hnil
    simp at hnil
  | cons l ls ih =>
    have hhere : (split cs).1 = before ++ l :: (ls ++ ls') := by simpa using h
    have hlater : (split cs).1 = before ++ [l] ++ ls ++ ls' := by simpa using h
    have hfirst := first?_of_split_eq hhere
    rw [List.flatMap_append, List.append_assoc, hrest] at hfirst
    rw [List.flatMap_cons]
    apply (ih hlater).append
    by_cases hcls : l.cls = .comment
    -- What follows a comment starts with a newline, so it is not the character at the place.
    · obtain ⟨-, hhead⟩ := newline_of_comment hfirst hcls
      cases htail : ls.flatMap text with
      | nil => exact absurd (hhead c (by simp [htail])) hc
      | cons d ds =>
        obtain rfl : d = '\n' := hhead d (by simp [htail])
        exact .inr List.mem_cons_self
    · exact .inl (utf8Size_or_isBlank hfirst hcls)

/-- Tokens start where lexemes end, or where the first of them starts. -/
theorem exists_start_of_mem_tokens (h : t ∈ tokens file offset ls) :
    ∃ before after, ls = before ++ after ∧
      t.span.start = .after (offset + Lexeme.bytes before) file := by
  induction ls generalizing offset with
  | nil =>
    obtain rfl := List.mem_singleton.mp h
    exact ⟨[], [], rfl, rfl⟩
  | cons l ls ih =>
    have hlater (ht : t ∈ tokens file (offset + Text.bytes l.text) ls) :
        ∃ before after, l :: ls = before ++ after ∧
          t.span.start = .after (offset + Lexeme.bytes before) file := by
      obtain ⟨before, after, hls, hstart⟩ := ih ht
      refine ⟨l :: before, after, by rw [hls, List.cons_append], ?_⟩
      rw [hstart, Nat.add_assoc, Lexeme.bytes, Lexeme.bytes, List.flatMap_cons, bytes_append]
    simp only [tokens] at h
    split at h
    · exact hlater h
    · rcases List.mem_cons.mp h with rfl | ht
      · exact ⟨[], l :: ls, rfl, rfl⟩
      · exact hlater ht

end Lexeme

namespace Report.Excerpt

variable {source : List Char} {offset : Nat}

/-- What stands before the place in what is shown of its line, the number included. -/
def preceding (e : Excerpt source offset) : List Char :=
  e.number.repr.toList ++ " | ".toList ++ e.left.drop e.spaces

theorem caret_not_mem_pointer (e : Excerpt source offset) : '^' ∉ e.pointer.toList := by
  simp [pointer, margin, List.mem_replicate]

theorem numbered_eq {e : Excerpt source offset} {rest tail : List Char} {c : Char}
    (hleft : e.left = List.replicate e.spaces ' ' ++ rest) (hshown : e.shown = rest ++ c :: tail) :
    e.numbered.toList = e.preceding ++ c :: tail := by
  simp [numbered, preceding, hshown, hleft]

/-- The caret is too far to the right by the further bytes of the characters before the place. -/
theorem length_pointer {e : Excerpt source offset} {rest : List Char}
    (hleft : e.left = List.replicate e.spaces ' ' ++ rest) :
    e.pointer.length = e.preceding.length + (bytes e.left - e.left.length) := by
  have hbytes := bytes_left hleft
  have hrest := length_le_bytes rest
  have hlength : e.left.length = e.spaces + rest.length := by simp [hleft]
  have hdrop : e.left.drop e.spaces = rest := by simp [hleft]
  rw [← String.length_toList, preceding, hdrop]
  simp only [pointer, margin, String.toList_append, String.toList_ofList, List.length_append,
    List.length_replicate, String.length_toList]
  have hbar : "| ".length = 2 := by decide
  have hbar' : " | ".length = 3 := by decide
  omega

theorem length_pointer_eq_iff {e : Excerpt source offset} {rest : List Char}
    (hleft : e.left = List.replicate e.spaces ' ' ++ rest) :
    e.pointer.length = e.preceding.length ↔ ∀ c ∈ e.left, c.utf8Size = 1 := by
  have hle := length_le_bytes e.left
  rw [length_pointer hleft, ← bytes_eq_length_iff]
  omega

/-- What stands before the place on its line is the end of all that stands before it. -/
theorem utf8Size_or_isBlank_of_clear (e : Excerpt source offset) (h : Clear (e.above ++ e.left)) :
    ∀ c ∈ e.left, c.utf8Size = 1 ∨ isBlank c = true := by
  intro c hc
  obtain ⟨x, y, hleft⟩ := List.append_of_mem hc
  refine h (e.above ++ x) c y (by simp [hleft]) ?_
  intro hy
  exact e.left_on_line (by simp [hleft, hy])

end Report.Excerpt

namespace Program

variable {source file : String} {failure : Failure}

/-- A source that cannot be read goes wrong where a lexeme ends or the first one starts. -/
theorem exists_lexemes_of_ofSource (hsize : bytes source.toList < UInt32.size)
    (h : ofSource source file = .error failure) :
    ∃ ls ls', (Lexeme.split source.toList).1 = ls ++ ls' ∧
      failure.position.offset.toNat = Lexeme.bytes ls := by
  have hcut {ls ls' : List Lexeme} (hls : (Lexeme.split source.toList).1 = ls ++ ls') :
      (Position.after (Lexeme.bytes ls) file).offset.toNat = Lexeme.bytes ls := by
    apply Position.toNat_offset_of_le hsize
    rw [← Lexeme.flatMap_text_split source.toList, hls, List.flatMap_append, bytes_append,
      bytes_append, Lexeme.bytes]
    omega
  unfold ofSource at h
  cases hscan : scan source file with
  | error failure' =>
    rw [hscan] at h
    cases h
    unfold scan at hscan
    split at hscan
    · simp at hscan
    · rename_i lexemes c rest hsplit
      obtain rfl := Except.error.inj hscan
      have hall : (Lexeme.split source.toList).1 = lexemes ++ [] := by simp [hsplit]
      exact ⟨lexemes, [], hall, hcut hall⟩
  | ok tokens =>
    -- The token to blame starts where its lexeme does, and the end token behind all of them.
    rw [hscan] at h
    obtain ⟨htokens, -⟩ := Prod.mk.inj (scan_eq_ok_iff_scanned.mp hscan)
    obtain ⟨words, -, hwords⟩ := exists_spelled_of_scan hscan
    subst hwords
    obtain ⟨t, ht, hblamed⟩ := exists_blamed_of_ofTokens rfl h
    rw [← htokens] at ht
    obtain ⟨ls, ls', hls, hstart⟩ := Lexeme.exists_start_of_mem_tokens ht
    refine ⟨ls, ls', hls, ?_⟩
    rw [hblamed.position_eq, hstart, Nat.zero_add, hcut hls]

/-- A source that cannot be read is clear up to where it goes wrong, unless it has come to its
end there. -/
theorem clear_of_ofSource {before after : List Char} {c : Char}
    (hsize : bytes source.toList < UInt32.size) (h : ofSource source file = .error failure)
    (hat : failure.At source.toList before (c :: after)) : Clear before := by
  obtain ⟨ls, ls', hsplit, hoffset⟩ := exists_lexemes_of_ofSource hsize h
  have hcut : (Lexeme.split source.toList).1 = [] ++ ls ++ ls' := hsplit
  have hsource := (Lexeme.flatMap_text_split source.toList).trans hat.source_eq
  rw [hsplit, List.flatMap_append, List.append_assoc] at hsource
  have hbefore : ls.flatMap Lexeme.text = before :=
    eq_of_bytes_eq hsource (hoffset.symm.trans hat.offset_eq)
  rw [hbefore, List.append_cancel_left_eq] at hsource
  rw [← hbefore]
  apply Lexeme.clear_of_split hcut hsource
  rintro rfl
  exact absurd (hat.not_blank '\n' rfl) (by decide)

/-- In the report on a program that goes wrong before its end, the caret stands under the
character at the place exactly if every character before that on its line has one byte, and else
as many columns too far to the right as they have further bytes. Only blanks can have some. -/
theorem report_column (source file name : String) (failure : Failure)
    (hsize : bytes source.toList < UInt32.size) (h : ofSource source file = .error failure)
    (hplace : failure.position.offset.toNat ≠ bytes source.toList) :
    ∃ (e : Report.Excerpt source.toList failure.position.offset.toNat) (c : Char)
      (tail : List Char), Report.lines failure source name = Report.drawn failure name e ∧
      '^' ∉ e.pointer.toList ∧ e.right.head? = some c ∧
      e.numbered.toList = e.preceding ++ c :: tail ∧
      e.pointer.length = e.preceding.length + (bytes e.left - e.left.length) ∧
      (e.pointer.length = e.preceding.length ↔ ∀ d ∈ e.left, d.utf8Size = 1) ∧
      ∀ d ∈ e.left, d.utf8Size ≠ 1 → isBlank d = true := by
  obtain ⟨before, after, hat⟩ := exists_at_of_ofSource hsize h
  cases after with
  | nil => exact absurd (by rw [hat.offset_eq, hat.source_eq, List.append_nil]) hplace
  | cons c after =>
    obtain ⟨line, e, hline, hafter, hnumber, hcolumn, hspaces, hshown⟩ :=
      Report.Excerpt.exists_of_at? hat.source_eq hat.offset_eq
    have hlines : Report.lines failure source name = Report.drawn failure name e :=
      Report.lines_eq_drawn hline hnumber hcolumn hspaces hshown
    have hbefore : e.above ++ e.left = before := by
      have hsource := e.source_eq.symm.trans hat.source_eq
      rw [← List.append_assoc, List.append_assoc] at hsource
      exact eq_of_bytes_eq hsource (e.offset_eq.symm.trans hat.offset_eq)
    have hright : e.right.head? = some c := by rw [e.head?_right, hafter, List.head?_cons]
    have hclear : Clear (e.above ++ e.left) := hbefore ▸ clear_of_ofSource hsize h hat
    obtain ⟨rest, hleft⟩ := e.exists_left_eq (by rw [hafter]; exact hat.not_blank)
    obtain ⟨tail, htail⟩ := Report.Excerpt.exists_shown_eq hleft hright (hat.not_blank c rfl)
    refine ⟨e, c, tail, hlines, e.caret_not_mem_pointer, hright,
      Report.Excerpt.numbered_eq hleft htail, Report.Excerpt.length_pointer hleft,
      Report.Excerpt.length_pointer_eq_iff hleft, ?_⟩
    intro d hd hwide
    exact (e.utf8Size_or_isBlank_of_clear hclear d hd).resolve_left hwide

/-- The blank before the parenthesis has two bytes, so the caret stands one column behind it. -/
theorem report_on_wide_blank :
    let source := "\u00a0)"
    let failure : Failure := ⟨.unexpected ")", .after 2 "f"⟩
    ofSource source "f" = .error failure ∧
      Report.lines failure source "f" = ["Error: UnexpectedToken (Unexpected token: `)`)",
        "-> f", "  |", "1 | \u00a0)", "  | --^"] ∧
      "1 | \u00a0".length < "  | --".length := by
  intro source failure
  let paren : Token := ⟨.closeParen, ")", .between 2 3 "f"⟩
  have hgap : Gap ['\u00a0'] (paren.value.toList ++ []) := .blank rfl .nil
  have hspelled : Spelled "f" 0 [paren] (['\u00a0'] ++ paren.value.toList ++ []) := by
    apply Spelled.cons hgap (show ")" = ")" from rfl) (by simp) _ _ (.nil .nil)
    · exact Position.counts_iff.mpr (by decide)
    · exact Position.counts_iff.mpr (by decide)
  have hsource : source.toList = ['\u00a0'] ++ paren.value.toList ++ [] := by decide
  rw [← hsource] at hspelled
  refine ⟨?_, by decide, by decide⟩
  rw [ofSource, hspelled.scan_eq]
  rfl

/-- The wide character stands in a comment, on the line before. -/
theorem report_behind_comment :
    let source := " //\u00e9\n\t)"
    let failure : Failure := ⟨.unexpected ")", .after 7 "f"⟩
    bytes source.toList < UInt32.size ∧ ofSource source "f" = .error failure ∧
      failure.position.offset.toNat ≠ bytes source.toList ∧
      ∃ (e : Report.Excerpt source.toList failure.position.offset.toNat) (c : Char)
        (tail : List Char), Report.drawn failure "f" e =
          ["Error: UnexpectedToken (Unexpected token: `)`)", "-> f", "  |", "2 | \t)", "  | -^"] ∧
        e.numbered.toList = e.preceding ++ c :: tail ∧
        (e.pointer.length = e.preceding.length ↔ ∀ d ∈ e.left, d.utf8Size = 1) := by
  intro source failure
  let paren : Token := ⟨.closeParen, ")", .between 7 8 "f"⟩
  have hgap : Gap (' ' :: ('/' :: '/' :: ['\u00e9'] ++ ['\n', '\t'])) (paren.value.toList ++ []) :=
    .blank rfl (.comment (by decide) (by simp) (.blank rfl (.blank rfl .nil)))
  have hspelled : Spelled "f" 0 [paren]
      (' ' :: ('/' :: '/' :: ['\u00e9'] ++ ['\n', '\t']) ++ paren.value.toList ++ []) := by
    apply Spelled.cons hgap (show ")" = ")" from rfl) (by simp) _ _ (.nil .nil)
    · exact Position.counts_iff.mpr (by decide)
    · exact Position.counts_iff.mpr (by decide)
  have hsource : source.toList =
      ' ' :: ('/' :: '/' :: ['\u00e9'] ++ ['\n', '\t']) ++ paren.value.toList ++ [] := by decide
  rw [← hsource] at hspelled
  have hsize : bytes source.toList < UInt32.size := by decide
  have hplace : failure.position.offset.toNat ≠ bytes source.toList := by decide
  have hfailure : ofSource source "f" = .error failure := by
    rw [ofSource, hspelled.scan_eq]
    rfl
  obtain ⟨e, c, tail, hlines, -, -, hnumbered, -, hiff, -⟩ :=
    report_column source "f" "f" failure hsize hfailure hplace
  refine ⟨hsize, hfailure, hplace, e, c, tail, ?_, hnumbered, hiff⟩
  rw [← hlines]
  decide

end Program

end ExprLang
