import ExprLang.Proofs.Blame
import ExprLang.Proofs.Encoding
import ExprLang.Proofs.Lines
import ExprLang.Proofs.Spans

/-!
Reports on programs that cannot be read. A failure is at a character that is not blank, or at
the end of the source. So the place is never among the spaces or blanks that its line loses in
the report, and the caret stands under it, counted in bytes.
-/
namespace ExprLang

open Text

namespace Text

variable {cs : List Char} {c : Char}

theorem bytes_eq_length (h : ∀ c ∈ cs, c.utf8Size = 1) : bytes cs = cs.length := by
  induction cs with
  | nil => rfl
  | cons c cs ih =>
    obtain ⟨hc, hcs⟩ := List.forall_mem_cons.mp h
    rw [bytes_cons, hc, ih hcs, List.length_cons, Nat.add_comm]

theorem bytes_replicate (count : Nat) (hc : c.utf8Size = 1) :
    bytes (List.replicate count c) = count := by
  rw [bytes_eq_length, List.length_replicate]
  intro d hd
  rw [List.eq_of_mem_replicate hd, hc]

theorem isDigit_of_mem_repr {n : Nat} (h : c ∈ n.repr.toList) : c.isDigit = true := by
  rw [Nat.toList_repr] at h
  exact Nat.isDigit_of_mem_toDigits (by omega) (by omega) h

theorem bytes_repr (n : Nat) : bytes n.repr.toList = n.repr.length := by
  rw [← String.length_toList]
  apply bytes_eq_length
  intro c hc
  have hdigit := Lexeme.toNat_of_isDigit (isDigit_of_mem_repr hc)
  rw [Char.utf8Size_eq_one_iff, UInt32.le_iff_toNat_le]
  exact Nat.le_trans hdigit.2 (by decide)

/-- A text ends with the blanks that it loses at its end. -/
theorem exists_blanks (cs : List Char) : ∃ blanks, cs = trimEnd cs ++ blanks ∧
    (∀ c ∈ blanks, isBlank c = true) ∧ ∀ c ∈ (trimEnd cs).getLast?, isBlank c = false := by
  refine ⟨(cs.reverse.takeWhile isBlank).reverse, ?_, ?_, ?_⟩
  · rw [trimEnd, ← List.reverse_append, List.takeWhile_append_dropWhile, List.reverse_reverse]
  · intro c hc
    exact List.mem_takeWhile_imp (List.mem_reverse.mp hc)
  · rw [trimEnd, List.getLast?_reverse]
    exact Lexeme.head?_dropWhile cs.reverse

end Text

namespace Report

theorem drop_leadingSpaces (cs : List Char) :
    cs.drop (leadingSpaces cs) = cs.dropWhile (· = ' ') := by
  have hdrop : (cs.takeWhile (· = ' ') ++ cs.dropWhile (· = ' ')).drop (leadingSpaces cs) =
      cs.dropWhile (· = ' ') := List.drop_left
  rwa [List.takeWhile_append_dropWhile] at hdrop

theorem eq_replicate_append_drop (cs : List Char) :
    cs = List.replicate (leadingSpaces cs) ' ' ++ cs.drop (leadingSpaces cs) := by
  have hspaces : cs.takeWhile (· = ' ') = List.replicate (leadingSpaces cs) ' ' := by
    apply List.eq_replicate_iff.mpr
    refine ⟨rfl, ?_⟩
    intro c hc
    simpa using List.mem_takeWhile_imp hc
  rw [drop_leadingSpaces, ← hspaces, List.takeWhile_append_dropWhile]

theorem head?_drop_leadingSpaces (cs : List Char) :
    (cs.drop (leadingSpaces cs)).head? ≠ some ' ' := by
  intro hhead
  rw [drop_leadingSpaces] at hhead
  exact absurd (Lexeme.head?_dropWhile cs ' ' hhead) (by simp)

/-- A text around a place in it: the lines above, the line of the place cut at the place, and the
lines below. The line is also cut into the spaces that it starts with, what is shown of it, and
the blanks that it ends with. -/
structure Excerpt (source : List Char) (offset : Nat) where
  above : List Char
  left : List Char
  right : List Char
  below : List Char
  spaces : Nat
  shown : List Char
  blanks : List Char
  source_eq : source = above ++ (left ++ right) ++ below
  offset_eq : offset = bytes (above ++ left)
  starts : ∀ c ∈ above.getLast?, c = '\n'
  left_on_line : '\n' ∉ left
  ends : (∃ body, right = body ++ ['\n'] ∧ '\n' ∉ body) ∨ '\n' ∉ right ∧ below = []
  line_eq : left ++ right = List.replicate spaces ' ' ++ (shown ++ blanks)
  no_more_spaces : (shown ++ blanks).head? ≠ some ' '
  are_blank : ∀ c ∈ blanks, isBlank c = true
  no_more_blanks : ∀ c ∈ shown.getLast?, isBlank c = false

namespace Excerpt

variable {source before after above below : List Char} {offset : Nat} {line : Line}

/-- One more than the newlines before the place. -/
def number (e : Excerpt source offset) : Nat := 1 + (e.above ++ e.left).count '\n'

def margin (e : Excerpt source offset) : String :=
  String.ofList (List.replicate (e.number.repr.length + 1) ' ')

/-- What is shown of the line, behind its number. -/
def numbered (e : Excerpt source offset) : String :=
  e.number.repr ++ " | " ++ String.ofList e.shown

/-- What stands before the caret. -/
def pointer (e : Excerpt source offset) : String :=
  e.margin ++ "| " ++ String.ofList (List.replicate (bytes e.left - e.spaces) '-')

/-- A place on a line between two characters cuts the line, and no newline comes before it. -/
theorem exists_cut (hline : line.Between source offset above below)
    (hsource : source = before ++ after) (hoffset : offset = bytes before) :
    ∃ left right, line.text = left ++ right ∧ before = above ++ left ∧ after = right ++ below ∧
      '\n' ∉ left ∧
        ((∃ body, right = body ++ ['\n'] ∧ '\n' ∉ body) ∨ '\n' ∉ right ∧ below = []) := by
  have hcut : above ++ (line.text ++ below) = before ++ after := by
    rw [← hsource, hline.text_eq, List.append_assoc]
  have hcolumn := hline.offset_eq
  obtain ⟨left, hleft⟩ := Span.exists_append_of_bytes_le hcut (by omega)
  subst hleft
  rw [List.append_assoc, List.append_cancel_left_eq] at hcut
  rw [hoffset, bytes_append, Nat.add_left_cancel_iff] at hcolumn
  have hle : bytes left ≤ bytes line.text := by
    rcases hline.ends with ⟨-, -, -, hlt⟩ | ⟨-, -, hle⟩ <;> omega
  obtain ⟨right, hright⟩ := Span.exists_append_of_bytes_le hcut.symm hle
  rw [hright, List.append_assoc, List.append_cancel_left_eq] at hcut
  refine ⟨left, right, hright, rfl, hcut.symm, ?_⟩
  rcases hline.ends with ⟨body, htext, hbody, hlt⟩ | ⟨hnewline, hbelow, -⟩
  · have hne : right ≠ [] := by
      intro hnil
      rw [hright, hnil, List.append_nil] at hlt
      omega
    have hconcat := List.dropLast_concat_getLast hne
    rw [hright, ← hconcat, ← List.append_assoc] at htext
    obtain ⟨hbody', hlast⟩ := List.append_inj' htext rfl
    rw [← hbody', List.mem_append, not_or] at hbody
    refine ⟨hbody.1, .inl ⟨right.dropLast, ?_, hbody.2⟩⟩
    rw [← hlast, hconcat]
  · rw [hright, List.mem_append, not_or] at hnewline
    exact ⟨hnewline.1, .inr ⟨hnewline.2, hbelow⟩⟩

/-- The line that is looked up for a place between two characters is that of an excerpt. -/
theorem exists_of_at? (hsource : source = before ++ after) (hoffset : offset = bytes before) :
    ∃ (line : Line) (e : Excerpt source offset), Line.at? source offset = some line ∧
      e.right ++ e.below = after ∧ line.number = e.number ∧ line.column = bytes e.left ∧
      leadingSpaces line.text = e.spaces ∧ trimEnd (line.text.drop e.spaces) = e.shown := by
  have hle : offset ≤ bytes source := by
    rw [hsource, hoffset, bytes_append]
    omega
  obtain ⟨line, above, below, hat, hline, hnumber⟩ := Line.exists_at? hle
  obtain ⟨left, right, htext, hbefore, hafter, hleft, hends⟩ := exists_cut hline hsource hoffset
  obtain ⟨blanks, hcut, hblanks, hshown⟩ :=
    exists_blanks (line.text.drop (leadingSpaces line.text))
  let e : Excerpt source offset := {
    above, left, right, below, blanks
    spaces := leadingSpaces line.text
    shown := trimEnd (line.text.drop (leadingSpaces line.text))
    source_eq := by rw [← htext, hline.text_eq]
    offset_eq := by rw [hoffset, hbefore]
    starts := hline.starts
    left_on_line := hleft
    ends := hends
    line_eq := by rw [← htext, ← hcut, ← eq_replicate_append_drop]
    no_more_spaces := by
      rw [← hcut]
      exact head?_drop_leadingSpaces line.text
    are_blank := hblanks
    no_more_blanks := hshown }
  refine ⟨line, e, hat, hafter.symm, ?_, ?_, rfl, rfl⟩
  · change line.number = 1 + (above ++ left).count '\n'
    rw [hnumber, List.count_append, List.count_eq_zero.mpr hleft, Nat.add_zero]
  · have hcolumn := hline.offset_eq
    rw [hoffset, hbefore, bytes_append] at hcolumn
    exact (Nat.add_left_cancel hcolumn).symm

/-- A newline ends the line, so it is a blank that is lost. -/
theorem newline_not_mem_shown (e : Excerpt source offset) : '\n' ∉ e.shown := by
  intro hmem
  have hline := e.line_eq
  rcases e.ends with ⟨body, hright, hbody⟩ | ⟨hright, -⟩
  · have hnewline : '\n' ∉ e.left ++ body := by
      rw [List.mem_append, not_or]
      exact ⟨e.left_on_line, hbody⟩
    rw [hright, ← List.append_assoc, ← List.append_assoc] at hline
    rcases List.eq_nil_or_concat e.blanks with hblanks | ⟨blanks, c, hblanks⟩
    · -- Nothing stands behind what is shown, which does not end with a blank.
      have hlast : e.shown.getLast? = some '\n' := by
        have hgetLast := congrArg List.getLast? hline
        rw [hblanks, List.append_nil, List.getLast?_concat, List.getLast?_append,
          List.getLast?_eq_some_getLast (List.ne_nil_of_mem hmem)] at hgetLast
        rw [List.getLast?_eq_some_getLast (List.ne_nil_of_mem hmem)]
        exact hgetLast.symm
      exact absurd (e.no_more_blanks '\n' hlast) (by decide)
    · rw [hblanks, List.concat_eq_append, ← List.append_assoc] at hline
      obtain ⟨hfront, -⟩ := List.append_inj' hline rfl
      rw [hfront] at hnewline
      exact hnewline (by simp [hmem])
  · have hshown : '\n' ∈ e.left ++ e.right := by
      rw [hline]
      simp [hmem]
    exact (List.mem_append.mp hshown).elim e.left_on_line hright

/-- The spaces that are lost come before the place if it is not at a blank. -/
theorem exists_left_eq (e : Excerpt source offset)
    (h : ∀ c ∈ (e.right ++ e.below).head?, isBlank c = false) :
    ∃ rest, e.left = List.replicate e.spaces ' ' ++ rest := by
  rcases List.append_eq_append_iff.mp e.line_eq with ⟨mid, hspaces, hright⟩ | ⟨mid, hleft, -⟩
  · cases mid with
    | nil => exact ⟨[], by rw [hspaces, List.append_nil, List.append_nil]⟩
    | cons c mid =>
      have hc : c = ' ' := by
        apply List.eq_of_mem_replicate (n := e.spaces)
        rw [hspaces]
        simp
      have hblank := h c (by simp [hright])
      rw [hc] at hblank
      exact absurd hblank (by decide)
  · exact ⟨mid, hleft⟩

theorem bytes_left {e : Excerpt source offset} {rest : List Char}
    (h : e.left = List.replicate e.spaces ' ' ++ rest) :
    bytes e.left = e.spaces + bytes rest := by
  rw [h, bytes_append, bytes_replicate e.spaces (by decide)]

theorem head?_right (e : Excerpt source offset) :
    e.right.head? = (e.right ++ e.below).head? := by
  cases hright : e.right with
  | cons c right => rfl
  | nil =>
    rcases e.ends with ⟨body, hbody, -⟩ | ⟨-, hbelow⟩
    · simp [hright] at hbody
    · rw [hbelow, List.append_nil]

/-- What is shown goes on with the character at the place, if that is not blank. -/
theorem exists_shown_eq {e : Excerpt source offset} {rest : List Char} {c : Char}
    (h : e.left = List.replicate e.spaces ' ' ++ rest) (hright : e.right.head? = some c)
    (hc : isBlank c = false) : ∃ tail, e.shown = rest ++ c :: tail := by
  obtain ⟨right, hcons⟩ := List.head?_eq_some_iff.mp hright
  have hline := e.line_eq
  rw [h, hcons, List.append_assoc, List.append_cancel_left_eq] at hline
  have hblank : ∀ rest', e.blanks ≠ rest' ++ c :: right := by
    intro rest' hblanks
    have hc' := e.are_blank c (by simp [hblanks])
    rw [hc] at hc'
    exact absurd hc' (by simp)
  rcases List.append_eq_append_iff.mp hline with ⟨mid, hshown, hmid⟩ | ⟨mid, -, hblanks⟩
  · cases mid with
    | nil => exact absurd hmid.symm (hblank [])
    | cons d mid =>
      obtain ⟨hd, -⟩ := List.cons.inj hmid
      exact ⟨mid, by rw [hshown, hd]⟩
  · exact absurd hblanks (hblank mid)

/-- The byte over the caret is the one at the place. -/
theorem getElem?_numbered {e : Excerpt source offset} {rest tail : List Char} {c : Char}
    (hleft : e.left = List.replicate e.spaces ' ' ++ rest) (hshown : e.shown = rest ++ c :: tail) :
    e.numbered.toUTF8[bytes e.pointer.toList]? = (String.utf8EncodeChar c).head? := by
  have hbytes : bytes e.pointer.toList = bytes (e.number.repr.toList ++ " | ".toList ++ rest) := by
    have hspace : ' '.utf8Size = 1 := by decide
    have hdash : '-'.utf8Size = 1 := by decide
    have hrest := bytes_left hleft
    simp only [pointer, margin, String.toList_append, String.toList_ofList, bytes_append,
      bytes_replicate _ hspace, bytes_replicate _ hdash, bytes_repr]
    have hbar : bytes "| ".toList = 2 := by decide
    have hbar' : bytes " | ".toList = 3 := by decide
    omega
  have hnumbered :
      e.numbered.toList = (e.number.repr.toList ++ " | ".toList ++ rest) ++ c :: tail := by
    simp [numbered, hshown]
  rw [hbytes, getElem?_toUTF8 hnumbered]

end Excerpt

/-- The lines of a report, as they are drawn from an excerpt. -/
def drawn (failure : Failure) (file : String) {source : List Char} {offset : Nat}
    (e : Excerpt source offset) : List String :=
  [header failure.cause, "-> " ++ file, e.margin ++ "|", e.numbered, e.pointer ++ "^"]

theorem lines_eq_drawn {failure : Failure} {source file : String} {line : Line}
    {e : Excerpt source.toList failure.position.offset.toNat}
    (hat : Line.at? source.toList failure.position.offset.toNat = some line)
    (hnumber : line.number = e.number) (hcolumn : line.column = bytes e.left)
    (hspaces : leadingSpaces line.text = e.spaces)
    (hshown : trimEnd (line.text.drop e.spaces) = e.shown) :
    lines failure source file = drawn failure file e := by
  have hpointer : caretLine line = e.pointer ++ "^" := by
    rw [caretLine, bar, hnumber, hcolumn, hspaces]
    apply String.toList_inj.mp
    simp [Excerpt.pointer, Excerpt.margin]
  have hnumbered : sourceLine line = e.numbered := by
    rw [sourceLine, hnumber, hspaces, hshown, Excerpt.numbered]
  simp only [lines, hat, drawn, hpointer, hnumbered, bar, hnumber, Excerpt.margin]
  rfl

theorem newline_not_mem_drawn {failure : Failure} {file : String} {source : List Char}
    {offset : Nat} (e : Excerpt source offset)
    (hheader : '\n' ∉ (header failure.cause).toList) (hfile : '\n' ∉ file.toList) :
    ∀ line ∈ drawn failure file e, '\n' ∉ line.toList := by
  intro line hline
  simp only [drawn, List.mem_cons, List.not_mem_nil, or_false] at hline
  rcases hline with hline | hline | hline | hline | hline <;> subst hline
  · exact hheader
  · simpa using hfile
  · simp [Excerpt.margin, List.mem_replicate]
  · intro hmem
    simp only [Excerpt.numbered, String.toList_append, List.mem_append, String.toList_ofList]
      at hmem
    rcases hmem with (hmem | hmem) | hmem
    · exact absurd (isDigit_of_mem_repr hmem) (by decide)
    · exact absurd hmem (by decide)
    · exact e.newline_not_mem_shown hmem
  · simp [Excerpt.pointer, Excerpt.margin, List.mem_replicate]

end Report

/-- The failure is where the source is cut, before a character that is not blank or at the end,
and its cause is told on one line. -/
structure Failure.At (failure : Failure) (source before after : List Char) : Prop where
  source_eq : source = before ++ after
  offset_eq : failure.position.offset.toNat = bytes before
  not_blank : ∀ c ∈ after.head?, isBlank c = false
  header_on_line : '\n' ∉ (Report.header failure.cause).toList

theorem Lexeme.not_isBlank_of_split {cs rest : List Char} {c : Char}
    (h : (split cs).2 = c :: rest) : isBlank c = false := by
  rw [Bool.eq_false_iff]
  intro hblank
  have hfirst := first?_split cs
  rw [h, first?_blank rest hblank] at hfirst
  exact absurd hfirst (by simp)

theorem Position.toNat_offset_of_le {size count : Nat} {file : String} (hsize : size < UInt32.size)
    (hle : count ≤ size) : (Position.after count file).offset.toNat = count := by
  rw [Position.toNat_offset_after]
  exact Nat.mod_eq_of_lt (Nat.lt_of_le_of_lt hle hsize)

namespace Program

variable {source file : String} {failure : Failure}

theorem exists_at_of_scan (hsize : bytes source.toList < UInt32.size)
    (h : scan source file = .error failure) :
    ∃ before after, failure.At source.toList before after := by
  obtain ⟨before, c, after, hsource, hleft, hfailure⟩ := scan_eq_error_iff_scanned.mp h
  subst hfailure
  refine ⟨before, c :: after, hsource, ?_, ?_, ?_⟩
  · exact Position.toNat_offset_of_le hsize (by rw [hsource, bytes_append]; omega)
  · intro d hd
    have hc : c = d := by simpa using hd
    subst hc
    exact Lexeme.not_isBlank_of_split hleft
  · simp [Report.header, Failure.Cause.tip?, Failure.Cause.name]

theorem exists_at_of_ofTokens {words : List Token} {file' : String}
    (hsize : bytes source.toList < UInt32.size) (hspelled : Spelled file 0 words source.toList)
    (h : ofTokens (words ++ [.endAt (.after (bytes source.toList) file)]) file' = .error failure) :
    ∃ before after, failure.At source.toList before after := by
  obtain ⟨t, ht, hblamed⟩ := exists_blamed_of_ofTokens rfl h
  rcases List.mem_append.mp ht with ht | ht
  · have hlaid : Laid source.toList file 0 words (bytes source.toList) :=
      Spelled.laid [] hspelled rfl rfl hsize
    obtain ⟨-, -, hcovers, hfits⟩ := hlaid.of_mem ht
    obtain ⟨before, after, hsource, hstart, -⟩ := hcovers
    refine ⟨before, t.value.toList ++ after, by rw [hsource, List.append_assoc], ?_, ?_, ?_⟩
    · rw [hblamed.position_eq, hstart]
    · obtain ⟨c, cs, hvalue, -⟩ := Token.head?_of_fits hfits
      simpa [hvalue] using Token.not_isBlank_of_fits hfits c (by simp [hvalue])
    · exact hblamed.header_on_line (Token.newline_not_mem_of_fits hfits)
  · have hend := List.mem_singleton.mp ht
    subst hend
    refine ⟨source.toList, [], by simp, ?_, by simp, ?_⟩
    · rw [hblamed.position_eq]
      exact Position.toNat_offset_of_le hsize (Nat.le_refl _)
    · exact hblamed.header_on_line (by simp [Token.endAt])

theorem exists_at_of_ofSource (hsize : bytes source.toList < UInt32.size)
    (h : ofSource source file = .error failure) :
    ∃ before after, failure.At source.toList before after := by
  unfold ofSource at h
  cases hscan : scan source file with
  | error failure' =>
    rw [hscan] at h
    cases h
    exact exists_at_of_scan hsize hscan
  | ok tokens =>
    rw [hscan] at h
    obtain ⟨words, hspelled, htokens⟩ := exists_spelled_of_scan hscan
    subst htokens
    exact exists_at_of_ofTokens hsize hspelled h

/-- The report on a program that cannot be read has five lines and points at the byte where it
went wrong: the caret stands under that byte of the source, unless this has come to its end. -/
theorem report_points_at_fault (source file : String) (failure : Failure)
    (hsize : bytes source.toList < UInt32.size) (hfile : '\n' ∉ file.toList)
    (h : ofSource source file = .error failure) :
    failure.position.offset.toNat ≤ bytes source.toList ∧
      ∃ e : Report.Excerpt source.toList failure.position.offset.toNat,
        Report.render failure source file =
          String.join ((Report.drawn failure file e).map (· ++ "\n")) ∧
        (∀ line ∈ Report.drawn failure file e, '\n' ∉ line.toList) ∧
        e.spaces ≤ bytes e.left ∧
        (failure.position.offset.toNat ≠ bytes source.toList →
          ∃ byte, source.toUTF8[failure.position.offset.toNat]? = some byte ∧
            e.numbered.toUTF8[bytes e.pointer.toList]? = some byte) := by
  obtain ⟨before, after, hsource, hoffset, hplace, hheader⟩ := exists_at_of_ofSource hsize h
  obtain ⟨line, e, hat, hafter, hnumber, hcolumn, hspaces, hshown⟩ :=
    Report.Excerpt.exists_of_at? hsource hoffset
  rw [← hafter] at hplace
  obtain ⟨rest, hleft⟩ := e.exists_left_eq hplace
  have hbytes := Report.Excerpt.bytes_left hleft
  refine ⟨?_, e, ?_, Report.newline_not_mem_drawn e hheader hfile, by omega, ?_⟩
  · rw [hoffset, hsource, bytes_append]
    omega
  · rw [Report.render, Report.lines_eq_drawn hat hnumber hcolumn hspaces hshown]
  · intro hne
    cases after with
    | nil => exact absurd (by rw [hoffset, hsource, List.append_nil]) hne
    | cons c after =>
      have hright : e.right.head? = some c := by rw [e.head?_right, hafter, List.head?_cons]
      have hc := hplace c (by rw [← e.head?_right, hright]; rfl)
      obtain ⟨tail, hshown⟩ := Report.Excerpt.exists_shown_eq hleft hright hc
      obtain ⟨byte, bytes', hbyte⟩ := exists_utf8EncodeChar_eq_cons c
      refine ⟨byte, ?_, ?_⟩
      · rw [hoffset, getElem?_toUTF8 hsource, hbyte, List.head?_cons]
      · rw [Report.Excerpt.getElem?_numbered hleft hshown, hbyte, List.head?_cons]

/-- The spaces before the parenthesis are lost, but not the wide blank behind them, which has
three bytes. -/
theorem report_on_stray_parenthesis :
    let source := " a\n  \u3000)"
    let failure : Failure := ⟨.unexpected ")", .after 8 "f"⟩
    bytes source.toList < UInt32.size ∧ '\n' ∉ "f".toList ∧
      ofSource source "f" = .error failure ∧
      Report.render failure source "f" =
        "Error: UnexpectedToken (Unexpected token: `)`)\n-> f\n  |\n2 | \u3000)\n  | ---^\n" ∧
      ∃ e : Report.Excerpt source.toList failure.position.offset.toNat,
        Report.render failure source "f" =
          String.join ((Report.drawn failure "f" e).map (· ++ "\n")) ∧ e.spaces ≤ bytes e.left ∧
        source.toUTF8[8]? = e.numbered.toUTF8[bytes e.pointer.toList]? := by
  intro source failure
  have hsize : bytes source.toList < UInt32.size := by decide
  have hfile : '\n' ∉ "f".toList := by decide
  let name : Token := ⟨.identifier, "a", .between 1 2 "f"⟩
  let paren : Token := ⟨.closeParen, ")", .between 8 9 "f"⟩
  have hname : Token.Fits .identifier "a" := by
    simp [Token.Fits, IsName]
    decide
  have hgap : Gap ['\n', ' ', ' ', '\u3000'] (paren.value.toList ++ []) :=
    .blank rfl (.blank rfl (.blank rfl (.blank rfl .nil)))
  have hparen : Spelled "f" 2 [paren] (['\n', ' ', ' ', '\u3000'] ++ paren.value.toList ++ []) := by
    apply Spelled.cons hgap (show ")" = ")" from rfl) (by simp) _ _ (.nil .nil)
    · exact Position.counts_iff.mpr (by decide)
    · exact Position.counts_iff.mpr (by decide)
  have hspelled : Spelled "f" 0 [name, paren] source.toList := by
    have htext : source.toList = [' '] ++ name.value.toList ++
        (['\n', ' ', ' ', '\u3000'] ++ paren.value.toList ++ []) := by decide
    have hbytes : 0 + bytes ([' '] ++ name.value.toList) = 2 := by decide
    rw [htext]
    apply Spelled.cons (.blank rfl .nil) hname _ _ _ (hbytes ▸ hparen)
    · intro c hc
      have hnewline : '\n' = c := by simpa using hc
      subst hnewline
      rfl
    · exact Position.counts_iff.mpr (by decide)
    · exact Position.counts_iff.mpr (by decide)
  have hfailure : ofSource source "f" = .error failure := by
    rw [ofSource, hspelled.scan_eq]
    rfl
  obtain ⟨-, e, hrender, -, hspaces, hbyte⟩ :=
    report_points_at_fault source "f" failure hsize hfile hfailure
  obtain ⟨byte, hsource, hcaret⟩ := hbyte (by decide)
  refine ⟨hsize, hfile, hfailure, ?_, e, hrender, hspaces, hsource.trans hcaret.symm⟩
  decide

end Program

end ExprLang
