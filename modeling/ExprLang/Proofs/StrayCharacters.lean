import ExprLang.Proofs.LongestMatch
import ExprLang.Proofs.Spelling

/-!
Where scanning stops. A lexeme that is found in a text is found also if the text is cut
behind it: a class that has no text in the whole has none in the part, and the class that
decides reads no further than to where its text ends. So the tokens read before a failure
are those of the text up to there. The character at the failure is one that no class starts
with, and it lies in no comment, since a comment reaches up to a newline, which is a blank.
-/
namespace ExprLang

open Text

namespace Lexeme

variable {k : Class} {c : Char} {cs ds w rest tail : List Char} {l : Lexeme}
  {before after lexemes : List Lexeme}

theorem lead_of_first? (h : first? cs = some l) : l.cls.lead cs = l.text := by
  obtain ⟨k, hmem, hk⟩ := List.exists_of_findSome?_eq_some h
  obtain ⟨-, hl⟩ := (Class.lexeme?_eq_some_iff hmem).mp hk
  rw [hl]

/-- A run of characters that ends before the cut is not changed by it. -/
theorem takeWhile_of_append {p : Char → Bool} (h : (w ++ (rest ++ tail)).takeWhile p = w) :
    (w ++ rest).takeWhile p = w := by
  have hw : ∀ c ∈ w, p c = true := by
    intro c hc
    rw [← h] at hc
    exact List.mem_takeWhile_imp hc
  rw [List.takeWhile_append_of_pos hw, List.append_right_eq_self] at h
  apply takeWhile_of_apart hw
  intro c hc
  obtain ⟨rest, hrest⟩ := List.head?_eq_some_iff.mp hc
  rw [Bool.eq_false_iff]
  intro hp
  simp [hrest, hp] at h

theorem leadDecimal_ne_nil_append (h : leadDecimal cs ≠ []) : leadDecimal (cs ++ ds) ≠ [] := by
  obtain ⟨⟨whole, fraction, hcut, hwhole, hfraction⟩, rest, hcs, -⟩ := isDigits_of_leadDecimal rfl h
  have htext : cs ++ ds = whole ++ '.' :: (fraction ++ (rest ++ ds)) := by
    rw [hcs, hcut]
    simp
  have hpoint : ∀ c ∈ ('.' :: (fraction ++ (rest ++ ds))).head?, c.isDigit = false := by simp
  have hdigits : (fraction ++ (rest ++ ds)).takeWhile Char.isDigit ≠ [] := by
    rw [List.takeWhile_append_of_pos hfraction.2]
    simp [hfraction.1]
  simp only [htext, leadDecimal, dropWhile_of_apart hwhole.2 hpoint,
    takeWhile_of_apart hwhole.2 hpoint, hwhole.1, hdigits, or_self, if_false]
  simp

/-- A class that has a text keeps one if the text goes on. -/
theorem Class.lead_ne_nil_append (h : k.lead cs ≠ []) : k.lead (cs ++ ds) ≠ [] := by
  cases k with
  | decimal => exact leadDecimal_ne_nil_append h
  | fixed kind pattern text =>
    simp only [lead] at h ⊢
    split at h
    · rename_i hprefix
      have hlonger := (List.isPrefixOf_iff_prefix.mp hprefix).trans (List.prefix_append cs ds)
      rwa [if_pos (List.isPrefixOf_iff_prefix.mpr hlonger)]
    · exact absurd rfl h
  | comment =>
    simp only [lead] at h ⊢
    unfold leadComment at h
    split at h
    · simp [leadComment]
    · exact absurd rfl h
  | word | integer | blanks =>
    cases cs with
    | nil => exact absurd rfl h
    | cons c cs =>
      simp only [lead, leadWord, List.cons_append, List.takeWhile_cons] at h ⊢
      split at h
      · rename_i hc
        simp [hc]
      · exact absurd rfl h

/-- A class that has a text reads no further than to its end. -/
theorem Class.lead_of_append (h : k.lead (w ++ (rest ++ tail)) = w) (hw : w ≠ []) :
    k.lead (w ++ rest) = w := by
  cases k with
  | word =>
    obtain ⟨c, w, rfl⟩ := List.exists_cons_of_ne_nil hw
    have hlead : leadWord (c :: w ++ (rest ++ tail)) = c :: w := h
    obtain ⟨hname, -⟩ := isName_of_leadWord hlead hw
    simp only [lead, leadWord, List.cons_append, hname.1, if_true, List.cons.injEq, true_and] at h ⊢
    exact takeWhile_of_append h
  | decimal =>
    obtain ⟨⟨whole, fraction, hcut, hwhole, hfraction⟩, rest', hrest, hapart⟩ :=
      isDigits_of_leadDecimal h hw
    rw [List.append_cancel_left_eq] at hrest
    have hfirst : first? (whole ++ '.' :: (fraction ++ rest)) = _ :=
      first?_decimal hwhole hfraction fun c hc => hapart c (by
        obtain ⟨rest, rfl⟩ := List.head?_eq_some_iff.mp hc
        simp [← hrest])
    have hlead := lead_of_first? hfirst
    rw [hcut]
    simpa using hlead
  | integer => exact takeWhile_of_append h
  | blanks => exact takeWhile_of_append h
  | comment =>
    have hlead : leadComment (w ++ (rest ++ tail)) = w := h
    rw [← hlead] at hw
    obtain ⟨body, hbody⟩ := prefix_lead_comment hw
    obtain rfl : '/' :: '/' :: body = w := hbody.trans hlead
    simp only [lead, List.cons_append, leadComment, List.cons.injEq, true_and] at h ⊢
    exact takeWhile_of_append h
  | fixed kind pattern text =>
    simp only [lead] at h ⊢
    split at h
    · rw [h, if_pos]
      simp
    · exact absurd h.symm hw

/-- A lexeme is found also if the text is cut somewhere behind it. -/
theorem first?_of_append (h : first? (l.text ++ (rest ++ tail)) = some l) :
    first? (l.text ++ rest) = some l := by
  obtain ⟨hne, -⟩ := first?_eq_some h
  obtain ⟨before, k, after, hclasses, hk, hbefore⟩ := List.findSome?_eq_some_iff.mp h
  have hmem : k ∈ classes := by simp [hclasses]
  obtain ⟨hlead, hl⟩ := (Class.lexeme?_eq_some_iff hmem).mp hk
  have htext : k.lead (l.text ++ (rest ++ tail)) = l.text := (congrArg text hl).symm
  rw [htext] at hl
  refine List.findSome?_eq_some_iff.mpr ⟨before, k, after, hclasses, ?_, ?_⟩
  · have hcut := Class.lead_of_append htext hne
    rw [Class.lexeme?_eq_some_iff hmem, hcut]
    exact ⟨hne, hl⟩
  · intro k' hk'
    have hmem' : k' ∈ classes := by simp [hclasses, hk']
    have hnone := (Class.lexeme?_eq_none_iff hmem').mp (hbefore k' hk')
    rw [Class.lexeme?_eq_none_iff hmem']
    by_contra hlead'
    rw [← List.append_assoc] at hnone
    exact Class.lead_ne_nil_append hlead' hnone

/-- The lexemes of a text are also those of the text up to where they end. -/
theorem split_flatMap_text (cs : List Char) :
    split ((split cs).1.flatMap text) = ((split cs).1, []) := by
  fun_induction split cs with
  | case1 => exact split_of_none rfl
  | case2 cs l hfirst ih =>
    obtain ⟨-, rest, hrest⟩ := first?_eq_some hfirst
    subst hrest
    rw [List.drop_left] at ih ⊢
    rw [← flatMap_text_split rest] at hfirst
    simp [split_of_some (first?_of_append hfirst), ih]

/-- Each lexeme of a text is the first one of what is left from it on. -/
theorem first?_of_split_eq (h : (split cs).1 = before ++ l :: after) :
    first? (l.text ++ (after.flatMap text ++ (split cs).2)) = some l := by
  fun_induction split cs generalizing before with
  | case1 => simp at h
  | case2 cs l' hfirst ih =>
    obtain ⟨-, rest, hrest⟩ := first?_eq_some hfirst
    subst hrest
    simp only [List.drop_left, Prod.map_fst, Prod.map_snd, id_eq] at ih h ⊢
    cases before with
    | nil =>
      obtain ⟨rfl, rfl⟩ := List.cons.inj h
      rwa [flatMap_text_split]
    | cons l'' before => exact ih (List.cons.inj h).2

theorem newline_of_comment (h : first? (l.text ++ rest) = some l) (hcls : l.cls = .comment) :
    '\n' ∉ l.text ∧ ∀ c ∈ rest.head?, c = '\n' := by
  obtain ⟨hne, -⟩ := first?_eq_some h
  have hlead := lead_of_first? h
  rw [hcls] at hlead
  rw [← hlead] at hne
  obtain ⟨body, hbody⟩ := Class.prefix_lead_comment hne
  rw [hlead] at hbody
  rw [← hbody] at hlead ⊢
  simp only [Class.lead, List.cons_append, leadComment, List.nil_append, List.cons.injEq,
    true_and] at hlead
  have hdrop : (body ++ rest).dropWhile (· ≠ '\n') = rest := by
    have happend : (body ++ rest).takeWhile (· ≠ '\n') ++ (body ++ rest).dropWhile (· ≠ '\n') =
      body ++ rest := List.takeWhile_append_dropWhile
    rw [hlead] at happend
    exact List.append_cancel_left happend
  constructor
  · intro hmem
    have hbody : '\n' ∈ body := by simpa using hmem
    rw [← hlead] at hbody
    simpa using List.mem_takeWhile_imp hbody
  · intro c hc
    rw [← hdrop] at hc
    simpa using head?_dropWhile (body ++ rest) c hc

/-- The character starts no lexeme if such a text follows it. -/
structure Stray (c : Char) (rest : List Char) : Prop where
  not_word : c.isAlphanum = false ∧ c ≠ '_'
  not_blank : isBlank c = false
  not_mark : c ∉ ['\x7b', '\x7d', '(', ')', ':', ',', '<', '>', '+', '-', '*', '/', '%']
  not_equality : c = '=' ∨ c = '!' → rest.head? ≠ some '='

theorem not_prefix_of_mark {m : Token.Kind × String} (h : first? cs = none) (hm : m ∈ marks) :
    ¬ m.2.toList <+: cs := by
  have hne : ∀ m ∈ marks, m.2.toList ≠ [] := by decide
  have hmem : Class.fixed m.1 m.2 m.2 ∈ classes := by
    rw [classes_eq_append_marks]
    exact List.mem_append_right _ (List.mem_map_of_mem hm)
  have hlead := (Class.lexeme?_eq_none_iff hmem).mp (List.findSome?_eq_none_iff.mp h _ hmem)
  intro hprefix
  rw [Class.lead, if_pos (List.isPrefixOf_iff_prefix.mpr hprefix)] at hlead
  exact hne m hm hlead

theorem stray_of_first? (h : first? (c :: cs) = none) : Stray c cs := by
  have hlead (k : Class) (hk : k ∈ classes) : k.lead (c :: cs) = [] :=
    (Class.lexeme?_eq_none_iff hk).mp (List.findSome?_eq_none_iff.mp h k hk)
  have hpart : isWordPart c = false := by
    have hword := hlead .word (by decide)
    have hinteger := hlead .integer (by decide)
    rw [Bool.eq_false_iff, ne_eq, isWordPart_iff]
    simp_all [Class.lead, leadWord]
  have hmarks : ∀ d ∈ ['\x7b', '\x7d', '(', ')', ':', ',', '<', '>', '+', '-', '*', '/', '%'],
      ∃ m ∈ marks, m.2.toList = [d] := by simp [marks]
  refine ⟨by simpa [isWordPart] using hpart, ?_, ?_, ?_⟩
  · have hblanks := hlead .blanks (by decide)
    simpa [Class.lead] using hblanks
  · intro hc
    obtain ⟨m, hm, htext⟩ := hmarks c hc
    exact not_prefix_of_mark h hm (by simp [htext])
  · intro hc hhead
    obtain ⟨rest, rfl⟩ := List.head?_eq_some_iff.mp hhead
    rcases hc with rfl | rfl
    · exact not_prefix_of_mark (m := (.operator, "==")) h (by decide) ⟨rest, rfl⟩
    · exact not_prefix_of_mark (m := (.operator, "!=")) h (by decide) ⟨rest, rfl⟩

/-- A comment in front of a character that is not skipped ends at a newline between them. -/
theorem newline_of_split_eq (h : split cs = (lexemes, c :: rest)) (hc : isBlank c = false)
    (hlexemes : lexemes = before ++ l :: after) (hcls : l.cls = .comment) :
    '\n' ∉ l.text ∧ (after.flatMap text).head? = some '\n' := by
  have hfirst : first? (l.text ++ (after.flatMap text ++ (split cs).2)) = some l :=
    first?_of_split_eq (by rw [h, hlexemes])
  rw [h] at hfirst
  obtain ⟨htext, hhead⟩ := newline_of_comment hfirst hcls
  refine ⟨htext, ?_⟩
  cases hafter : after.flatMap text with
  | nil =>
    obtain rfl : c = '\n' := hhead c (by simp [hafter])
    exact absurd hc (by decide)
  | cons d ds =>
    obtain rfl : d = '\n' := hhead d (by simp [hafter])
    rfl

end Lexeme

/-- A scan fails at the first character that starts no lexeme. It lies in no comment, and
what stands before it is scanned to the tokens that were read. -/
theorem scan_fails_at_stray {source file : String} {failure : Failure}
    (h : scan source file = .error failure) :
    ∃ before c after lexemes words, source.toList = before ++ c :: after ∧
      failure.cause = .unrecognised (String.singleton c) ∧
      failure.position.Counts (bytes before) file ∧ Lexeme.Stray c after ∧
      Lexeme.split source.toList = (lexemes, c :: after) ∧
      (∀ ls l ls', lexemes = ls ++ l :: ls' → l.cls = .comment →
        '\n' ∉ l.text ∧ (ls'.flatMap Lexeme.text).head? = some '\n') ∧
      Lexeme.tokens file 0 lexemes = words ++ [.endAt failure.position] ∧
      (∀ t ∈ words, t.kind ≠ .eof) ∧
      scan (String.ofList before) file = .ok (words ++ [.endAt failure.position]) := by
  unfold scan at h
  split at h
  · simp at h
  · rename_i lexemes c after hsplit
    obtain rfl := Except.error.inj h
    have hfirst := Lexeme.first?_split source.toList
    have hsource := Lexeme.flatMap_text_split source.toList
    have hbefore := Lexeme.split_flatMap_text source.toList
    rw [hsplit] at hfirst hsource hbefore
    have hstray := Lexeme.stray_of_first? hfirst
    obtain ⟨words, hspelled, htokens⟩ := Lexeme.exists_spelled_of_split file 0 hbefore
    rw [Nat.zero_add] at htokens
    refine ⟨lexemes.flatMap Lexeme.text, c, after, lexemes, words, hsource.symm, rfl,
      Position.counts_iff.mpr rfl, hstray, hsplit,
      fun ls l ls' => Lexeme.newline_of_split_eq hsplit hstray.not_blank, htokens,
      hspelled.kind_ne_eof, ?_⟩
    simp [scan, hbefore, htokens, Lexeme.bytes]

/-- A point behind a whole number, with an unknown character in a comment before it. -/
theorem scan_stray_point :
    scan "a//$\n1.=" "f" = .error ⟨.unrecognised ".", .after 6 "f"⟩ ∧
      ∃ before c after words, "a//$\n1.=".toList = before ++ c :: after ∧
        String.singleton c = "." ∧ Lexeme.Stray c after ∧
        scan (String.ofList before) "f" = .ok (words ++ [.endAt (.after 6 "f")]) := by
  have hsplit : Lexeme.split "a//$\n1.=".toList =
      ([⟨.word, ['a']⟩, ⟨.comment, ['/', '/', '$']⟩, ⟨.blanks, ['\n']⟩, ⟨.integer, ['1']⟩],
        ['.', '=']) := by
    change Lexeme.split (['a'] ++ (['/', '/', '$'] ++ (['\n'] ++ (['1'] ++ ['.', '='])))) = _
    rw [Lexeme.split_of_some (l := ⟨.word, ['a']⟩) (by decide),
      Lexeme.split_of_some (l := ⟨.comment, ['/', '/', '$']⟩) (by decide),
      Lexeme.split_of_some (l := ⟨.blanks, ['\n']⟩) (by decide),
      Lexeme.split_of_some (l := ⟨.integer, ['1']⟩) (by decide),
      Lexeme.split_of_none (by decide)]
  have hscan : scan "a//$\n1.=" "f" = .error ⟨.unrecognised ".", .after 6 "f"⟩ := by
    rw [scan, hsplit]
    rfl
  obtain ⟨before, c, after, -, words, hsource, hcause, -, hstray, -, -, -, -, hbefore⟩ :=
    scan_fails_at_stray hscan
  exact ⟨hscan, before, c, after, words, hsource, (Failure.Cause.unrecognised.inj hcause).symm,
    hstray, hbefore⟩

end ExprLang
