import ExprLang.Proofs.Lexing
import ExprLang.Scan

/-!
How tokens are spelled. A text spells tokens if it consists of their values with gaps
between them, where a gap is made of blanks and of comments that run up to the end of their
lines. Each value is of the form that the kind of its token has, and each is as long as it
can be: none goes on into what follows it. Scanning is the inverse of spelling.
-/
namespace ExprLang

open Text

/-- The position counts so many bytes of the text, modulo 2^32. -/
def Position.Counts (p : Position) (bytes : Nat) (file : String) : Prop :=
  p.offset.toNat = bytes % UInt32.size ∧ p.file = file

theorem Position.counts_iff {p : Position} {bytes : Nat} {file : String} :
    p.Counts bytes file ↔ p = .after bytes file := by
  obtain ⟨offset, name⟩ := p
  simp only [Counts, after, Position.mk.injEq, and_congr_left_iff]
  rintro rfl
  rw [← UInt32.toNat_inj, UInt32.toNat_ofNat']

/-- The text, which starts at the offset, spells the tokens. -/
inductive Spelled (file : String) : Nat → List Token → List Char → Prop
  | nil {offset : Nat} {gap : List Char} (hgap : Gap gap []) : Spelled file offset [] gap
  | cons {offset : Nat} {t : Token} {words : List Token} {gap rest : List Char}
      (hgap : Gap gap (t.value.toList ++ rest)) (hfits : Token.Fits t.kind t.value)
      (hapart : ∀ c ∈ rest.head?, Token.joins t.kind t.value c = false)
      (hstart : t.span.start.Counts (offset + bytes gap) file)
      (hstop : t.span.stop.Counts (offset + bytes (gap ++ t.value.toList)) file)
      (hrest : Spelled file (offset + bytes (gap ++ t.value.toList)) words rest) :
      Spelled file offset (t :: words) (gap ++ t.value.toList ++ rest)

section

variable {file : String} {offset : Nat} {words : List Token} {cs w gap rest : List Char}

/-- What can be put in front of every gap can be put in front of what spells tokens. -/
theorem Spelled.of_gap (h : Spelled file (offset + bytes w) words rest)
    (hw : ∀ gap tail, rest = gap ++ tail → Gap gap tail → Gap (w ++ gap) tail) :
    Spelled file offset words (w ++ rest) := by
  cases h with
  | nil hgap => exact .nil (hw rest [] (by simp) hgap)
  | @cons _ t words gap rest hgap hfits hapart hstart hstop hrest =>
    have hwgap := hw gap (t.value.toList ++ rest) (by simp) hgap
    have hcons : Spelled file offset (t :: words) (w ++ gap ++ t.value.toList ++ rest) :=
      .cons hwgap hfits hapart (by simpa [Nat.add_assoc] using hstart)
        (by simpa [Nat.add_assoc] using hstop) (by simpa [Nat.add_assoc] using hrest)
    simpa using hcons

namespace Lexeme

/-- One more lexeme in front is part of the first gap or one more token. -/
theorem exists_spelled_cons {l : Lexeme} (hfirst : first? (l.text ++ rest) = some l)
    (h : Spelled file (offset + Text.bytes l.text) words rest) :
    ∃ words', Spelled file offset words' (l.text ++ rest) ∧
      ∀ ls tail, tokens file (offset + Text.bytes l.text) ls = words ++ tail →
        tokens file offset (l :: ls) = words' ++ tail := by
  cases hkind : l.kind? with
  | none =>
    obtain ⟨rest', hrest', hgap⟩ := gap_of_first? hfirst hkind
    obtain rfl := List.append_cancel_left hrest'
    exact ⟨words, h.of_gap hgap, fun ls tail hls => by simpa [tokens, hkind] using hls⟩
  | some kind =>
    let t : Token := ⟨kind, String.ofList l.text, .between offset (offset + Text.bytes l.text) file⟩
    have hvalue : t.value.toList = l.text := String.toList_ofList
    obtain ⟨hfits, rest', hrest', hapart⟩ := fits_of_first? hfirst hkind hvalue
    rw [hvalue] at hrest'
    obtain rfl := List.append_cancel_left hrest'
    have hspelled : Spelled file offset (t :: words) ([] ++ t.value.toList ++ rest) :=
      .cons .nil hfits hapart (Position.counts_iff.mpr rfl)
        (Position.counts_iff.mpr (by rw [List.nil_append, hvalue]; rfl))
        (by simpa [hvalue] using h)
    refine ⟨t :: words, by simpa [hvalue] using hspelled, fun ls tail hls => ?_⟩
    simp only [tokens, hkind, hls]
    rfl

/-- Lexemes that make up a text are spelled by it as tokens. -/
theorem exists_spelled_of_split {ls : List Lexeme} (file : String) (offset : Nat)
    (h : split cs = (ls, [])) :
    ∃ words, Spelled file offset words cs ∧
      tokens file offset ls = words ++ [.endAt (.after (offset + Text.bytes cs) file)] := by
  induction hsize : cs.length using Nat.strongRecOn generalizing cs ls offset with
  | ind size ih =>
    cases hfirst : first? cs with
    | none =>
      rw [split_of_none hfirst] at h
      obtain ⟨rfl, rfl⟩ : [] = ls ∧ cs = [] := by simpa using h
      exact ⟨[], .nil .nil, rfl⟩
    | some l =>
      obtain ⟨hne, rest, rfl⟩ := first?_eq_some hfirst
      rw [split_of_some hfirst] at h
      obtain ⟨rfl, hend⟩ : l :: (split rest).1 = ls ∧ (split rest).2 = [] := by simpa using h
      have hshorter : rest.length < size := by
        have := List.length_pos_iff.mpr hne
        simp only [← hsize, List.length_append]
        omega
      obtain ⟨words, hspelled, htokens⟩ :=
        ih _ hshorter (offset + Text.bytes l.text) (Prod.ext rfl hend) rfl
      obtain ⟨words', hspelled', htokens'⟩ := exists_spelled_cons hfirst hspelled
      refine ⟨words', hspelled', ?_⟩
      rw [htokens' _ _ htokens, bytes_append, Nat.add_assoc]

/-- Lexemes and what is left behind them make up the text. -/
theorem flatMap_text_split (cs : List Char) : (split cs).1.flatMap text ++ (split cs).2 = cs := by
  fun_induction split cs with
  | case1 => rfl
  | case2 cs l hfirst ih =>
    obtain ⟨-, rest, hrest⟩ := first?_eq_some hfirst
    subst hrest
    rw [List.drop_left] at ih ⊢
    simp [ih]

/-- No lexeme stands at the front of what is left. -/
theorem first?_split (cs : List Char) : first? (split cs).2 = none := by
  fun_induction split cs with
  | case1 cs hfirst => exact hfirst
  | case2 cs l hfirst ih => exact ih

/-- The tokens of a text that starts at the offset, and what is left where no lexeme stands. -/
def scanned (file : String) (offset : Nat) (cs : List Char) : List Token × List Char :=
  (tokens file offset (split cs).1, (split cs).2)

theorem scanned_of_none {k : Class} (hfirst : first? (w ++ rest) = some ⟨k, w⟩)
    (hkind : kind? ⟨k, w⟩ = none) :
    scanned file offset (w ++ rest) = scanned file (offset + Text.bytes w) rest := by
  have hsplit := split_of_some (l := ⟨k, w⟩) hfirst
  simp [scanned, hsplit, tokens, hkind]

theorem scanned_blanks (cs : List Char) : scanned file offset cs =
    scanned file (offset + Text.bytes (cs.takeWhile isBlank)) (cs.dropWhile isBlank) := by
  cases cs with
  | nil => rfl
  | cons c cs =>
    by_cases hc : isBlank c = true
    · have hfirst := first?_blank cs hc
      have hcs : c :: cs = (c :: cs.takeWhile isBlank) ++ cs.dropWhile isBlank := by
        rw [List.cons_append, List.takeWhile_append_dropWhile]
      rw [List.takeWhile_cons_of_pos hc, List.dropWhile_cons_of_pos hc, hcs]
      rw [hcs] at hfirst
      exact scanned_of_none hfirst rfl
    · simp [hc]

theorem scanned_blank {c : Char} (hc : isBlank c = true) :
    scanned file offset (c :: rest) = scanned file (offset + c.utf8Size) rest := by
  rw [scanned_blanks (c :: rest), scanned_blanks rest, List.takeWhile_cons_of_pos hc,
    List.dropWhile_cons_of_pos hc, bytes_cons, Nat.add_assoc]

theorem scanned_comment {body : List Char} (hbody : '\n' ∉ body)
    (hstop : ∀ c ∈ rest.head?, c = '\n') :
    scanned file offset ('/' :: '/' :: body ++ rest) =
      scanned file (offset + Text.bytes ('/' :: '/' :: body)) rest := by
  have htake : (body ++ rest).takeWhile (· ≠ '\n') = body := by
    refine takeWhile_of_apart (fun c hc => ?_) (fun c hc => by simp [hstop c hc])
    simp only [ne_eq, decide_eq_true_eq]
    rintro rfl
    exact hbody hc
  have hfirst := first?_comment (body ++ rest)
  rw [htake] at hfirst
  exact scanned_of_none hfirst rfl

/-- A gap only moves the offset. -/
theorem scanned_gap (h : Gap gap rest) :
    scanned file offset (gap ++ rest) = scanned file (offset + Text.bytes gap) rest := by
  induction h generalizing offset with
  | nil => rfl
  | blank hc _ ih =>
    rw [List.cons_append, scanned_blank hc, ih, bytes_cons, Nat.add_assoc]
  | comment hbody hstop _ ih =>
    rw [List.append_assoc, scanned_comment hbody hstop, ih, bytes_append, Nat.add_assoc]

theorem scanned_token {t : Token} (hfits : Token.Fits t.kind t.value)
    (hapart : ∀ c ∈ rest.head?, Token.joins t.kind t.value c = false)
    (hpoint : rest.head? ≠ some '.') (hstart : t.span.start.Counts offset file)
    (hstop : t.span.stop.Counts (offset + Text.bytes t.value.toList) file) :
    scanned file offset (t.value.toList ++ rest) =
      (scanned file (offset + Text.bytes t.value.toList) rest).map (t :: ·) id := by
  obtain ⟨k, hfirst, hkind⟩ := exists_first?_of_fits hfits hapart hpoint
  have ht : t = ⟨t.kind, String.ofList t.value.toList,
      .between offset (offset + Text.bytes t.value.toList) file⟩ := by
    rw [String.ofList_toList, Span.between, ← Position.counts_iff.mp hstart,
      ← Position.counts_iff.mp hstop]
  have hsplit := split_of_some (l := ⟨k, t.value.toList⟩) hfirst
  simp only [scanned, hsplit, tokens, hkind, ← ht]
  rfl

end Lexeme

theorem Token.head?_of_fits {kind : Token.Kind} {value : String} (h : Token.Fits kind value) :
    ∃ c cs, value.toList = c :: cs ∧ c ≠ '.' := by
  have hdigits {w : List Char} (hw : IsDigits w) : ∃ c cs, w = c :: cs ∧ c ≠ '.' := by
    obtain ⟨c, cs, rfl⟩ := List.exists_cons_of_ne_nil hw.1
    refine ⟨c, cs, rfl, ?_⟩
    rintro rfl
    exact absurd (hw.2 '.' (by simp)) (by decide)
  cases kind with
  | eof => exact h.elim
  | identifier =>
    obtain ⟨hname, -⟩ := h
    cases hvalue : value.toList with
    | nil => simp [hvalue, IsName] at hname
    | cons c cs =>
      refine ⟨c, cs, rfl, ?_⟩
      rintro rfl
      rw [hvalue] at hname
      exact absurd hname.1 (by decide)
  | integer => exact hdigits h
  | float =>
    obtain ⟨whole, fraction, hvalue, hwhole, -⟩ := h
    obtain ⟨c, cs, rfl, hc⟩ := hdigits hwhole
    exact ⟨c, _, hvalue, hc⟩
  | operator =>
    simp only [Token.Fits, List.mem_cons, List.not_mem_nil, or_false] at h
    rcases h with rfl | rfl | rfl | rfl | rfl | rfl | rfl | rfl | rfl | rfl | rfl <;>
      exact ⟨_, _, rfl, by decide⟩
  | _ => exact ⟨_, _, congrArg String.toList h, by decide⟩

theorem Text.IsDigits.not_isBlank {w : List Char} (hw : IsDigits w) :
    ∀ c ∈ w, isBlank c = false := by
  intro c hc
  rw [Bool.eq_false_iff]
  intro hblank
  exact absurd (hw.2 c hc) (by simp [Lexeme.isDigit_of_isBlank hblank])

theorem Text.IsName.not_isBlank {w : List Char} (hw : IsName w) : ∀ c ∈ w, isBlank c = false := by
  intro c hc
  rw [Bool.eq_false_iff]
  intro hblank
  cases w with
  | nil => simp at hc
  | cons d ds =>
    rcases List.mem_cons.mp hc with hd | hd
    · subst hd
      exact absurd hw.1 (by simp [Lexeme.isWordStart_of_isBlank hblank])
    · exact absurd (hw.2 c hd) (by simp [Lexeme.isWordPart_of_isBlank hblank])

/-- There is no blank in the value of a token. -/
theorem Token.not_isBlank_of_fits {kind : Token.Kind} {value : String}
    (h : Token.Fits kind value) : ∀ c ∈ value.toList, isBlank c = false := by
  have hplain {w : String} (hw : (w.toList.all fun c => !isBlank c) = true) :
      ∀ c ∈ w.toList, isBlank c = false := by
    intro c hc
    simpa using List.all_eq_true.mp hw c hc
  cases kind with
  | eof => exact h.elim
  | identifier => exact h.1.not_isBlank
  | integer => exact h.not_isBlank
  | float =>
    obtain ⟨whole, fraction, hvalue, hwhole, hfraction⟩ := h
    intro c hc
    rw [hvalue, List.mem_append, List.mem_cons] at hc
    rcases hc with hc | hc | hc
    · exact hwhole.not_isBlank c hc
    · subst hc
      rfl
    · exact hfraction.not_isBlank c hc
  | operator =>
    have hall : (["==", "!=", "<=", ">=", "<", ">", "+", "-", "*", "/", "%"].all
        fun symbol => symbol.toList.all fun c => !isBlank c) = true := by decide
    exact hplain (List.all_eq_true.mp hall value h)
  | _ =>
    subst h
    exact hplain (by decide)

theorem Token.newline_not_mem_of_fits {kind : Token.Kind} {value : String}
    (h : Token.Fits kind value) : '\n' ∉ value.toList := by
  intro hmem
  exact absurd (not_isBlank_of_fits h '\n' hmem) (by decide)

theorem Text.Gap.head?_ne_point (h : Gap gap rest) (hrest : rest.head? ≠ some '.') :
    (gap ++ rest).head? ≠ some '.' := by
  cases h with
  | nil => exact hrest
  | blank hc =>
    simp only [List.cons_append, List.head?_cons, ne_eq, Option.some.injEq]
    rintro rfl
    exact absurd hc (by decide)
  | comment => simp

/-- No text that spells tokens starts with a point. -/
theorem Spelled.head?_ne_point (h : Spelled file offset words cs) : cs.head? ≠ some '.' := by
  cases h with
  | nil hgap => simpa using hgap.head?_ne_point (by simp)
  | cons hgap hfits =>
    obtain ⟨c, cs, hvalue, hc⟩ := Token.head?_of_fits hfits
    rw [List.append_assoc]
    exact hgap.head?_ne_point (by simpa [hvalue] using hc)

/-- A text that spells tokens is scanned into them. -/
theorem Spelled.scanned_eq (h : Spelled file offset words cs) : Lexeme.scanned file offset cs =
    (words ++ [.endAt (.after (offset + bytes cs) file)], []) := by
  induction h with
  | @nil offset gap hgap =>
    have hend :
        Lexeme.scanned file offset (gap ++ []) = Lexeme.scanned file (offset + bytes gap) [] :=
      Lexeme.scanned_gap hgap
    rw [List.append_nil] at hend
    rw [hend, Lexeme.scanned, Lexeme.split_of_none rfl]
    rfl
  | cons hgap hfits hapart hstart hstop hrest ih =>
    rw [bytes_append, ← Nat.add_assoc] at hstop ih
    rw [List.append_assoc, Lexeme.scanned_gap hgap,
      Lexeme.scanned_token hfits hapart hrest.head?_ne_point hstart hstop, ih]
    simp [Nat.add_assoc]

theorem Spelled.fits (h : Spelled file offset words cs) :
    ∀ t ∈ words, Token.Fits t.kind t.value := by
  induction h with
  | nil => simp
  | cons _ hfits _ _ _ _ ih => simpa using ⟨hfits, ih⟩

theorem Spelled.kind_ne_eof (h : Spelled file offset words cs) : ∀ t ∈ words, t.kind ≠ .eof := by
  intro t ht heof
  have hfits := h.fits t ht
  rw [heof] at hfits
  exact hfits

/-- A value fits one kind only. -/
theorem Token.Fits.unique {kind kind' : Token.Kind} {value : String} (h : Token.Fits kind value)
    (h' : Token.Fits kind' value) : kind = kind' := by
  have hend : ∀ kind, ∀ c ∈ ([] : List Char).head?, joins kind value c = false := by simp
  obtain ⟨k, hfirst, hkind⟩ := Lexeme.exists_first?_of_fits h (hend kind) (by simp)
  obtain ⟨k', hfirst', hkind'⟩ := Lexeme.exists_first?_of_fits h' (hend kind') (by simp)
  obtain rfl : k = k' := by simpa using hfirst.symm.trans hfirst'
  exact Option.some.inj (hkind.symm.trans hkind')

/-- The text of tokens with these kinds and values, with a blank before each. -/
def spacedText (symbols : List (Token.Kind × String)) : List Char :=
  symbols.flatMap fun symbol => ' ' :: symbol.2.toList

def spacedTokens (file : String) : Nat → List (Token.Kind × String) → List Token
  | _, [] => []
  | offset, (kind, value) :: symbols =>
    let stop := offset + bytes (' ' :: value.toList)
    ⟨kind, value, .between (offset + bytes [' ']) stop file⟩ :: spacedTokens file stop symbols

theorem spelled_spaced {symbols : List (Token.Kind × String)}
    (h : ∀ symbol ∈ symbols, Token.Fits symbol.1 symbol.2) :
    Spelled file offset (spacedTokens file offset symbols) (spacedText symbols) := by
  induction symbols generalizing offset with
  | nil => exact .nil .nil
  | cons symbol symbols ih =>
    obtain ⟨kind, value⟩ := symbol
    have hapart : ∀ c ∈ (spacedText symbols).head?, Token.joins kind value c = false := by
      intro c hc
      refine Lexeme.joins_of_isBlank kind value ?_
      cases symbols with
      | nil => simp [spacedText] at hc
      | cons =>
        obtain rfl : ' ' = c := by simpa [spacedText] using hc
        rfl
    have hgap : Gap [' '] (value.toList ++ spacedText symbols) := .blank rfl .nil
    let t : Token := ⟨kind, value, .between (offset + bytes [' '])
      (offset + bytes (' ' :: value.toList)) file⟩
    exact Spelled.cons (t := t) hgap (h (kind, value) (by simp)) hapart
      (Position.counts_iff.mpr rfl) (Position.counts_iff.mpr rfl)
      (ih fun symbol hmem => h symbol (by simp [hmem]))

end

theorem scan_eq_ok_iff_scanned {source file : String} {tokens : List Token} :
    scan source file = .ok tokens ↔ Lexeme.scanned file 0 source.toList = (tokens, []) := by
  unfold scan Lexeme.scanned
  split
  · rename_i lexemes hsplit
    simp [hsplit]
  · rename_i lexemes c rest hsplit
    simp [hsplit]

/-- Scanning fails at the first character at which no lexeme starts. -/
theorem scan_eq_error_iff_scanned {source file : String} {failure : Failure} :
    scan source file = .error failure ↔ ∃ before c after, source.toList = before ++ c :: after ∧
      (Lexeme.scanned file 0 source.toList).2 = c :: after ∧
        failure = ⟨.unrecognised (String.singleton c), .after (bytes before) file⟩ := by
  have hsource := Lexeme.flatMap_text_split source.toList
  unfold scan Lexeme.scanned
  split
  · rename_i lexemes hsplit
    simp [hsplit]
  · rename_i lexemes c after hsplit
    rw [hsplit] at hsource
    simp only [Except.error.injEq, hsplit, List.cons.injEq]
    constructor
    · intro h
      exact ⟨lexemes.flatMap Lexeme.text, c, after, hsource.symm, ⟨rfl, rfl⟩, h.symm⟩
    · intro h
      obtain ⟨before, c', after', hbefore, ⟨hc, hafter⟩, hfailure⟩ := h
      subst hc hafter
      rw [hfailure, Lexeme.bytes, List.append_cancel_right (hsource.trans hbefore)]

/-- A text that spells tokens is scanned into them and an end token. -/
theorem Spelled.scan_eq {source file : String} {words : List Token}
    (h : Spelled file 0 words source.toList) :
    scan source file = .ok (words ++ [.endAt (.after (bytes source.toList) file)]) := by
  rw [scan_eq_ok_iff_scanned, h.scanned_eq, Nat.zero_add]

theorem scan_spaced {source file : String} {symbols : List (Token.Kind × String)}
    (hfits : ∀ symbol ∈ symbols, Token.Fits symbol.1 symbol.2)
    (htext : source.toList = spacedText symbols) :
    scan source file =
      .ok (spacedTokens file 0 symbols ++ [.endAt (.after (bytes source.toList) file)]) := by
  have hspelled : Spelled file 0 (spacedTokens file 0 symbols) source.toList := by
    rw [htext]
    exact spelled_spaced hfits
  exact hspelled.scan_eq

theorem exists_spelled_of_scan {source file : String} {tokens : List Token}
    (h : scan source file = .ok tokens) : ∃ words, Spelled file 0 words source.toList ∧
      tokens = words ++ [.endAt (.after (bytes source.toList) file)] := by
  obtain ⟨htokens, hend⟩ := Prod.mk.inj (scan_eq_ok_iff_scanned.mp h)
  obtain ⟨words, hspelled, hwords⟩ := Lexeme.exists_spelled_of_split file 0 (Prod.ext rfl hend)
  rw [htokens, Nat.zero_add] at hwords
  exact ⟨words, hspelled, hwords⟩

/-- Scanning succeeds exactly on texts that spell tokens, and returns these with an end token
behind them, which is the only one. The kind of a token is the one that its value fits. -/
theorem scan_eq_ok_iff (source file : String) (tokens : List Token) :
    scan source file = .ok tokens ↔
      ∃ (words : List Token) (last : Position), tokens = words ++ [.endAt last] ∧
        Spelled file 0 words source.toList ∧ last.Counts (bytes source.toList) file ∧
        ∀ t ∈ words, t.kind ≠ .eof ∧ ∀ kind, Token.Fits kind t.value ↔ kind = t.kind := by
  constructor
  · intro h
    obtain ⟨words, hspelled, rfl⟩ := exists_spelled_of_scan h
    refine ⟨words, _, rfl, hspelled, Position.counts_iff.mpr rfl, fun t ht => ?_⟩
    have hfits := hspelled.fits t ht
    exact ⟨hspelled.kind_ne_eof t ht, fun kind => ⟨fun h => h.unique hfits, fun h => h ▸ hfits⟩⟩
  · rintro ⟨words, last, rfl, hspelled, hlast, -⟩
    rw [Position.counts_iff.mp hlast, hspelled.scan_eq]

end ExprLang
