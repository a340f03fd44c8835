import ExprLang.Proofs.Relocation
import ExprLang.Proofs.Spelling

/-!
Texts on lines of their own. No lexeme but blanks goes on over the end of a line, so what a text
is scanned into does not depend on the lines behind it, and a text behind a newline is scanned as
it would be alone, only that its offsets count what stands before it.
-/
namespace ExprLang

open Text

/-- The position so many bytes further on, modulo 2^32. -/
def Position.shift (count : Nat) (p : Position) : Position :=
  ⟨p.offset + UInt32.ofNat count, p.file⟩

def Token.shift (count : Nat) (t : Token) : Token :=
  { t with span := t.span.relocate (.shift count) }

def Failure.shift (count : Nat) (failure : Failure) : Failure :=
  { failure with position := failure.position.shift count }

theorem Position.shift_after (count bytes : Nat) (file : String) :
    (after bytes file).shift count = after (count + bytes) file := by
  simp [shift, after, UInt32.ofNat_add, UInt32.add_comm]

theorem Token.shift_endAt (count : Nat) (p : Position) :
    (endAt p).shift count = endAt (p.shift count) := rfl

namespace Lexeme

variable {file : String} {offset : Nat} {cs ds : List Char} {c : Char}

section Newline

variable {p : Char → Bool} {w : List Char}

theorem takeWhile_append_newline (hp : p '\n' = false) :
    (cs ++ '\n' :: ds).takeWhile p = cs.takeWhile p := by
  induction cs with
  | nil => simp [hp]
  | cons c cs ih =>
    by_cases hc : p c = true
    · rw [List.cons_append, List.takeWhile_cons_of_pos hc, List.takeWhile_cons_of_pos hc, ih]
    · rw [List.cons_append, List.takeWhile_cons_of_neg hc, List.takeWhile_cons_of_neg hc]

theorem dropWhile_append_newline (hp : p '\n' = false) :
    (cs ++ '\n' :: ds).dropWhile p = cs.dropWhile p ++ '\n' :: ds := by
  induction cs with
  | nil => simp [hp]
  | cons c cs ih =>
    by_cases hc : p c = true
    · rw [List.cons_append, List.dropWhile_cons_of_pos hc, List.dropWhile_cons_of_pos hc, ih]
    · rw [List.cons_append, List.dropWhile_cons_of_neg hc, List.dropWhile_cons_of_neg hc]
      rfl

theorem isPrefixOf_append_newline (hw : '\n' ∉ w) :
    w.isPrefixOf (cs ++ '\n' :: ds) = w.isPrefixOf cs := by
  induction w generalizing cs with
  | nil => simp
  | cons d w ih =>
    simp only [List.mem_cons, not_or] at hw
    cases cs with
    | nil => simp [List.isPrefixOf, Ne.symm hw.1]
    | cons c cs => simp [List.isPrefixOf, ih hw.2]

theorem leadWord_append_newline : leadWord (cs ++ '\n' :: ds) = leadWord cs := by
  cases cs with
  | nil => rfl
  | cons c cs =>
    have hpart : (cs ++ '\n' :: ds).takeWhile isWordPart = cs.takeWhile isWordPart :=
      takeWhile_append_newline rfl
    simp only [List.cons_append, leadWord, hpart]

theorem leadDecimal_append_newline : leadDecimal (cs ++ '\n' :: ds) = leadDecimal cs := by
  have hdigits (cs : List Char) :
      (cs ++ '\n' :: ds).takeWhile Char.isDigit = cs.takeWhile Char.isDigit :=
    takeWhile_append_newline rfl
  have hrest : (cs ++ '\n' :: ds).dropWhile Char.isDigit =
      cs.dropWhile Char.isDigit ++ '\n' :: ds := dropWhile_append_newline rfl
  simp only [leadDecimal, hrest, hdigits cs]
  cases hdrop : cs.dropWhile Char.isDigit with
  | nil => simp
  | cons c rest =>
    by_cases hc : c = '.'
    · subst c
      simp only [List.cons_append, hdigits rest]
    · simp [hc]

theorem leadComment_append_newline : leadComment (cs ++ '\n' :: ds) = leadComment cs := by
  have hbody (cs : List Char) :
      (cs ++ '\n' :: ds).takeWhile (· ≠ '\n') = cs.takeWhile (· ≠ '\n') :=
    takeWhile_append_newline rfl
  cases cs with
  | nil => rfl
  | cons c cs =>
    by_cases hc : c = '/'
    · subst c
      cases cs with
      | nil => rfl
      | cons d cs =>
        by_cases hd : d = '/'
        · subst d
          simp only [List.cons_append, leadComment, hbody]
        · simp [leadComment, hd]
    · simp [leadComment, hc]

end Newline

/-- Only blanks can go on over the end of a line. -/
theorem Class.lead_append_newline {k : Class} (hmem : k ∈ classes) (hk : k ≠ .blanks) :
    k.lead (cs ++ '\n' :: ds) = k.lead cs := by
  cases k with
  | word => exact leadWord_append_newline
  | decimal => exact leadDecimal_append_newline
  | integer => exact takeWhile_append_newline rfl
  | blanks => exact absurd rfl hk
  | comment => exact leadComment_append_newline
  | fixed kind pattern text =>
    obtain rfl := pattern_eq_text hmem
    have hpattern : '\n' ∉ pattern.toList := Token.newline_not_mem_of_fits (fits_fixed hmem)
    simp only [lead, isPrefixOf_append_newline hpattern]

theorem first?_append_newline (hc : isBlank c = false) :
    first? (c :: cs ++ '\n' :: ds) = first? (c :: cs) := by
  have hlexeme : ∀ k ∈ classes, k.lexeme? (c :: cs ++ '\n' :: ds) = k.lexeme? (c :: cs) := by
    intro k hmem
    by_cases hk : k = .blanks
    · subst k
      have hstarts : Class.blanks.starts c = false := hc
      rw [List.cons_append, Class.lexeme?_of_not_starts hmem hstarts,
        Class.lexeme?_of_not_starts hmem hstarts]
    · rw [Class.lexeme?_eq hmem, Class.lexeme?_eq hmem, Class.lead_append_newline hmem hk]
  unfold first?
  revert hlexeme
  induction classes with
  | nil => simp
  | cons k ks ih =>
    intro hlexeme
    rw [List.findSome?_cons, List.findSome?_cons, hlexeme k (by simp),
      ih fun k hk => hlexeme k (by simp [hk])]

/-- A lexeme puts the same tokens in front of those of every text behind it. -/
theorem exists_scanned_of_some (file : String) (offset : Nat) {l : Lexeme} {rest : List Char}
    (hfirst : first? (l.text ++ rest) = some l) :
    ∃ front : List Token, (∀ t ∈ front, t.kind ≠ .eof) ∧
      ∀ rest, first? (l.text ++ rest) = some l → scanned file offset (l.text ++ rest) =
        (scanned file (offset + Text.bytes l.text) rest).map (front ++ ·) id := by
  cases hkind : l.kind? with
  | none =>
    refine ⟨[], by simp, ?_⟩
    intro rest hfirst
    simp [scanned, split_of_some hfirst, tokens, hkind]
  | some kind =>
    have hfits := (fits_of_first? hfirst hkind String.toList_ofList).1
    let t : Token := ⟨kind, String.ofList l.text, .between offset (offset + Text.bytes l.text) file⟩
    refine ⟨[t], ?_, ?_⟩
    · intro t' ht' heof
      obtain rfl := List.mem_singleton.mp ht'
      obtain rfl : kind = .eof := heof
      exact hfits
    · intro rest hfirst
      simp [scanned, split_of_some hfirst, tokens, hkind, t]

/-- A text behind a newline is scanned after the text before it if nothing of that one is left;
otherwise it is left too. -/
theorem scanned_append_newline (file : String) (offset : Nat) (cs ds : List Char) :
    scanned file offset (cs ++ '\n' :: ds) =
      if (scanned file offset cs).2 = [] then
        (scanned file (offset + Text.bytes cs + 1) ds).map
          ((scanned file offset cs).1.takeWhile (fun t => t.kind ≠ .eof) ++ ·) id
      else ((scanned file offset cs).1, (scanned file offset cs).2 ++ '\n' :: ds) := by
  induction hsize : cs.length using Nat.strongRecOn generalizing cs offset with
  | ind size ih =>
    cases cs with
    | nil =>
      have hend : scanned file offset [] = ([.endAt (.after offset file)], []) := by
        rw [scanned, split_of_none rfl]
        rfl
      have hnewline : scanned file offset ('\n' :: ds) = scanned file (offset + 1) ds :=
        scanned_blank rfl
      simp [hend, hnewline, Token.endAt, Prod.map]
    | cons c cs =>
      cases hblank : isBlank c with
      | true =>
        have hshorter : cs.length < size := by simp [← hsize]
        rw [List.cons_append, scanned_blank hblank, scanned_blank hblank,
          ih _ hshorter (offset + c.utf8Size) cs rfl, bytes_cons, Nat.add_assoc offset]
      | false =>
        have hsame : first? (c :: cs ++ '\n' :: ds) = first? (c :: cs) :=
          first?_append_newline hblank
        cases hfirst : first? (c :: cs) with
        | none =>
          rw [hfirst] at hsame
          rw [scanned, split_of_none hsame, scanned, split_of_none hfirst]
          simp [tokens]
        | some l =>
          obtain ⟨hne, rest, hrest⟩ := first?_eq_some hfirst
          have hshorter : rest.length < size := by
            have hlength := congrArg List.length hrest
            have hpos := List.length_pos_iff.mpr hne
            simp only [List.length_append] at hlength
            omega
          rw [hfirst, ← hrest, List.append_assoc] at hsame
          rw [← hrest] at hfirst ⊢
          obtain ⟨front, hkinds, hfront⟩ := exists_scanned_of_some file offset hfirst
          rw [List.append_assoc, hfront _ hsame, hfront _ hfirst,
            ih _ hshorter (offset + Text.bytes l.text) rest rfl]
          have hwords (ts : List Token) : (front ++ ts).takeWhile (fun t => t.kind ≠ .eof) =
              front ++ ts.takeWhile (fun t => t.kind ≠ .eof) :=
            List.takeWhile_append_of_pos (by simpa using hkinds)
          simp only [Prod.map_fst, Prod.map_snd, id_eq, hwords, bytes_append, ← Nat.add_assoc]
          split <;> simp [Prod.map]

theorem tokens_add_offset (file : String) (count offset : Nat) (ls : List Lexeme) :
    tokens file (count + offset) ls = (tokens file offset ls).map (Token.shift count) := by
  induction ls generalizing offset with
  | nil => simp [tokens, Token.shift_endAt, Position.shift_after]
  | cons l ls ih =>
    have hspan (stop : Nat) : (Span.between offset stop file).relocate (.shift count) =
        .between (count + offset) (count + stop) file := by
      simp [Span.between, Span.relocate, Position.shift_after]
    simp only [tokens, Nat.add_assoc count, ih]
    cases l.kind? with
    | none => simp
    | some kind => simp [Token.shift, hspan]

/-- Scanning elsewhere shifts the tokens and leaves the same over. -/
theorem scanned_add_offset (file : String) (count : Nat) (cs : List Char) :
    scanned file count cs = (scanned file 0 cs).map (List.map (Token.shift count)) id := by
  rw [scanned, scanned, ← Nat.add_zero count, tokens_add_offset]
  rfl

end Lexeme

/-- Two texts with a newline between them are scanned one after the other: the tokens of the
first without its end token, then those of the second, shifted by the bytes before it. The
failure of the first is that of both, and a failure of the second is shifted too. -/
theorem scan_newline (first second file : String) :
    scan (first ++ "\n" ++ second) file = (do
      let tokens ← scan first file
      let tokens' ← (scan second file).mapError (Failure.shift (bytes first.toList + 1))
      return tokens.takeWhile (fun t => t.kind ≠ .eof) ++
        tokens'.map (Token.shift (bytes first.toList + 1))) := by
  have hjoined : (first ++ "\n" ++ second).toList = first.toList ++ '\n' :: second.toList := by
    simp [String.toList_append]
  have hscanned := Lexeme.scanned_append_newline file 0 first.toList second.toList
  rw [← hjoined, Nat.zero_add, Lexeme.scanned_add_offset file (bytes first.toList + 1)] at hscanned
  cases hfirst : scan first file with
  | error failure =>
    obtain ⟨before, c, after, hsource, hleft, rfl⟩ := scan_eq_error_iff_scanned.mp hfirst
    rw [if_neg (by simp [hleft]), hleft] at hscanned
    apply scan_eq_error_iff_scanned.mpr
    refine ⟨before, c, after ++ '\n' :: second.toList, ?_, ?_, rfl⟩
    · simp [hjoined, hsource]
    · rw [hscanned]
      rfl
  | ok tokens =>
    rw [scan_eq_ok_iff_scanned.mp hfirst, if_pos rfl] at hscanned
    cases hsecond : scan second file with
    | error failure =>
      obtain ⟨before, c, after, hsource, hleft, rfl⟩ := scan_eq_error_iff_scanned.mp hsecond
      apply scan_eq_error_iff_scanned.mpr
      refine ⟨first.toList ++ '\n' :: before, c, after, ?_, ?_, ?_⟩
      · simp [hjoined, hsource]
      · rw [hscanned]
        exact hleft
      · have hbytes : bytes (first.toList ++ '\n' :: before) =
            bytes first.toList + 1 + bytes before := by
          rw [bytes_append, bytes_cons, Nat.add_assoc]
          rfl
        rw [hbytes, Failure.shift, Position.shift_after]
    | ok tokens' =>
      rw [scan_eq_ok_iff_scanned.mp hsecond] at hscanned
      exact scan_eq_ok_iff_scanned.mpr hscanned

end ExprLang
