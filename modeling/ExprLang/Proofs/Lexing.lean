import ExprLang.Lexeme
import Mathlib.Data.List.TakeWhile

/-!
What stands at the front of a text. What the patterns of the table match is told directly, by
runs of characters. A value fits the kind of its token by its form alone, and it goes on if a
character of the right sort follows it. A value that fits its kind and does not go on is the
lexeme that is found there, and every lexeme that is found is such a value or part of a gap,
which blanks and comments make.
-/
namespace ExprLang

namespace Text

/-- A gap before the rest of a text. -/
inductive Gap : (gap rest : List Char) → Prop
  | nil {rest : List Char} : Gap [] rest
  | blank {c : Char} {gap rest : List Char} (hc : isBlank c = true) (h : Gap gap rest) :
      Gap (c :: gap) rest
  | comment {body gap rest : List Char} (hbody : '\n' ∉ body)
      (hstop : ∀ c ∈ (gap ++ rest).head?, c = '\n') (h : Gap gap rest) :
      Gap ('/' :: '/' :: body ++ gap) rest

theorem Gap.blanks {w gap rest : List Char} (h : Gap gap rest) (hw : ∀ c ∈ w, isBlank c = true) :
    Gap (w ++ gap) rest := by
  induction w with
  | nil => exact h
  | cons c w ih => exact .blank (hw c (by simp)) (ih fun d hd => hw d (by simp [hd]))

def IsDigits (cs : List Char) : Prop := cs ≠ [] ∧ ∀ c ∈ cs, c.isDigit = true

/-- A letter or an underscore, then letters, digits and underscores. -/
def IsName : List Char → Prop
  | [] => False
  | c :: cs => Lexeme.isWordStart c = true ∧ ∀ d ∈ cs, Lexeme.isWordPart d = true

end Text

namespace Token

open Text

/-- The values that a token of the kind can have in a text. -/
def Fits (kind : Kind) (value : String) : Prop :=
  match kind with
  | .eof => False
  | .identifier => IsName value.toList ∧ value ∉ ["func", "if", "else", "return"]
  | .integer => IsDigits value.toList
  | .float => ∃ whole fraction, value.toList = whole ++ '.' :: fraction ∧
      IsDigits whole ∧ IsDigits fraction
  | .operator => value ∈ ["==", "!=", "<=", ">=", "<", ">", "+", "-", "*", "/", "%"]
  | .openParen => value = "("
  | .closeParen => value = ")"
  | .openCurly => value = "\x7b"
  | .closeCurly => value = "\x7d"
  | .colon => value = ":"
  | .comma => value = ","
  | .arrow => value = "->"
  | .funcWord => value = "func"
  | .ifWord => value = "if"
  | .elseWord => value = "else"
  | .returnWord => value = "return"

/-- Whether the value goes on if the character follows it. -/
def joins (kind : Kind) (value : String) (c : Char) : Bool :=
  match kind with
  | .identifier | .funcWord | .ifWord | .elseWord | .returnWord => Lexeme.isWordPart c
  | .integer | .float => c.isDigit
  | .operator => [("-", '>'), ("<", '='), (">", '='), ("/", '/')].contains (value, c)
  | _ => false

end Token

open Text

namespace Lexeme

variable {c : Char} {cs w rest : List Char}

section Leads

def leadWord : List Char → List Char
  | [] => []
  | c :: cs => if isWordStart c then c :: cs.takeWhile isWordPart else []

def leadDecimal (cs : List Char) : List Char :=
  match cs.dropWhile Char.isDigit with
  | '.' :: rest =>
    if cs.takeWhile Char.isDigit = [] ∨ rest.takeWhile Char.isDigit = [] then []
    else cs.takeWhile Char.isDigit ++ '.' :: rest.takeWhile Char.isDigit
  | _ => []

def leadComment : List Char → List Char
  | '/' :: '/' :: cs => '/' :: '/' :: cs.takeWhile (· ≠ '\n')
  | _ => []

/-- The text that the pattern of the class matches at the front, empty if there is none. -/
def Class.lead : Class → List Char → List Char
  | .word, cs => leadWord cs
  | .decimal, cs => leadDecimal cs
  | .integer, cs => cs.takeWhile Char.isDigit
  | .blanks, cs => cs.takeWhile Text.isBlank
  | .comment, cs => leadComment cs
  | .fixed _ pattern _, cs => if pattern.toList.isPrefixOf cs then pattern.toList else []

theorem match?_word (cs : List Char) :
    Class.word.match? cs = if leadWord cs = [] then none else some (leadWord cs) := by
  cases cs with
  | nil => rfl
  | cons c cs =>
    rw [Class.match?, Class.pattern, Pattern.match?, Pattern.matchThen, Pattern.matchThen,
      Pattern.matchThen_many, leadWord]
    by_cases hc : isWordStart c = true <;> simp [hc]

/-- The digits before the point are not given back, as no digit is a point. -/
theorem match?_decimal (cs : List Char) :
    Class.decimal.match? cs = if leadDecimal cs = [] then none else some (leadDecimal cs) := by
  have hpoint : ∀ ds, (Pattern.seq (.text ['.']) (.oneOrMore Char.isDigit)).matchThen
      (fun _ => some []) ds = match ds with
        | '.' :: rest => ((Pattern.oneOrMore Char.isDigit).match? rest).map ('.' :: ·)
        | _ => none := by
    intro ds
    split
    · rfl
    · rename_i hne
      rw [Pattern.matchThen, Pattern.matchThen, if_neg]
      intro hprefix
      obtain ⟨rest, hrest⟩ := List.isPrefixOf_iff_prefix.mp hprefix
      exact hne rest hrest.symm
  have hdigit : ∀ c ds, Char.isDigit c = true → (Pattern.seq (.text ['.'])
      (.oneOrMore Char.isDigit)).matchThen (fun _ => some []) (c :: ds) = none := by
    intro c ds hc
    rw [hpoint]
    split
    · simp_all
    · rfl
  rw [Class.match?, Class.pattern, Pattern.match?, Pattern.matchThen,
    Pattern.matchThen_oneOrMore cs (.inr hdigit), hpoint, leadDecimal]
  cases cs.dropWhile Char.isDigit with
  | nil => simp
  | cons c rest =>
    by_cases hc : c = '.'
    · subst hc
      simp only [Pattern.match?_oneOrMore]
      by_cases hwhole : cs.takeWhile Char.isDigit = [] <;>
        by_cases hrest : rest.takeWhile Char.isDigit = [] <;> simp [hwhole, hrest]
    · simp [hc]

theorem match?_comment (cs : List Char) :
    Class.comment.match? cs = if leadComment cs = [] then none else some (leadComment cs) := by
  rw [Class.match?, Class.pattern, Pattern.match?, Pattern.matchThen, Pattern.matchThen,
    Pattern.matchThen_many]
  by_cases hprefix : ['/', '/'].isPrefixOf cs = true
  · obtain ⟨rest, rfl⟩ := List.isPrefixOf_iff_prefix.mp hprefix
    rfl
  · have hnone : leadComment cs = [] := by
      unfold leadComment
      split
      · simp at hprefix
      · rfl
    rw [if_neg hprefix, if_pos hnone]

theorem Class.match?_eq {k : Class} (hmem : k ∈ classes) (cs : List Char) :
    k.match? cs = if k.lead cs = [] then none else some (k.lead cs) := by
  cases k with
  | word => exact match?_word cs
  | decimal => exact match?_decimal cs
  | integer | blanks => exact Pattern.match?_oneOrMore _ cs
  | comment => exact match?_comment cs
  | fixed kind pattern text =>
    have hne : pattern.toList ≠ [] := by
      simpa [Class.pattern, Pattern.consumes] using (consumes_and_agrees hmem).1
    rw [match?, Class.pattern, Pattern.match?_text, lead]
    by_cases hprefix : pattern.toList.isPrefixOf cs = true
    · rw [if_pos hprefix, if_pos hprefix, if_neg hne]
    · rw [if_neg hprefix, if_neg hprefix, if_pos rfl]

theorem Class.lexeme?_eq {k : Class} (hmem : k ∈ classes) (cs : List Char) :
    k.lexeme? cs = if k.lead cs = [] then none else some ⟨k, k.lead cs⟩ := by
  have hmatch := match?_eq hmem cs
  rw [lexeme?, hmatch]
  split
  · rfl
  · rename_i hne
    rw [if_neg hne] at hmatch
    rw [Option.map_some, (taken_of_match? hmem hmatch).1]

theorem Class.prefix_of_match?_eq {k : Class}
    (h : k.match? cs = if w = [] then none else some w) : w <+: cs := by
  by_cases hw : w = []
  · exact hw ▸ List.nil_prefix
  · rw [if_neg hw] at h
    exact Pattern.prefix_of_match? h

theorem Class.lead_isPrefix (k : Class) (cs : List Char) : k.lead cs <+: cs := by
  cases k with
  | word => exact prefix_of_match?_eq (match?_word cs)
  | decimal => exact prefix_of_match?_eq (match?_decimal cs)
  | integer => exact prefix_of_match?_eq (k := integer) (Pattern.match?_oneOrMore _ cs)
  | blanks => exact prefix_of_match?_eq (k := blanks) (Pattern.match?_oneOrMore _ cs)
  | comment => exact prefix_of_match?_eq (match?_comment cs)
  | fixed kind pattern text =>
    simp only [lead]
    split
    · rename_i h
      exact List.isPrefixOf_iff_prefix.mp h
    · exact List.nil_prefix

end Leads

/-- Whether a text of the class can start with the character. -/
def Class.starts : Class → Char → Bool
  | .word, c => isWordStart c
  | .decimal, c | .integer, c => c.isDigit
  | .blanks, c => isBlank c
  | .comment, c => c == '/'
  | .fixed _ pattern _, c => pattern.toList.head? == some c

theorem Class.lead_of_not_starts {k : Class} (h : k.starts c = false) : k.lead (c :: cs) = [] := by
  cases k with
  | word => simp_all [starts, lead, leadWord]
  | decimal =>
    simp only [lead, leadDecimal]
    split <;> simp_all [starts]
  | integer | blanks => simp_all [starts, lead]
  | comment =>
    simp only [lead]
    unfold leadComment
    split <;> simp_all [starts]
  | fixed kind pattern text =>
    simp only [lead, starts] at h ⊢
    cases hpattern : pattern.toList with
    | nil => simp
    | cons d ds =>
      have hd : d ≠ c := by simpa [hpattern] using h
      simp [List.isPrefixOf, hd]

theorem Class.lexeme?_of_not_starts {k : Class} (hmem : k ∈ classes) (h : k.starts c = false) :
    k.lexeme? (c :: cs) = none := by
  rw [lexeme?_eq hmem, if_pos (lead_of_not_starts h)]

theorem Class.lexeme?_of_lead {k : Class} (hmem : k ∈ classes) (h : k.lead cs = w) (hw : w ≠ []) :
    k.lexeme? cs = some ⟨k, w⟩ := by
  subst h
  rw [lexeme?_eq hmem, if_neg hw]

/-- Only the classes that can start with the first character have to be looked at. -/
theorem first?_cons (c : Char) (cs : List Char) :
    first? (c :: cs) = (classes.filter (·.starts c)).findSome? (·.lexeme? (c :: cs)) := by
  have hnone : ∀ k ∈ classes, k.starts c = false → k.lexeme? (c :: cs) = none :=
    fun k hmem => Class.lexeme?_of_not_starts hmem
  unfold first?
  generalize classes = table at hnone ⊢
  induction table with
  | nil => rfl
  | cons k ks ih =>
    rw [List.findSome?_cons, List.filter_cons, ih fun k hk => hnone k (List.mem_cons_of_mem _ hk)]
    by_cases hstarts : k.starts c = true
    · rw [if_pos hstarts, List.findSome?_cons]
    · rw [if_neg hstarts, hnone k List.mem_cons_self (Bool.eq_false_iff.mpr hstarts)]

/-- The first class of the table that has a text decides. -/
theorem first?_of_cut {k : Class} (before : List Class) {after : List Class}
    (hclasses : classes = before ++ k :: after) (hbefore : ∀ k' ∈ before, k'.lead cs = [])
    (h : k.lead cs = w) (hw : w ≠ []) : first? cs = some ⟨k, w⟩ := by
  have hmem : k ∈ classes := by simp [hclasses]
  refine List.findSome?_eq_some_iff.mpr ⟨before, k, after, hclasses, ?_, fun k' hk' => ?_⟩
  · exact Class.lexeme?_of_lead hmem h hw
  · rw [Class.lexeme?_eq (by simp [hclasses, hk']), if_pos (hbefore k' hk')]

theorem takeWhile_of_apart {p : Char → Bool} (hw : ∀ c ∈ w, p c = true)
    (hrest : ∀ c ∈ rest.head?, p c = false) : (w ++ rest).takeWhile p = w := by
  rw [List.takeWhile_append_of_pos hw]
  cases rest with
  | nil => simp
  | cons c rest => simp_all

theorem dropWhile_of_apart {p : Char → Bool} (hw : ∀ c ∈ w, p c = true)
    (hrest : ∀ c ∈ rest.head?, p c = false) : (w ++ rest).dropWhile p = rest := by
  rw [List.dropWhile_append_of_pos hw]
  cases rest with
  | nil => simp
  | cons c rest => simp_all

theorem toNat_of_isWordStart (h : isWordStart c = true) : 65 ≤ c.toNat ∧ c.toNat ≤ 122 := by
  have hranges : ((decide (65 ≤ c.val ∧ c.val ≤ 90) || (97 ≤ c.val && c.val ≤ 122))
      || c == '_') = true := h
  simp only [Bool.or_eq_true, Bool.and_eq_true, decide_eq_true_eq, beq_iff_eq,
    UInt32.le_iff_toNat_le, UInt32.reduceToNat, Char.toNat_val] at hranges
  rcases hranges with (hupper | hlower) | rfl
  · omega
  · omega
  · decide

theorem toNat_of_isDigit (h : c.isDigit = true) : 48 ≤ c.toNat ∧ c.toNat ≤ 57 := by
  have hrange : (48 ≤ c.val && c.val ≤ 57) = true := h
  simpa [UInt32.le_iff_toNat_le] using hrange

theorem toNat_of_isBlank (h : isBlank c = true) : c.toNat ≤ 32 ∨ 128 ≤ c.toNat := by
  simp only [isBlank, inRanges, blankRanges, List.any_cons, List.any_nil, Bool.or_eq_true,
    Bool.and_eq_true, decide_eq_true_eq, Bool.or_false] at h
  omega

theorem isWordPart_iff : isWordPart c = true ↔ isWordStart c = true ∨ c.isDigit = true := by
  simp only [isWordPart, isWordStart, Char.isAlphanum, Bool.or_eq_true]
  exact or_right_comm

theorem isWordStart_of_isDigit (h : c.isDigit = true) : isWordStart c = false := by
  rw [Bool.eq_false_iff]
  intro hstart
  have := toNat_of_isWordStart hstart
  have := toNat_of_isDigit h
  omega

theorem isWordStart_of_isBlank (h : isBlank c = true) : isWordStart c = false := by
  rw [Bool.eq_false_iff]
  intro hstart
  have := toNat_of_isWordStart hstart
  have := toNat_of_isBlank h
  omega

theorem isDigit_of_isBlank (h : isBlank c = true) : c.isDigit = false := by
  rw [Bool.eq_false_iff]
  intro hdigit
  have := toNat_of_isDigit hdigit
  have := toNat_of_isBlank h
  omega

theorem isWordPart_of_isBlank (h : isBlank c = true) : isWordPart c = false := by
  rw [Bool.eq_false_iff, ne_eq, isWordPart_iff, isWordStart_of_isBlank h, isDigit_of_isBlank h]
  simp

/-- No value goes on with a blank. -/
theorem joins_of_isBlank (kind : Token.Kind) (value : String) (h : isBlank c = true) :
    Token.joins kind value c = false := by
  have hmarks : c ∉ ['>', '=', '/'] := by
    intro hmem
    simp only [List.mem_cons, List.not_mem_nil, or_false] at hmem
    rcases hmem with rfl | rfl | rfl <;> exact absurd h (by decide)
  cases kind with
  | identifier | funcWord | ifWord | elseWord | returnWord => exact isWordPart_of_isBlank h
  | integer | float => exact isDigit_of_isBlank h
  | operator => simp_all [Token.joins]
  | _ => rfl

theorem first?_word (hw : IsName w) (hrest : ∀ c ∈ rest.head?, isWordPart c = false) :
    first? (w ++ rest) = some ⟨.word, w⟩ := by
  cases w with
  | nil => exact hw.elim
  | cons c w =>
    have hlead : Class.word.lead (c :: w ++ rest) = c :: w := by
      simp [Class.lead, leadWord, hw.1, takeWhile_of_apart hw.2 hrest]
    exact first?_of_cut [] rfl (by simp) hlead (List.cons_ne_nil _ _)

theorem first?_decimal {whole fraction : List Char} (hwhole : IsDigits whole)
    (hfraction : IsDigits fraction) (hrest : ∀ c ∈ rest.head?, c.isDigit = false) :
    first? (whole ++ '.' :: (fraction ++ rest)) = some ⟨.decimal, whole ++ '.' :: fraction⟩ := by
  have hpoint : ∀ c ∈ ('.' :: (fraction ++ rest)).head?, c.isDigit = false := by simp
  have hlead : Class.decimal.lead (whole ++ '.' :: (fraction ++ rest)) =
      whole ++ '.' :: fraction := by
    simp only [Class.lead, leadDecimal, dropWhile_of_apart hwhole.2 hpoint,
      takeWhile_of_apart hwhole.2 hpoint, takeWhile_of_apart hfraction.2 hrest]
    exact if_neg (by simp [hwhole.1, hfraction.1])
  obtain ⟨c, cs, rfl⟩ := List.exists_cons_of_ne_nil hwhole.1
  have hword : Class.word.lead (c :: cs ++ '.' :: (fraction ++ rest)) = [] :=
    Class.lead_of_not_starts (isWordStart_of_isDigit (hwhole.2 c (by simp)))
  exact first?_of_cut [.word] rfl (by simpa using hword) hlead (by simp)

theorem first?_integer (hw : IsDigits w) (hrest : ∀ c ∈ rest.head?, c.isDigit = false ∧ c ≠ '.') :
    first? (w ++ rest) = some ⟨.integer, w⟩ := by
  have hdigit : ∀ c ∈ rest.head?, c.isDigit = false := fun c hc => (hrest c hc).1
  have hlead : Class.integer.lead (w ++ rest) = w := takeWhile_of_apart hw.2 hdigit
  have hdecimal : Class.decimal.lead (w ++ rest) = [] := by
    simp only [Class.lead, leadDecimal, dropWhile_of_apart hw.2 hdigit]
    split <;> simp_all
  obtain ⟨c, cs, rfl⟩ := List.exists_cons_of_ne_nil hw.1
  have hword : Class.word.lead (c :: cs ++ rest) = [] :=
    Class.lead_of_not_starts (isWordStart_of_isDigit (hw.2 c (by simp)))
  exact first?_of_cut [.word, .decimal] rfl (by simpa using ⟨hword, hdecimal⟩) hlead hw.1

theorem first?_blank (cs : List Char) (hc : isBlank c = true) :
    first? (c :: cs) = some ⟨.blanks, c :: cs.takeWhile isBlank⟩ := by
  have hlead : Class.blanks.lead (c :: cs) = c :: cs.takeWhile isBlank := by
    simp [Class.lead, hc]
  have hstarts : ∀ k ∈ [Class.word, .decimal, .integer], k.starts c = false := by
    simp [Class.starts, isWordStart_of_isBlank hc, isDigit_of_isBlank hc]
  exact first?_of_cut [.word, .decimal, .integer] rfl
    (fun k hk => Class.lead_of_not_starts (hstarts k hk)) hlead (List.cons_ne_nil _ _)

theorem first?_comment (cs : List Char) :
    first? ('/' :: '/' :: cs) = some ⟨.comment, '/' :: '/' :: cs.takeWhile (· ≠ '\n')⟩ := by
  have hstarts : ∀ k ∈ [Class.word, .decimal, .integer, .blanks], k.starts '/' = false := by decide
  exact first?_of_cut [.word, .decimal, .integer, .blanks] rfl
    (fun k hk => Class.lead_of_not_starts (hstarts k hk)) rfl (List.cons_ne_nil _ _)

/-- Where two classes can start, the second one decides if the first one has no text. -/
theorem first?_of_second {k₁ k₂ : Class} (hclasses : classes.filter (·.starts c) = [k₁, k₂])
    (h₁ : k₁.lead (c :: cs) = []) (h₂ : k₂.lead (c :: cs) = w) (hw : w ≠ []) :
    first? (c :: cs) = some ⟨k₂, w⟩ := by
  have hmem : ∀ k ∈ [k₁, k₂], k ∈ classes := fun k hk => (List.mem_filter.mp (hclasses ▸ hk)).1
  rw [first?_cons, hclasses, List.findSome?_cons, Class.lexeme?_eq (hmem k₁ (by simp)), if_pos h₁,
    List.findSome?_cons, Class.lexeme?_of_lead (hmem k₂ (by simp)) h₂ hw]

/-- A text of two characters is not there if the second one is another. -/
theorem lead_fixed_pair {kind : Token.Kind} {pattern text : String} {d : Char}
    (hpattern : pattern.toList = [c, d]) (hcs : ∀ c ∈ cs.head?, c ≠ d) :
    (Class.fixed kind pattern text).lead (c :: cs) = [] := by
  cases cs with
  | nil => simp [Class.lead, hpattern, List.isPrefixOf]
  | cons c' cs =>
    have hne : d ≠ c' := (hcs c' (by simp)).symm
    simp [Class.lead, hpattern, List.isPrefixOf, hne]

theorem leadComment_eq_nil (hcs : ∀ c ∈ cs.head?, c ≠ '/') : leadComment ('/' :: cs) = [] := by
  unfold leadComment
  split <;> simp_all

theorem first?_fixed {kind : Token.Kind} {text : String} (hmem : .fixed kind text text ∈ classes)
    (hrest : ∀ c ∈ rest.head?, Token.joins kind text c = false) :
    first? (text.toList ++ rest) = some ⟨.fixed kind text text, text.toList⟩ := by
  have hapart (d : Char) (hjoins : Token.joins kind text d = true) : ∀ c ∈ rest.head?, c ≠ d := by
    rintro c hc rfl
    exact absurd (hrest c hc) (by simp [hjoins])
  simp only [classes, List.mem_cons, reduceCtorEq, Class.fixed.injEq, and_self, List.not_mem_nil,
    or_false, false_or] at hmem
  -- All texts but four are also found in front of a rest that is not known.
  rcases hmem with ⟨rfl, rfl⟩ | ⟨rfl, rfl⟩ | ⟨rfl, rfl⟩ | ⟨rfl, rfl⟩ | ⟨rfl, rfl⟩ | ⟨rfl, rfl⟩ |
    ⟨rfl, rfl⟩ | ⟨rfl, rfl⟩ | ⟨rfl, rfl⟩ | ⟨rfl, rfl⟩ | ⟨rfl, rfl⟩ | ⟨rfl, rfl⟩ | ⟨rfl, rfl⟩ |
    ⟨rfl, rfl⟩ | ⟨rfl, rfl⟩ | ⟨rfl, rfl⟩ | ⟨rfl, rfl⟩ | ⟨rfl, rfl⟩
  any_goals rfl
  · exact first?_of_second rfl (lead_fixed_pair rfl (hapart '=' rfl)) rfl (List.cons_ne_nil _ _)
  · exact first?_of_second rfl (lead_fixed_pair rfl (hapart '=' rfl)) rfl (List.cons_ne_nil _ _)
  · exact first?_of_second rfl (lead_fixed_pair rfl (hapart '>' rfl)) rfl (List.cons_ne_nil _ _)
  · exact first?_of_second rfl (leadComment_eq_nil (hapart '/' rfl)) rfl (List.cons_ne_nil _ _)

theorem reserved?_eq_none_iff {value : String} :
    Token.reserved? value = none ↔ value ∉ ["func", "if", "else", "return"] := by
  simp [Token.reserved?, Token.reservedWords, List.lookup_eq_none_iff]

theorem fixed_mem_of_fits {value : String} (h : Token.Fits .operator value) :
    .fixed .operator value value ∈ classes := by
  simp only [Token.Fits, List.mem_cons, List.not_mem_nil, or_false] at h
  rcases h with rfl | rfl | rfl | rfl | rfl | rfl | rfl | rfl | rfl | rfl | rfl <;> decide

/-- A value that fits its kind is found as a lexeme of the kind. -/
theorem exists_first?_of_fits {kind : Token.Kind} {value : String} (hfits : Token.Fits kind value)
    (hrest : ∀ c ∈ rest.head?, Token.joins kind value c = false) (hpoint : rest.head? ≠ some '.') :
    ∃ k, first? (value.toList ++ rest) = some ⟨k, value.toList⟩ ∧
      kind? ⟨k, value.toList⟩ = some kind := by
  cases kind with
  | eof => exact hfits.elim
  | identifier =>
    exact ⟨.word, first?_word hfits.1 hrest, by simp [kind?, reserved?_eq_none_iff.mpr hfits.2]⟩
  | integer =>
    refine ⟨.integer, first?_integer hfits fun c hc => ⟨hrest c hc, ?_⟩, rfl⟩
    rintro rfl
    exact hpoint hc
  | float =>
    obtain ⟨whole, fraction, hvalue, hwhole, hfraction⟩ := hfits
    rw [hvalue, List.append_assoc]
    exact ⟨.decimal, first?_decimal hwhole hfraction hrest, rfl⟩
  | operator => exact ⟨_, first?_fixed (fixed_mem_of_fits hfits) hrest, rfl⟩
  | openParen | closeParen | openCurly | closeCurly | colon | comma | arrow =>
    obtain rfl := hfits
    exact ⟨_, first?_fixed (by decide) hrest, rfl⟩
  | funcWord | ifWord | elseWord | returnWord =>
    obtain rfl := hfits
    exact ⟨.word, first?_word ⟨rfl, List.all_eq_true.mp rfl⟩ hrest, rfl⟩

theorem head?_dropWhile {p : Char → Bool} (cs : List Char) :
    ∀ c ∈ (cs.dropWhile p).head?, p c = false := by
  intro c hc
  have h := List.head?_dropWhile_not p cs
  rw [Option.mem_def.mp hc] at h
  simpa using h

theorem isDigits_takeWhile (h : cs.takeWhile Char.isDigit ≠ []) :
    IsDigits (cs.takeWhile Char.isDigit) := ⟨h, fun _ => List.mem_takeWhile_imp⟩

theorem isName_of_leadWord (h : leadWord cs = w) (hw : w ≠ []) :
    IsName w ∧ ∃ rest, cs = w ++ rest ∧ ∀ c ∈ rest.head?, isWordPart c = false := by
  cases cs with
  | nil => exact absurd h.symm hw
  | cons c cs =>
    simp only [leadWord] at h
    by_cases hstart : isWordStart c = true
    · rw [if_pos hstart] at h
      subst h
      refine ⟨⟨hstart, fun d => List.mem_takeWhile_imp⟩, cs.dropWhile isWordPart, ?_,
        head?_dropWhile cs⟩
      rw [List.cons_append, List.takeWhile_append_dropWhile]
    · rw [if_neg hstart] at h
      exact absurd h.symm hw

theorem isDigits_of_leadDecimal (h : leadDecimal cs = w) (hw : w ≠ []) :
    (∃ whole fraction, w = whole ++ '.' :: fraction ∧ IsDigits whole ∧ IsDigits fraction) ∧
      ∃ rest, cs = w ++ rest ∧ ∀ c ∈ rest.head?, c.isDigit = false := by
  unfold leadDecimal at h
  split at h
  · rename_i rest hrest
    split at h
    · exact absurd h.symm hw
    · rename_i hne
      rw [not_or] at hne
      subst h
      refine ⟨⟨_, _, rfl, isDigits_takeWhile hne.1, isDigits_takeWhile hne.2⟩,
        rest.dropWhile Char.isDigit, ?_, head?_dropWhile rest⟩
      rw [List.append_assoc, List.cons_append, List.takeWhile_append_dropWhile, ← hrest,
        List.takeWhile_append_dropWhile]
  · exact absurd h.symm hw

/-- The texts that stand for themselves, with the kinds of their tokens. -/
def marks : List (Token.Kind × String) :=
  [(.openCurly, "\x7b"), (.closeCurly, "\x7d"), (.openParen, "("), (.closeParen, ")"),
   (.colon, ":"), (.comma, ","), (.arrow, "->"),
   (.operator, "=="), (.operator, "!="), (.operator, "<="), (.operator, ">="),
   (.operator, "<"), (.operator, ">"), (.operator, "+"), (.operator, "-"),
   (.operator, "*"), (.operator, "/"), (.operator, "%")]

theorem classes_eq_append_marks : classes =
    [.word, .decimal, .integer, .blanks, .comment] ++
      marks.map fun m => .fixed m.1 m.2 m.2 := rfl

theorem fits_fixed {kind : Token.Kind} {text : String} (h : .fixed kind text text ∈ classes) :
    Token.Fits kind text := by
  simp only [classes, List.mem_cons, reduceCtorEq, Class.fixed.injEq, and_self, List.not_mem_nil,
    or_false, false_or] at h
  rcases h with ⟨rfl, rfl⟩ | ⟨rfl, rfl⟩ | ⟨rfl, rfl⟩ | ⟨rfl, rfl⟩ | ⟨rfl, rfl⟩ | ⟨rfl, rfl⟩ |
    ⟨rfl, rfl⟩ | ⟨rfl, rfl⟩ | ⟨rfl, rfl⟩ | ⟨rfl, rfl⟩ | ⟨rfl, rfl⟩ | ⟨rfl, rfl⟩ | ⟨rfl, rfl⟩ |
    ⟨rfl, rfl⟩ | ⟨rfl, rfl⟩ | ⟨rfl, rfl⟩ | ⟨rfl, rfl⟩ | ⟨rfl, rfl⟩ <;> simp [Token.Fits]

theorem eq_of_reserved? {value : String} {kind : Token.Kind}
    (h : Token.reserved? value = some kind) :
    value = "func" ∧ kind = .funcWord ∨ value = "if" ∧ kind = .ifWord ∨
      value = "else" ∧ kind = .elseWord ∨ value = "return" ∧ kind = .returnWord := by
  obtain ⟨before, after, hwords, -⟩ := List.lookup_eq_some_iff.mp h
  have hmem : (value, kind) ∈ Token.reservedWords := by simp [hwords]
  simpa [Token.reservedWords] using hmem

/-- Words that are no identifiers are spelled as they are named. -/
theorem fits_word {value : String} (h : IsName value.toList) :
    Token.Fits ((Token.reserved? value).getD .identifier) value ∧
      Token.joins ((Token.reserved? value).getD .identifier) value = isWordPart := by
  cases hreserved : Token.reserved? value with
  | none => exact ⟨⟨h, reserved?_eq_none_iff.mp hreserved⟩, rfl⟩
  | some kind =>
    rcases eq_of_reserved? hreserved with ⟨hvalue, rfl⟩ | ⟨hvalue, rfl⟩ | ⟨hvalue, rfl⟩ |
      ⟨hvalue, rfl⟩ <;> exact ⟨hvalue, rfl⟩

theorem pair_of_joins {kind : Token.Kind} {text : String} (hmem : .fixed kind text text ∈ classes)
    (hjoins : Token.joins kind text c = true) :
    (text, c) ∈ [("-", '>'), ("<", '='), (">", '='), ("/", '/')] := by
  cases kind with
  | identifier | funcWord | ifWord | elseWord | returnWord | integer | float =>
    simp [classes] at hmem
  | operator => simpa [Token.joins] using hjoins
  | _ => simp [Token.joins] at hjoins

/-- A fixed text is only found where no longer text stands. -/
theorem apart_of_first?_fixed {kind : Token.Kind} {text : String}
    (hmem : .fixed kind text text ∈ classes)
    (h : first? (text.toList ++ rest) = some ⟨.fixed kind text text, text.toList⟩) :
    ∀ c ∈ rest.head?, Token.joins kind text c = false := by
  intro c hc
  obtain ⟨rest, rfl⟩ := List.head?_eq_some_iff.mp hc
  rw [Bool.eq_false_iff]
  intro hjoins
  have hpair := pair_of_joins hmem hjoins
  simp only [List.mem_cons, Prod.mk.injEq, List.not_mem_nil, or_false] at hpair
  -- What is found there is the arrow, a comparison or a comment.
  have hcls : (first? (text.toList ++ c :: rest)).map Lexeme.cls ≠
      some (.fixed kind text text) := by
    rcases hpair with ⟨rfl, rfl⟩ | ⟨rfl, rfl⟩ | ⟨rfl, rfl⟩ | ⟨rfl, rfl⟩
    · show some (Class.fixed .arrow "->" "->") ≠ _
      simp
    · show some (Class.fixed .operator "<=" "<=") ≠ _
      simp
    · show some (Class.fixed .operator ">=" ">=") ≠ _
      simp
    · rw [show "/".toList ++ '/' :: rest = '/' :: '/' :: rest from rfl, first?_comment]
      simp
  exact hcls (by rw [h]; rfl)

/-- A lexeme that is found and becomes a token fits its kind, and is as long as it can be. -/
theorem fits_of_first? {l : Lexeme} {kind : Token.Kind} {value : String} (h : first? cs = some l)
    (hkind : l.kind? = some kind) (hvalue : value.toList = l.text) :
    Token.Fits kind value ∧ ∃ rest, cs = value.toList ++ rest ∧
      ∀ c ∈ rest.head?, Token.joins kind value c = false := by
  obtain ⟨k, hmem, hk⟩ := List.exists_of_findSome?_eq_some h
  obtain ⟨hw, rfl⟩ : k.lead cs ≠ [] ∧ ⟨k, k.lead cs⟩ = l := by
    simpa [Class.lexeme?_eq hmem] using hk
  have hlead : k.lead cs = value.toList := hvalue.symm
  rw [hlead] at hw
  cases k with
  | word =>
    obtain ⟨hname, hrest⟩ := isName_of_leadWord hlead hw
    obtain ⟨hfits, hjoins⟩ := fits_word hname
    obtain rfl : (Token.reserved? value).getD .identifier = kind := by
      simpa [kind?, hlead] using hkind
    rw [hjoins]
    exact ⟨hfits, hrest⟩
  | decimal =>
    obtain rfl : .float = kind := by simpa [kind?] using hkind
    exact isDigits_of_leadDecimal hlead hw
  | integer =>
    obtain rfl : .integer = kind := by simpa [kind?] using hkind
    replace hlead : cs.takeWhile Char.isDigit = value.toList := hlead
    rw [← hlead] at hw
    have hdigits := isDigits_takeWhile hw
    rw [hlead] at hdigits
    refine ⟨hdigits, cs.dropWhile Char.isDigit, ?_, head?_dropWhile cs⟩
    rw [← hlead, List.takeWhile_append_dropWhile]
  | blanks | comment => simp [kind?] at hkind
  | fixed kind' pattern text =>
    obtain rfl := Class.pattern_eq_text hmem
    obtain rfl : kind' = kind := by simpa [kind?] using hkind
    obtain ⟨rest, hrest⟩ := (Class.fixed kind' pattern pattern).lead_isPrefix cs
    obtain rfl : pattern = value := by
      simp only [Class.lead] at hlead
      split at hlead
      · exact String.toList_inj.mp hlead
      · exact absurd hlead.symm hw
    rw [hlead] at hrest h
    subst hrest
    exact ⟨fits_fixed hmem, rest, rfl, apart_of_first?_fixed hmem h⟩

theorem gap_of_first? {l : Lexeme} (h : first? cs = some l) (hkind : l.kind? = none) :
    ∃ rest, cs = l.text ++ rest ∧
      ∀ gap tail, rest = gap ++ tail → Gap gap tail → Gap (l.text ++ gap) tail := by
  obtain ⟨k, hmem, hk⟩ := List.exists_of_findSome?_eq_some h
  obtain ⟨hw, rfl⟩ : k.lead cs ≠ [] ∧ ⟨k, k.lead cs⟩ = l := by
    simpa [Class.lexeme?_eq hmem] using hk
  cases k with
  | word | decimal | integer | fixed => simp [kind?] at hkind
  | blanks =>
    refine ⟨cs.dropWhile isBlank, List.takeWhile_append_dropWhile.symm, fun gap tail _ hgap => ?_⟩
    exact hgap.blanks fun c => List.mem_takeWhile_imp
  | comment =>
    simp only [Class.lead] at hw ⊢
    unfold leadComment at hw ⊢
    split at hw
    · rename_i body
      refine ⟨body.dropWhile (· ≠ '\n'), ?_, fun gap tail hrest hgap => ?_⟩
      · simp only [List.cons_append, List.takeWhile_append_dropWhile]
      · refine .comment (fun hmem => ?_) (fun c hc => ?_) hgap
        · simpa using List.mem_takeWhile_imp hmem
        · rw [← hrest] at hc
          simpa using head?_dropWhile body c hc
    · exact absurd rfl hw

end Lexeme

end ExprLang
