import ExprLang.Proofs.Spelling

/-!
Symbols can be arranged freely in a text. An arrangement gives the symbols of a program and
what stands between them: a blank, then blanks and comments in any order. Behind the last
symbol there may be nothing at all, or a comment that the end of the text cuts off. Every
arrangement is scanned into its own symbols.
-/
namespace ExprLang

open Text

namespace Arrangement

structure Comment where
  body : List Char
  newline_not_mem : '\n' ∉ body

def Comment.text (comment : Comment) : List Char := '/' :: '/' :: comment.body

/-- A blank, or a comment with the end of its line. -/
inductive Spacing where
  | blank (c : Char) (hc : isBlank c = true)
  | line (comment : Comment)

def Spacing.text : Spacing → List Char
  | blank c _ => [c]
  | line comment => comment.text ++ ['\n']

def Spacing.texts (spacings : List Spacing) : List Char := spacings.flatMap text

/-- Spacing that holds symbols apart starts with a blank. -/
structure Separator where
  first : Char
  isBlank_first : isBlank first = true
  others : List Spacing

def Separator.text (separator : Separator) : List Char :=
  separator.first :: Spacing.texts separator.others

/-- A word, a number or a mark of the language. -/
inductive Symbol where
  | word (letters : List Char) (hletters : IsName letters)
  | integer (digits : List Char) (hdigits : IsDigits digits)
  | decimal (whole fraction : List Char) (hwhole : IsDigits whole) (hfraction : IsDigits fraction)
  | mark (kind : Token.Kind) (value : String) (hmark : (kind, value) ∈ Lexeme.marks)

namespace Symbol

def value : Symbol → String
  | word letters _ => String.ofList letters
  | integer digits _ => String.ofList digits
  | decimal whole fraction _ _ => String.ofList (whole ++ '.' :: fraction)
  | mark _ value _ => value

/-- The kind of the symbol's token; a word is reserved or an identifier. -/
def kind : Symbol → Token.Kind
  | word letters _ => (Token.reserved? (String.ofList letters)).getD .identifier
  | integer _ _ => .integer
  | decimal _ _ _ _ => .float
  | mark kind _ _ => kind

def text (s : Symbol) : List Char := s.value.toList

/-- The token of a symbol that stands at the offset. -/
def token (s : Symbol) (file : String) (offset : Nat) : Token :=
  ⟨s.kind, s.value, .between offset (offset + bytes s.text) file⟩

theorem fits (s : Symbol) : Token.Fits s.kind s.value := by
  cases s with
  | word letters hletters =>
    exact (Lexeme.fits_word (by rwa [String.toList_ofList])).1
  | integer digits hdigits =>
    show IsDigits (String.ofList digits).toList
    rwa [String.toList_ofList]
  | decimal whole fraction hwhole hfraction =>
    exact ⟨whole, fraction, String.toList_ofList, hwhole, hfraction⟩
  | mark kind value hmark =>
    apply Lexeme.fits_fixed
    rw [Lexeme.classes_eq_append_marks, List.mem_append]
    exact .inr (List.mem_map.mpr ⟨(kind, value), hmark, rfl⟩)

end Symbol

end Arrangement

/-- Symbols with separators between them, and what ends the text behind them. -/
inductive Arrangement where
  | finish (comment : Option Arrangement.Comment)
  | last (symbol : Arrangement.Symbol)
  | cons (symbol : Arrangement.Symbol) (separator : Arrangement.Separator) (rest : Arrangement)

namespace Arrangement

def symbols : Arrangement → List Symbol
  | finish _ => []
  | last symbol => [symbol]
  | cons symbol _ rest => symbol :: rest.symbols

def text : Arrangement → List Char
  | finish comment => comment.elim [] Comment.text
  | last symbol => symbol.text
  | cons symbol separator rest => symbol.text ++ (separator.text ++ rest.text)

/-- The tokens of an arrangement that starts at the offset. -/
def tokens (file : String) : Nat → Arrangement → List Token
  | _, finish _ => []
  | offset, last symbol => [symbol.token file offset]
  | offset, cons symbol separator rest =>
    symbol.token file offset :: rest.tokens file (offset + bytes (symbol.text ++ separator.text))

variable {file : String} {offset : Nat} {words : List Token} {gap rest : List Char}

theorem Spacing.gap_text (s : Spacing) (h : Gap gap rest) : Gap (s.text ++ gap) rest := by
  cases s with
  | blank c hc => exact .blank hc h
  | line comment =>
    have hline : Gap ('\n' :: gap) rest := .blank (by decide) h
    simpa [text, Comment.text] using Gap.comment comment.newline_not_mem (by simp) hline

theorem Spacing.gap_texts (spacings : List Spacing) (h : Gap gap rest) :
    Gap (texts spacings ++ gap) rest := by
  induction spacings with
  | nil => exact h
  | cons s spacings ih => simpa [texts] using s.gap_text ih

theorem Symbol.spelled (s : Symbol) (hrest : ∀ c ∈ rest.head?, isBlank c = true)
    (h : Spelled file (offset + bytes s.text) words rest) :
    Spelled file offset (s.token file offset :: words) (s.text ++ rest) := by
  have hapart : ∀ c ∈ rest.head?, Token.joins s.kind s.value c = false :=
    fun c hc => Lexeme.joins_of_isBlank _ _ (hrest c hc)
  exact Spelled.cons (t := s.token file offset) .nil s.fits hapart
    (Position.counts_iff.mpr rfl) (Position.counts_iff.mpr rfl) h

theorem spelled (a : Arrangement) (file : String) (offset : Nat) :
    Spelled file offset (a.tokens file offset) a.text := by
  induction a generalizing offset with
  | finish comment =>
    cases comment with
    | none => exact .nil .nil
    | some comment =>
      have hgap : Gap (comment.text ++ []) [] :=
        .comment comment.newline_not_mem (by simp) .nil
      exact .nil (by simpa [text] using hgap)
  | last symbol =>
    have hend : Spelled file (offset + bytes symbol.text) [] [] := .nil .nil
    simpa [text, tokens] using symbol.spelled (by simp) hend
  | cons symbol separator rest ih =>
    have hrest : Spelled file (offset + bytes symbol.text)
        (rest.tokens file (offset + bytes (symbol.text ++ separator.text)))
        (separator.text ++ rest.text) := by
      refine Spelled.of_gap (by simpa [Nat.add_assoc] using ih _) fun gap tail _ hgap => ?_
      exact .blank separator.isBlank_first (Spacing.gap_texts separator.others hgap)
    refine symbol.spelled ?_ hrest
    simp [Separator.text, separator.isBlank_first]

theorem map_tokens (a : Arrangement) (file : String) (offset : Nat) :
    (a.tokens file offset).map (fun t => (t.kind, t.value)) =
      a.symbols.map fun s => (s.kind, s.value) := by
  induction a generalizing offset with
  | finish => rfl
  | last => rfl
  | cons symbol separator rest ih => simp [tokens, symbols, ih, Symbol.token]

/-- However symbols are arranged in a text, scanning finds exactly their tokens, at the bytes
where they stand, and an end token behind the text. -/
theorem scan_arrangement (spacings : List Spacing) (a : Arrangement) (file : String) :
    scan (String.ofList (Spacing.texts spacings ++ a.text)) file =
      .ok (a.tokens file (bytes (Spacing.texts spacings)) ++
        [.endAt (.after (bytes (Spacing.texts spacings ++ a.text)) file)]) ∧
    (a.tokens file (bytes (Spacing.texts spacings))).map (fun t => (t.kind, t.value)) =
      a.symbols.map fun s => (s.kind, s.value) := by
  refine ⟨?_, a.map_tokens file _⟩
  have hspelled : Spelled file 0 (a.tokens file (bytes (Spacing.texts spacings)))
      (Spacing.texts spacings ++ a.text) := by
    refine Spelled.of_gap ?_ fun gap tail _ hgap => Spacing.gap_texts spacings hgap
    simpa using a.spelled file _
  rw [Spelled.scan_eq (by rwa [String.toList_ofList]), String.toList_ofList]

/-- A comment and a tab stand before the arrow, and a comment ends the text. -/
example :
    let name : Symbol := .word ['a'] ⟨rfl, by simp⟩
    let arrow : Symbol := .mark .arrow "->" (by decide)
    let a : Arrangement := .cons name ⟨' ', rfl, [.line ⟨['!'], by decide⟩, .blank '\t' rfl]⟩
      (.cons arrow ⟨'\n', rfl, []⟩ (.finish (some ⟨['?'], by decide⟩)))
    let words : List Token :=
      [⟨.identifier, "a", .between 0 1 "f"⟩, ⟨.arrow, "->", .between 7 9 "f"⟩]
    String.ofList a.text = "a //!\n\t->\n//?" ∧ a.tokens "f" 0 = words ∧
      scan "a //!\n\t->\n//?" "f" = .ok (words ++ [.endAt (.after 13 "f")]) := by
  refine ⟨rfl, rfl, ?_⟩
  cbv

end Arrangement

end ExprLang
