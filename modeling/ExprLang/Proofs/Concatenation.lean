import ExprLang.Proofs.Language
import Mathlib.Data.List.TakeWhile

/-!
Programs one behind the other. Nothing separates the units of a program, so two programs can
only be joined if the end of the first does not take the start of the second. It does so in
two ways: a return without a value takes the expression behind it, and a name before a
parenthesis becomes a call. In all other cases the trees of both programs are the trees of
the whole, as they are.
-/
namespace ExprLang

namespace Grammar

/-- Whether the end of the first word takes the start of the second. -/
def Swallows (u v : List Token) : Prop :=
  (u.getLast?.map Token.kind = some .returnWord ∧ v ≠ []) ∨
    (u.getLast?.map Token.kind = some .identifier ∧ v.head?.map Token.kind = some .openParen)

/-- A program may stand behind every word that does not swallow its start. -/
theorem Derives.apart_of_not_swallows {u v : List Token} {ms : List Node}
    (hms : Derives .units v .eof ms) (hv : ∀ t ∈ v, t.kind ≠ .eof) (h : ¬ Swallows u v) :
    Apart u (firstKind v .eof) := by
  cases v with
  | nil =>
    have hcloses : Closes .eof := by decide
    exact hcloses.apart u
  | cons t v =>
    have hstarts : t.kind.startsExpression = true :=
      hms.firstKind_units.resolve_left (hv t (by simp))
    constructor
    · intro hkind
      rw [show t.kind = .operator from hkind] at hstarts
      exact absurd hstarts (by decide)
    · intro last hlast
      constructor
      · intro hreturn
        exact absurd (Or.inl ⟨by simp [Option.mem_def.mp hlast, hreturn], by simp⟩) h
      · intro hname hopen
        exact absurd (Or.inr ⟨by simp [Option.mem_def.mp hlast, hname], congrArg some hopen⟩) h

end Grammar

namespace Program

open Grammar

/-- What is read from tokens without an end token is derived from all of them. -/
theorem derives_of_ofTokens_eq_ok {tokens : List Token} {file : String} {nodes : List Node}
    (h : ofTokens tokens file = .ok nodes) (hkinds : ∀ t ∈ tokens, t.kind ≠ .eof) :
    Derives .units tokens .eof nodes := by
  have hderives := derives_of_ofTokens h
  rwa [Token.word_eq_self hkinds] at hderives

/-- Two programs are read one behind the other as their trees one behind the other, spans
included, unless the end of the first swallows the start of the second. The names of the texts
do not matter. -/
theorem ofTokens_append (first second : List Token) (file file' file'' : String)
    (ns ms : List Node) (hfirst : ∀ t ∈ first, t.kind ≠ .eof)
    (hsecond : ∀ t ∈ second, t.kind ≠ .eof) (hns : ofTokens first file = .ok ns)
    (hms : ofTokens second file' = .ok ms) (hswallows : ¬ Swallows first second) :
    ofTokens (first ++ second) file'' = .ok (ns ++ ms) := by
  have hns := derives_of_ofTokens_eq_ok hns hfirst
  have hms := derives_of_ofTokens_eq_ok hms hsecond
  have hjoined := (hns.before (hms.apart_of_not_swallows hsecond hswallows)).append_units hms
  have heof : ∀ t ∈ first ++ second, t.kind ≠ .eof := by
    intro t ht
    rcases List.mem_append.mp ht with ht | ht
    · exact hfirst t ht
    · exact hsecond t ht
  apply ofTokens_of_derives
  rwa [Token.word_eq_self heof]

/-- A conditional does not take the parentheses behind it, though its branch is a return that
has no value: the brace is between them. -/
theorem ofTokens_conditional_before_parentheses :
    let tok (kind : Token.Kind) (value : String) (start : Nat) : Token :=
      ⟨kind, value, .between start (start + 1) "f"⟩
    let first := [tok .ifWord "if" 0, tok .identifier "x" 1, tok .openCurly "\x7b" 2,
      tok .returnWord "return" 3, tok .closeCurly "\x7d" 4]
    let second := [tok .openParen "(" 5, tok .identifier "y" 6, tok .closeParen ")" 7,
      tok .identifier "z" 8]
    let conditional : Node := .conditional (.reference "x" (.between 1 2 "f"))
      (.returned none (.between 3 4 "f")) none (.between 0 5 "f")
    let y : Node := .reference "y" (.between 6 7 "f")
    let z : Node := .reference "z" (.between 8 9 "f")
    ofTokens first "f" = .ok [conditional.entry] ∧ ofTokens second "f" = .ok [y.entry, z.entry] ∧
      ofTokens (first ++ second) "f" = .ok ([conditional.entry] ++ [y.entry, z.entry]) := by
  intro tok first second conditional y z
  have hfirst : ofTokens first "f" = .ok [conditional.entry] := rfl
  have hsecond : ofTokens second "f" = .ok [y.entry, z.entry] := rfl
  have hswallows : ¬ Swallows first second := by simp [Swallows, first, tok]
  refine ⟨hfirst, hsecond, ?_⟩
  exact ofTokens_append first second "f" "f" "f" _ _ (by simp [first, tok]) (by simp [second, tok])
    hfirst hsecond hswallows

end Program

end ExprLang
