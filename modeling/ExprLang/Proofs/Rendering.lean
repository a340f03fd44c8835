import ExprLang.Proofs.Language
import ExprLang.Proofs.Relocation
import ExprLang.Proofs.Spelling

/-!
How programs are written. A tree is rendered as tokens by writing its parts with the marks
between them. An operand stands between parentheses if it is a binary tree whose operator
would lose it otherwise, or a return with a value, which would take the operators behind it;
anywhere else parentheses are a matter of taste. What is rendered and then spelled in any
layout is read back as the same trees up to spans.
-/
namespace ExprLang

namespace Grammar

open Operator (Tier)

/-- Where an expression stands: between marks, or as an operand. -/
inductive Place where
  | free
  | left (op : Operator)
  | right (op : Operator)

namespace Place

/-- Whether a binary tree with the operator can stand at the place without parentheses. -/
def Admits : Place → Operator → Prop
  | .free, _ => True
  | .left op, op' => op.power ≤ op'.power
  | .right op, op' => op.power < op'.power

/-- The chains that can stand at the place. -/
def tier : Place → Option Tier
  | .free => some .relational
  | .left op => some op.tier
  | .right op => above op.tier

theorem Admits.rank_le {place : Place} {op : Operator} (h : place.Admits op) :
    rank place.tier ≤ rank (some op.tier) := by
  cases place with
  | free => exact Nat.zero_le _
  | left op' =>
    rw [tier, ← tierAt_power, ← tierAt_power]
    exact rank_tierAt_mono h
  | right op' =>
    rw [tier, ← tierAt_power, ← tierAt_power_succ]
    exact rank_tierAt_mono h

end Place

/-- What can be rendered: the parts of a program with what they stand for. -/
inductive Phrase where
  | expression (place : Place) (n : Node)
  | definition (n : Node)
  | conditional (n : Node)
  | branch (n : Node)
  | arguments (values : List (String × Node))
  | parameters (ps : List Parameter)
  | definitions (ns : List Node)

/-- The tokens are a way to write the phrase. The spans do not matter. -/
inductive Renders : Phrase → List Token → Prop
  | number {place : Place} {t : Token} {x : Binary64} {s : Span}
      (hkind : t.kind = .integer ∨ t.kind = .float) (hread : Binary64.read? t.value = some x) :
      Renders (.expression place (.number x s)) [t]
  | reference {place : Place} {t : Token} {s : Span} (hkind : t.kind = .identifier) :
      Renders (.expression place (.reference t.value s)) [t]
  | call {place : Place} {name lparen rparen : Token} {w : List Token}
      {values : List (String × Node)} {s : Span}
      (hkinds : [name, lparen, rparen].map Token.kind = [.identifier, .openParen, .closeParen])
      (hvalues : Renders (.arguments values) w) :
      Renders (.expression place (.call name.value values s)) (name :: lparen :: w ++ [rparen])
  | defined {place : Place} {n : Node} {w : List Token} (h : Renders (.definition n) w) :
      Renders (.expression place n) w
  | chosen {place : Place} {n : Node} {w : List Token} (h : Renders (.conditional n) w) :
      Renders (.expression place n) w
  | returnNothing {place : Place} {t : Token} {s : Span} (hkind : t.kind = .returnWord) :
      Renders (.expression place (.returned none s)) [t]
  | returnValue {t : Token} {w : List Token} {n : Node} {s : Span} (hkind : t.kind = .returnWord)
      (hn : Renders (.expression .free n) w) :
      Renders (.expression .free (.returned (some n) s)) (t :: w)
  | binary {place : Place} {op : Operator} {t : Token} {u v : List Token} {lhs rhs : Node}
      {s : Span} (hplace : place.Admits op) (hkind : t.kind = .operator)
      (hsymbol : t.value = op.symbol) (hlhs : Renders (.expression (.left op) lhs) u)
      (hrhs : Renders (.expression (.right op) rhs) v) :
      Renders (.expression place (.binary op lhs rhs s)) (u ++ t :: v)
  | parenthesised {place : Place} {lparen rparen : Token} {w : List Token} {n : Node}
      (hkinds : [lparen, rparen].map Token.kind = [.openParen, .closeParen])
      (hn : Renders (.expression .free n) w) :
      Renders (.expression place n) (lparen :: w ++ [rparen])
  | noArgument : Renders (.arguments []) []
  | lastArgument {label colon : Token} {w : List Token} {n : Node}
      (hkinds : [label, colon].map Token.kind = [.identifier, .colon])
      (hn : Renders (.expression .free n) w) :
      Renders (.arguments [(label.value, n)]) (label :: colon :: w)
  | argument {label colon comma : Token} {w rest : List Token} {n : Node}
      {value : String × Node} {values : List (String × Node)}
      (hkinds : [label, colon, comma].map Token.kind = [.identifier, .colon, .comma])
      (hn : Renders (.expression .free n) w) (hrest : Renders (.arguments (value :: values)) rest) :
      Renders (.arguments ((label.value, n) :: value :: values))
        (label :: colon :: w ++ comma :: rest)
  | noParameter : Renders (.parameters []) []
  | lastParameter {name colon type : Token}
      (hkinds : [name, colon, type].map Token.kind = [.identifier, .colon, .identifier]) :
      Renders (.parameters [⟨name.value, name.value⟩]) [name, colon, type]
  | parameter {name colon type comma : Token} {rest : List Token} {p : Parameter}
      {ps : List Parameter}
      (hkinds : [name, colon, type, comma].map Token.kind =
        [.identifier, .colon, .identifier, .comma])
      (hrest : Renders (.parameters (p :: ps)) rest) :
      Renders (.parameters (⟨name.value, name.value⟩ :: p :: ps))
        (name :: colon :: type :: comma :: rest)
  | definition {func name lparen rparen arrow type lbrace rbrace : Token} {w body : List Token}
      {ps : List Parameter} {returns : ValueType} {n : Node} {s : Span}
      (hkinds : [func, name, lparen, rparen, arrow, type, lbrace, rbrace].map Token.kind =
        [.funcWord, .identifier, .openParen, .closeParen, .arrow, .identifier, .openCurly,
          .closeCurly])
      (hreturns : ValueType.ofTypeName type.value = returns) (hps : Renders (.parameters ps) w)
      (hn : Renders (.expression .free n) body) :
      Renders (.definition (.function name.value ps returns n false s))
        (func :: name :: lparen :: w ++ rparen :: arrow :: type :: lbrace :: body ++ [rbrace])
  | branch {lbrace rbrace : Token} {w : List Token} {n : Node}
      (hkinds : [lbrace, rbrace].map Token.kind = [.openCurly, .closeCurly])
      (hn : Renders (.expression .free n) w) :
      Renders (.branch n) (lbrace :: w ++ [rbrace])
  | ifThen {t : Token} {u v : List Token} {condition consequence : Node} {s : Span}
      (hkind : t.kind = .ifWord) (hcondition : Renders (.expression .free condition) u)
      (hconsequence : Renders (.branch consequence) v) :
      Renders (.conditional (.conditional condition consequence none s)) (t :: u ++ v)
  | ifThenElse {t t' : Token} {u v w : List Token} {condition consequence alternative : Node}
      {s : Span} (hkinds : [t, t'].map Token.kind = [.ifWord, .elseWord])
      (hcondition : Renders (.expression .free condition) u)
      (hconsequence : Renders (.branch consequence) v)
      (halternative : Renders (.branch alternative) w) :
      Renders (.conditional (.conditional condition consequence (some alternative) s))
        (t :: u ++ v ++ t' :: w)
  | ifThenElseIf {t t' : Token} {u v w : List Token} {condition consequence alternative : Node}
      {s : Span} (hkinds : [t, t'].map Token.kind = [.ifWord, .elseWord])
      (hcondition : Renders (.expression .free condition) u)
      (hconsequence : Renders (.branch consequence) v)
      (halternative : Renders (.conditional alternative) w) :
      Renders (.conditional (.conditional condition consequence (some alternative) s))
        (t :: u ++ v ++ t' :: w)
  | noDefinition : Renders (.definitions []) []
  | definitions {w rest : List Token} {n : Node} {ns : List Node} (hn : Renders (.definition n) w)
      (hrest : Renders (.definitions ns) rest) :
      Renders (.definitions (n :: ns)) (w ++ rest)

/-- The tokens derive what the phrase stands for, up to spans. An expression does so before
every token that starts none and, if it is no operand, is no operator. -/
def Phrase.ReadBack : Phrase → List Token → Prop
  | .expression place n, w => ∀ next : Token.Kind, next.startsExpression = false →
      (place = .free → next ≠ .operator) →
        ∃ n', Derives (.chain place.tier) w next n' ∧ n'.bare = n.bare
  | .definition n, w => ∀ next, ∃ n', Derives .definition w next n' ∧ n'.bare = n.bare
  | .conditional n, w => ∀ next, ∃ n', Derives .conditional w next n' ∧ n'.bare = n.bare
  | .branch n, w => ∀ next, ∃ n', Derives .branch w next n' ∧ n'.bare = n.bare
  | .arguments values, w => ∃ values', Derives .arguments w .closeParen values' ∧
      (values'.map fun value => (value.1, value.2.bare)) =
        values.map fun value => (value.1, value.2.bare)
  | .parameters ps, w => Derives .parameters w .closeParen ps
  | .definitions ns, w => ∃ ns', Derives .units w .eof ns' ∧ ns'.map Node.bare = ns.map Node.bare

/-- Every way to write a phrase is read back as the phrase. -/
theorem Renders.readBack {phrase : Phrase} {w : List Token} (h : Renders phrase w) :
    phrase.ReadBack w := by
  induction h with
  | number hkind hread =>
    exact fun next _ _ => ⟨_, (Derives.number hkind hread).of_operand, rfl⟩
  | reference hkind =>
    refine fun next hnext _ => ⟨_, (Derives.reference hkind ?_).of_operand, rfl⟩
    rintro rfl
    exact absurd hnext (by decide)
  | call hkinds _ ih =>
    obtain ⟨values', hvalues, hsame⟩ := ih
    exact fun next _ _ => ⟨_, (Derives.call hkinds hvalues).of_operand, by simp [hsame]⟩
  | defined _ ih =>
    intro next _ _
    obtain ⟨n', hn, hsame⟩ := ih next
    exact ⟨n', (Derives.defined hn).of_operand, hsame⟩
  | chosen _ ih =>
    intro next _ _
    obtain ⟨n', hn, hsame⟩ := ih next
    exact ⟨n', (Derives.chosen hn).of_operand, hsame⟩
  | returnNothing hkind =>
    exact fun next hnext _ => ⟨_, (Derives.returnNothing hkind hnext).of_operand, rfl⟩
  | returnValue hkind _ ih =>
    intro next hnext hoperator
    obtain ⟨n', hn, hsame⟩ := ih next hnext hoperator
    exact ⟨_, (Derives.returnValue hkind hn (hoperator rfl)).of_operand, by simp [hsame]⟩
  | binary hplace hkind hsymbol _ _ ihlhs ihrhs =>
    intro next hnext _
    obtain ⟨lhs', hlhs, hsame⟩ := ihlhs .operator (by decide) nofun
    obtain ⟨rhs', hrhs, hsame'⟩ := ihrhs next hnext nofun
    exact ⟨_, (Derives.of_operator hkind hsymbol hlhs hrhs).of_rank_le hplace.rank_le,
      by simp [hsame, hsame']⟩
  | parenthesised hkinds _ ih =>
    obtain ⟨n', hn, hsame⟩ := ih .closeParen (by decide) (by simp)
    exact fun next _ _ => ⟨n', (Derives.parenthesised hkinds hn).of_operand, hsame⟩
  | noArgument => exact ⟨[], .noArgument, rfl⟩
  | lastArgument hkinds _ ih =>
    obtain ⟨n', hn, hsame⟩ := ih .closeParen (by decide) (by simp)
    exact ⟨_, .lastArgument hkinds hn, by simp [hsame]⟩
  | argument hkinds _ _ ih ihrest =>
    obtain ⟨n', hn, hsame⟩ := ih .comma (by decide) (by simp)
    obtain ⟨values', hvalues, hsame'⟩ := ihrest
    exact ⟨_, .argument hkinds hn hvalues, by simpa [hsame] using hsame'⟩
  | noParameter => exact .noParameter
  | lastParameter hkinds => exact .lastParameter hkinds
  | parameter hkinds _ ih => exact .parameter hkinds ih
  | definition hkinds hreturns _ _ ihps ih =>
    obtain ⟨n', hn, hsame⟩ := ih .closeCurly (by decide) (by simp)
    subst hreturns
    exact fun next => ⟨_, .definition hkinds ihps hn, by simp [hsame]⟩
  | branch hkinds _ ih =>
    obtain ⟨n', hn, hsame⟩ := ih .closeCurly (by decide) (by simp)
    exact fun next => ⟨n', .branch hkinds hn, hsame⟩
  | ifThen hkind _ _ ih ih' =>
    intro next
    obtain ⟨condition', hcondition, hsame⟩ := ih .openCurly (by decide) (by simp)
    obtain ⟨consequence', hconsequence, hsame'⟩ := ih' next
    exact ⟨_, .ifThen hkind hcondition hconsequence, by simp [hsame, hsame']⟩
  | ifThenElse hkinds _ _ _ ih ih' ih'' =>
    intro next
    obtain ⟨condition', hcondition, hsame⟩ := ih .openCurly (by decide) (by simp)
    obtain ⟨consequence', hconsequence, hsame'⟩ := ih' .elseWord
    obtain ⟨alternative', halternative, hsame''⟩ := ih'' next
    exact ⟨_, .ifThenElse hkinds hcondition hconsequence halternative,
      by simp [hsame, hsame', hsame'']⟩
  | ifThenElseIf hkinds _ _ _ ih ih' ih'' =>
    intro next
    obtain ⟨condition', hcondition, hsame⟩ := ih .openCurly (by decide) (by simp)
    obtain ⟨consequence', hconsequence, hsame'⟩ := ih' .elseWord
    obtain ⟨alternative', halternative, hsame''⟩ := ih'' next
    exact ⟨_, .ifThenElseIf hkinds hcondition hconsequence halternative,
      by simp [hsame, hsame', hsame'']⟩
  | noDefinition => exact ⟨[], .noUnit, rfl⟩
  | definitions _ _ ih ihrest =>
    obtain ⟨ns', hns, hsame'⟩ := ihrest
    obtain ⟨n', hn, hsame⟩ := ih (firstKind _ .eof)
    exact ⟨n' :: ns', .definedUnit hn hns, by simp [hsame, hsame']⟩

end Grammar

namespace Program

open Grammar

/-- Definitions that are rendered and then spelled in any layout are read back. -/
theorem ofSource_of_renders (nodes : List Node) (words : List Token) (source file : String)
    (hrenders : Renders (.definitions nodes) words)
    (hspelled : Spelled file 0 words source.toList) :
    ∃ got, ofSource source file = .ok got ∧ got.map Node.bare = nodes.map Node.bare := by
  obtain ⟨got, hgot, hsame⟩ := hrenders.readBack
  refine ⟨got, ?_, hsame⟩
  rw [ofSource, hspelled.scan_eq]
  refine ofTokens_of_derives ?_
  rwa [Token.word_concat hspelled.kind_ne_eof rfl]

/-- The right operand of a difference keeps its parentheses, and a return without a value is an
operand as it stands. -/
theorem ofSource_nested_difference :
    ∃ got, ofSource " func f ( a : Int ) -> Void \x7b a - ( a - return ) \x7d" "" = .ok got ∧
      got.map Node.bare = [.function "f" [⟨"a", "a"⟩] .void
        (.binary .sub (.reference "a" .null)
          (.binary .sub (.reference "a" .null) (.returned none .null) .null) .null)
        false .null] := by
  let symbols : List (Token.Kind × String) :=
    [(.funcWord, "func"), (.identifier, "f"), (.openParen, "("), (.identifier, "a"), (.colon, ":"),
      (.identifier, "Int"), (.closeParen, ")"), (.arrow, "->"), (.identifier, "Void"),
      (.openCurly, "\x7b"), (.identifier, "a"), (.operator, "-"), (.openParen, "("),
      (.identifier, "a"), (.operator, "-"), (.returnWord, "return"), (.closeParen, ")"),
      (.closeCurly, "\x7d")]
  have hfits : ∀ symbol ∈ symbols, Token.Fits symbol.1 symbol.2 := by
    simp [symbols, Token.Fits, Text.IsName]
    decide
  let tok (kind : Token.Kind) (value : String) (start : Nat) : Token :=
    ⟨kind, value, .between start (start + Text.bytes value.toList) ""⟩
  have hdifference : Renders
      (.expression .free (.binary .sub (.reference "a" .null) (.returned none .null) .null))
      ([tok .identifier "a" 36] ++ tok .operator "-" 38 :: [tok .returnWord "return" 40]) :=
    .binary trivial rfl rfl (.reference (t := tok .identifier "a" 36) rfl) (.returnNothing rfl)
  have hbody : Renders (.expression .free (.binary .sub (.reference "a" .null)
      (.binary .sub (.reference "a" .null) (.returned none .null) .null) .null))
      ([tok .identifier "a" 30] ++ tok .operator "-" 32 :: (tok .openParen "(" 34 :: _ ++
        [tok .closeParen ")" 47])) :=
    .binary trivial rfl rfl (.reference (t := tok .identifier "a" 30) rfl)
      (.parenthesised rfl hdifference)
  let name := tok .identifier "f" 6
  let label := tok .identifier "a" 10
  have hdefinition : Renders (.definition (.function name.value [⟨label.value, label.value⟩] .void _
      false .null))
      (tok .funcWord "func" 1 :: name :: tok .openParen "(" 8 ::
        [label, tok .colon ":" 12, tok .identifier "Int" 14] ++
        tok .closeParen ")" 18 :: tok .arrow "->" 20 :: tok .identifier "Void" 23 ::
          tok .openCurly "\x7b" 28 :: _ ++ [tok .closeCurly "\x7d" 49]) :=
    .definition rfl rfl (.lastParameter rfl) hbody
  exact ofSource_of_renders _ (spacedTokens "" 0 symbols) _ ""
    (.definitions hdefinition .noDefinition) (spelled_spaced hfits)

end Program

end ExprLang
