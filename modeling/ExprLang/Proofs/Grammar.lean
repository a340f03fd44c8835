import ExprLang.Binary64.Literal
import ExprLang.Node

/-!
The grammar of programs. A word is a list of tokens without end tokens, and `Derives` says
which words are parts of a program and which trees they stand for. Three rules look at the
token that directly follows the word: a name before a parenthesis is a call, a return before
an expression takes it as its value, and that value goes on as long as operators follow. So
a derivation is of a word and of the kind of the token behind it, which is that of an end
token where the program ends.

Nothing in a rule depends on a span. Spans are only computed: the one of a binary node joins
those of its operands, parentheses leave none, and all others reach from the first token of
the word to its last.
-/
namespace ExprLang.Grammar

open Operator (Tier)

/-- The tier whose operators bind next tighter, none if there is no such tier. -/
def above : Tier → Option Tier
  | .relational => some .additive
  | .additive => some .multiplicative
  | .multiplicative => none

/-- How each operator is written and which tier it is of. -/
def rows : List (String × Operator × Tier) :=
  [("<", .lessThan, .relational),
   ("+", .add, .additive), ("-", .sub, .additive),
   ("*", .mul, .multiplicative), ("/", .div, .multiplicative)]

inductive Part where
  /-- Operators of this tier and of those above it, or a single operand if there is no tier. -/
  | chain (tier : Option Tier)
  | definition
  | conditional
  | branch
  | arguments
  | parameters
  | units

namespace Part

/-- What a word of this part stands for. -/
abbrev Value : Part → Type
  | .arguments => List (String × Node)
  | .parameters => List Parameter
  | .units => List Node
  | .chain _ | .definition | .conditional | .branch => Node

abbrev operand : Part := .chain none

abbrev expression : Part := .chain (some .relational)

end Part

/-- The span from the first token of the word to its last. -/
def extent : List Token → Span
  | [] => ⟨.null, .null⟩
  | t :: w => ⟨t.span.start, (w.getLastD t).span.stop⟩

/-- The kind of the token that stands first in the word or, if there is none, behind it. -/
def firstKind : List Token → Token.Kind → Token.Kind
  | [], next => next
  | t :: _, _ => t.kind

inductive Derives : (part : Part) → List Token → Token.Kind → part.Value → Prop
  | number {t : Token} {next : Token.Kind} {x : Binary64}
      (hkind : t.kind = .integer ∨ t.kind = .float) (hread : Binary64.read? t.value = some x) :
      Derives .operand [t] next (.number x (extent [t]))
  | reference {t : Token} {next : Token.Kind} (hkind : t.kind = .identifier)
      (hnext : next ≠ .openParen) :
      Derives .operand [t] next (.reference t.value (extent [t]))
  | call {name lparen rparen : Token} {w : List Token} {next : Token.Kind}
      {values : List (String × Node)}
      (hkinds : [name, lparen, rparen].map Token.kind = [.identifier, .openParen, .closeParen])
      (hvalues : Derives .arguments w .closeParen values) :
      Derives .operand (name :: lparen :: w ++ [rparen]) next
        (.call name.value values (extent (name :: lparen :: w ++ [rparen])))
  | parenthesised {lparen rparen : Token} {w : List Token} {next : Token.Kind} {n : Node}
      (hkinds : [lparen, rparen].map Token.kind = [.openParen, .closeParen])
      (hn : Derives .expression w .closeParen n) :
      Derives .operand (lparen :: w ++ [rparen]) next n
  | defined {w : List Token} {next : Token.Kind} {n : Node} (hn : Derives .definition w next n) :
      Derives .operand w next n
  | chosen {w : List Token} {next : Token.Kind} {n : Node} (hn : Derives .conditional w next n) :
      Derives .operand w next n
  | returnNothing {t : Token} {next : Token.Kind} (hkind : t.kind = .returnWord)
      (hnext : next.startsExpression = false) :
      Derives .operand [t] next (.returned none (extent [t]))
  | returnValue {t : Token} {w : List Token} {next : Token.Kind} {n : Node}
      (hkind : t.kind = .returnWord) (hn : Derives .expression w next n)
      (hnext : next ≠ .operator) :
      Derives .operand (t :: w) next (.returned (some n) (extent (t :: w)))
  | tighter {tier : Tier} {w : List Token} {next : Token.Kind} {n : Node}
      (hn : Derives (.chain (above tier)) w next n) :
      Derives (.chain (some tier)) w next n
  | binary {tier : Tier} {op : Operator} {t : Token} {u v : List Token} {next : Token.Kind}
      {lhs rhs : Node} (hkind : t.kind = .operator) (hrow : (t.value, op, tier) ∈ rows)
      (hlhs : Derives (.chain (some tier)) u .operator lhs)
      (hrhs : Derives (.chain (above tier)) v next rhs) :
      Derives (.chain (some tier)) (u ++ t :: v) next
        (.binary op lhs rhs (lhs.span.join rhs.span))
  | noArgument {next : Token.Kind} : Derives .arguments [] next []
  | lastArgument {label colon : Token} {w : List Token} {next : Token.Kind} {n : Node}
      (hkinds : [label, colon].map Token.kind = [.identifier, .colon])
      (hn : Derives .expression w next n) :
      Derives .arguments (label :: colon :: w) next [(label.value, n)]
  | argument {label colon comma : Token} {w rest : List Token} {next : Token.Kind} {n : Node}
      {values : List (String × Node)}
      (hkinds : [label, colon, comma].map Token.kind = [.identifier, .colon, .comma])
      (hn : Derives .expression w .comma n) (hrest : Derives .arguments rest next values) :
      Derives .arguments (label :: colon :: w ++ comma :: rest) next ((label.value, n) :: values)
  | noParameter {next : Token.Kind} : Derives .parameters [] next []
  | lastParameter {name colon type : Token} {next : Token.Kind}
      (hkinds : [name, colon, type].map Token.kind = [.identifier, .colon, .identifier]) :
      Derives .parameters [name, colon, type] next [⟨name.value, name.value⟩]
  | parameter {name colon type comma : Token} {rest : List Token} {next : Token.Kind}
      {ps : List Parameter}
      (hkinds : [name, colon, type, comma].map Token.kind =
        [.identifier, .colon, .identifier, .comma])
      (hrest : Derives .parameters rest next ps) :
      Derives .parameters (name :: colon :: type :: comma :: rest) next
        (⟨name.value, name.value⟩ :: ps)
  | definition {func name lparen rparen arrow type lbrace rbrace : Token} {w body : List Token}
      {next : Token.Kind} {ps : List Parameter} {n : Node}
      (hkinds : [func, name, lparen, rparen, arrow, type, lbrace, rbrace].map Token.kind =
        [.funcWord, .identifier, .openParen, .closeParen, .arrow, .identifier, .openCurly,
          .closeCurly])
      (hps : Derives .parameters w .closeParen ps) (hn : Derives .expression body .closeCurly n) :
      Derives .definition
        (func :: name :: lparen :: w ++ rparen :: arrow :: type :: lbrace :: body ++ [rbrace]) next
        (.function name.value ps (.ofTypeName type.value) n false
          (extent (func :: name :: lparen :: w ++
            rparen :: arrow :: type :: lbrace :: body ++ [rbrace])))
  | branch {lbrace rbrace : Token} {w : List Token} {next : Token.Kind} {n : Node}
      (hkinds : [lbrace, rbrace].map Token.kind = [.openCurly, .closeCurly])
      (hn : Derives .expression w .closeCurly n) :
      Derives .branch (lbrace :: w ++ [rbrace]) next n
  | ifThen {t : Token} {u v : List Token} {next : Token.Kind} {condition consequence : Node}
      (hkind : t.kind = .ifWord) (hcondition : Derives .expression u .openCurly condition)
      (hconsequence : Derives .branch v next consequence) :
      Derives .conditional (t :: u ++ v) next
        (.conditional condition consequence none (extent (t :: u ++ v)))
  | ifThenElse {t t' : Token} {u v w : List Token} {next : Token.Kind}
      {condition consequence alternative : Node}
      (hkinds : [t, t'].map Token.kind = [.ifWord, .elseWord])
      (hcondition : Derives .expression u .openCurly condition)
      (hconsequence : Derives .branch v .elseWord consequence)
      (halternative : Derives .branch w next alternative) :
      Derives .conditional (t :: u ++ v ++ t' :: w) next
        (.conditional condition consequence (some alternative) (extent (t :: u ++ v ++ t' :: w)))
  | ifThenElseIf {t t' : Token} {u v w : List Token} {next : Token.Kind}
      {condition consequence alternative : Node}
      (hkinds : [t, t'].map Token.kind = [.ifWord, .elseWord])
      (hcondition : Derives .expression u .openCurly condition)
      (hconsequence : Derives .branch v .elseWord consequence)
      (halternative : Derives .conditional w next alternative) :
      Derives .conditional (t :: u ++ v ++ t' :: w) next
        (.conditional condition consequence (some alternative) (extent (t :: u ++ v ++ t' :: w)))
  | noUnit {next : Token.Kind} : Derives .units [] next []
  | definedUnit {w rest : List Token} {next : Token.Kind} {n : Node} {ns : List Node}
      (hn : Derives .definition w (firstKind rest next) n) (hrest : Derives .units rest next ns) :
      Derives .units (w ++ rest) next (n :: ns)
  | bareUnit {w rest : List Token} {next : Token.Kind} {n : Node} {ns : List Node}
      (hn : Derives .expression w (firstKind rest next) n)
      (hfirst : w.head?.map Token.kind ≠ some .funcWord)
      (hrest : Derives .units rest next ns) :
      Derives .units (w ++ rest) next (.function "main" [] .double n true n.span :: ns)

section

variable {part : Part} {tier : Option Tier} {w : List Token} {next next' : Token.Kind} {n : Node}

/-- Whether a token of the kind neither starts an expression nor goes on with one, so that
every expression may end before it. -/
def Closes (kind : Token.Kind) : Prop := kind.startsExpression = false ∧ kind ≠ .operator

instance : DecidablePred Closes := fun _ => instDecidableAnd

/-- Whether the word may stand before a token of the kind: that one is no operator, does not
start the value of a return that ends the word and does not make a call of a name that ends it. -/
def Apart (w : List Token) (kind : Token.Kind) : Prop :=
  kind ≠ .operator ∧ ∀ t ∈ w.getLast?,
    (t.kind = .returnWord → kind.startsExpression = false) ∧
      (t.kind = .identifier → kind ≠ .openParen)

theorem Closes.apart {kind : Token.Kind} (h : Closes kind) (w : List Token) : Apart w kind := by
  refine ⟨h.2, fun _ _ => ⟨fun _ => h.1, ?_⟩⟩
  rintro _ rfl
  exact absurd h.1 (by decide)

theorem Apart.of_append {u v : List Token} {kind : Token.Kind} (h : Apart (u ++ v) kind) :
    Apart v kind := by
  refine ⟨h.1, fun t ht => h.2 t ?_⟩
  simp [List.getLast?_append, Option.mem_def.mp ht]

/-- A word of a part stays one, of the same value, before every token it may stand before. -/
theorem Derives.before {value : part.Value} (h : Derives part w next value)
    (hnext : Apart w next') : Derives part w next' value := by
  induction h with
  | number hkind hread => exact .number hkind hread
  | reference hkind => exact .reference hkind ((hnext.2 _ rfl).2 hkind)
  | call hkinds hvalues => exact .call hkinds hvalues
  | parenthesised hkinds hn => exact .parenthesised hkinds hn
  | defined _ ih => exact .defined (ih hnext)
  | chosen _ ih => exact .chosen (ih hnext)
  | returnNothing hkind => exact .returnNothing hkind ((hnext.2 _ rfl).1 hkind)
  | @returnValue t _ _ _ hkind _ _ ih =>
    exact .returnValue hkind (ih (hnext.of_append (u := [t]))) hnext.1
  | tighter _ ih => exact .tighter (ih hnext)
  | @binary _ _ t _ _ _ _ _ hkind hrow hlhs _ _ ih =>
    exact .binary hkind hrow hlhs (ih (hnext.of_append.of_append (u := [t])))
  | noArgument => exact .noArgument
  | @lastArgument label colon _ _ _ hkinds _ ih =>
    exact .lastArgument hkinds (ih (hnext.of_append (u := [label, colon])))
  | @argument _ _ comma _ _ _ _ _ hkinds hn _ _ ih =>
    exact .argument hkinds hn (ih (hnext.of_append.of_append (u := [comma])))
  | noParameter => exact .noParameter
  | lastParameter hkinds => exact .lastParameter hkinds
  | @parameter name colon type comma _ _ _ hkinds _ ih =>
    exact .parameter hkinds (ih (hnext.of_append (u := [name, colon, type, comma])))
  | definition hkinds hps hn => exact .definition hkinds hps hn
  | branch hkinds hn => exact .branch hkinds hn
  | ifThen hkind hcondition _ _ ih => exact .ifThen hkind hcondition (ih hnext.of_append)
  | @ifThenElse _ t' _ _ _ _ _ _ _ hkinds hcondition hconsequence _ _ _ ih =>
    exact .ifThenElse hkinds hcondition hconsequence (ih (hnext.of_append.of_append (u := [t'])))
  | @ifThenElseIf _ t' _ _ _ _ _ _ _ hkinds hcondition hconsequence _ _ _ ih =>
    exact .ifThenElseIf hkinds hcondition hconsequence (ih (hnext.of_append.of_append (u := [t'])))
  | noUnit => exact .noUnit
  -- Only the last unit stands before the token; the others stand before the next unit.
  | @definedUnit _ rest _ _ _ hn _ ih ihrest =>
    cases rest with
    | nil => exact .definedUnit (ih (by simpa using hnext)) (ihrest hnext.of_append)
    | cons => exact .definedUnit hn (ihrest hnext.of_append)
  | @bareUnit _ rest _ _ _ hn hfirst _ ih ihrest =>
    cases rest with
    | nil => exact .bareUnit (ih (by simpa using hnext)) hfirst (ihrest hnext.of_append)
    | cons => exact .bareUnit hn hfirst (ihrest hnext.of_append)

/-- The parser has the operators of these rows, with the same symbols and tiers. -/
theorem mem_rows_iff {symbol : String} {op : Operator} {tier : Tier} :
    (symbol, op, tier) ∈ rows ↔ symbol = op.symbol ∧ tier = op.tier := by
  cases op <;> simp [rows, Operator.symbol, Operator.tier]

/-- A chain goes on with an operator of its tier. -/
theorem Derives.of_operator {op : Operator} {t : Token} {u v : List Token} {lhs rhs : Node}
    (hkind : t.kind = .operator) (hsymbol : t.value = op.symbol)
    (hlhs : Derives (.chain (some op.tier)) u .operator lhs)
    (hrhs : Derives (.chain (above op.tier)) v next rhs) :
    Derives (.chain (some op.tier)) (u ++ t :: v) next
      (.binary op lhs rhs (lhs.span.join rhs.span)) :=
  .binary hkind (mem_rows_iff.mpr ⟨hsymbol, rfl⟩) hlhs hrhs

theorem Derives.before_closing {value : part.Value} (h : Derives part w next value)
    (hnext : Closes next') : Derives part w next' value := h.before (hnext.apart w)

/-- A single operand is a chain without operators. -/
theorem Derives.of_operand (h : Derives .operand w next n) : Derives (.chain tier) w next n := by
  have hproduct : Derives (.chain (some .multiplicative)) w next n := .tighter h
  have hsum : Derives (.chain (some .additive)) w next n := .tighter hproduct
  match tier with
  | none => exact h
  | some .multiplicative => exact hproduct
  | some .additive => exact hsum
  | some .relational => exact .tighter hsum

/-- The chains whose operators bind at least as tightly as the threshold. -/
def tierAt (threshold : Int) : Option Tier :=
  if threshold ≤ Tier.relational.power then some .relational
  else if threshold ≤ Tier.additive.power then some .additive
  else if threshold ≤ Tier.multiplicative.power then some .multiplicative
  else none

theorem tierAt_power (op : Operator) : tierAt op.power = some op.tier := by
  cases op <;> rfl

theorem tierAt_power_succ (op : Operator) : tierAt (op.power + 1) = above op.tier := by
  cases op <;> rfl

/-- How many tiers a chain does without. -/
def rank : Option Tier → Nat
  | some .relational => 0
  | some .additive => 1
  | some .multiplicative => 2
  | none => 3

theorem rank_tierAt_mono {threshold threshold' : Int} (hle : threshold ≤ threshold') :
    rank (tierAt threshold) ≤ rank (tierAt threshold') := by
  have hrelational : Tier.relational.power = 10 := rfl
  have hadditive : Tier.additive.power = 20 := rfl
  have hmultiplicative : Tier.multiplicative.power = 40 := rfl
  grind [rank, tierAt]

/-- Chains of tighter operators are chains of looser ones. -/
theorem Derives.of_rank_le {tier' : Option Tier} (hle : rank tier ≤ rank tier')
    (h : Derives (.chain tier') w next n) : Derives (.chain tier) w next n := by
  match tier', tier, h with
  | none, _, h => exact h.of_operand
  | some .multiplicative, some .multiplicative, h => exact h
  | some .multiplicative, some .additive, h => exact .tighter h
  | some .multiplicative, some .relational, h => exact .tighter (.tighter h)
  | some .additive, some .additive, h => exact h
  | some .additive, some .relational, h => exact .tighter h
  | some .relational, some .relational, h => exact h
  | some .multiplicative, none, _ | some .additive, none, _ | some .relational, none, _
  | some .additive, some .multiplicative, _ | some .relational, some .multiplicative, _
  | some .relational, some .additive, _ => exact absurd hle (by decide)

theorem Derives.loosen {threshold threshold' : Int} (hle : threshold ≤ threshold')
    (h : Derives (.chain (tierAt threshold')) w next n) :
    Derives (.chain (tierAt threshold)) w next n :=
  h.of_rank_le (rank_tierAt_mono hle)

/-- The parts whose words are expressions as they stand. -/
def Part.IsExpression : Part → Prop
  | .chain _ | .definition | .conditional => True
  | .branch | .arguments | .parameters | .units => False

/-- An expression is not empty, and its first token tells that it starts one. -/
theorem Derives.exists_cons {value : part.Value} (h : Derives part w next value)
    (hpart : part.IsExpression) : ∃ t u, w = t :: u ∧ t.kind.startsExpression = true := by
  induction h with
  | number hkind =>
    refine ⟨_, [], rfl, ?_⟩
    rcases hkind with h | h <;> simp [h, Token.Kind.startsExpression]
  | reference hkind => exact ⟨_, [], rfl, by simp [hkind, Token.Kind.startsExpression]⟩
  | call hkinds =>
    simp only [List.map_cons, List.cons.injEq] at hkinds
    exact ⟨_, _, rfl, by simp [hkinds.1, Token.Kind.startsExpression]⟩
  | parenthesised hkinds =>
    simp only [List.map_cons, List.cons.injEq] at hkinds
    exact ⟨_, _, rfl, by simp [hkinds.1, Token.Kind.startsExpression]⟩
  | defined _ ih | chosen _ ih | tighter _ ih => exact ih trivial
  | returnNothing hkind | returnValue hkind =>
    exact ⟨_, _, rfl, by simp [hkind, Token.Kind.startsExpression]⟩
  | binary _ _ _ _ ih _ =>
    obtain ⟨t, u, rfl, ht⟩ := ih trivial
    exact ⟨t, _, rfl, ht⟩
  | definition hkinds =>
    simp only [List.map_cons, List.cons.injEq] at hkinds
    exact ⟨_, _, rfl, by simp [hkinds.1, Token.Kind.startsExpression]⟩
  | ifThen hkind => exact ⟨_, _, rfl, by simp [hkind, Token.Kind.startsExpression]⟩
  | ifThenElse hkinds | ifThenElseIf hkinds =>
    simp only [List.map_cons, List.cons.injEq] at hkinds
    exact ⟨_, _, rfl, by simp [hkinds.1, Token.Kind.startsExpression]⟩
  | noArgument | lastArgument | argument | noParameter | lastParameter | parameter | branch
  | noUnit | definedUnit | bareUnit => exact hpart.elim

theorem Derives.branch_eq_cons (h : Derives .branch w next n) :
    ∃ t u, w = t :: u ∧ t.kind = .openCurly := by
  cases h with
  | branch hkinds =>
    simp only [List.map_cons, List.cons.injEq] at hkinds
    exact ⟨_, _, rfl, hkinds.1⟩

theorem Derives.conditional_eq_cons (h : Derives .conditional w next n) :
    ∃ t u, w = t :: u ∧ t.kind = .ifWord := by
  cases h with
  | ifThen hkind => exact ⟨_, _, rfl, hkind⟩
  | ifThenElse hkinds | ifThenElseIf hkinds =>
    simp only [List.map_cons, List.cons.injEq] at hkinds
    exact ⟨_, _, rfl, hkinds.1⟩

theorem Derives.definition_eq_cons (h : Derives .definition w next n) :
    ∃ t u, w = t :: u ∧ t.kind = .funcWord := by
  cases h with
  | definition hkinds =>
    simp only [List.map_cons, List.cons.injEq] at hkinds
    exact ⟨_, _, rfl, hkinds.1⟩

theorem firstKind_append (u v : List Token) (next : Token.Kind) :
    firstKind (u ++ v) next = firstKind u (firstKind v next) := by
  cases u <;> rfl

/-- Programs can be put one behind the other, if the first one may stand before the second. -/
theorem Derives.append_units {u v : List Token} {ns ms : List Node}
    (hu : Derives .units u (firstKind v next) ns) (hv : Derives .units v next ms) :
    Derives .units (u ++ v) next (ns ++ ms) := by
  induction ns generalizing u with
  | nil =>
    cases hu with
    | noUnit => exact hv
  | cons n ns ih =>
    cases hu with
    | definedUnit hn hrest =>
      rw [List.append_assoc]
      exact .definedUnit (by rwa [firstKind_append]) (ih hrest)
    | bareUnit hn hfirst hrest =>
      rw [List.append_assoc]
      exact .bareUnit (by rwa [firstKind_append]) hfirst (ih hrest)

/-- Before a program stands its end or the start of an expression. -/
theorem Derives.firstKind_units {ns : List Node} (h : Derives .units w next ns) :
    firstKind w next = next ∨ (firstKind w next).startsExpression = true := by
  cases h with
  | noUnit => exact .inl rfl
  | definedUnit hn =>
    obtain ⟨t, u, rfl, ht⟩ := hn.exists_cons trivial
    exact .inr ht
  | bareUnit hn =>
    obtain ⟨t, u, rfl, ht⟩ := hn.exists_cons trivial
    exact .inr ht

end

end ExprLang.Grammar
