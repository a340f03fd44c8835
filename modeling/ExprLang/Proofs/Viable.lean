import ExprLang.Proofs.Grammar

/-!
Viable words. A word is viable for a part of a program if some word can be put behind it
such that both together are of that part. Whatever has been read of a construct, there is
always a short way to finish it: an expression is finished by a name, a list by what closes
it, and the marks that a construct still lacks by themselves.
-/
namespace ExprLang.Grammar

open Operator (Tier)

/-- A token of the kind, to finish a construct with. -/
def sample (kind : Token.Kind) : Token := ⟨kind, "x", ⟨.null, .null⟩⟩

@[simp]
theorem kind_sample (kind : Token.Kind) : (sample kind).kind = kind := rfl

/-- The word can be completed to a word of the part, which any closing token may follow. -/
def Viable (part : Part) (w : List Token) : Prop :=
  ∃ (rest : List Token) (value : part.Value),
    ∀ next, Closes next → Derives part (w ++ rest) next value

variable {part : Part} {tier : Option Tier} {u v w : List Token} {next : Token.Kind} {t t' : Token}

theorem Viable.of_append (h : Viable part (u ++ v)) : Viable part u := by
  obtain ⟨rest, value, hrest⟩ := h
  exact ⟨v ++ rest, value, fun next hnext => by simpa using hrest next hnext⟩

theorem Derives.viable {value : part.Value} (h : Derives part w next value) : Viable part w :=
  ⟨[], value, fun _ hnext => by simpa using h.before_closing hnext⟩

namespace Viable

theorem of_operand (h : Viable .operand w) : Viable (.chain tier) w := by
  obtain ⟨rest, n, hn⟩ := h
  exact ⟨rest, n, fun next hnext => (hn next hnext).of_operand⟩

theorem chain_nil : Viable (.chain tier) [] := by
  have hname : Derives .operand [sample .identifier] .eof
      (.reference "x" (extent [sample .identifier])) := .reference rfl (by decide)
  exact (hname.viable.of_append (u := [])).of_operand

theorem loosen {threshold threshold' : Int} (hle : threshold ≤ threshold')
    (h : Viable (.chain (tierAt threshold')) w) : Viable (.chain (tierAt threshold)) w := by
  obtain ⟨rest, n, hn⟩ := h
  exact ⟨rest, n, fun next hnext => (hn next hnext).loosen hle⟩

theorem binary {op : Operator} {lhs : Node} (hkind : t.kind = .operator)
    (hsymbol : t.value = op.symbol) (hlhs : Derives (.chain (some op.tier)) u .operator lhs)
    (h : Viable (.chain (above op.tier)) v) : Viable (.chain (some op.tier)) (u ++ t :: v) := by
  obtain ⟨rest, rhs, hrhs⟩ := h
  refine ⟨rest, .binary op lhs rhs (lhs.span.join (Node.span rhs)), fun next hnext => ?_⟩
  simpa using Derives.of_operator hkind hsymbol hlhs (hrhs next hnext)

theorem arguments_nil : Viable .arguments [] :=
  (Derives.noArgument : Derives .arguments [] .eof []).viable

theorem lastArgument (hkinds : [t, t'].map Token.kind = [.identifier, .colon])
    (h : Viable .expression w) : Viable .arguments (t :: t' :: w) := by
  obtain ⟨rest, n, hn⟩ := h
  exact ⟨rest, _, fun next hnext => .lastArgument hkinds (hn next hnext)⟩

theorem argument {comma : Token} {n : Node}
    (hkinds : [t, t', comma].map Token.kind = [.identifier, .colon, .comma])
    (hn : Derives .expression u .comma n) (h : Viable .arguments v) :
    Viable .arguments (t :: t' :: u ++ comma :: v) := by
  obtain ⟨rest, values, hvalues⟩ := h
  refine ⟨rest, (t.value, n) :: values, fun next hnext => ?_⟩
  simpa using Derives.argument hkinds hn (hvalues next hnext)

theorem call (hkinds : [t, t'].map Token.kind = [.identifier, .openParen])
    (h : Viable .arguments w) : Viable .operand (t :: t' :: w) := by
  obtain ⟨rest, values, hvalues⟩ := h
  have hcall : Derives .operand (t :: t' :: (w ++ rest) ++ [sample .closeParen]) .eof _ :=
    .call (by simpa using hkinds) (hvalues .closeParen (by decide))
  exact of_append (v := rest ++ [sample .closeParen]) (by simpa using hcall.viable)

theorem parenthesised (hkind : t.kind = .openParen) (h : Viable .expression w) :
    Viable .operand (t :: w) := by
  obtain ⟨rest, n, hn⟩ := h
  have hparens : Derives .operand (t :: (w ++ rest) ++ [sample .closeParen]) .eof n :=
    .parenthesised (by simpa using hkind) (hn .closeParen (by decide))
  exact of_append (v := rest ++ [sample .closeParen]) (by simpa using hparens.viable)

theorem returnValue (hkind : t.kind = .returnWord) (h : Viable .expression w) :
    Viable .operand (t :: w) := by
  obtain ⟨rest, n, hn⟩ := h
  exact ⟨rest, _, fun next hnext => .returnValue hkind (hn next hnext) hnext.2⟩

theorem parameters_nil : Viable .parameters [] :=
  (Derives.noParameter : Derives .parameters [] .eof []).viable

theorem lastParameter {type : Token}
    (hkinds : [t, t', type].map Token.kind = [.identifier, .colon, .identifier]) :
    Viable .parameters [t, t', type] :=
  (Derives.lastParameter hkinds : Derives .parameters [t, t', type] .eof _).viable

theorem parameter {type comma : Token}
    (hkinds : [t, t', type, comma].map Token.kind = [.identifier, .colon, .identifier, .comma])
    (h : Viable .parameters w) : Viable .parameters (t :: t' :: type :: comma :: w) := by
  obtain ⟨rest, ps, hps⟩ := h
  exact ⟨rest, _, fun next hnext => .parameter hkinds (hps next hnext)⟩

section Definition

variable {func name lparen rparen arrow type lbrace : Token}

theorem definitionBody {ps : List Parameter}
    (hkinds : [func, name, lparen, rparen, arrow, type, lbrace].map Token.kind =
      [.funcWord, .identifier, .openParen, .closeParen, .arrow, .identifier, .openCurly])
    (hps : Derives .parameters w .closeParen ps) (h : Viable .expression v) :
    Viable .definition (func :: name :: lparen :: w ++ rparen :: arrow :: type :: lbrace :: v) := by
  obtain ⟨rest, n, hn⟩ := h
  have hdefinition : Derives .definition (func :: name :: lparen :: w ++
      rparen :: arrow :: type :: lbrace :: (v ++ rest) ++ [sample .closeCurly]) .eof _ :=
    .definition (by simpa using hkinds) hps (hn .closeCurly (by decide))
  exact of_append (v := rest ++ [sample .closeCurly]) (by simpa using hdefinition.viable)

/-- What follows the parameters of a definition, up to the body, from any mark of it on. -/
theorem definitionParameters
    (hkinds : [func, name, lparen].map Token.kind = [.funcWord, .identifier, .openParen])
    (h : Viable .parameters w) : Viable .definition (func :: name :: lparen :: w) := by
  obtain ⟨rest, ps, hps⟩ := h
  have hbody : Viable .definition (func :: name :: lparen :: (w ++ rest) ++
      sample .closeParen :: sample .arrow :: sample .identifier :: sample .openCurly :: []) :=
    definitionBody (by simpa using hkinds) (hps .closeParen (by decide)) chain_nil
  exact of_append (v := rest ++ [.closeParen, .arrow, .identifier, .openCurly].map sample)
    (by simpa using hbody)

end Definition

theorem branch (hkind : t.kind = .openCurly) (h : Viable .expression w) :
    Viable .branch (t :: w) := by
  obtain ⟨rest, n, hn⟩ := h
  have hbranch : Derives .branch (t :: (w ++ rest) ++ [sample .closeCurly]) .eof n :=
    .branch (by simpa using hkind) (hn .closeCurly (by decide))
  exact of_append (v := rest ++ [sample .closeCurly]) (by simpa using hbranch.viable)

theorem branch_nil : Viable .branch [] :=
  (branch (kind_sample .openCurly) chain_nil).of_append (u := [])

theorem consequence {condition : Node} (hkind : t.kind = .ifWord)
    (hcondition : Derives .expression u .openCurly condition) (h : Viable .branch v) :
    Viable .conditional (t :: u ++ v) := by
  obtain ⟨rest, n, hn⟩ := h
  refine ⟨rest, .conditional condition n none (extent (t :: u ++ (v ++ rest))),
    fun next hnext => ?_⟩
  simpa using Derives.ifThen hkind hcondition (hn next hnext)

theorem condition (hkind : t.kind = .ifWord) (h : Viable .expression w) :
    Viable .conditional (t :: w) := by
  obtain ⟨rest, n, hn⟩ := h
  have hconsequence := consequence hkind (hn .openCurly (by decide)) branch_nil
  exact of_append (v := rest) (by simpa using hconsequence)

section Alternative

variable {condition consequence : Node} (hkinds : [t, t'].map Token.kind = [.ifWord, .elseWord])
  (hcondition : Derives .expression u .openCurly condition)
  (hconsequence : Derives .branch v .elseWord consequence)

include hkinds hcondition hconsequence

theorem alternative (h : Viable .branch w) : Viable .conditional (t :: u ++ v ++ t' :: w) := by
  obtain ⟨rest, n, hn⟩ := h
  refine ⟨rest, .conditional condition consequence (some n)
    (extent (t :: u ++ v ++ t' :: (w ++ rest))), fun next hnext => ?_⟩
  simpa using Derives.ifThenElse hkinds hcondition hconsequence (hn next hnext)

theorem nextConditional (h : Viable .conditional w) :
    Viable .conditional (t :: u ++ v ++ t' :: w) := by
  obtain ⟨rest, n, hn⟩ := h
  refine ⟨rest, .conditional condition consequence (some n)
    (extent (t :: u ++ v ++ t' :: (w ++ rest))), fun next hnext => ?_⟩
  simpa using Derives.ifThenElseIf hkinds hcondition hconsequence (hn next hnext)

end Alternative

theorem defined (h : Viable .definition w) : Viable .operand w := by
  obtain ⟨rest, n, hn⟩ := h
  exact ⟨rest, n, fun next hnext => .defined (hn next hnext)⟩

theorem units_nil : Viable .units [] := (Derives.noUnit : Derives .units [] .eof []).viable

theorem definedUnit (h : Viable .definition w) : Viable .units w := by
  obtain ⟨rest, n, hn⟩ := h
  have hunit : Derives .units ((w ++ rest) ++ []) .eof [n] :=
    .definedUnit (hn .eof (by decide)) .noUnit
  exact of_append (v := rest) (by simpa using hunit.viable)

theorem bareUnit (h : Viable .expression (t :: w)) (hfirst : t.kind ≠ .funcWord) :
    Viable .units (t :: w) := by
  obtain ⟨rest, n, hn⟩ := h
  have hunit : Derives .units ((t :: w ++ rest) ++ []) .eof [Node.entry n] :=
    .bareUnit (hn .eof (by decide)) (by simpa using hfirst) .noUnit
  exact of_append (v := rest) (by simpa using hunit.viable)

/-- Units that were read before a token are a viable beginning with all that is viable there. -/
theorem append_units {ns : List Node} (hu : Derives .units u (firstKind v next) ns)
    (h : Viable .units v) : Viable .units (u ++ v) := by
  cases v with
  | nil => simpa using hu.viable
  | cons t v =>
    obtain ⟨rest, ms, hms⟩ := h
    have hwhole : Derives .units (u ++ (t :: v ++ rest)) .eof (ns ++ ms) :=
      .append_units hu (hms .eof (by decide))
    exact of_append (v := rest) (by simpa using hwhole.viable)

theorem chosen (h : Viable .conditional w) : Viable .operand w := by
  obtain ⟨rest, n, hn⟩ := h
  exact ⟨rest, n, fun next hnext => .chosen (hn next hnext)⟩

end Viable

end ExprLang.Grammar
