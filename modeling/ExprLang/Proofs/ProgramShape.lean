import ExprLang.Proofs.Language
import ExprLang.Proofs.Subtrees

/-!
The shape of programs. The loop over the units of a program takes one round for each: at
`func` it reads a definition, and elsewhere a bare expression, which it wraps as an entry. A
definition can also stand anywhere inside an expression, an entry cannot. So the mark of an
entry tells which rounds met a bare expression, and every other function of a program, at
whatever depth, was read from a definition in its tokens.
-/
namespace ExprLang

open Grammar

namespace Grammar

/-- The tokens of a definition by their places, with what its parameters and its body are. -/
structure Definition where
  func : Token
  name : Token
  lparen : Token
  parameterWord : List Token
  rparen : Token
  arrow : Token
  type : Token
  lbrace : Token
  bodyWord : List Token
  rbrace : Token
  parameters : List Parameter
  body : Node
  kinds : [func, name, lparen, rparen, arrow, type, lbrace, rbrace].map Token.kind =
    [.funcWord, .identifier, .openParen, .closeParen, .arrow, .identifier, .openCurly, .closeCurly]
  parameters_derived : Derives .parameters parameterWord .closeParen parameters
  body_derived : Derives .expression bodyWord .closeCurly body

def Definition.word (d : Definition) : List Token :=
  d.func :: d.name :: d.lparen :: d.parameterWord ++
    d.rparen :: d.arrow :: d.type :: d.lbrace :: d.bodyWord ++ [d.rbrace]

end Grammar

namespace Node

def isEntry : Node → Bool
  | .function _ _ _ _ isEntry _ => isEntry
  | _ => false

/-- The node is no entry. If it is a function, its parameters are labelled as they are named,
and it was read from a definition among the tokens, whose type name tells whether it returns
a value. -/
def Plain (tokens : List Token) : Node → Prop
  | .function name ps returns body isEntry span =>
    isEntry = false ∧ (∀ p ∈ ps, p.label = p.name) ∧
      ∃ d : Definition, d.word <:+: tokens ∧ d.name.value = name ∧ d.parameters = ps ∧
        d.body = body ∧ extent d.word = span ∧ (returns = .void ↔ d.type.value = "Void")
  | _ => True

end Node

theorem ValueType.ofTypeName_eq_void_iff {name : String} :
    ofTypeName name = .void ↔ name = "Void" := by
  simp [ofTypeName]

namespace Grammar

variable {tokens : List Token}

/-- No entry stands below the top of a program. -/
def Part.Plain (tokens : List Token) : (part : Part) → part.Value → Prop
  | .arguments, values => ∀ value ∈ values, value.2.Everywhere (Node.Plain tokens)
  | .parameters, ps => ∀ p ∈ ps, p.label = p.name
  | .units, ns => ∀ n ∈ ns, (n.isEntry = false → n.Plain tokens) ∧
      ∀ child ∈ n.children, child.Everywhere (Node.Plain tokens)
  | .chain _, n | .definition, n | .conditional, n | .branch, n =>
    n.Everywhere (Node.Plain tokens)

/-- What is derived from some of the tokens was read from definitions among them. -/
theorem Derives.plain {part : Part} {w : List Token} {next : Token.Kind} {value : part.Value}
    (h : Derives part w next value) (hw : w <:+: tokens) : part.Plain tokens value := by
  have hinside {u v : List Token} (l r : List Token) (hv : v <:+: tokens) (h : v = l ++ u ++ r) :
      u <:+: tokens := (h ▸ List.infix_append l u r).trans hv
  induction h with
  | number | reference | returnNothing => exact .of_children trivial (by simp [Node.children])
  | @call name lparen rparen w _ values _ _ ih =>
    have hvalues : ∀ value ∈ values, value.2.Everywhere (Node.Plain tokens) :=
      ih (hinside [name, lparen] [rparen] hw rfl)
    exact .of_children trivial (by simpa only [Node.children, List.forall_mem_map] using hvalues)
  | @parenthesised first last _ _ _ _ _ ih | @branch first last _ _ _ _ _ ih =>
    exact ih (hinside [first] [last] hw rfl)
  | defined _ ih | chosen _ ih | tighter _ ih => exact ih hw
  | @returnValue t _ _ _ _ _ _ ih =>
    have hn := ih (hinside [t] [] hw (by simp))
    exact .of_children trivial (List.forall_mem_singleton.mpr hn)
  | @binary _ _ t u v _ _ _ _ _ _ _ ih ih' =>
    have hlhs := ih (hinside [] (t :: v) hw rfl)
    have hrhs := ih' (hinside (u ++ [t]) [] hw (by simp))
    exact .of_children trivial (by simpa [Node.children] using ⟨hlhs, hrhs⟩)
  | noArgument | noParameter | noUnit => simp [Part.Plain]
  | @lastArgument label colon _ _ _ _ _ ih =>
    exact List.forall_mem_singleton.mpr (ih (hinside [label, colon] [] hw (by simp)))
  | @argument label colon comma w rest _ _ _ _ _ _ ih ihrest =>
    have hn := ih (hinside [label, colon] (comma :: rest) hw rfl)
    have hrest := ihrest (hinside (label :: colon :: w ++ [comma]) [] hw (by simp))
    exact List.forall_mem_cons.mpr ⟨hn, hrest⟩
  | lastParameter => exact List.forall_mem_singleton.mpr rfl
  | @parameter name colon type comma _ _ _ _ _ ih =>
    have hrest := ih (hinside [name, colon, type, comma] [] hw (by simp))
    exact List.forall_mem_cons.mpr ⟨rfl, hrest⟩
  | @definition func name lparen rparen arrow type lbrace rbrace w body _ ps n hkinds hps hn
      ihps ih =>
    let d : Definition := ⟨func, name, lparen, w, rparen, arrow, type, lbrace, body, rbrace, ps, n,
      hkinds, hps, hn⟩
    have hlabels := ihps (hinside [func, name, lparen]
      (rparen :: arrow :: type :: lbrace :: body ++ [rbrace]) hw (by simp))
    have hbody := ih (hinside (func :: name :: lparen :: w ++ [rparen, arrow, type, lbrace])
      [rbrace] hw (by simp))
    refine .of_children ⟨rfl, hlabels, d, hw, rfl, rfl, rfl, rfl, ?_⟩
      (List.forall_mem_singleton.mpr hbody)
    exact ValueType.ofTypeName_eq_void_iff
  | @ifThen t u v _ _ _ _ _ _ ih ih' =>
    have hcondition := ih (hinside [t] v hw rfl)
    have hconsequence := ih' (hinside (t :: u) [] hw (by simp))
    exact .of_children trivial (by simpa [Node.children] using ⟨hcondition, hconsequence⟩)
  | @ifThenElse t t' u v w _ _ _ _ _ _ _ _ ih ih' ih''
  | @ifThenElseIf t t' u v w _ _ _ _ _ _ _ _ ih ih' ih'' =>
    have hcondition := ih (hinside [t] (v ++ t' :: w) hw (by simp))
    have hconsequence := ih' (hinside (t :: u) (t' :: w) hw (by simp))
    have halternative := ih'' (hinside (t :: u ++ v ++ [t']) [] hw (by simp))
    exact .of_children trivial
      (by simpa [Node.children] using ⟨hcondition, hconsequence, halternative⟩)
  | @definedUnit w rest _ _ _ _ _ ih ihrest =>
    have hn := ih (hinside [] rest hw rfl)
    have hrest := ihrest (hinside w [] hw (by simp))
    exact List.forall_mem_cons.mpr ⟨⟨fun _ => hn.self, fun _ hchild => hn.child hchild⟩, hrest⟩
  | @bareUnit w rest _ _ _ _ _ _ ih ihrest =>
    have hn := ih (hinside [] rest hw rfl)
    have hrest := ihrest (hinside w [] hw (by simp))
    refine List.forall_mem_cons.mpr ⟨⟨fun hplain => ?_, List.forall_mem_singleton.mpr hn⟩, hrest⟩
    simp [Node.isEntry] at hplain

end Grammar

namespace Cursor

open Construct Parse

variable {c d : Cursor} {n : Node} {rounds : List (Cursor × Node)}

/-- The rounds of the loop over the units from the cursor on: where each stands and what it
reads. -/
inductive Rounds : Cursor → List (Cursor × Node) → Prop
  | stop {c : Cursor} (heof : c.current.kind = .eof) : Rounds c []
  | definition {c d : Cursor} {n : Node} {rest : List (Cursor × Node)}
      (hkind : c.current.kind = .funcWord) (hn : c.definition = (.ok n, d))
      (hrest : Rounds d rest) : Rounds c ((c, n) :: rest)
  | bare {c d : Cursor} {n : Node} {rest : List (Cursor × Node)}
      (hkind : c.current.kind ≠ .funcWord) (hn : c.entry = (.ok (some n), d))
      (hrest : Rounds d rest) : Rounds c ((c, n) :: rest)

theorem exists_function_of_definition (h : c.definition = (.ok n, d)) :
    ∃ name ps returns body span, n = .function name ps returns body false span := by
  have hreads := reads_definition (c := c) (readsChain_expression c.remaining) c.budget
  have hdone : Construct.definition (Construct.expression c.remaining) c.budget c = .done n d :=
    Outcome.result_eq_ok_iff.mp h
  rw [hdone] at hreads
  obtain ⟨w, -, hn⟩ := hreads
  cases hn with
  | definition => exact ⟨_, _, _, _, _, rfl⟩

theorem exists_expression_of_entry (h : c.entry = (.ok (some n), d)) :
    ∃ body, c.expression = (.ok (some body), d) ∧ n = body.entry := by
  have hdone : Construct.entry c.nested c.budget c = .done (some n) d :=
    Outcome.result_eq_ok_iff.mp h
  simp only [Construct.entry, Body.entry, bind] at hdone
  split at hdone
  · rename_i body next hchain
    obtain ⟨hbody, rfl⟩ : body.map Node.entry = some n ∧ next = d := by
      simpa [pure] using hdone
    obtain ⟨body, rfl, rfl⟩ := Option.map_eq_some_iff.mp hbody
    exact ⟨body, Outcome.result_eq_ok_iff.mpr hchain, rfl⟩
  · simp at hdone
  · simp at hdone

/-- A round reads a definition at `func` and wraps a bare expression elsewhere. -/
theorem Rounds.unit (h : c.Rounds rounds) : ∀ round ∈ rounds,
    (round.1.current.kind = .funcWord ∧
      ∃ name ps returns body span, round.2 = .function name ps returns body false span) ∨
    (round.1.current.kind ≠ .funcWord ∧
      ∃ body d, round.1.expression = (.ok (some body), d) ∧ round.2 = body.entry) := by
  induction h with
  | stop => simp
  | definition hkind hn _ ih =>
    exact List.forall_mem_cons.mpr ⟨.inl ⟨hkind, exists_function_of_definition hn⟩, ih⟩
  | bare hkind hn _ ih =>
    obtain ⟨body, hbody, hentry⟩ := exists_expression_of_entry hn
    exact List.forall_mem_cons.mpr ⟨.inr ⟨hkind, body, _, hbody, hentry⟩, ih⟩

/-- The units of a program are read round by round. -/
theorem exists_rounds {w : List Token} {ns : List Node} (hmoves : c.Moves w d)
    (heof : d.current.kind = .eof) (h : Derives .units w .eof ns) :
    ∃ rounds, c.Rounds rounds ∧ rounds.map Prod.snd = ns := by
  induction ns generalizing c w with
  | nil =>
    cases h with
    | noUnit =>
      obtain rfl := hmoves.eq_of_nil
      exact ⟨[], .stop heof, rfl⟩
  | cons n ns ih =>
    cases h with
    | @definedUnit u rest _ _ _ hn hrest =>
      obtain ⟨e, m₁, m₂⟩ := hmoves.split
      obtain ⟨rounds, hrounds, rfl⟩ := ih m₂ hrest
      obtain ⟨t, u, rfl, ht⟩ := hn.definition_eq_cons
      have hkind : c.current.kind = .funcWord := by rw [m₁.current_of_cons, ht]
      have hread : c.definition = (.ok n, e) := Outcome.result_eq_ok_iff.mpr
        (definition_of_derives (accepts_expression c.remaining) (Nat.le_refl _)
          c.remaining_lt_budget m₁ hn)
      exact ⟨(c, n) :: rounds, .definition hkind hread hrounds, rfl⟩
    | @bareUnit u rest _ n _ hn hfirst hrest =>
      obtain ⟨e, m₁, m₂⟩ := hmoves.split
      obtain ⟨rounds, hrounds, rfl⟩ := ih m₂ hrest
      obtain ⟨t, u, rfl, -⟩ := hn.exists_cons trivial
      have hkind : c.current.kind ≠ .funcWord := by
        rw [m₁.current_of_cons]
        simpa using hfirst
      have hread : c.entry = (.ok (some n.entry), e) := Outcome.result_eq_ok_iff.mpr
        (entry_of_derives (accepts_expression c.remaining) (Nat.le_refl _) c.remaining_lt_budget
          m₁ m₂ heof (by rwa [heof]) (by rwa [heof]))
      exact ⟨(c, n.entry) :: rounds, .bare hkind hread hrounds, rfl⟩

end Cursor

namespace Program

variable {tokens : List Token} {file : String} {nodes : List Node}

/-- Each node of a program is the function that one round of the loop has read. Exactly those
read elsewhere than at `func` are entries, which wrap the expression read there; all other
functions, and all nodes below the top, are plain. -/
theorem ofTokens_shape (h : ofTokens tokens file = .ok nodes) :
    ∃ rounds, (Cursor.start tokens file).Rounds rounds ∧ rounds.map Prod.snd = nodes ∧
      (∀ round ∈ rounds, ∃ name ps returns body isEntry span,
        round.2 = .function name ps returns body isEntry span ∧
        (isEntry = true ↔ round.1.current.kind ≠ .funcWord) ∧
        (isEntry = true → (∃ d, round.1.expression = (.ok (some body), d)) ∧
          name = "main" ∧ ps = [] ∧ returns = .double ∧ span = body.span) ∧
        (isEntry = false → round.2.Plain tokens) ∧ body.Everywhere (Node.Plain tokens)) ∧
      nodes.countP (fun n => !n.isEntry) =
        rounds.countP fun round => round.1.current.kind = .funcWord := by
  have hderives := derives_of_ofTokens h
  have hplain : ∀ n ∈ nodes, (n.isEntry = false → n.Plain tokens) ∧
      ∀ child ∈ n.children, child.Everywhere (Node.Plain tokens) :=
    hderives.plain (List.takeWhile_prefix _).isInfix
  obtain ⟨d, hmoves, heof⟩ := (Cursor.start tokens file).exists_moves_word
  rw [Cursor.word_start] at hmoves
  obtain ⟨rounds, hrounds, hnodes⟩ := Cursor.exists_rounds hmoves heof hderives
  refine ⟨rounds, hrounds, hnodes, fun round hround => ?_, ?_⟩
  · obtain ⟨hself, hchildren⟩ := hplain round.2 (hnodes ▸ List.mem_map_of_mem hround)
    rcases hrounds.unit round hround with ⟨hkind, name, ps, returns, body, span, hfunction⟩ |
      ⟨hkind, body, d, hbody, hentry⟩
    · rw [hfunction] at hself hchildren ⊢
      exact ⟨name, ps, returns, body, false, span, rfl, by simp [hkind], nofun, hself,
        hchildren body (List.mem_singleton_self body)⟩
    · rw [hentry] at hchildren ⊢
      exact ⟨"main", [], .double, body, true, body.span, rfl, by simp [hkind],
        fun _ => ⟨⟨d, hbody⟩, rfl, rfl, rfl, rfl⟩, nofun,
        hchildren body (List.mem_singleton_self body)⟩
  · rw [← hnodes, List.countP_map]
    apply List.countP_congr
    intro round hround
    rcases hrounds.unit round hround with ⟨hkind, name, ps, returns, body, span, hfunction⟩ |
      ⟨hkind, body, d, -, hentry⟩
    · simp [hkind, hfunction, Node.isEntry]
    · simp [hkind, hentry, Node.isEntry, Node.entry]

/-- A function inside a function without a result, and a name behind them. -/
theorem ofTokens_function_in_function :
    let tok (kind : Token.Kind) (value : String) : Token := ⟨kind, value, .null, .null⟩
    let inner : Node := .function "g" [] .double (.reference "a" ⟨.null, .null⟩) false
      ⟨.null, .null⟩
    let outer : Node := .function "f" [⟨"a", "a"⟩] .void inner false ⟨.null, .null⟩
    let name : Node := .reference "b" ⟨.null, .null⟩
    let tokens := [tok .funcWord "func", tok .identifier "f", tok .openParen "(",
      tok .identifier "a", tok .colon ":", tok .identifier "Void", tok .closeParen ")",
      tok .arrow "->", tok .identifier "Void", tok .openCurly "\x7b", tok .funcWord "func",
      tok .identifier "g", tok .openParen "(", tok .closeParen ")", tok .arrow "->",
      tok .identifier "void", tok .openCurly "\x7b", tok .identifier "a", tok .closeCurly "\x7d",
      tok .closeCurly "\x7d", tok .identifier "b"]
    ofTokens tokens "" = .ok [outer, name.entry] ∧
      ∃ rounds, (Cursor.start tokens "").Rounds rounds ∧
        rounds.map Prod.snd = [outer, name.entry] ∧
        (rounds.countP fun round => round.1.current.kind = .funcWord) = 1 ∧
        inner.Plain tokens := by
  intro tok inner outer name tokens
  have h : ofTokens tokens "" = .ok [outer, name.entry] := rfl
  obtain ⟨rounds, hrounds, hnodes, hshape, hcount⟩ := ofTokens_shape h
  refine ⟨h, rounds, hrounds, hnodes, hcount.symm, ?_⟩
  have houter : outer ∈ rounds.map Prod.snd := by
    rw [hnodes]
    exact List.mem_cons_self
  obtain ⟨round, hround, hfunction⟩ := List.mem_map.mp houter
  obtain ⟨_, _, _, body, _, _, hround', -, -, -, hbody⟩ := hshape round hround
  obtain rfl : inner = body := (Node.function.inj (hfunction.symm.trans hround')).2.2.2.1
  exact hbody.self

end Program

end ExprLang
