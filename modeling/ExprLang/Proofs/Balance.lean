import ExprLang.Proofs.Spans

/-!
Brackets under spans. Every word of the grammar closes the brackets that it opens, and a node
has all that is written for it under its span, unless it is a binary one. Parentheses around an
operand belong to no node, and the span of a binary node is joined from those of its operands.
So it leaves out the parentheses at the outer ends of the two, and what it covers is balanced
only if there are none.
-/
namespace ExprLang

open Text Grammar

/-- Whether tokens of the kind open or close something. -/
def Token.Kind.isBracket : Token.Kind → Bool
  | .openParen | .closeParen | .openCurly | .closeCurly => true
  | _ => false

inductive Bracket where
  | paren
  | curly

namespace Bracket

def opening : Bracket → Token.Kind
  | .paren => .openParen
  | .curly => .openCurly

def closing : Bracket → Token.Kind
  | .paren => .closeParen
  | .curly => .closeCurly

def rise (b : Bracket) (kind : Token.Kind) : Int :=
  if kind = b.opening then 1 else if kind = b.closing then -1 else 0

/-- How many more brackets of the sort the tokens open than they close. -/
def height (b : Bracket) : List Token → Int
  | [] => 0
  | t :: w => b.rise t.kind + b.height w

variable {b : Bracket} {kind : Token.Kind} {w : List Token}

@[simp]
theorem height_nil (b : Bracket) : b.height [] = 0 := rfl

@[simp]
theorem height_cons (b : Bracket) (t : Token) (w : List Token) :
    b.height (t :: w) = b.rise t.kind + b.height w := rfl

@[simp]
theorem height_append (b : Bracket) (u v : List Token) :
    b.height (u ++ v) = b.height u + b.height v := by
  induction u with
  | nil => simp
  | cons t u ih => simp [ih, Int.add_assoc]

theorem rise_of_not_bracket (b : Bracket) (h : kind.isBracket = false) : b.rise kind = 0 := by
  have hopen : kind ≠ b.opening := by
    rintro rfl
    cases b <;> cases h
  have hclose : kind ≠ b.closing := by
    rintro rfl
    cases b <;> cases h
  rw [rise, if_neg hopen, if_neg hclose]

theorem rise_opening_nonneg (b b' : Bracket) : 0 ≤ b.rise b'.opening := by
  cases b <;> cases b' <;> decide

theorem rise_closing (b b' : Bracket) : b.rise b'.closing = -b.rise b'.opening := by
  cases b <;> cases b' <;> decide

theorem height_of_opening (h : ∀ t ∈ w, t.kind = b.opening) : b.height w = w.length := by
  induction w with
  | nil => rfl
  | cons t w ih =>
    obtain ⟨ht, hw⟩ := List.forall_mem_cons.mp h
    have hrise : b.rise b.opening = 1 := if_pos rfl
    rw [height_cons, ih hw, ht, hrise, List.length_cons]
    omega

theorem height_of_closing (h : ∀ t ∈ w, t.kind = b.closing) : b.height w = -w.length := by
  induction w with
  | nil => rfl
  | cons t w ih =>
    obtain ⟨ht, hw⟩ := List.forall_mem_cons.mp h
    have hrise : b.rise b.opening = 1 := if_pos rfl
    rw [height_cons, ih hw, ht, rise_closing, hrise, List.length_cons]
    omega

end Bracket

/-- No beginning of the tokens closes more brackets of a sort than it opens, and all of them
together close as many as they open. -/
structure Balanced (w : List Token) : Prop where
  nonneg : ∀ b u v, w = u ++ v → 0 ≤ Bracket.height b u
  closed : ∀ b, Bracket.height b w = 0

namespace Balanced

variable {u v w : List Token} {t t' : Token} {kind : Token.Kind}

theorem nil : Balanced [] := by
  refine ⟨?_, fun b => rfl⟩
  intro b u v h
  obtain ⟨rfl, -⟩ := List.append_eq_nil_iff.mp h.symm
  exact Int.le_refl 0

theorem append (hu : Balanced u) (hv : Balanced v) : Balanced (u ++ v) := by
  constructor
  · intro b x y h
    rcases List.append_eq_append_iff.mp h with ⟨mid, hx, hrest⟩ | ⟨mid, hrest, -⟩
    · rw [hx, Bracket.height_append, hu.closed b, Int.zero_add]
      exact hv.nonneg b mid y hrest
    · exact hu.nonneg b x mid hrest
  · intro b
    rw [Bracket.height_append, hu.closed b, hv.closed b, Int.zero_add]

theorem cons (ht : t.kind = kind) (hkind : kind.isBracket = false) (hw : Balanced w) :
    Balanced (t :: w) := by
  have hrise (b : Bracket) : b.rise t.kind = 0 := by rw [ht, b.rise_of_not_bracket hkind]
  constructor
  · intro b u v h
    cases u with
    | nil => exact Int.le_refl 0
    | cons s u =>
      obtain ⟨rfl, hrest⟩ := List.cons.inj h
      rw [Bracket.height_cons, hrise b, Int.zero_add]
      exact hw.nonneg b u v hrest
  · intro b
    rw [Bracket.height_cons, hrise b, hw.closed b, Int.zero_add]

theorem enclosed (b : Bracket) (ht : t.kind = b.opening) (ht' : t'.kind = b.closing)
    (hw : Balanced w) : Balanced (t :: w ++ [t']) := by
  constructor
  · intro b' u v h
    have hopen := Bracket.rise_opening_nonneg b' b
    cases u with
    | nil => exact Int.le_refl 0
    | cons s u =>
      obtain ⟨rfl, hrest⟩ := List.cons.inj h
      rw [Bracket.height_cons, ht]
      -- A beginning is one of the tokens in between, or it has the closing bracket as well.
      rcases List.append_eq_append_iff.mp hrest with ⟨mid, hu, hlast⟩ | ⟨mid, hw', -⟩
      · have hmid : 0 ≤ b'.rise b.opening + b'.height mid := by
          rcases List.append_eq_singleton_iff.mp hlast.symm with ⟨rfl, -⟩ | ⟨rfl, -⟩
          · rw [Bracket.height_nil]
            omega
          · rw [Bracket.height_cons, ht', Bracket.rise_closing, Bracket.height_nil]
            omega
        rw [hu, Bracket.height_append, hw.closed b']
        omega
      · have hu := hw.nonneg b' u mid hw'
        omega
  · intro b'
    rw [List.cons_append, Bracket.height_cons, Bracket.height_append, hw.closed b',
      Bracket.height_cons, ht, ht', Bracket.rise_closing, Bracket.height_nil]
    omega

end Balanced

namespace Grammar

variable {part : Part} {w : List Token} {next : Token.Kind} {value : part.Value}

/-- Every word closes the brackets that it opens. -/
theorem Derives.balanced (h : Derives part w next value) : Balanced w := by
  induction h with
  | number hkind =>
    rcases hkind with hkind | hkind
    · exact .cons hkind rfl .nil
    · exact .cons hkind rfl .nil
  | reference hkind | returnNothing hkind => exact .cons hkind rfl .nil
  | returnValue hkind _ _ ih => exact .cons hkind rfl ih
  | call hkinds _ ih =>
    simp only [List.map_cons, List.cons.injEq] at hkinds
    obtain ⟨hname, hopen, hclose, -⟩ := hkinds
    exact .cons hname rfl (.enclosed .paren hopen hclose ih)
  | parenthesised hkinds _ ih =>
    simp only [List.map_cons, List.cons.injEq] at hkinds
    exact .enclosed .paren hkinds.1 hkinds.2.1 ih
  | branch hkinds _ ih =>
    simp only [List.map_cons, List.cons.injEq] at hkinds
    exact .enclosed .curly hkinds.1 hkinds.2.1 ih
  | defined _ ih | chosen _ ih | tighter _ ih => exact ih
  | binary hkind _ _ _ ih ih' => exact .append ih (.cons hkind rfl ih')
  | noArgument | noParameter | noUnit => exact .nil
  | lastArgument hkinds _ ih =>
    simp only [List.map_cons, List.cons.injEq] at hkinds
    exact .cons hkinds.1 rfl (.cons hkinds.2.1 rfl ih)
  | argument hkinds _ _ ih ihrest =>
    simp only [List.map_cons, List.cons.injEq] at hkinds
    obtain ⟨hlabel, hcolon, hcomma, -⟩ := hkinds
    exact .cons hlabel rfl (.cons hcolon rfl (.append ih (.cons hcomma rfl ihrest)))
  | lastParameter hkinds =>
    simp only [List.map_cons, List.cons.injEq] at hkinds
    obtain ⟨hname, hcolon, htype, -⟩ := hkinds
    exact .cons hname rfl (.cons hcolon rfl (.cons htype rfl .nil))
  | parameter hkinds _ ih =>
    simp only [List.map_cons, List.cons.injEq] at hkinds
    obtain ⟨hname, hcolon, htype, hcomma, -⟩ := hkinds
    exact .cons hname rfl (.cons hcolon rfl (.cons htype rfl (.cons hcomma rfl ih)))
  | definition hkinds _ _ ihps ih =>
    simp only [List.map_cons, List.cons.injEq] at hkinds
    obtain ⟨hfunc, hname, hopen, hclose, harrow, htype, hopen', hclose', -⟩ := hkinds
    have hlist := Balanced.enclosed .paren hopen hclose ihps
    have hbody := Balanced.enclosed .curly hopen' hclose' ih
    have hrest := hlist.append (.cons harrow rfl (.cons htype rfl hbody))
    simpa using Balanced.cons hfunc rfl (.cons hname rfl hrest)
  | ifThen hkind _ _ ih ih' => exact .cons hkind rfl (.append ih ih')
  | ifThenElse hkinds _ _ _ ih ih' ih'' | ifThenElseIf hkinds _ _ _ ih ih' ih'' =>
    simp only [List.map_cons, List.cons.injEq] at hkinds
    obtain ⟨hif, helse, -⟩ := hkinds
    exact .append (.cons hif rfl (.append ih ih')) (.cons helse rfl ih'')
  | definedUnit _ _ ih ihrest | bareUnit _ _ _ ih ihrest => exact .append ih ihrest

/-- The word is an expression that the tree stands for. -/
def Reads (w : List Token) (n : Node) : Prop := ∃ tier next, Derives (.chain tier) w next n

theorem Reads.balanced {n : Node} (h : Reads w n) : Balanced w := by
  obtain ⟨tier, next, hderives⟩ := h
  exact hderives.balanced

theorem Reads.ne_nil {n : Node} (h : Reads w n) : w ≠ [] := by
  obtain ⟨tier, next, hderives⟩ := h
  obtain ⟨t, u, rfl, -⟩ := hderives.exists_cons trivial
  exact List.cons_ne_nil t u

theorem extent_append_append {u v : List Token} (hu : u ≠ []) (mid : List Token) (hv : v ≠ []) :
    extent (u ++ mid ++ v) = (extent u).join (extent v) := by
  obtain ⟨first, u, rfl⟩ := List.exists_cons_of_ne_nil hu
  have hlast := List.getLast?_eq_some_getLast hv
  have hwhole : (first :: u ++ mid ++ v).getLast? = some (v.getLast hv) := by
    rw [List.getLast?_append, hlast, Option.some_or]
  rw [extent_eq_join rfl hwhole, extent_eq_join (List.head?_eq_some_head hv) hlast]
  rfl

end Grammar

namespace Node

/-- What an entry wraps, and every other node itself. -/
def core : Node → Node
  | .function _ _ _ body true _ => body
  | n => n

def isBinary : Node → Bool
  | .binary _ _ _ _ => true
  | _ => false

/-- The word is all that is written for the node. For a binary one these are its operands, in the
parentheses that they have, and the operator between them. -/
inductive Written : List Token → Node → Prop
  | binary {op : Operator} {lhs rhs : Node} {s : Span} {t : Token} {u v : List Token}
      (hlhs : Reads u lhs) (hsymbol : t.value = op.symbol) (hrhs : Reads v rhs)
      (hn : Reads (u ++ t :: v) (.binary op lhs rhs s)) :
      Written (u ++ t :: v) (.binary op lhs rhs s)
  | single {n : Node} {w : List Token} (hsort : n.isBinary = false) (hn : Reads w n) :
      Written w n

theorem Written.balanced {n : Node} {w : List Token} (h : Written w n) : Balanced w := by
  cases h with
  | binary _ _ _ hn => exact hn.balanced
  | single _ hn => exact hn.balanced

/-- The span of the node is that of the tokens in the middle, which stand between parentheses. -/
structure Frames (n : Node) (lefts inside rights : List Token) : Prop where
  opens : ∀ t ∈ lefts, t.kind = .openParen
  closes : ∀ t ∈ rights, t.kind = .closeParen
  nonempty : inside ≠ []
  span_eq : n.span = extent inside

section

variable {n lhs rhs : Node} {lefts inside rights lefts' inside' rights' w : List Token} {t : Token}
  {op : Operator}

theorem Frames.of_span_eq (hw : w ≠ []) (hspan : n.span = extent w) : n.Frames [] w [] :=
  ⟨by simp, by simp, hw, hspan⟩

theorem Frames.parenthesised {lparen rparen : Token} (h : n.Frames lefts inside rights)
    (hopen : lparen.kind = .openParen) (hclose : rparen.kind = .closeParen) :
    n.Frames (lparen :: lefts) inside (rights ++ [rparen]) := by
  refine ⟨List.forall_mem_cons.mpr ⟨hopen, h.opens⟩, ?_, h.nonempty, h.span_eq⟩
  exact List.forall_mem_append.mpr ⟨h.closes, List.forall_mem_singleton.mpr hclose⟩

/-- Joined spans reach over what stands between them, parentheses on the inner sides too. -/
theorem Frames.binary (h : lhs.Frames lefts inside rights)
    (h' : rhs.Frames lefts' inside' rights') :
    (Node.binary op lhs rhs (lhs.span.join rhs.span)).Frames lefts
      (inside ++ (rights ++ t :: lefts') ++ inside') rights' := by
  refine ⟨h.opens, h'.closes, by simp [h.nonempty], ?_⟩
  rw [extent_append_append h.nonempty _ h'.nonempty, ← h.span_eq, ← h'.span_eq]
  rfl

/-- Without the outer parentheses of two words what is left of them is balanced only if there were
none: those on the left are missed where the first word ends, those on the right in the end. -/
theorem Frames.balanced_iff (h : lhs.Frames lefts inside rights)
    (h' : rhs.Frames lefts' inside' rights') (hu : Balanced (lefts ++ inside ++ rights))
    (hw : Balanced (lefts ++ inside ++ rights ++ t :: (lefts' ++ inside' ++ rights'))) :
    Balanced (inside ++ (rights ++ t :: lefts') ++ inside') ↔ lefts = [] ∧ rights' = [] := by
  have hlefts := Bracket.height_of_opening (b := .paren) h.opens
  have hrights := Bracket.height_of_closing (b := .paren) h'.closes
  have hfirst := hu.closed .paren
  have hwhole := hw.closed .paren
  simp only [Bracket.height_append, Bracket.height_cons] at hfirst hwhole
  constructor
  · intro hinside
    have hmiss := hinside.nonneg .paren (inside ++ rights) (t :: lefts' ++ inside') (by simp)
    have hend := hinside.closed .paren
    simp only [Bracket.height_append, Bracket.height_cons] at hmiss hend
    exact ⟨List.length_eq_zero_iff.mp (by omega), List.length_eq_zero_iff.mp (by omega)⟩
  · rintro ⟨rfl, rfl⟩
    simpa using hw

/-- The node is no entry, and the word is what it reaches over, in parentheses. -/
def Enclosed (w : List Token) (n : Node) : Prop :=
  n.core = n ∧
    ∃ lefts inside rights, w = lefts ++ inside ++ rights ∧ n.Frames lefts inside rights

theorem Enclosed.of_span_eq (hw : w ≠ []) (hcore : n.core = n) (hspan : n.span = extent w) :
    n.Enclosed w :=
  ⟨hcore, [], w, [], by simp, .of_span_eq hw hspan⟩

theorem Enclosed.parenthesised {lparen rparen : Token} (h : n.Enclosed w)
    (hopen : lparen.kind = .openParen) (hclose : rparen.kind = .closeParen) :
    n.Enclosed (lparen :: w ++ [rparen]) := by
  obtain ⟨hcore, lefts, inside, rights, rfl, hframes⟩ := h
  exact ⟨hcore, _, inside, _, by simp, hframes.parenthesised hopen hclose⟩

theorem Enclosed.binary {u v : List Token} (h : lhs.Enclosed u) (h' : rhs.Enclosed v) :
    (Node.binary op lhs rhs (lhs.span.join rhs.span)).Enclosed (u ++ t :: v) := by
  obtain ⟨-, lefts, inside, rights, rfl, hlhs⟩ := h
  obtain ⟨-, lefts', inside', rights', rfl, hrhs⟩ := h'
  refine ⟨rfl, lefts, inside ++ (rights ++ t :: lefts') ++ inside', rights', by simp, ?_⟩
  exact hlhs.binary hrhs

/-- All that is written for the node stands among the tokens, and its span leaves out nothing
but parentheses at the ends, and these of binary nodes only. -/
def Framed (tokens : List Token) (n : Node) : Prop :=
  ∃ lefts inside rights, n.Frames lefts inside rights ∧ lefts ++ inside ++ rights <:+: tokens ∧
    Written (lefts ++ inside ++ rights) n.core ∧
    (Balanced inside ↔ lefts = [] ∧ rights = []) ∧
    (n.core.isBinary = false → lefts = [] ∧ rights = [])

variable {tokens : List Token}

theorem Framed.of_span_eq (hw : w <:+: tokens) (hspan : n.span = extent w) (hcore : n.core = n)
    (hsort : n.isBinary = false) (hn : Reads w n) : n.Framed tokens := by
  refine ⟨[], w, [], .of_span_eq hn.ne_nil hspan, by simpa using hw, ?_, ?_, by simp⟩
  · rw [hcore]
    exact .single hsort (by simpa using hn)
  · simpa using hn.balanced

theorem framed_of_children (hself : n.Framed tokens)
    (h : ∀ child ∈ n.children, child.Everywhere (Framed tokens)) :
    ∀ m ∈ [n], m.Everywhere (Framed tokens) :=
  List.forall_mem_singleton.mpr (.of_children hself h)

theorem Framed.entry (h : n.Framed tokens) (hcore : n.core = n) : n.entry.Framed tokens := by
  obtain ⟨lefts, inside, rights, hframes, hinfix, hwritten, hrest⟩ := h
  rw [hcore] at hwritten hrest
  exact ⟨lefts, inside, rights, ⟨hframes.opens, hframes.closes, hframes.nonempty, hframes.span_eq⟩,
    hinfix, hwritten, hrest⟩

end

end Node

namespace Grammar

variable {part : Part} {tier tier' : Option Operator.Tier} {u v w tokens : List Token}
  {next next' : Token.Kind} {value : part.Value}

/-- An expression is what its tree reaches over, in parentheses. -/
theorem Derives.enclosed (h : Derives part w next value) (hpart : part.IsExpression) :
    ∀ n ∈ part.nodes value, n.Enclosed w := by
  induction h with
  | number | reference | call | returnNothing | returnValue | definition | ifThen | ifThenElse
  | ifThenElseIf =>
    exact List.forall_mem_singleton.mpr (.of_span_eq (by simp) rfl rfl)
  | parenthesised hkinds _ ih =>
    simp only [List.map_cons, List.cons.injEq] at hkinds
    have hn := List.forall_mem_singleton.mp (ih trivial)
    exact List.forall_mem_singleton.mpr (hn.parenthesised hkinds.1 hkinds.2.1)
  | defined _ ih | chosen _ ih | tighter _ ih => exact ih trivial
  | binary _ _ _ _ ih ih' =>
    have hlhs := List.forall_mem_singleton.mp (ih trivial)
    have hrhs := List.forall_mem_singleton.mp (ih' trivial)
    exact List.forall_mem_singleton.mpr (hlhs.binary hrhs)
  | noArgument | lastArgument | argument | noParameter | lastParameter | parameter | branch
  | noUnit | definedUnit | bareUnit => exact hpart.elim

theorem Derives.framed_binary {op : Operator} {t : Token} {lhs rhs : Node}
    (hlhs : Derives (.chain tier) u next lhs) (hrhs : Derives (.chain tier') v next' rhs)
    (hsymbol : t.value = op.symbol) (hw : u ++ t :: v <:+: tokens)
    (hn : Reads (u ++ t :: v) (.binary op lhs rhs (lhs.span.join rhs.span))) :
    (Node.binary op lhs rhs (lhs.span.join rhs.span)).Framed tokens := by
  have hu := hlhs.balanced
  have hwritten : Node.Written (u ++ t :: v) (.binary op lhs rhs (lhs.span.join rhs.span)) :=
    .binary ⟨_, _, hlhs⟩ hsymbol ⟨_, _, hrhs⟩ hn
  obtain ⟨-, lefts, inside, rights, rfl, hframes⟩ :=
    List.forall_mem_singleton.mp (hlhs.enclosed trivial)
  obtain ⟨-, lefts', inside', rights', rfl, hframes'⟩ :=
    List.forall_mem_singleton.mp (hrhs.enclosed trivial)
  have hword : lefts ++ inside ++ rights ++ t :: (lefts' ++ inside' ++ rights') =
      lefts ++ (inside ++ (rights ++ t :: lefts') ++ inside') ++ rights' := by simp
  have hiff := hframes.balanced_iff hframes' hu hn.balanced
  rw [hword] at hw hwritten
  refine ⟨lefts, _, rights', hframes.binary hframes', hw, hwritten, hiff, ?_⟩
  simp [Node.core, Node.isBinary]

/-- The trees of a conditional are framed if the node itself is and those of its parts are. -/
theorem framed_branches {t t' : Token} {condition consequence alternative : Node} {s : Span}
    (h : t :: u ++ v ++ t' :: w <:+: tokens)
    (hself : (Node.conditional condition consequence (some alternative) s).Framed tokens)
    (hu : u <:+: tokens → ∀ n ∈ [condition], n.Everywhere (Node.Framed tokens))
    (hv : v <:+: tokens → ∀ n ∈ [consequence], n.Everywhere (Node.Framed tokens))
    (hw : w <:+: tokens → ∀ n ∈ [alternative], n.Everywhere (Node.Framed tokens)) :
    ∀ n ∈ [Node.conditional condition consequence (some alternative) s],
      n.Everywhere (Node.Framed tokens) := by
  have hfirst := hu (.trans ⟨[t], v ++ t' :: w, by simp⟩ h)
  have hsecond := hv (.trans ⟨t :: u, t' :: w, by simp⟩ h)
  have hthird := hw (.trans ⟨t :: u ++ v ++ [t'], [], by simp⟩ h)
  apply Node.framed_of_children hself
  exact List.forall_mem_append.mpr ⟨hfirst, List.forall_mem_append.mpr ⟨hsecond, hthird⟩⟩

/-- All trees of a word among the tokens are framed by what is written for them. -/
theorem Derives.framed (h : Derives part w next value) (hw : w <:+: tokens) :
    ∀ n ∈ part.nodes value, n.Everywhere (Node.Framed tokens) := by
  -- The tokens stay the same in the induction; the words of the parts are stretches of them.
  have hinside {u v : List Token} (l r : List Token) (hv : v <:+: tokens) (h : v = l ++ u ++ r) :
      u <:+: tokens := (h ▸ List.infix_append l u r).trans hv
  induction h with
  | number hkind hread =>
    have hself := Node.Framed.of_span_eq hw rfl rfl rfl ⟨_, .eof, .number hkind hread⟩
    exact Node.framed_of_children hself (by simp [Node.children])
  | reference hkind hnext =>
    have hself := Node.Framed.of_span_eq hw rfl rfl rfl ⟨_, _, .reference hkind hnext⟩
    exact Node.framed_of_children hself (by simp [Node.children])
  | returnNothing hkind hnext =>
    have hself := Node.Framed.of_span_eq hw rfl rfl rfl ⟨_, _, .returnNothing hkind hnext⟩
    exact Node.framed_of_children hself (by simp [Node.children])
  | @call name lparen rparen w _ values hkinds hvalues ih =>
    have hself := Node.Framed.of_span_eq hw rfl rfl rfl ⟨_, .eof, .call hkinds hvalues⟩
    have hchildren := ih (hinside [name, lparen] [rparen] hw rfl)
    exact Node.framed_of_children hself hchildren
  | @parenthesised first last _ _ _ _ _ ih | @branch first last _ _ _ _ _ ih =>
    exact ih (hinside [first] [last] hw rfl)
  | defined _ ih | chosen _ ih | tighter _ ih => exact ih hw
  | @returnValue t _ _ _ hkind hn hnext ih =>
    have hself := Node.Framed.of_span_eq hw rfl rfl rfl ⟨_, _, .returnValue hkind hn hnext⟩
    have hchildren := ih (hinside [t] [] hw (by simp))
    exact Node.framed_of_children hself hchildren
  | @binary _ _ t u v _ _ _ hkind hrow hlhs hrhs ih ih' =>
    have hself := Derives.framed_binary hlhs hrhs (mem_rows_iff.mp hrow).1 hw
      ⟨_, _, .binary hkind hrow hlhs hrhs⟩
    have hleft := ih (hinside [] (t :: v) hw rfl)
    have hright := ih' (hinside (u ++ [t]) [] hw (by simp))
    exact Node.framed_of_children hself (List.forall_mem_append.mpr ⟨hleft, hright⟩)
  | noArgument | noParameter | noUnit | lastParameter | parameter => simp [Part.nodes]
  | @lastArgument label colon _ _ _ _ _ ih => exact ih (hinside [label, colon] [] hw (by simp))
  | @argument label colon comma w rest _ _ _ _ _ _ ih ihrest =>
    have hn := ih (hinside [label, colon] (comma :: rest) hw rfl)
    have hrest := ihrest (hinside (label :: colon :: w ++ [comma]) [] hw (by simp))
    exact List.forall_mem_append.mpr ⟨hn, hrest⟩
  | @definition func name lparen rparen arrow type lbrace rbrace w _ next _ _ hkinds hps hn _ ih =>
    have hself := Node.Framed.of_span_eq hw rfl rfl rfl
      ⟨_, next, .defined (.definition hkinds hps hn)⟩
    have hchildren := ih (hinside (func :: name :: lparen :: w ++ [rparen, arrow, type, lbrace])
      [rbrace] hw (by simp))
    exact Node.framed_of_children hself hchildren
  | @ifThen t u v _ _ _ hkind hcondition hconsequence ih ih' =>
    have hself := Node.Framed.of_span_eq hw rfl rfl rfl
      ⟨_, _, .chosen (.ifThen hkind hcondition hconsequence)⟩
    have hfirst := ih (hinside [t] v hw rfl)
    have hsecond := ih' (hinside (t :: u) [] hw (by simp))
    exact Node.framed_of_children hself (List.forall_mem_append.mpr ⟨hfirst, hsecond⟩)
  | ifThenElse hkinds hcondition hconsequence halternative ih ih' ih'' =>
    have hself := Node.Framed.of_span_eq hw rfl rfl rfl
      ⟨_, _, .chosen (.ifThenElse hkinds hcondition hconsequence halternative)⟩
    exact framed_branches hw hself ih ih' ih''
  | ifThenElseIf hkinds hcondition hconsequence halternative ih ih' ih'' =>
    have hself := Node.Framed.of_span_eq hw rfl rfl rfl
      ⟨_, _, .chosen (.ifThenElseIf hkinds hcondition hconsequence halternative)⟩
    exact framed_branches hw hself ih ih' ih''
  | @definedUnit w rest _ _ _ _ _ ih ihrest =>
    have hn := ih (hinside [] rest hw rfl)
    have hrest := ihrest (hinside w [] hw (by simp))
    exact List.forall_mem_append.mpr ⟨hn, hrest⟩
  | @bareUnit w rest _ _ _ hn _ _ ih ihrest =>
    have hframed := List.forall_mem_singleton.mp (ih (hinside [] rest hw rfl))
    obtain ⟨hcore, -⟩ := List.forall_mem_singleton.mp (hn.enclosed trivial)
    have hrest := ihrest (hinside w [] hw (by simp))
    refine List.forall_mem_cons.mpr ⟨.of_children (hframed.self.entry hcore) ?_, hrest⟩
    exact List.forall_mem_singleton.mpr hframed

end Grammar

/-- The tokens inside the span. -/
def Span.under (s : Span) (tokens : List Token) : List Token :=
  tokens.filter fun t => s.Contains t.span

namespace InRow

variable {P : Token → Prop} {lo hi : Nat} {w tokens : List Token} {s : Span}

theorem start_lt_stop {t : Token} (h : InRow Token.span P lo tokens hi) (ht : t ∈ tokens) :
    t.span.start.offset.toNat < t.span.stop.offset.toNat := by
  obtain ⟨before, after, rfl⟩ := List.append_of_mem ht
  obtain ⟨mid, -, -, hne, -⟩ := append_iff.mp h
  exact hne

theorem under_eq_nil (h : InRow Token.span P lo tokens hi)
    (hs : hi ≤ s.start.offset.toNat ∨ s.stop.offset.toNat ≤ lo) : s.under tokens = [] := by
  apply List.filter_eq_nil_iff.mpr
  intro t ht hcontains
  obtain ⟨hstart, hstop⟩ : s.Contains t.span := of_decide_eq_true hcontains
  rw [UInt32.le_iff_toNat_le] at hstart hstop
  have hlt := h.start_lt_stop ht
  obtain ⟨hlo, hhi, -⟩ := h.of_mem ht
  omega

theorem under_eq_self (h : InRow Token.span P lo tokens hi) (hlo : s.start.offset.toNat ≤ lo)
    (hhi : hi ≤ s.stop.offset.toNat) : s.under tokens = tokens := by
  apply List.filter_eq_self.mpr
  intro t ht
  obtain ⟨hstart, hstop, -⟩ := h.of_mem ht
  apply decide_eq_true
  constructor <;> rw [UInt32.le_iff_toNat_le]
  · exact Nat.le_trans hlo hstart
  · exact Nat.le_trans hstop hhi

theorem of_extent (h : InRow Token.span P lo w hi) (hne : w ≠ []) :
    lo ≤ (extent w).start.offset.toNat ∧ (extent w).stop.offset.toNat ≤ hi ∧
      InRow Token.span P (extent w).start.offset.toNat w (extent w).stop.offset.toNat := by
  have hfirst := List.head?_eq_some_head hne
  have hlast := List.getLast?_eq_some_getLast hne
  rw [extent_eq_join hfirst hlast]
  exact ⟨(h.of_mem (List.head_mem hne)).1, (h.of_mem (List.getLast_mem hne)).2.1,
    h.of_ends hfirst hlast⟩

/-- Of tokens in a row those inside the extent of a stretch are the ones that it is made of. -/
theorem under_extent (h : InRow Token.span P lo tokens hi) (hw : w <:+: tokens) (hne : w ≠ []) :
    (extent w).under tokens = w := by
  obtain ⟨before, after, rfl⟩ := hw
  obtain ⟨stop, hupto, hafter⟩ := append_iff.mp h
  obtain ⟨start, hbefore, hrow⟩ := append_iff.mp hupto
  obtain ⟨hstart, hstop, hexact⟩ := hrow.of_extent hne
  have hleft := hbefore.under_eq_nil (.inl hstart)
  have hright := hafter.under_eq_nil (.inr hstop)
  have hself := hexact.under_eq_self (Nat.le_refl _) (Nat.le_refl _)
  rw [Span.under] at hleft hright hself
  rw [Span.under, List.filter_append, List.filter_append, hleft, hself, hright, List.nil_append,
    List.append_nil]

end InRow

namespace Program

/-- The tokens under a node of a program are balanced exactly if its span leaves out nothing of
what is written for it. A span leaves out nothing but parentheses at the two ends, and only those
of binary nodes and of the entries that wrap one do. -/
theorem ofSource_balanced_iff (source file : String) (nodes : List Node)
    (hsize : bytes source.toList < UInt32.size) (h : ofSource source file = .ok nodes) :
    ∃ words, scan source file = .ok (words ++ [.endAt (.after (bytes source.toList) file)]) ∧
      ∀ n ∈ nodes, ∀ m, Node.Occurs m n →
        ∃ lefts rights, (∀ t ∈ lefts, t.kind = .openParen) ∧ (∀ t ∈ rights, t.kind = .closeParen) ∧
          lefts ++ m.span.under words ++ rights <:+: words ∧
          Node.Written (lefts ++ m.span.under words ++ rights) m.core ∧
          Balanced (lefts ++ m.span.under words ++ rights) ∧
          (Balanced (m.span.under words) ↔ lefts = [] ∧ rights = []) ∧
          (m.core.isBinary = false → lefts = [] ∧ rights = []) := by
  obtain ⟨words, hspelled, hderives⟩ := exists_spelled_of_ofSource h
  have hlaid := Spelled.laid [] hspelled rfl rfl hsize
  refine ⟨words, hspelled.scan_eq, ?_⟩
  intro n hn m hm
  obtain ⟨lefts, inside, rights, hframes, hinfix, hwritten, hrest⟩ :=
    hderives.framed List.infix_rfl n hn m hm
  have hinside : m.span.under words = inside := by
    rw [hframes.span_eq]
    exact hlaid.under_extent (.trans ⟨lefts, rights, rfl⟩ hinfix) hframes.nonempty
  rw [hinside]
  exact ⟨lefts, rights, hframes.opens, hframes.closes, hinfix, hwritten, hwritten.balanced, hrest⟩

/-- The sum starts behind the parenthesis that its first operand stands in, so the tokens under
it close one that none of them opens. -/
theorem ofSource_sum_not_balanced :
    let source := " ( a ) + b"
    let place (first last : Nat) : Span := .between first last ""
    let sum : Node :=
      .binary .add (.reference "a" (place 3 4)) (.reference "b" (place 9 10)) (place 3 10)
    let words := spacedTokens "" 0 [(.openParen, "("), (.identifier, "a"), (.closeParen, ")"),
      (.operator, "+"), (.identifier, "b")]
    scan source "" = .ok (words ++ [.endAt (.after (bytes source.toList) "")]) ∧
      ofSource source "" = .ok [sum.entry] ∧
      (sum.span.under words).map Token.value = ["a", ")", "+", "b"] ∧
      ¬ Balanced (sum.span.under words) := by
  intro source place sum words
  have hfits : ∀ symbol ∈ [(Token.Kind.openParen, "("), (.identifier, "a"), (.closeParen, ")"),
      (.operator, "+"), (.identifier, "b")], Token.Fits symbol.1 symbol.2 := by
    simp [Token.Fits, IsName]
    decide
  have hscan : scan source "" = .ok (words ++ [.endAt (.after (bytes source.toList) "")]) :=
    scan_spaced hfits (by decide)
  have hsource : ofSource source "" = .ok [sum.entry] := by
    rw [ofSource, hscan]
    rfl
  refine ⟨hscan, hsource, rfl, ?_⟩
  intro hbalanced
  exact absurd (hbalanced.closed .paren) (by decide)

/-- The product ends before the parenthesis that closes its last operand. -/
theorem ofSource_product_of_sum :
    let source := " a * ( b + c )"
    let place (first last : Nat) : Span := .between first last ""
    let sum : Node :=
      .binary .add (.reference "b" (place 7 8)) (.reference "c" (place 11 12)) (place 7 12)
    let product : Node := .binary .mul (.reference "a" (place 1 2)) sum (place 1 12)
    let words := spacedTokens "" 0 [(.identifier, "a"), (.operator, "*"), (.openParen, "("),
      (.identifier, "b"), (.operator, "+"), (.identifier, "c"), (.closeParen, ")")]
    bytes source.toList < UInt32.size ∧ ofSource source "" = .ok [product.entry] ∧
      ∃ lefts rights, (∀ t ∈ lefts, t.kind = .openParen) ∧ (∀ t ∈ rights, t.kind = .closeParen) ∧
        lefts ++ product.span.under words ++ rights <:+: words ∧
        Node.Written (lefts ++ product.span.under words ++ rights) product ∧
        ¬ (lefts = [] ∧ rights = []) := by
  intro source place sum product words
  have hfits : ∀ symbol ∈ [(Token.Kind.identifier, "a"), (.operator, "*"), (.openParen, "("),
      (.identifier, "b"), (.operator, "+"), (.identifier, "c"), (.closeParen, ")")],
      Token.Fits symbol.1 symbol.2 := by
    simp [Token.Fits, IsName]
    decide
  have hscan : scan source "" = .ok (words ++ [.endAt (.after (bytes source.toList) "")]) :=
    scan_spaced hfits (by decide)
  have hsize : bytes source.toList < UInt32.size := by decide
  have hsource : ofSource source "" = .ok [product.entry] := by
    rw [ofSource, hscan]
    rfl
  obtain ⟨words', hscan', hnodes⟩ :=
    ofSource_balanced_iff source "" [product.entry] hsize hsource
  obtain rfl : words = words' := by
    rw [hscan] at hscan'
    exact List.append_cancel_right (Except.ok.inj hscan')
  obtain ⟨lefts, rights, hopens, hcloses, hinfix, hwritten, -, hiff, -⟩ :=
    hnodes product.entry (by simp) product.entry .self
  refine ⟨hsize, hsource, lefts, rights, hopens, hcloses, hinfix, hwritten, ?_⟩
  intro hnone
  exact absurd ((hiff.mpr hnone).closed .paren) (by decide)

end Program

end ExprLang
