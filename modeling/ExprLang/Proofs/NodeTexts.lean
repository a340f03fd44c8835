import ExprLang.Node.Text
import ExprLang.Proofs.Numerals
import ExprLang.Proofs.Relocation
import ExprLang.Proofs.Subtrees

/-!
Node texts determine trees. Names, numerals and the words and symbols behind parentheses are
pieces of a text in which no mark stands, and behind each of them a mark or the end follows. So
it is seen from a text where each of its parts ends, and two trees with the same text are the
same up to their spans and up to the mark of bare expressions, which are not written.
-/
namespace ExprLang

open Text

namespace Text

/-- The marks between the pieces of node texts. -/
def isMark (c : Char) : Bool := [' ', '(', ')', ':'].contains c

/-- A piece of a node text between two marks. -/
def IsPiece (w : List Char) : Prop := w ≠ [] ∧ ∀ c ∈ w, isMark c = false

/-- A mark stands at the front of the text, unless it is empty. -/
def Marked (cs : List Char) : Prop := ∀ c ∈ cs.head?, isMark c = true

variable {u v w rest rest' : List Char} {c : Char}

theorem marked_nil : Marked [] := by simp [Marked]

theorem marked_cons (hc : isMark c = true) : Marked (c :: rest) := by simpa [Marked] using hc

/-- Pieces end where the marks are. -/
theorem IsPiece.append_inj (hu : IsPiece u) (hv : IsPiece v) (hrest : Marked rest)
    (hrest' : Marked rest') (h : u ++ rest = v ++ rest') : u = v ∧ rest = rest' := by
  have hapart {w cs : List Char} (hw : IsPiece w) (hcs : Marked cs) :
      (w ++ cs).takeWhile (fun c => !isMark c) = w := by
    apply Lexeme.takeWhile_of_apart
    · intro c hc
      simp [hw.2 c hc]
    · intro c hc
      simp [hcs c hc]
  have huv : u = v := by rw [← hapart hu hrest, h, hapart hv hrest']
  subst huv
  exact ⟨rfl, List.append_cancel_left h⟩

/-- A piece does not start with a mark. -/
theorem IsPiece.append_ne_cons (hu : IsPiece u) (hc : isMark c = true) :
    u ++ rest ≠ c :: rest' := by
  intro h
  obtain ⟨d, ds, hd⟩ := List.exists_cons_of_ne_nil hu.1
  subst hd
  obtain ⟨hdc, -⟩ := List.cons.inj h
  have hmark := hu.2 d (by simp)
  rw [hdc, hc] at hmark
  exact absurd hmark (by simp)

theorem isMark_of_isWordPart (h : Lexeme.isWordPart c = true) : isMark c = false := by
  rw [Bool.eq_false_iff]
  intro hmark
  have hc : c ∈ [' ', '(', ')', ':'] := by simpa [isMark] using hmark
  simp only [List.mem_cons, List.not_mem_nil, or_false] at hc
  rcases hc with hc | hc | hc | hc <;> subst hc <;> exact absurd h (by decide)

theorem IsName.isPiece (h : IsName w) : IsPiece w := by
  cases w with
  | nil => exact h.elim
  | cons c w =>
    refine ⟨List.cons_ne_nil c w, ?_⟩
    intro d hd
    apply isMark_of_isWordPart
    rcases List.mem_cons.mp hd with hd | hd
    · subst hd
      exact Lexeme.isWordPart_iff.mpr (.inl h.1)
    · exact h.2 d hd

theorem IsDigits.isPiece (h : IsDigits w) : IsPiece w := by
  refine ⟨h.1, ?_⟩
  intro c hc
  exact isMark_of_isWordPart (Lexeme.isWordPart_iff.mpr (.inr (h.2 c hc)))

end Text

namespace Binary64

theorem isPiece_text {x : Binary64} (hfinite : x.isFinite = true) (hsign : x.isNegative = false) :
    IsPiece x.text.toList := by
  rcases fits_text hfinite hsign with hdigits | ⟨whole, places, htext, hwhole, hplaces⟩
  · exact IsDigits.isPiece hdigits
  · rw [htext]
    refine ⟨by simp, ?_⟩
    intro c hc
    rcases List.mem_append.mp hc with hc | hc
    · exact hwhole.isPiece.2 c hc
    · rcases List.mem_cons.mp hc with hc | hc
      · subst hc
        rfl
      · exact hplaces.isPiece.2 c hc

/-- No numeral is a name. -/
theorem not_isName_text {x : Binary64} (hfinite : x.isFinite = true)
    (hsign : x.isNegative = false) : ¬ IsName x.text.toList := by
  have hdigit : ∃ c cs, x.text.toList = c :: cs ∧ c.isDigit = true := by
    rcases fits_text hfinite hsign with hdigits | ⟨whole, places, htext, hwhole, -⟩
    · obtain ⟨c, cs, hcons⟩ := List.exists_cons_of_ne_nil hdigits.1
      exact ⟨c, cs, hcons, hdigits.2 c (by simp [hcons])⟩
    · obtain ⟨c, cs, hcons⟩ := List.exists_cons_of_ne_nil hwhole.1
      exact ⟨c, cs ++ '.' :: places, by simp [htext, hcons], hwhole.2 c (by simp [hcons])⟩
  obtain ⟨c, cs, hcons, hc⟩ := hdigit
  rw [hcons]
  intro hname
  have hstart : Lexeme.isWordStart c = true := hname.1
  rw [Lexeme.isWordStart_of_isDigit hc] at hstart
  exact absurd hstart (by simp)

end Binary64

namespace ValueType

theorem isPiece_text (type : ValueType) : IsPiece type.text.toList := by
  cases type with
  | double | void => exact IsName.isPiece (by simp [text, IsName]; decide)

theorem text_inj {type type' : ValueType} (h : type.text = type'.text) : type = type' := by
  cases type <;> cases type' <;> simp_all [text]

end ValueType

namespace Node

mutual

/-- The tree without its spans and without the mark of bare expressions. -/
def outline : Node → Node
  | .number x _ => .number x .null
  | .reference name _ => .reference name .null
  | .binary op lhs rhs _ => .binary op (outline lhs) (outline rhs) .null
  | .function name ps returns body _ _ => .function name ps returns (outline body) false .null
  | .call callee values _ => .call callee (outlineArguments values) .null
  | .conditional condition consequence none _ =>
    .conditional (outline condition) (outline consequence) none .null
  | .conditional condition consequence (some alternative) _ =>
    .conditional (outline condition) (outline consequence) (some (outline alternative)) .null
  | .returned none _ => .returned none .null
  | .returned (some body) _ => .returned (some (outline body)) .null

def outlineArguments : List (String × Node) → List (String × Node)
  | [] => []
  | (label, value) :: rest => (label, outline value) :: outlineArguments rest

end

theorem outline_conditional (condition consequence : Node) (alternative : Option Node) (s : Span) :
    (conditional condition consequence alternative s).outline =
      .conditional condition.outline consequence.outline (alternative.map outline) .null := by
  cases alternative <;> rfl

theorem outline_returned (body : Option Node) (s : Span) :
    (returned body s).outline = .returned (body.map outline) .null := by
  cases body <;> rfl

/-- Names are names, parameters are labelled as they are named, and no number is negative. -/
def Legible : Node → Prop
  | .number x _ => x.isNegative = false
  | .reference name _ => IsName name.toList
  | .function name ps _ _ _ _ =>
    IsName name.toList ∧ ∀ p ∈ ps, IsName p.name.toList ∧ p.label = p.name
  | .call callee values _ => IsName callee.toList ∧ ∀ value ∈ values, IsName value.1.toList
  | .binary _ _ _ _ | .conditional _ _ _ _ | .returned _ _ => True

/-- The node is no infinite number. -/
def HasFiniteValue : Node → Prop
  | .number x _ => x.isFinite = true
  | _ => True

/-- The trees whose texts have one reading. -/
def Readable (n : Node) : Prop := n.Everywhere fun m => m.Legible ∧ m.HasFiniteValue

/-- The last part of a node text, if there is one. -/
def lastText : Option Node → List Char
  | none => []
  | some n => ' ' :: n.text.toList

/-- What stands behind the parenthesis that a node text starts with. -/
inductive Head where
  | operator (op : Operator)
  | function
  | call
  | conditional
  | returned

namespace Head

def word : Head → String
  | .operator op => op.symbol
  | .function => "func"
  | .call => "call"
  | .conditional => "if"
  | .returned => "return"

theorem isPiece_word (head : Head) : IsPiece head.word.toList := by
  have hpiece {w : String} (hne : w.toList ≠ []) (hw : w.toList.all fun c => !isMark c) :
      IsPiece w.toList := by
    refine ⟨hne, ?_⟩
    intro c hc
    simpa using List.all_eq_true.mp hw c hc
  cases head with
  | operator op => cases op <;> exact hpiece (by decide) (by decide)
  | function | call | conditional | returned => exact hpiece (by decide) (by decide)

theorem word_inj {head head' : Head} (h : head.word = head'.word) : head = head' := by
  cases head with
  | operator op =>
    cases head' with
    | operator op' =>
      have hop := Operator.ofSymbol?_symbol op
      rw [show op.symbol = op'.symbol from h, Operator.ofSymbol?_symbol] at hop
      rw [Option.some.inj hop]
    | function | call | conditional | returned => cases op <;> simp [word, Operator.symbol] at h
  | function | call | conditional | returned =>
    cases head' with
    | operator op => cases op <;> simp [word, Operator.symbol] at h
    | function | call | conditional | returned => simp_all [word]

end Head

/-- The head of a node text and all that follows it. The texts of numbers and references have
no head. -/
def anatomy : Node → Option (Head × List Char)
  | .number _ _ | .reference _ _ => none
  | .binary op lhs rhs _ =>
    some (.operator op, ' ' :: lhs.text.toList ++ ' ' :: rhs.text.toList ++ [')'])
  | .function name ps returns body _ _ =>
    some (.function, ' ' :: name.toList ++ ' ' :: '(' ::
      (" ".intercalate (ps.map Parameter.name)).toList ++ ')' :: ' ' :: '-' :: '>' :: ' ' ::
      returns.text.toList ++ ' ' :: body.text.toList ++ [')'])
  | .call callee values _ =>
    some (.call, ' ' :: callee.toList ++ (argumentsText values).toList ++ [')'])
  | .conditional condition consequence alternative _ =>
    some (.conditional, ' ' :: condition.text.toList ++ ' ' :: consequence.text.toList ++
      lastText alternative ++ [')'])
  | .returned body _ => some (.returned, lastText body ++ [')'])

variable {n m : Node} {head : Head} {parts parts' rest rest' : List Char}

theorem toList_text_of_anatomy (h : n.anatomy = some (head, parts)) :
    n.text.toList = '(' :: head.word.toList ++ parts := by
  cases n with
  | number | reference => cases h
  | binary | function | call =>
    cases h
    simp only [text, Head.word, String.toList_append, String.reduceToList, List.cons_append,
      List.nil_append, List.append_assoc]
  | conditional condition consequence alternative s =>
    cases h
    cases alternative <;> simp [text, lastText, Head.word]
  | returned body s =>
    cases h
    cases body <;> simp [text, lastText, Head.word]

theorem marked_lastText (last : Option Node) : Marked (lastText last ++ ')' :: rest) := by
  cases last <;> exact marked_cons (by decide)

theorem marked_argumentsText (values : List (String × Node)) :
    Marked ((argumentsText values).toList ++ ')' :: rest) := by
  cases values with
  | nil => exact marked_cons (by decide)
  | cons value values =>
    simp only [argumentsText, String.toList_append, List.append_assoc]
    exact marked_cons (by decide)

theorem marked_of_anatomy (h : n.anatomy = some (head, parts)) : Marked (parts ++ rest) := by
  cases n with
  | number | reference => cases h
  | binary | function | call | conditional =>
    cases h
    exact marked_cons (by decide)
  | returned body s =>
    cases h
    simpa using marked_lastText body

theorem argumentsText_outline {values : List (String × Node)}
    (h : ∀ value ∈ values, value.2.outline.text = value.2.text) :
    argumentsText (outlineArguments values) = argumentsText values := by
  induction values with
  | nil => rfl
  | cons value values ih =>
    obtain ⟨hvalue, hvalues⟩ := List.forall_mem_cons.mp h
    simp [outlineArguments, argumentsText, hvalue, ih hvalues]

/-- Spans and the mark of bare expressions are not written. -/
theorem text_outline (n : Node) : n.outline.text = n.text := by
  induction n using of_children with
  | h n ih =>
    cases n with
    | number | reference => rfl
    | binary | function => simp_all [children, outline, text]
    | call callee values s =>
      have hvalues : ∀ value ∈ values, value.2.outline.text = value.2.text := by
        intro value hvalue
        exact ih value.2 (List.mem_map_of_mem hvalue)
      simp [outline, text, argumentsText_outline hvalues]
    | conditional condition consequence alternative s =>
      cases alternative <;> simp_all [children, outline, text]
    | returned body s => cases body <;> simp_all [children, outline, text]

/-- It is seen from a text that starts with that of the tree where the tree ends, and which
tree it is. -/
def Determined (n : Node) : Prop :=
  ∀ ⦃m : Node⦄ ⦃rest rest' : List Char⦄, m.Readable → Marked rest → Marked rest' →
    n.text.toList ++ rest = m.text.toList ++ rest' → n.outline = m.outline ∧ rest = rest'

theorem Determined.append_cons {c c' : Char} (hn : n.Determined) (hm : m.Readable)
    (hc : isMark c = true) (hc' : isMark c' = true)
    (h : n.text.toList ++ c :: rest = m.text.toList ++ c' :: rest') :
    n.outline = m.outline ∧ c = c' ∧ rest = rest' := by
  obtain ⟨houtline, hrest⟩ := hn hm (marked_cons hc) (marked_cons hc') h
  exact ⟨houtline, List.cons.inj hrest⟩

theorem toList_intercalate_cons (name : String) (names : List String) :
    (" ".intercalate (name :: names)).toList =
      name.toList ++ names.flatMap fun name => ' ' :: name.toList := by
  induction names generalizing name with
  | nil => simp
  | cons name' names ih => simp [String.intercalate_cons_cons, ih]

theorem flatMap_names_inj {names names' : List String}
    (hnames : ∀ name ∈ names, IsName name.toList) (hnames' : ∀ name ∈ names', IsName name.toList)
    (h : (names.flatMap fun name => ' ' :: name.toList) ++ ')' :: rest =
      (names'.flatMap fun name => ' ' :: name.toList) ++ ')' :: rest') :
    names = names' ∧ rest = rest' := by
  have hmarked (names : List String) (rest : List Char) :
      Marked ((names.flatMap fun name => ' ' :: name.toList) ++ ')' :: rest) := by
    cases names <;> exact marked_cons (by decide)
  induction names generalizing names' with
  | nil =>
    cases names' with
    | nil => simpa using h
    | cons => simp at h
  | cons name names ih =>
    cases names' with
    | nil => simp at h
    | cons name' names' =>
      obtain ⟨hname, hnames⟩ := List.forall_mem_cons.mp hnames
      obtain ⟨hname', hnames'⟩ := List.forall_mem_cons.mp hnames'
      simp only [List.flatMap_cons, List.cons_append, List.append_assoc, List.cons.injEq,
        true_and] at h
      obtain ⟨heq, h⟩ :=
        hname.isPiece.append_inj hname'.isPiece (hmarked names rest) (hmarked names' rest') h
      obtain ⟨heqs, hrest⟩ := ih hnames hnames' h
      exact ⟨by rw [String.toList_inj.mp heq, heqs], hrest⟩

/-- Names between blanks are seen from the text up to the parenthesis behind them. -/
theorem intercalate_names_inj {names names' : List String}
    (hnames : ∀ name ∈ names, IsName name.toList) (hnames' : ∀ name ∈ names', IsName name.toList)
    (h : (" ".intercalate names).toList ++ ')' :: rest =
      (" ".intercalate names').toList ++ ')' :: rest') : names = names' ∧ rest = rest' := by
  cases names with
  | nil =>
    cases names' with
    | nil => simpa using h
    | cons name' names' =>
      obtain ⟨hname', -⟩ := List.forall_mem_cons.mp hnames'
      rw [toList_intercalate_cons, List.append_assoc] at h
      exact absurd h.symm (hname'.isPiece.append_ne_cons (by decide))
  | cons name names =>
    obtain ⟨hname, -⟩ := List.forall_mem_cons.mp hnames
    cases names' with
    | nil =>
      rw [toList_intercalate_cons, List.append_assoc] at h
      exact absurd h (hname.isPiece.append_ne_cons (by decide))
    | cons name' names' =>
      -- A blank in front of both makes one list of blanks and names of either.
      refine flatMap_names_inj hnames hnames' ?_
      rw [toList_intercalate_cons, toList_intercalate_cons] at h
      simpa using h

theorem isName_of_mem_names {ps : List Parameter}
    (h : ∀ p ∈ ps, IsName p.name.toList ∧ p.label = p.name) :
    ∀ name ∈ ps.map Parameter.name, IsName name.toList := by
  intro name hname
  obtain ⟨p, hp, rfl⟩ := List.mem_map.mp hname
  exact (h p hp).1

theorem parameters_eq_of_names {ps ps' : List Parameter}
    (h : ∀ p ∈ ps, IsName p.name.toList ∧ p.label = p.name)
    (h' : ∀ p ∈ ps', IsName p.name.toList ∧ p.label = p.name)
    (hnames : ps.map Parameter.name = ps'.map Parameter.name) : ps = ps' := by
  have hrebuild {ps : List Parameter} (h : ∀ p ∈ ps, IsName p.name.toList ∧ p.label = p.name) :
      (ps.map Parameter.name).map (fun name => Parameter.mk name name) = ps := by
    rw [List.map_map]
    refine (List.map_congr_left ?_).trans (List.map_id ps)
    intro p hp
    obtain ⟨label, name⟩ := p
    have hlabel : label = name := (h _ hp).2
    subst hlabel
    rfl
  rw [← hrebuild h, hnames, hrebuild h']

/-- The arguments of a call are seen from the text up to the parenthesis behind them. -/
theorem argumentsText_inj {values values' : List (String × Node)}
    (ih : ∀ value ∈ values, value.2.Determined)
    (hvalues : ∀ value ∈ values, IsName value.1.toList)
    (hvalues' : ∀ value ∈ values', IsName value.1.toList ∧ value.2.Readable)
    (h : (argumentsText values).toList ++ ')' :: rest =
      (argumentsText values').toList ++ ')' :: rest') :
    outlineArguments values = outlineArguments values' ∧ rest = rest' := by
  induction values generalizing values' with
  | nil =>
    cases values' with
    | nil => simpa [argumentsText] using h
    | cons => simp [argumentsText] at h
  | cons value values ihvalues =>
    cases values' with
    | nil => simp [argumentsText] at h
    | cons value' values' =>
      obtain ⟨hvalue, ih⟩ := List.forall_mem_cons.mp ih
      obtain ⟨hlabel, hvalues⟩ := List.forall_mem_cons.mp hvalues
      obtain ⟨⟨hlabel', hvalue'⟩, hvalues'⟩ := List.forall_mem_cons.mp hvalues'
      simp only [argumentsText, String.toList_append, List.append_assoc, String.reduceToList,
        List.cons_append, List.nil_append, List.cons.injEq, true_and] at h
      obtain ⟨heq, h⟩ := hlabel.isPiece.append_inj hlabel'.isPiece (marked_cons (by decide))
        (marked_cons (by decide)) h
      simp only [List.cons.injEq, true_and] at h
      obtain ⟨houtline, -, h⟩ := hvalue.append_cons hvalue' (by decide) (by decide) h
      obtain ⟨houtlines, hrest⟩ := ihvalues ih hvalues hvalues' h
      refine ⟨?_, hrest⟩
      simp only [outlineArguments, String.toList_inj.mp heq, houtline, houtlines]

/-- A last part is seen from the text up to the parenthesis behind it. -/
theorem lastText_inj {last last' : Option Node} (ih : ∀ n ∈ last, n.Determined)
    (hlast' : ∀ n ∈ last', n.Readable)
    (h : lastText last ++ ')' :: rest = lastText last' ++ ')' :: rest') :
    last.map outline = last'.map outline ∧ rest = rest' := by
  cases last with
  | none =>
    cases last' with
    | none => simpa [lastText] using h
    | some => simp [lastText] at h
  | some n =>
    cases last' with
    | none => simp [lastText] at h
    | some m =>
      simp only [lastText, List.cons_append, List.cons.injEq, true_and] at h
      obtain ⟨houtline, -, hrest⟩ :=
        (ih n rfl).append_cons (hlast' m rfl) (by decide) (by decide) h
      simp [houtline, hrest]

theorem Readable.isPiece_text (hn : n.Readable) (h : n.anatomy = none) : IsPiece n.text.toList := by
  obtain ⟨hlegible, hfinite⟩ := Everywhere.self hn
  cases n with
  | number x s => exact Binary64.isPiece_text hfinite hlegible
  | reference name s => exact IsName.isPiece hlegible
  | binary | function | call | conditional | returned => cases h

/-- A number and a reference differ from all other trees in their text. -/
theorem determined_of_anatomy_eq_none (hn : n.Readable) (h : n.anatomy = none) :
    n.Determined := by
  intro m rest rest' hm hrest hrest' htext
  cases hanatomy : m.anatomy with
  | some anatomy =>
    rw [toList_text_of_anatomy hanatomy] at htext
    exact absurd htext ((hn.isPiece_text h).append_ne_cons (by decide))
  | none =>
    obtain ⟨heq, hrest⟩ :=
      (hn.isPiece_text h).append_inj (hm.isPiece_text hanatomy) hrest hrest' htext
    refine ⟨?_, hrest⟩
    obtain ⟨hlegible, hfinite⟩ := Everywhere.self hn
    obtain ⟨hlegible', hfinite'⟩ := Everywhere.self hm
    have heq : n.text = m.text := String.toList_inj.mp heq
    cases n with
    | number x s =>
      cases m with
      | number y t =>
        rw [outline, outline, Binary64.eq_of_text_eq hfinite hlegible hfinite' hlegible' heq]
      | reference name t =>
        refine absurd hlegible' ?_
        change ¬ IsName (text (.reference name t)).toList
        rw [← heq]
        exact Binary64.not_isName_text hfinite hlegible
      | binary | function | call | conditional | returned => cases hanatomy
    | reference name s =>
      cases m with
      | number y t =>
        refine absurd hlegible ?_
        change ¬ IsName (text (.reference name s)).toList
        rw [heq]
        exact Binary64.not_isName_text hfinite' hlegible'
      | reference name' t => exact congrArg (reference · .null) heq
      | binary | function | call | conditional | returned => cases hanatomy
    | binary | function | call | conditional | returned => cases h

section Parts

/- The texts of two trees have the same head, and what follows the heads is the same. So the
trees have the same parts, one after the other. -/

variable (hm : m.Readable) (hhead' : m.anatomy = some (head, parts'))
  (h : parts ++ rest = parts' ++ rest')

include hm hhead' h

theorem outline_function_eq {name : String} {ps : List Parameter} {returns : ValueType}
    {body : Node} {isEntry : Bool} {s : Span}
    (hn : (function name ps returns body isEntry s).Readable) (ih : body.Determined)
    (hhead : (function name ps returns body isEntry s).anatomy = some (head, parts)) :
    (function name ps returns body isEntry s).outline = m.outline ∧ rest = rest' := by
  obtain ⟨⟨hname, hps⟩, -⟩ := Everywhere.self hn
  cases hhead
  cases m with
  | function name' ps' returns' body' isEntry' s' =>
    cases hhead'
    obtain ⟨⟨hname', hps'⟩, -⟩ := Everywhere.self hm
    have hbody' : body'.Readable := Everywhere.child hm (by simp [children])
    simp only [List.cons_append, List.append_assoc, List.nil_append, List.cons.injEq,
      true_and] at h
    obtain ⟨hnames, h⟩ := hname.isPiece.append_inj hname'.isPiece
      (marked_cons (by decide)) (marked_cons (by decide)) h
    simp only [List.cons.injEq, true_and] at h
    obtain ⟨hparameters, h⟩ := intercalate_names_inj (isName_of_mem_names hps)
      (isName_of_mem_names hps') h
    simp only [List.cons.injEq, true_and] at h
    obtain ⟨hreturns, h⟩ := returns.isPiece_text.append_inj returns'.isPiece_text
      (marked_cons (by decide)) (marked_cons (by decide)) h
    simp only [List.cons.injEq, true_and] at h
    obtain ⟨hbody, -, h⟩ := ih.append_cons hbody' (by decide) (by decide) h
    refine ⟨?_, h⟩
    rw [outline, outline, String.toList_inj.mp hnames,
      parameters_eq_of_names hps hps' hparameters,
      ValueType.text_inj (String.toList_inj.mp hreturns), hbody]
  | _ => cases hhead'

theorem outline_call_eq {callee : String} {values : List (String × Node)} {s : Span}
    (hn : (call callee values s).Readable) (ih : ∀ value ∈ values, value.2.Determined)
    (hhead : (call callee values s).anatomy = some (head, parts)) :
    (call callee values s).outline = m.outline ∧ rest = rest' := by
  obtain ⟨⟨hname, hlabels⟩, -⟩ := Everywhere.self hn
  cases hhead
  cases m with
  | call callee' values' s' =>
    cases hhead'
    obtain ⟨⟨hname', hlabels'⟩, -⟩ := Everywhere.self hm
    have hvalues' : ∀ value ∈ values', IsName value.1.toList ∧ value.2.Readable := by
      intro value hvalue
      exact ⟨hlabels' value hvalue, Everywhere.child hm (List.mem_map_of_mem hvalue)⟩
    simp only [List.cons_append, List.append_assoc, List.nil_append, List.cons.injEq,
      true_and] at h
    obtain ⟨hcallee, h⟩ := hname.isPiece.append_inj hname'.isPiece
      (marked_argumentsText _) (marked_argumentsText _) h
    obtain ⟨hvalues, h⟩ := argumentsText_inj ih hlabels hvalues' h
    refine ⟨?_, h⟩
    rw [outline, outline, String.toList_inj.mp hcallee, hvalues]
  | _ => cases hhead'

theorem outline_binary_eq {op : Operator} {lhs rhs : Node} {s : Span} (ih : lhs.Determined)
    (ih' : rhs.Determined) (hhead : (binary op lhs rhs s).anatomy = some (head, parts)) :
    (binary op lhs rhs s).outline = m.outline ∧ rest = rest' := by
  cases hhead
  cases m with
  | binary op' lhs' rhs' s' =>
    cases hhead'
    have hlhs' : lhs'.Readable := Everywhere.child hm (by simp [children])
    have hrhs' : rhs'.Readable := Everywhere.child hm (by simp [children])
    simp only [List.cons_append, List.append_assoc, List.nil_append, List.cons.injEq,
      true_and] at h
    obtain ⟨hlhs, -, h⟩ := ih.append_cons hlhs' (by decide) (by decide) h
    obtain ⟨hrhs, -, h⟩ := ih'.append_cons hrhs' (by decide) (by decide) h
    refine ⟨?_, h⟩
    rw [outline, outline, hlhs, hrhs]
  | _ => cases hhead'

theorem outline_conditional_eq {condition consequence : Node} {alternative : Option Node}
    {s : Span} (ih : condition.Determined) (ih' : consequence.Determined)
    (ih'' : ∀ n ∈ alternative, n.Determined)
    (hhead : (conditional condition consequence alternative s).anatomy = some (head, parts)) :
    (conditional condition consequence alternative s).outline = m.outline ∧ rest = rest' := by
  cases hhead
  cases m with
  | conditional condition' consequence' alternative' s' =>
    cases hhead'
    have hcondition' : condition'.Readable := Everywhere.child hm (by simp [children])
    have hconsequence' : consequence'.Readable := Everywhere.child hm (by simp [children])
    have halternative' : ∀ n ∈ alternative', n.Readable := by
      intro n hn
      exact Everywhere.child hm (by simp [children, Option.mem_def.mp hn])
    simp only [List.cons_append, List.append_assoc, List.nil_append, List.cons.injEq,
      true_and] at h
    obtain ⟨hcondition, -, h⟩ := ih.append_cons hcondition' (by decide) (by decide) h
    obtain ⟨hconsequence, h⟩ := ih' hconsequence' (marked_lastText _) (marked_lastText _) h
    obtain ⟨halternative, h⟩ := lastText_inj ih'' halternative' h
    refine ⟨?_, h⟩
    rw [outline_conditional, outline_conditional, hcondition, hconsequence, halternative]
  | _ => cases hhead'

theorem outline_returned_eq {body : Option Node} {s : Span} (ih : ∀ n ∈ body, n.Determined)
    (hhead : (returned body s).anatomy = some (head, parts)) :
    (returned body s).outline = m.outline ∧ rest = rest' := by
  cases hhead
  cases m with
  | returned body' s' =>
    cases hhead'
    have hbody' : ∀ n ∈ body', n.Readable := by
      intro n hn
      exact Everywhere.child hm (by simp [children, Option.mem_def.mp hn])
    simp only [List.append_assoc, List.cons_append, List.nil_append] at h
    obtain ⟨hbody, h⟩ := lastText_inj ih hbody' h
    refine ⟨?_, h⟩
    rw [outline_returned, outline_returned, hbody]
  | _ => cases hhead'

theorem outline_eq_of_anatomy (hn : n.Readable) (ih : ∀ child ∈ n.children, child.Determined)
    (hhead : n.anatomy = some (head, parts)) : n.outline = m.outline ∧ rest = rest' := by
  cases n with
  | number | reference => cases hhead
  | binary op lhs rhs s =>
    exact outline_binary_eq hm hhead' h (ih lhs (by simp [children])) (ih rhs (by simp [children]))
      hhead
  | function name ps returns body isEntry s =>
    exact outline_function_eq hm hhead' h hn (ih body (by simp [children])) hhead
  | call callee values s =>
    exact outline_call_eq hm hhead' h hn (List.forall_mem_map.mp ih) hhead
  | conditional condition consequence alternative s =>
    simp only [children, List.forall_mem_cons, Option.mem_toList] at ih
    exact outline_conditional_eq hm hhead' h ih.1 ih.2.1 ih.2.2 hhead
  | returned body s =>
    simp only [children, Option.mem_toList] at ih
    exact outline_returned_eq hm hhead' h ih hhead

end Parts

/-- Where a readable tree ends in a text, and which tree it is, is seen from the text alone. -/
theorem determined (n : Node) : n.Readable → n.Determined := by
  induction n using of_children with
  | h n ih =>
    intro hn
    have hchildren : ∀ child ∈ n.children, child.Determined := by
      intro child hchild
      exact ih child hchild (Everywhere.child hn hchild)
    cases hanatomy : n.anatomy with
    | none => exact determined_of_anatomy_eq_none hn hanatomy
    | some pair =>
      intro m rest rest' hm hrest hrest' htext
      cases hanatomy' : m.anatomy with
      | none =>
        rw [toList_text_of_anatomy hanatomy] at htext
        exact absurd htext.symm ((hm.isPiece_text hanatomy').append_ne_cons (by decide))
      | some pair' =>
        obtain ⟨head, parts⟩ := pair
        obtain ⟨head', parts'⟩ := pair'
        rw [toList_text_of_anatomy hanatomy, toList_text_of_anatomy hanatomy'] at htext
        simp only [List.cons_append, List.append_assoc, List.cons.injEq, true_and] at htext
        obtain ⟨hword, hparts⟩ := head.isPiece_word.append_inj head'.isPiece_word
          (marked_of_anatomy hanatomy) (marked_of_anatomy hanatomy') htext
        have hhead : head = head' := Head.word_inj (String.toList_inj.mp hword)
        subst hhead
        exact outline_eq_of_anatomy hm hanatomy' hparts hn hchildren hanatomy

end Node

end ExprLang
