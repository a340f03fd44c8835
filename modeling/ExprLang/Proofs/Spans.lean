import ExprLang.Proofs.Language
import ExprLang.Proofs.Spelling
import ExprLang.Proofs.Subtrees

/-!
Where trees stand in a text. The tokens of a text stand one behind the other, and each covers
its value. So the spans that are made of theirs nest: children lie inside their parents, one
behind the other, and the text under a node begins and ends as its construct does.
-/
namespace ExprLang

open Text Grammar

namespace Span

/-- The span reaches over the part of the source, as a part of the file. -/
def Covers (source : List Char) (file : String) (s : Span) (part : List Char) : Prop :=
  ∃ before after : List Char, source = before ++ part ++ after ∧
    s.start.offset.toNat = bytes before ∧ s.stop.offset.toNat = bytes (before ++ part) ∧
    s.start.file = file ∧ s.stop.file = file

def Contains (s s' : Span) : Prop :=
  s.start.offset ≤ s'.start.offset ∧ s'.stop.offset ≤ s.stop.offset

instance (s s' : Span) : Decidable (s.Contains s') := instDecidableAnd

def Precedes (s s' : Span) : Prop := s.stop.offset ≤ s'.start.offset

variable {source part part' : List Char} {file : String} {s s' : Span}

theorem Covers.stop_le (h : s.Covers source file part) : s.stop.offset.toNat ≤ bytes source := by
  obtain ⟨before, after, rfl, -, hstop, -⟩ := h
  rw [hstop, bytes_append (before ++ part) after]
  omega

theorem Covers.files (h : s.Covers source file part) :
    s.start.file = file ∧ s.stop.file = file := by
  obtain ⟨-, -, -, -, -, hfiles⟩ := h
  exact hfiles

/-- Of two beginnings of a text the one with fewer bytes begins the other. -/
theorem exists_append_of_bytes_le {u v rest rest' : List Char} (h : u ++ rest = v ++ rest')
    (hle : bytes u ≤ bytes v) : ∃ mid, v = u ++ mid := by
  rcases List.append_eq_append_iff.mp h with ⟨mid, hv, -⟩ | ⟨mid, hu, -⟩
  · exact ⟨mid, hv⟩
  · have hmid : mid = [] := by
      have hlength := length_le_bytes mid
      rw [hu, bytes_append] at hle
      exact List.length_eq_zero_iff.mp (by omega)
    exact ⟨[], by rw [hu, hmid, List.append_nil, List.append_nil]⟩

/-- Two spans of which the first comes first are joined over the text between them. -/
theorem Covers.join (h : s.Covers source file part) (h' : s'.Covers source file part')
    (hle : s.stop.offset.toNat ≤ s'.start.offset.toNat) :
    ∃ mid, (s.join s').Covers source file (part ++ mid ++ part') := by
  obtain ⟨before, after, hsource, hstart, hstop, hfile, -⟩ := h
  obtain ⟨before', after', hsource', hstart', hstop', -, hfile'⟩ := h'
  have hsplit : before ++ part ++ after = before' ++ (part' ++ after') := by
    rw [← hsource, hsource', List.append_assoc]
  obtain ⟨mid, hmid⟩ := exists_append_of_bytes_le hsplit (by omega)
  refine ⟨mid, before, after', ?_, hstart, ?_, hfile, hfile'⟩
  · rw [hsource', hmid]
    simp
  · rw [show (s.join s').stop = s'.stop from rfl, hstop', hmid]
    simp

end Span

section Rows

variable {α : Type} {span : α → Span} {P : α → Prop} {lo hi lo' hi' : Nat} {x : α} {xs ys : List α}

/-- What has the property stands one behind the other between two offsets, and nothing of it is
empty. -/
def InRow (span : α → Span) (P : α → Prop) : Nat → List α → Nat → Prop
  | lo, [], hi => lo ≤ hi
  | lo, x :: xs, hi => lo ≤ (span x).start.offset.toNat ∧
      (span x).start.offset.toNat < (span x).stop.offset.toNat ∧ P x ∧
        InRow span P (span x).stop.offset.toNat xs hi

namespace InRow

theorem le (h : InRow span P lo xs hi) : lo ≤ hi := by
  induction xs generalizing lo with
  | nil => exact h
  | cons x xs ih =>
    have hrest := ih h.2.2.2
    have hlo := h.1
    have hne := h.2.1
    omega

theorem mono (h : InRow span P lo xs hi) (hlo : lo' ≤ lo) (hhi : hi ≤ hi') :
    InRow span P lo' xs hi' := by
  induction xs generalizing lo lo' with
  | nil => exact Nat.le_trans hlo (Nat.le_trans h hhi)
  | cons x xs ih => exact ⟨Nat.le_trans hlo h.1, h.2.1, h.2.2.1, ih h.2.2.2 (Nat.le_refl _)⟩

theorem append_iff :
    InRow span P lo (xs ++ ys) hi ↔ ∃ mid, InRow span P lo xs mid ∧ InRow span P mid ys hi := by
  constructor
  · intro h
    induction xs generalizing lo with
    | nil => exact ⟨lo, Nat.le_refl lo, h⟩
    | cons x xs ih =>
      obtain ⟨mid, hxs, hys⟩ := ih h.2.2.2
      exact ⟨mid, ⟨h.1, h.2.1, h.2.2.1, hxs⟩, hys⟩
  · rintro ⟨mid, hxs, hys⟩
    induction xs generalizing lo with
    | nil => exact hys.mono hxs (Nat.le_refl _)
    | cons x xs ih => exact ⟨hxs.1, hxs.2.1, hxs.2.2.1, ih hxs.2.2.2⟩

/-- A member can be left out of a row. -/
theorem skip (h : InRow span P lo (xs ++ x :: ys) hi) :
    ∃ mid, InRow span P lo xs mid ∧ InRow span P mid ys hi := by
  obtain ⟨mid, hxs, hx, hne, -, hys⟩ := append_iff.mp h
  exact ⟨mid, hxs, hys.mono (by omega) (Nat.le_refl _)⟩

theorem of_mem (h : InRow span P lo xs hi) (hx : x ∈ xs) :
    lo ≤ (span x).start.offset.toNat ∧ (span x).stop.offset.toNat ≤ hi ∧ P x := by
  obtain ⟨before, after, rfl⟩ := List.append_of_mem hx
  obtain ⟨mid, hbefore, hfirst, -, hP, hafter⟩ := append_iff.mp h
  exact ⟨Nat.le_trans hbefore.le hfirst, hafter.le, hP⟩

theorem pairwise (h : InRow span P lo xs hi) :
    xs.Pairwise fun x y => (span x).Precedes (span y) := by
  induction xs generalizing lo with
  | nil => exact .nil
  | cons x xs ih =>
    apply List.pairwise_cons.mpr
    constructor
    · intro y hy
      exact UInt32.le_iff_toNat_le.mpr (h.2.2.2.of_mem hy).1
    · exact ih h.2.2.2

/-- Every stretch of a row is one. -/
theorem of_infix (h : InRow span P lo xs hi) (hys : ys <:+: xs) : InRow span P lo ys hi := by
  obtain ⟨before, after, rfl⟩ := hys
  obtain ⟨stop, hfirst, hzs⟩ := append_iff.mp h
  obtain ⟨start, hxs, hys⟩ := append_iff.mp hfirst
  exact hys.mono hxs.le hzs.le

/-- A row reaches from where its first member starts to where its last one stops. -/
theorem of_ends {y : α} (h : InRow span P lo xs hi) (hfirst : xs.head? = some x)
    (hlast : xs.getLast? = some y) :
    InRow span P (span x).start.offset.toNat xs (span y).stop.offset.toNat := by
  obtain ⟨before, rfl⟩ := List.getLast?_eq_some_iff.mp hlast
  obtain ⟨mid, hbefore, hy, hne, hP, -⟩ := append_iff.mp h
  have hstop : InRow span P lo (before ++ [y]) (span y).stop.offset.toNat :=
    append_iff.mpr ⟨mid, hbefore, hy, hne, hP, Nat.le_refl _⟩
  obtain ⟨after, hafter⟩ := List.head?_eq_some_iff.mp hfirst
  rw [hafter] at hstop ⊢
  exact ⟨Nat.le_refl _, hstop.2⟩

end InRow

end Rows

/-- The token covers its value, which is of the form that its kind has. -/
def Token.Placed (source : List Char) (file : String) (t : Token) : Prop :=
  t.span.Covers source file t.value.toList ∧ Token.Fits t.kind t.value

namespace Node

/-- What the text looks like that the node was read from. A bare expression has no text beside
that of its body. -/
def Matches (part : List Char) : Node → Prop
  | .number x _ => (Token.Fits .integer (String.ofList part) ∨
      Token.Fits .float (String.ofList part)) ∧ Binary64.read? (String.ofList part) = some x
  | .reference name _ => part = name.toList
  | .binary _ _ _ _ => True
  | .function _ _ _ body true s => s = body.span
  | .function _ _ _ _ false _ => "func".toList <+: part ∧ "\x7d".toList <:+ part
  | .call callee _ _ => callee.toList <+: part ∧ ")".toList <:+ part
  | .conditional _ _ _ _ => "if".toList <+: part ∧ "\x7d".toList <:+ part
  | .returned _ _ => "return".toList <+: part

/-- The node has its place in the source, and its children have theirs inside of it, one behind
the other. -/
structure Placed (source : List Char) (file : String) (n : Node) : Prop where
  files : n.span.start.file = file ∧ n.span.stop.file = file
  nonempty : n.span.start.offset < n.span.stop.offset
  inside : n.span.stop.offset.toNat ≤ bytes source
  contains : ∀ child ∈ n.children, n.span.Contains child.span
  ordered : n.children.Pairwise fun m m' => m.span.Precedes m'.span
  text : ∃ part, n.span.Covers source file part ∧ n.Matches part

end Node

section Nesting

variable {source part : List Char} {file : String} {lo hi : Nat} {w : List Token} {t last : Token}
  {n : Node}

/-- The tokens stand one behind the other in the source. -/
abbrev Laid (source : List Char) (file : String) : Nat → List Token → Nat → Prop :=
  InRow Token.span (Token.Placed source file)

/-- The trees stand one behind the other in the source, and all in them have their places. -/
abbrev Nested (source : List Char) (file : String) : Nat → List Node → Nat → Prop :=
  InRow Node.span (Node.Everywhere (Node.Placed source file))

/-- The value of a token of the kind is of the form that the kind has. -/
theorem InRow.fits {kind : Token.Kind} (h : Laid source file lo w hi) (ht : t ∈ w)
    (hkind : t.kind = kind) : Token.Fits kind t.value := by
  obtain ⟨-, -, -, hfits⟩ := h.of_mem ht
  rwa [hkind] at hfits

theorem extent_eq_join (hfirst : w.head? = some t) (hlast : w.getLast? = some last) :
    extent w = t.span.join last.span := by
  obtain ⟨u, rfl⟩ := List.head?_eq_some_iff.mp hfirst
  have hlast : u.getLastD t = last := by simpa [List.getLast?_cons] using hlast
  rw [extent, hlast]
  rfl

/-- The text under a word starts with the value of its first token and ends with that of its last
one. -/
theorem InRow.covers_extent (h : Laid source file lo w hi) (hfirst : w.head? = some t)
    (hlast : w.getLast? = some last) :
    ∃ part, (extent w).Covers source file part ∧ t.value.toList <+: part ∧
      last.value.toList <:+ part := by
  rw [extent_eq_join hfirst hlast]
  obtain ⟨u, rfl⟩ := List.head?_eq_some_iff.mp hfirst
  obtain ⟨-, -, ht, hu⟩ := h
  by_cases hnil : u = []
  · subst hnil
    obtain rfl : t = last := by simpa using hlast
    exact ⟨t.value.toList, ht.1, List.prefix_refl _, List.suffix_refl _⟩
  · have hmem : last ∈ u := by
      apply List.mem_of_getLast?
      simpa [List.getLast?_cons_of_ne_nil hnil] using hlast
    obtain ⟨hle, -, hlast, -⟩ := hu.of_mem hmem
    obtain ⟨mid, hcovers⟩ := ht.1.join hlast hle
    exact ⟨_, hcovers, ⟨mid ++ last.value.toList, by simp⟩, List.suffix_append _ _⟩

/-- A node has its place if its text looks as it should and its children have theirs. -/
theorem nested_of_children (hlo : lo ≤ n.span.start.offset.toNat)
    (hne : n.span.start.offset.toNat < n.span.stop.offset.toNat)
    (hhi : n.span.stop.offset.toNat ≤ hi) (hcovers : n.span.Covers source file part)
    (hmatches : n.Matches part)
    (hchildren : Nested source file n.span.start.offset.toNat n.children
      n.span.stop.offset.toNat) :
    Nested source file lo [n] hi := by
  have hplaced : n.Placed source file := by
    refine ⟨hcovers.files, UInt32.lt_iff_toNat_lt.mpr hne, hcovers.stop_le, ?_, hchildren.pairwise,
      part, hcovers, hmatches⟩
    intro child hchild
    obtain ⟨hstart, hstop, -⟩ := hchildren.of_mem hchild
    exact ⟨UInt32.le_iff_toNat_le.mpr hstart, UInt32.le_iff_toNat_le.mpr hstop⟩
  refine ⟨hlo, hne, .of_children hplaced ?_, hhi⟩
  intro child hchild
  exact (hchildren.of_mem hchild).2.2

/-- The same for a node that reaches over a word, in which its children stand. -/
theorem nested_of_extent (hw : Laid source file lo w hi) (hfirst : w.head? = some t)
    (hlast : w.getLast? = some last) (hspan : n.span = extent w)
    (hmatches : ∀ part, t.value.toList <+: part → last.value.toList <:+ part → n.Matches part)
    (hchildren : ∀ {lo hi}, Laid source file lo w hi → Nested source file lo n.children hi) :
    Nested source file lo [n] hi := by
  obtain ⟨part, hcovers, hbegins, hends⟩ := hw.covers_extent hfirst hlast
  obtain ⟨hlo, -, -⟩ := hw.of_mem (List.mem_of_head? hfirst)
  obtain ⟨-, hhi, -⟩ := hw.of_mem (List.mem_of_getLast? hlast)
  have hexact := hw.of_ends hfirst hlast
  rw [← hspan] at hcovers
  rw [extent_eq_join hfirst hlast] at hspan
  have hne : t.span.start.offset.toNat < last.span.stop.offset.toNat := by
    obtain ⟨u, rfl⟩ := List.head?_eq_some_iff.mp hfirst
    have hrest := hexact.2.2.2.le
    have hfirst := hexact.2.1
    omega
  refine nested_of_children ?_ ?_ ?_ hcovers (hmatches part hbegins hends) ?_
  · rw [hspan]
    exact hlo
  · rw [hspan]
    exact hne
  · rw [hspan]
    exact hhi
  · rw [hspan]
    exact hchildren hexact

theorem Nested.entry (h : Nested source file lo [n] hi) : Nested source file lo [n.entry] hi := by
  obtain ⟨hlo, hne, hplaced, hhi⟩ := h
  obtain ⟨part, hcovers, -⟩ := hplaced.self.text
  exact nested_of_children hlo hne hhi hcovers rfl ⟨Nat.le_refl _, hne, hplaced, Nat.le_refl _⟩

/-- Two trees one behind the other are the operands of a binary one. -/
theorem Nested.binary {lhs rhs : Node} (op : Operator) (h : Nested source file lo [lhs, rhs] hi) :
    Nested source file lo [.binary op lhs rhs (lhs.span.join rhs.span)] hi := by
  obtain ⟨hlo, hlhs, hplaced, hle, hrhs, hplaced', hhi⟩ := h
  obtain ⟨part, hcovers, -⟩ := hplaced.self.text
  obtain ⟨part', hcovers', -⟩ := hplaced'.self.text
  obtain ⟨mid, hjoined⟩ := hcovers.join hcovers' hle
  have hne : lhs.span.start.offset.toNat < rhs.span.stop.offset.toNat := by omega
  exact nested_of_children hlo hne hhi hjoined trivial
    ⟨Nat.le_refl _, hlhs, hplaced, hle, hrhs, hplaced', Nat.le_refl _⟩

/-- The branches of a conditional stand behind its condition, one behind the other. -/
theorem nested_branches {t' : Token} {u v : List Token} {condition consequence alternative : Node}
    (h : Laid source file lo (t :: u ++ v ++ t' :: w) hi)
    (hu : ∀ {lo hi}, Laid source file lo u hi → Nested source file lo [condition] hi)
    (hv : ∀ {lo hi}, Laid source file lo v hi → Nested source file lo [consequence] hi)
    (hw : ∀ {lo hi}, Laid source file lo w hi → Nested source file lo [alternative] hi) :
    Nested source file lo [condition, consequence, alternative] hi := by
  have hrest : Laid source file lo (u ++ v ++ t' :: w) hi := h.of_infix ⟨[t], [], by simp⟩
  obtain ⟨mid, hboth, halternative⟩ := hrest.skip
  obtain ⟨mid', hcondition, hconsequence⟩ := InRow.append_iff.mp hboth
  have hfirst : Nested source file lo [condition, consequence] mid :=
    InRow.append_iff.mpr ⟨mid', hu hcondition, hv hconsequence⟩
  exact InRow.append_iff.mpr ⟨mid, hfirst, hw halternative⟩

end Nesting

namespace Grammar

/-- The trees of what a word stands for. -/
def Part.nodes : (part : Part) → part.Value → List Node
  | .arguments, values => values.map Prod.snd
  | .parameters, _ => []
  | .units, ns => ns
  | .chain _, n | .definition, n | .conditional, n | .branch, n => [n]

/-- The parts whose words end with a brace. -/
def Part.IsBraced : Part → Prop
  | .definition | .conditional | .branch => True
  | .chain _ | .arguments | .parameters | .units => False

theorem Derives.exists_concat {part : Part} {w : List Token} {next : Token.Kind}
    {value : part.Value} (h : Derives part w next value) (hpart : part.IsBraced) :
    ∃ u last, w = u ++ [last] ∧ last.kind = .closeCurly := by
  induction h with
  | definition hkinds =>
    simp only [List.map_cons, List.cons.injEq] at hkinds
    exact ⟨_, _, rfl, hkinds.2.2.2.2.2.2.2.1⟩
  | branch hkinds =>
    simp only [List.map_cons, List.cons.injEq] at hkinds
    exact ⟨_, _, rfl, hkinds.2.1⟩
  | @ifThen t u _ _ _ _ _ _ _ _ ih =>
    obtain ⟨v, last, rfl, hlast⟩ := ih trivial
    exact ⟨t :: u ++ v, last, by simp, hlast⟩
  | @ifThenElse t t' u v _ _ _ _ _ _ _ _ _ _ _ ih
  | @ifThenElseIf t t' u v _ _ _ _ _ _ _ _ _ _ _ ih =>
    obtain ⟨w, last, rfl, hlast⟩ := ih trivial
    exact ⟨t :: u ++ v ++ t' :: w, last, by simp, hlast⟩
  | _ => exact hpart.elim

variable {source : List Char} {file : String} {part : Part} {w : List Token} {next : Token.Kind}
  {value : part.Value}

theorem Derives.nested_conditional {lo hi : Nat} {condition consequence : Node}
    {alternative : Option Node}
    (h : Derives .conditional w next
      (.conditional condition consequence alternative (extent w)))
    (hw : Laid source file lo w hi)
    (hchildren : ∀ {lo hi}, Laid source file lo w hi →
      Nested source file lo (condition :: consequence :: alternative.toList) hi) :
    Nested source file lo [.conditional condition consequence alternative (extent w)] hi := by
  obtain ⟨t, u, hfirst, hif⟩ := h.conditional_eq_cons
  obtain ⟨v, last, hlast, hclose⟩ := h.exists_concat trivial
  have hhead : w.head? = some t := List.head?_eq_some_iff.mpr ⟨u, hfirst⟩
  have hend : w.getLast? = some last := List.getLast?_eq_some_iff.mpr ⟨v, hlast⟩
  refine nested_of_extent hw hhead hend rfl ?_ hchildren
  intro part hbegins hends
  rw [show t.value = "if" from hw.fits (by simp [hfirst]) hif] at hbegins
  rw [show last.value = "\x7d" from hw.fits (by simp [hlast]) hclose] at hends
  exact ⟨hbegins, hends⟩

/-- The trees of a word that stands in the source have their places in it. -/
theorem Derives.nested (h : Derives part w next value) :
    ∀ {lo hi : Nat}, Laid source file lo w hi → Nested source file lo (part.nodes value) hi := by
  -- The bounds are free in the induction: a node asks for its children between its own ends,
  -- the word around it only between those that the rest of the text leaves.
  induction h with
  | number hkind hread =>
    rintro lo hi ⟨hlo, hne, ⟨hcovers, hfits⟩, hhi⟩
    refine nested_of_children hlo hne hhi hcovers ?_ (Nat.le_of_lt hne)
    simp only [Node.Matches, String.ofList_toList]
    rcases hkind with hkind | hkind
    · exact ⟨.inl (hkind ▸ hfits), hread⟩
    · exact ⟨.inr (hkind ▸ hfits), hread⟩
  | reference =>
    rintro lo hi ⟨hlo, hne, ⟨hcovers, -⟩, hhi⟩
    exact nested_of_children hlo hne hhi hcovers rfl (Nat.le_of_lt hne)
  | @call name lparen rparen w _ _ hkinds _ ih =>
    intro lo hi hw
    simp only [List.map_cons, List.cons.injEq] at hkinds
    refine nested_of_extent hw rfl (List.getLast?_concat ..) rfl ?_ ?_
    · intro part hbegins hends
      rw [show rparen.value = ")" from hw.fits (by simp) hkinds.2.2.1] at hends
      exact ⟨hbegins, hends⟩
    · intro lo hi hw
      exact ih (hw.of_infix ⟨[name, lparen], [rparen], rfl⟩)
  | @parenthesised lparen rparen _ _ _ _ _ ih =>
    intro lo hi hw
    exact ih (hw.of_infix ⟨[lparen], [rparen], rfl⟩)
  | defined _ ih | chosen _ ih | tighter _ ih => exact ih
  | @returnNothing t _ hkind _ =>
    intro lo hi hw
    refine nested_of_extent hw rfl rfl rfl ?_ (fun hw => hw.le)
    intro part hbegins _
    rwa [show t.value = "return" from hw.fits (by simp) hkind] at hbegins
  | @returnValue t w _ _ hkind _ _ ih =>
    intro lo hi hw
    refine nested_of_extent hw rfl (List.getLast?_eq_some_getLast (List.cons_ne_nil t w)) rfl ?_ ?_
    · intro part hbegins _
      rwa [show t.value = "return" from hw.fits (by simp) hkind] at hbegins
    · intro lo hi hw
      exact ih (hw.of_infix ⟨[t], [], by simp⟩)
  | binary _ _ _ _ ih ih' =>
    intro lo hi hw
    obtain ⟨mid, hu, hv⟩ := hw.skip
    exact Nested.binary _ (InRow.append_iff.mpr ⟨mid, ih hu, ih' hv⟩)
  | noArgument | noParameter | noUnit => exact fun hw => hw
  | @lastArgument label colon _ _ _ _ _ ih =>
    intro lo hi hw
    exact ih (hw.of_infix ⟨[label, colon], [], by simp⟩)
  | @argument label colon _ _ _ _ _ _ _ _ _ ih ihrest =>
    intro lo hi hw
    obtain ⟨mid, hfirst, hrest⟩ := hw.skip
    have hvalue := ih (hfirst.of_infix ⟨[label, colon], [], by simp⟩)
    exact InRow.append_iff.mpr ⟨mid, hvalue, ihrest hrest⟩
  | lastParameter | parameter => exact fun hw => hw.le
  | @definition func name lparen rparen arrow type lbrace rbrace w body _ _ _ hkinds _ _ _ ih =>
    intro lo hi hw
    simp only [List.map_cons, List.cons.injEq] at hkinds
    refine nested_of_extent hw rfl (List.getLast?_concat ..) rfl ?_ ?_
    · intro part hbegins hends
      rw [show func.value = "func" from hw.fits (by simp) hkinds.1] at hbegins
      rw [show rbrace.value = "\x7d" from hw.fits (by simp) hkinds.2.2.2.2.2.2.2.1] at hends
      exact ⟨hbegins, hends⟩
    · intro lo hi hw
      let header := func :: name :: lparen :: w ++ [rparen, arrow, type, lbrace]
      exact ih (hw.of_infix ⟨header, [rbrace], by simp [header]⟩)
  | @branch lbrace rbrace _ _ _ _ _ ih =>
    intro lo hi hw
    exact ih (hw.of_infix ⟨[lbrace], [rbrace], rfl⟩)
  | @ifThen t u v _ _ _ hkind hcondition hconsequence ih ih' =>
    intro lo hi hw
    refine Derives.nested_conditional (.ifThen hkind hcondition hconsequence) hw ?_
    intro lo hi hw
    have hbranches : Laid source file lo (u ++ v) hi := hw.of_infix ⟨[t], [], by simp⟩
    obtain ⟨mid, hu, hv⟩ := InRow.append_iff.mp hbranches
    exact InRow.append_iff.mpr ⟨mid, ih hu, ih' hv⟩
  | ifThenElse hkinds hcondition hconsequence halternative ih ih' ih'' =>
    intro lo hi hw
    refine Derives.nested_conditional
      (.ifThenElse hkinds hcondition hconsequence halternative) hw ?_
    intro lo hi hw
    exact nested_branches hw ih ih' ih''
  | ifThenElseIf hkinds hcondition hconsequence halternative ih ih' ih'' =>
    intro lo hi hw
    refine Derives.nested_conditional
      (.ifThenElseIf hkinds hcondition hconsequence halternative) hw ?_
    intro lo hi hw
    exact nested_branches hw ih ih' ih''
  | definedUnit _ _ ih ihrest =>
    intro lo hi hw
    obtain ⟨mid, hfirst, hrest⟩ := InRow.append_iff.mp hw
    exact InRow.append_iff.mpr ⟨mid, ih hfirst, ihrest hrest⟩
  | bareUnit _ _ _ ih ihrest =>
    intro lo hi hw
    obtain ⟨mid, hfirst, hrest⟩ := InRow.append_iff.mp hw
    exact InRow.append_iff.mpr ⟨mid, (ih hfirst).entry, ihrest hrest⟩

end Grammar

/-- The tokens that a text spells stand in it, if their positions can count its bytes. -/
theorem Spelled.laid {source : List Char} {file : String} {offset : Nat} {words : List Token}
    {cs : List Char} (before : List Char) (h : Spelled file offset words cs)
    (hsource : source = before ++ cs) (hoffset : offset = bytes before)
    (hsize : bytes source < UInt32.size) :
    Laid source file offset words (bytes source) := by
  induction h generalizing before with
  | nil =>
    rw [hoffset, hsource, bytes_append]
    exact Nat.le_add_right _ _
  | @cons offset t words gap rest hgap hfits hapart hstart hstop hrest ih =>
    have hcount : bytes source = offset + bytes (gap ++ t.value.toList) + bytes rest := by
      rw [hsource, hoffset]
      simp only [bytes_append]
      omega
    have hvalue : 0 < bytes t.value.toList := by
      obtain ⟨c, cs, hcons, -⟩ := Token.head?_of_fits hfits
      have hlength := length_le_bytes t.value.toList
      rw [hcons] at hlength ⊢
      simp only [List.length_cons] at hlength
      omega
    simp only [bytes_append] at hcount hstop
    have hstart' : t.span.start.offset.toNat = offset + bytes gap := by
      rw [hstart.1, Nat.mod_eq_of_lt (by omega)]
    have hstop' : t.span.stop.offset.toNat = offset + (bytes gap + bytes t.value.toList) := by
      rw [hstop.1, Nat.mod_eq_of_lt (by omega)]
    refine ⟨by omega, by omega, ⟨⟨before ++ gap, rest, ?_, ?_, ?_, hstart.2, hstop.2⟩, hfits⟩, ?_⟩
    · rw [hsource]
      simp
    · rw [hstart', hoffset, bytes_append]
    · rw [hstop', hoffset]
      simp only [bytes_append]
      omega
    · rw [hstop', ← bytes_append]
      exact ih (before ++ gap ++ t.value.toList) (by rw [hsource]; simp) (by rw [hoffset]; simp)

namespace Program

variable {source file : String} {nodes : List Node}

/-- What the tokens of a source are read into is derived from those that it spells. -/
theorem exists_spelled_of_ofTokens {tokens : List Token} {file' : String}
    (hscan : scan source file = .ok tokens) (h : ofTokens tokens file' = .ok nodes) :
    ∃ words, Spelled file 0 words source.toList ∧ Derives .units words .eof nodes := by
  obtain ⟨words, hspelled, rfl⟩ := exists_spelled_of_scan hscan
  have hderives := derives_of_ofTokens h
  rw [Token.word_concat hspelled.kind_ne_eof rfl] at hderives
  exact ⟨words, hspelled, hderives⟩

theorem exists_spelled_of_ofSource (h : ofSource source file = .ok nodes) :
    ∃ words, Spelled file 0 words source.toList ∧ Derives .units words .eof nodes := by
  unfold ofSource at h
  cases hscan : scan source file with
  | error failure =>
    rw [hscan] at h
    cases h
  | ok tokens =>
    rw [hscan] at h
    exact exists_spelled_of_ofTokens hscan h

/-- Every tree that occurs in a program has its place in the source, and its units stand one
behind the other, if offsets can count the bytes of the source. -/
theorem ofSource_spans_nest (source file : String) (nodes : List Node)
    (hsize : bytes source.toList < UInt32.size) (h : ofSource source file = .ok nodes) :
    (∀ n ∈ nodes, ∀ m, Node.Occurs m n → m.Placed source.toList file) ∧
      nodes.Pairwise fun n n' => n.span.Precedes n'.span := by
  obtain ⟨words, hspelled, hderives⟩ := exists_spelled_of_ofSource h
  have hlaid := Spelled.laid [] hspelled rfl rfl hsize
  have hnested : Nested source.toList file 0 nodes (bytes source.toList) := hderives.nested hlaid
  constructor
  · intro n hn
    exact (hnested.of_mem hn).2.2
  · exact hnested.pairwise

/-- Parentheses are outside of all spans: the sum below starts where the call in them does. -/
theorem ofSource_sum_in_conditional :
    let source := " if x \x7b ( f ( a : y ) ) + return \x7d"
    let place (first last : Nat) : Span := .between first last ""
    let call : Node := .call "f" [("a", .reference "y" (place 18 19))] (place 10 21)
    let sum : Node := .binary .add call (.returned none (place 26 32)) (place 10 32)
    let node : Node := .conditional (.reference "x" (place 4 5)) sum none (place 1 34)
    bytes source.toList < UInt32.size ∧ ofSource source "" = .ok [node.entry] ∧
      ∀ m, Node.Occurs m node.entry → m.Placed source.toList "" := by
  intro source place call sum node
  let symbols : List (Token.Kind × String) :=
    [(.ifWord, "if"), (.identifier, "x"), (.openCurly, "\x7b"), (.openParen, "("),
      (.identifier, "f"), (.openParen, "("), (.identifier, "a"), (.colon, ":"),
      (.identifier, "y"), (.closeParen, ")"), (.closeParen, ")"), (.operator, "+"),
      (.returnWord, "return"), (.closeCurly, "\x7d")]
  have hfits : ∀ symbol ∈ symbols, Token.Fits symbol.1 symbol.2 := by
    simp [symbols, Token.Fits, IsName]
    decide
  have htext : source.toList = spacedText symbols := by decide
  have hspelled : Spelled "" 0 (spacedTokens "" 0 symbols) source.toList := by
    rw [htext]
    exact spelled_spaced hfits
  have hsize : bytes source.toList < UInt32.size := by decide
  have hsource : ofSource source "" = .ok [node.entry] := by
    rw [ofSource, hspelled.scan_eq]
    rfl
  obtain ⟨hplaced, -⟩ := ofSource_spans_nest source "" [node.entry] hsize hsource
  exact ⟨hsize, hsource, hplaced node.entry (by simp)⟩

end Program

end ExprLang
