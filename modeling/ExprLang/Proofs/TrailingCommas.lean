import ExprLang.Proofs.FirstFault

/-!
Commas behind the last item of a list. The loop over a list looks for the closing parenthesis
before every item, also after a comma. So a comma may stand directly before the parenthesis, but
only behind an item. Such a comma means nothing: without it the same trees are read, and no other
comma of a program stands before a closing parenthesis.
-/
namespace ExprLang

open Grammar

namespace Grammar

variable {part : Part} {R : Token.Kind → Token.Kind → Prop} {t : Token} {u v w : List Token}
  {next : Token.Kind}

@[simp]
theorem firstKind_nil (next : Token.Kind) : firstKind [] next = next := rfl

@[simp]
theorem firstKind_cons (t : Token) (w : List Token) (next : Token.Kind) :
    firstKind (t :: w) next = t.kind := rfl

/-- The relation holds of the kinds of neighbours in the word, which the next kind ends. -/
def Neighbours (R : Token.Kind → Token.Kind → Prop) : List Token → Token.Kind → Prop
  | [], _ => True
  | t :: w, next => R t.kind (firstKind w next) ∧ Neighbours R w next

theorem neighbours_append :
    Neighbours R (u ++ v) next ↔ Neighbours R u (firstKind v next) ∧ Neighbours R v next := by
  induction u with
  | nil => simp [Neighbours]
  | cons t u ih => simp [Neighbours, firstKind_append, ih, and_assoc]

theorem neighbours_iff : Neighbours R w next ↔
    (∀ before t t' after, w = before ++ t :: t' :: after → R t.kind t'.kind) ∧
      ∀ t ∈ w.getLast?, R t.kind next := by
  induction w with
  | nil => simp [Neighbours]
  | cons t w ih =>
    rw [Neighbours, ih]
    cases w with
    | nil => simp [firstKind, List.cons_eq_append_iff]
    | cons t' w =>
      rw [List.getLast?_cons_cons]
      constructor
      · rintro ⟨hfirst, hpairs, hlast⟩
        refine ⟨?_, hlast⟩
        intro before s s' after hsplit
        cases before with
        | nil =>
          obtain ⟨rfl, rfl, -⟩ : t = s ∧ t' = s' ∧ w = after := by simpa using hsplit
          exact hfirst
        | cons _ before => exact hpairs before s s' after (List.cons.inj hsplit).2
      · rintro ⟨hpairs, hlast⟩
        refine ⟨hpairs [] t t' w rfl, ?_, hlast⟩
        intro before s s' after hsplit
        exact hpairs (t :: before) s s' after (by rw [hsplit, List.cons_append])

/-- A comma comes before a name or a closing parenthesis, and not behind an opening one. -/
def CommaFits (kind kind' : Token.Kind) : Prop :=
  (kind = .comma → kind' = .identifier ∨ kind' = .closeParen) ∧
    (kind = .openParen → kind' ≠ .comma)

/-- The lists that stand between parentheses. -/
def Part.IsList : Part → Prop
  | .arguments | .parameters => True
  | .chain _ | .definition | .conditional | .branch | .units => False

/-- A list that is not empty starts with a name. -/
theorem Derives.firstKind_of_isList {value : part.Value} (h : Derives part w next value)
    (hpart : part.IsList) (hne : w ≠ []) (next' : Token.Kind) :
    firstKind w next' = .identifier := by
  cases h with
  | noArgument | noParameter => exact absurd rfl hne
  | lastArgument hkinds | argument hkinds | lastParameter hkinds | parameter hkinds =>
    simp only [List.map_cons, List.cons.injEq] at hkinds
    exact hkinds.1
  | _ => exact hpart.elim

/-- What stands behind a comma of a list: a name, or what closes the list. -/
theorem Derives.firstKind_eq_or {value : part.Value} (h : Derives part w next value)
    (hpart : part.IsList) : firstKind w next = .identifier ∨ firstKind w next = next := by
  by_cases hnil : w = []
  · exact .inr (by rw [hnil, firstKind_nil])
  · exact .inl (h.firstKind_of_isList hpart hnil next)

/-- Directly before a closing parenthesis stands an empty rest of a list. -/
theorem Derives.eq_nil_of_closeParen {value : part.Value} (h : Derives part w next value)
    (hpart : part.IsList) (hclose : firstKind w next = .closeParen) :
    w = [] ∧ next = .closeParen := by
  by_cases hnil : w = []
  · subst hnil
    exact ⟨rfl, hclose⟩
  · rw [h.firstKind_of_isList hpart hnil] at hclose
    exact absurd hclose (by decide)

theorem Derives.head?_ne_comma {value : part.Value} (h : Derives part w next value) :
    ∀ t ∈ w.head?, t.kind ≠ .comma := by
  have happend {u v : List Token} (hu : ∀ t ∈ u.head?, t.kind ≠ .comma)
      (hv : ∀ t ∈ v.head?, t.kind ≠ .comma) : ∀ t ∈ (u ++ v).head?, t.kind ≠ .comma := by
    cases u with
    | nil => exact hv
    | cons t u => exact hu
  induction h with
  | number hkind => rcases hkind with hkind | hkind <;> simp [hkind]
  | reference hkind | returnNothing hkind | returnValue hkind | ifThen hkind => simp [hkind]
  | call hkinds | parenthesised hkinds | lastArgument hkinds | argument hkinds
  | lastParameter hkinds | parameter hkinds | definition hkinds | branch hkinds
  | ifThenElse hkinds | ifThenElseIf hkinds =>
    simp only [List.map_cons, List.cons.injEq] at hkinds
    simp [hkinds.1]
  | defined _ ih | chosen _ ih | tighter _ ih => exact ih
  | binary hkind _ _ _ ih => exact happend ih (by simp [hkind])
  | noArgument | noParameter | noUnit => simp
  | definedUnit _ _ ih ihrest | bareUnit _ _ _ ih ihrest => exact happend ih ihrest

theorem Derives.firstKind_ne_comma {value : part.Value} {next' : Token.Kind}
    (h : Derives part w next value) (hnext : next' ≠ .comma) : firstKind w next' ≠ .comma := by
  cases w with
  | nil => exact hnext
  | cons t w => exact h.head?_ne_comma t rfl

theorem Derives.firstKind_branch {n : Node} (h : Derives .branch w next n)
    (next' : Token.Kind) : firstKind w next' = .openCurly := by
  obtain ⟨t, u, rfl, ht⟩ := h.branch_eq_cons
  exact ht

/-- Commas stand between the items of lists, or behind the last of them. -/
theorem Derives.commas {value : part.Value} (h : Derives part w next value)
    (hnext : part.IsList → next = .closeParen) : Neighbours CommaFits w next := by
  induction h with
  | number hkind => rcases hkind with hkind | hkind <;> simp [Neighbours, CommaFits, hkind]
  | reference hkind | returnNothing hkind => simp [Neighbours, CommaFits, hkind]
  | returnValue hkind _ _ ih => simp [Neighbours, CommaFits, hkind, ih False.elim]
  | call hkinds hvalues ih =>
    simp only [List.map_cons, List.cons.injEq] at hkinds
    have hfirst := hvalues.firstKind_ne_comma (show Token.Kind.closeParen ≠ .comma by decide)
    simp [Neighbours, neighbours_append, firstKind_append, CommaFits, hkinds, hfirst, ih]
  | parenthesised hkinds hn ih =>
    simp only [List.map_cons, List.cons.injEq] at hkinds
    have hfirst := hn.firstKind_ne_comma (show Token.Kind.closeParen ≠ .comma by decide)
    simp [Neighbours, neighbours_append, firstKind_append, CommaFits, hkinds, hfirst,
      ih False.elim]
  | defined _ ih | chosen _ ih | tighter _ ih => exact ih False.elim
  | binary hkind _ _ _ ih ih' =>
    simp [Neighbours, neighbours_append, CommaFits, hkind, ih False.elim, ih' False.elim]
  | noArgument | noParameter | noUnit => trivial
  | lastArgument hkinds _ ih =>
    simp only [List.map_cons, List.cons.injEq] at hkinds
    simp [Neighbours, CommaFits, hkinds, ih False.elim]
  | argument hkinds _ hrest ih ihrest =>
    simp only [List.map_cons, List.cons.injEq] at hkinds
    obtain rfl := hnext trivial
    have hfirst := hrest.firstKind_eq_or trivial
    simp [Neighbours, neighbours_append, CommaFits, hkinds, hfirst, ih False.elim, ihrest hnext]
  | lastParameter hkinds =>
    simp only [List.map_cons, List.cons.injEq] at hkinds
    simp [Neighbours, CommaFits, hkinds]
  | parameter hkinds hrest ih =>
    simp only [List.map_cons, List.cons.injEq] at hkinds
    obtain rfl := hnext trivial
    have hfirst := hrest.firstKind_eq_or trivial
    simp [Neighbours, CommaFits, hkinds, hfirst, ih hnext]
  | definition hkinds hps _ ihps ih =>
    simp only [List.map_cons, List.cons.injEq] at hkinds
    have hfirst := hps.firstKind_ne_comma (show Token.Kind.closeParen ≠ .comma by decide)
    simp [Neighbours, neighbours_append, firstKind_append, CommaFits, hkinds, hfirst, ihps,
      ih False.elim]
  | branch hkinds _ ih =>
    simp only [List.map_cons, List.cons.injEq] at hkinds
    simp [Neighbours, neighbours_append, CommaFits, hkinds, ih False.elim]
  | ifThen hkind _ hconsequence ih ih' =>
    have hfirst := hconsequence.firstKind_branch
    simp [Neighbours, neighbours_append, CommaFits, hkind, hfirst, ih False.elim, ih' False.elim]
  | ifThenElse hkinds _ hconsequence _ ih ih' ih''
  | ifThenElseIf hkinds _ hconsequence _ ih ih' ih'' =>
    simp only [List.map_cons, List.cons.injEq] at hkinds
    have hfirst := hconsequence.firstKind_branch
    simp [Neighbours, neighbours_append, firstKind_append, CommaFits, hkinds, hfirst,
      ih False.elim, ih' False.elim, ih'' False.elim]
  | definedUnit _ _ ih ihrest | bareUnit _ _ _ ih ihrest =>
    exact neighbours_append.mpr ⟨ih False.elim, ihrest False.elim⟩

/-- The word without the commas that stand directly before a closing parenthesis. -/
def trimmed : List Token → Token.Kind → List Token
  | [], _ => []
  | t :: w, next =>
    if t.kind = .comma ∧ firstKind w next = .closeParen then trimmed w next
    else t :: trimmed w next

@[simp]
theorem trimmed_nil (next : Token.Kind) : trimmed [] next = [] := rfl

theorem trimmed_cons_of_ne (ht : t.kind ≠ .comma) :
    trimmed (t :: w) next = t :: trimmed w next := if_neg fun h => ht h.1

theorem trimmed_append (u v : List Token) (next : Token.Kind) :
    trimmed (u ++ v) next = trimmed u (firstKind v next) ++ trimmed v next := by
  induction u with
  | nil => rfl
  | cons t u ih =>
    simp only [List.cons_append, trimmed, firstKind_append, ih]
    split <;> rfl

theorem length_trimmed_le (w : List Token) (next : Token.Kind) :
    (trimmed w next).length ≤ w.length := by
  induction w with
  | nil => exact Nat.le_refl 0
  | cons t w ih =>
    rw [trimmed]
    split <;> simp only [List.length_cons] <;> omega

/-- Nothing is left out exactly if no comma stands before a closing parenthesis. -/
theorem trimmed_eq_self_iff : trimmed w next = w ↔
    Neighbours (fun kind kind' => kind = .comma → kind' ≠ .closeParen) w next := by
  induction w with
  | nil => simp [Neighbours]
  | cons t w ih =>
    have hle := length_trimmed_le w next
    rw [trimmed, Neighbours, ← ih]
    split
    · rename_i h
      constructor
      · intro heq
        have hlength := congrArg List.length heq
        rw [List.length_cons] at hlength
        omega
      · rintro ⟨hne, -⟩
        exact absurd h.2 (hne h.1)
    · rename_i h
      simpa using fun _ hcomma hclose => h ⟨hcomma, hclose⟩

theorem head?_trimmed (h : ∀ t ∈ w.head?, t.kind ≠ .comma) :
    (trimmed w next).head? = w.head? := by
  cases w with
  | nil => rfl
  | cons t w => rw [trimmed_cons_of_ne (h t rfl), List.head?_cons, List.head?_cons]

theorem firstKind_trimmed (h : ∀ t ∈ w.head?, t.kind ≠ .comma) (next' : Token.Kind) :
    firstKind (trimmed w next) next' = firstKind w next' := by
  cases w with
  | nil => rfl
  | cons t w => rw [trimmed_cons_of_ne (h t rfl), firstKind_cons, firstKind_cons]

theorem getLast?_trimmed (h : ∀ t ∈ w.getLast?, t.kind ≠ .comma) :
    (trimmed w next).getLast? = w.getLast? := by
  rcases List.eq_nil_or_concat w with rfl | ⟨u, t, rfl⟩
  · rfl
  · have ht : t.kind ≠ .comma := h t (by simp)
    simp [trimmed_append, trimmed_cons_of_ne ht]

theorem extent_eq_of_ends (hhead : u.head? = w.head?) (hlast : u.getLast? = w.getLast?) :
    extent u = extent w := by
  cases u with
  | nil =>
    rw [List.head?_nil, eq_comm, List.head?_eq_none_iff] at hhead
    rw [hhead]
  | cons t u =>
    obtain ⟨v, rfl⟩ := List.head?_eq_some_iff.mp hhead.symm
    have hstop : u.getLastD t = v.getLastD t := by simpa [List.getLast?_cons] using hlast
    rw [extent, extent, hstop]

/-- No expression ends with a comma, as every expression may stand at the end of a program. -/
theorem Derives.getLast?_ne_comma {value : part.Value} (h : Derives part w next value)
    (hpart : part.IsExpression) : ∀ t ∈ w.getLast?, t.kind ≠ .comma := by
  have hclosed : Derives part w .eof value := h.before_closing ⟨rfl, by decide⟩
  have hlist : ¬ part.IsList := by cases part <;> simp_all [Part.IsExpression, Part.IsList]
  have hlast := (neighbours_iff.mp (hclosed.commas fun h => absurd h hlist)).2
  intro t ht hcomma
  simpa using (hlast t ht).1 hcomma

theorem Derives.extent_trimmed {value : part.Value} (h : Derives part w next value)
    (hpart : part.IsExpression) : extent (trimmed w next) = extent w :=
  extent_eq_of_ends (head?_trimmed h.head?_ne_comma) (getLast?_trimmed (h.getLast?_ne_comma hpart))

theorem trimmed_ifThenElse {t' : Token} {consequence : Node}
    (hkinds : [t, t'].map Token.kind = [.ifWord, .elseWord])
    (hconsequence : Derives .branch v .elseWord consequence) :
    trimmed (t :: u ++ v ++ t' :: w) next =
      t :: trimmed u .openCurly ++ trimmed v .elseWord ++ t' :: trimmed w next := by
  simp only [List.map_cons, List.cons.injEq] at hkinds
  simp [trimmed_append, trimmed_cons_of_ne, firstKind_append, hkinds, hconsequence.firstKind_branch]

/-- The commas before closing parentheses can be left out. -/
theorem Derives.trim {value : part.Value} (h : Derives part w next value) :
    Derives part (trimmed w next) next value := by
  -- Where a node has the span of its word, the word still starts and ends with the same tokens.
  induction h with
  | @number t _ _ hkind hread =>
    have ht : t.kind ≠ .comma := by rcases hkind with hkind | hkind <;> simp [hkind]
    rw [trimmed_cons_of_ne ht]
    exact .number hkind hread
  | reference hkind hnext =>
    rw [trimmed_cons_of_ne (by simp [hkind])]
    exact .reference hkind hnext
  | returnNothing hkind hnext =>
    rw [trimmed_cons_of_ne (by simp [hkind])]
    exact .returnNothing hkind hnext
  | @returnValue t w next _ hkind hn hnext ih =>
    have hword : trimmed (t :: w) next = t :: trimmed w next :=
      trimmed_cons_of_ne (by simp [hkind])
    rw [← (Derives.returnValue hkind hn hnext).extent_trimmed trivial, hword]
    exact .returnValue hkind ih hnext
  | @call name lparen rparen w next _ hkinds hvalues ih =>
    have hcall : Derives .operand (name :: lparen :: w ++ [rparen]) next _ := .call hkinds hvalues
    rw [← hcall.extent_trimmed trivial]
    simp only [List.map_cons, List.cons.injEq] at hkinds
    have hword : trimmed (name :: lparen :: w ++ [rparen]) next =
        name :: lparen :: trimmed w .closeParen ++ [rparen] := by
      simp [trimmed_append, trimmed_cons_of_ne, hkinds]
    rw [hword]
    exact .call (by simp [hkinds]) ih
  | @parenthesised lparen rparen w next _ hkinds _ ih =>
    simp only [List.map_cons, List.cons.injEq] at hkinds
    have hword : trimmed (lparen :: w ++ [rparen]) next =
        lparen :: trimmed w .closeParen ++ [rparen] := by
      simp [trimmed_append, trimmed_cons_of_ne, hkinds]
    rw [hword]
    exact .parenthesised (by simp [hkinds]) ih
  | defined _ ih => exact .defined ih
  | chosen _ ih => exact .chosen ih
  | tighter _ ih => exact .tighter ih
  | @binary _ _ t u v next _ _ hkind hrow _ _ ih ih' =>
    have hword : trimmed (u ++ t :: v) next = trimmed u .operator ++ t :: trimmed v next := by
      simp [trimmed_append, trimmed_cons_of_ne, hkind]
    rw [hword]
    exact .binary hkind hrow ih ih'
  | noArgument => exact .noArgument
  | noParameter => exact .noParameter
  | noUnit => exact .noUnit
  | @lastArgument label colon w next _ hkinds _ ih =>
    simp only [List.map_cons, List.cons.injEq] at hkinds
    have hword : trimmed (label :: colon :: w) next = label :: colon :: trimmed w next := by
      simp [trimmed_cons_of_ne, hkinds]
    rw [hword]
    exact .lastArgument (by simp [hkinds]) ih
  | @argument label colon comma w rest next _ _ hkinds _ hrest ih ihrest =>
    simp only [List.map_cons, List.cons.injEq] at hkinds
    have hword : trimmed (label :: colon :: w ++ comma :: rest) next =
        label :: colon :: trimmed w .comma ++ trimmed (comma :: rest) next := by
      simp [trimmed_append, trimmed_cons_of_ne, hkinds]
    rw [hword, trimmed]
    split
    · rename_i hclose
      obtain ⟨rfl, rfl⟩ := hrest.eq_nil_of_closeParen trivial hclose.2
      cases hrest with
      | noArgument =>
        simpa using Derives.lastArgument (by simp [hkinds]) (ih.before_closing (by decide))
    · exact .argument (by simp [hkinds]) ih ihrest
  | @lastParameter name colon type next hkinds =>
    simp only [List.map_cons, List.cons.injEq] at hkinds
    have hword : trimmed [name, colon, type] next = [name, colon, type] := by
      simp [trimmed_cons_of_ne, hkinds]
    rw [hword]
    exact .lastParameter (by simp [hkinds])
  | @parameter name colon type comma rest next _ hkinds hrest ih =>
    simp only [List.map_cons, List.cons.injEq] at hkinds
    have hword : trimmed (name :: colon :: type :: comma :: rest) next =
        name :: colon :: type :: trimmed (comma :: rest) next := by
      simp [trimmed_cons_of_ne, hkinds]
    rw [hword, trimmed]
    split
    · rename_i hclose
      obtain ⟨rfl, rfl⟩ := hrest.eq_nil_of_closeParen trivial hclose.2
      cases hrest with
      | noParameter => exact .lastParameter (by simp [hkinds])
    · exact .parameter (by simp [hkinds]) ih
  | @definition func name lparen rparen arrow type lbrace rbrace w body next _ _ hkinds hps hn
      ihps ih =>
    have hdefinition : Derives .definition (func :: name :: lparen :: w ++
        rparen :: arrow :: type :: lbrace :: body ++ [rbrace]) next _ :=
      .definition hkinds hps hn
    rw [← hdefinition.extent_trimmed trivial]
    simp only [List.map_cons, List.cons.injEq] at hkinds
    have hword : trimmed (func :: name :: lparen :: w ++
        rparen :: arrow :: type :: lbrace :: body ++ [rbrace]) next =
        func :: name :: lparen :: trimmed w .closeParen ++
          rparen :: arrow :: type :: lbrace :: trimmed body .closeCurly ++ [rbrace] := by
      simp [trimmed_append, trimmed_cons_of_ne, hkinds]
    rw [hword]
    exact .definition (by simp [hkinds]) ihps ih
  | @branch lbrace rbrace w next _ hkinds _ ih =>
    simp only [List.map_cons, List.cons.injEq] at hkinds
    have hword : trimmed (lbrace :: w ++ [rbrace]) next =
        lbrace :: trimmed w .closeCurly ++ [rbrace] := by
      simp [trimmed_append, trimmed_cons_of_ne, hkinds]
    rw [hword]
    exact .branch (by simp [hkinds]) ih
  | @ifThen t u v next _ _ hkind hcondition hconsequence ih ih' =>
    have hword : trimmed (t :: u ++ v) next = t :: trimmed u .openCurly ++ trimmed v next := by
      simp [trimmed_append, trimmed_cons_of_ne, hkind, hconsequence.firstKind_branch]
    rw [← (Derives.ifThen hkind hcondition hconsequence).extent_trimmed trivial, hword]
    exact .ifThen hkind ih ih'
  | @ifThenElse t t' u v w next _ _ _ hkinds hcondition hconsequence halternative ih ih' ih'' =>
    have hwhole := Derives.ifThenElse hkinds hcondition hconsequence halternative
    rw [← hwhole.extent_trimmed trivial, trimmed_ifThenElse hkinds hconsequence]
    exact .ifThenElse hkinds ih ih' ih''
  | @ifThenElseIf t t' u v w next _ _ _ hkinds hcondition hconsequence halternative ih ih' ih'' =>
    have hwhole := Derives.ifThenElseIf hkinds hcondition hconsequence halternative
    rw [← hwhole.extent_trimmed trivial, trimmed_ifThenElse hkinds hconsequence]
    exact .ifThenElseIf hkinds ih ih' ih''
  | @definedUnit w rest next _ _ _ hrest ih ihrest =>
    rw [trimmed_append]
    exact .definedUnit (by rwa [firstKind_trimmed hrest.head?_ne_comma]) ihrest
  | @bareUnit w rest next _ _ hn hfirst hrest ih ihrest =>
    rw [trimmed_append]
    refine .bareUnit (by rwa [firstKind_trimmed hrest.head?_ne_comma]) ?_ ihrest
    rwa [head?_trimmed hn.head?_ne_comma]

/-- What is left has no comma before a closing parenthesis. -/
theorem neighbours_trimmed (h : Neighbours CommaFits w next) :
    Neighbours (fun kind kind' => kind = .comma → kind' ≠ .closeParen) (trimmed w next) next := by
  induction w with
  | nil => trivial
  | cons t w ih =>
    rw [trimmed]
    split
    · exact ih h.2
    · rename_i hkept
      refine ⟨fun hcomma hclose => ?_, ih h.2⟩
      rcases h.1.1 hcomma with hname | hclose'
      · have hhead : ∀ t ∈ w.head?, t.kind ≠ .comma := by
          cases w with
          | nil => simp
          | cons t' w => simp_all
        rw [firstKind_trimmed hhead, hname] at hclose
        exact absurd hclose (by decide)
      · exact hkept ⟨hcomma, hclose'⟩

/-- A comma stands directly before a closing parenthesis. -/
def HasTrailingComma (w : List Token) : Prop :=
  ∃ before t t' after, w = before ++ t :: t' :: after ∧ t.kind = .comma ∧ t'.kind = .closeParen

theorem not_hasTrailingComma_iff : ¬ HasTrailingComma w ↔
    Neighbours (fun kind kind' => kind = .comma → kind' ≠ .closeParen) w .eof := by
  simp [neighbours_iff, HasTrailingComma]

end Grammar

namespace Program

open Token (word)

variable {tokens : List Token} {file : String} {nodes : List Node}

/-- In a program that is read, a comma comes before a name or a closing parenthesis, and never
behind an opening one. Without those before closing parentheses it is read into the same trees,
and a program has none of these exactly if nothing of it is left out so. -/
theorem ofTokens_trailing_commas (h : ofTokens tokens file = .ok nodes) :
    (∀ before t t' after, word tokens = before ++ t :: t' :: after →
      (t.kind = .comma → t'.kind = .identifier ∨ t'.kind = .closeParen) ∧
        (t.kind = .openParen → t'.kind ≠ .comma)) ∧
    (∀ t ∈ (word tokens).getLast?, t.kind ≠ .comma) ∧
    ofTokens (trimmed (word tokens) .eof) file = .ok nodes ∧
    ¬ HasTrailingComma (trimmed (word tokens) .eof) ∧
    (¬ HasTrailingComma (word tokens) ↔ trimmed (word tokens) .eof = word tokens) := by
  have hderives : Derives .units (word tokens) .eof nodes := derives_of_ofTokens h
  have hcommas := hderives.commas False.elim
  obtain ⟨hpairs, hlast⟩ := neighbours_iff.mp hcommas
  refine ⟨hpairs, ?_, ?_, ?_, ?_⟩
  · intro t ht hcomma
    simpa using (hlast t ht).1 hcomma
  · apply ofTokens_of_derives
    rw [Token.word_eq_self hderives.trim.kind_ne_eof]
    exact hderives.trim
  · exact not_hasTrailingComma_iff.mpr (neighbours_trimmed hcommas)
  · rw [not_hasTrailingComma_iff, trimmed_eq_self_iff]

/-- Both lists of the program end with a comma. -/
theorem ofTokens_commas_before_parentheses :
    let tok (kind : Token.Kind) (value : String) : Token := ⟨kind, value, .null, .null⟩
    let call : Node := .call "f" [("a", .reference "a" ⟨.null, .null⟩)] ⟨.null, .null⟩
    let node : Node := .function "f" [⟨"a", "a"⟩] .double call false ⟨.null, .null⟩
    let header := [tok .funcWord "func", tok .identifier "f", tok .openParen "(",
      tok .identifier "a", tok .colon ":", tok .identifier "Int"]
    let middle := [tok .arrow "->", tok .identifier "Int", tok .openCurly "\x7b",
      tok .identifier "f", tok .openParen "(", tok .identifier "a", tok .colon ":",
      tok .identifier "a"]
    let trailing := [tok .comma ",", tok .closeParen ")"]
    let tokens := header ++ trailing ++ middle ++ trailing ++ [tok .closeCurly "\x7d"]
    ofTokens tokens "" = .ok [node] ∧ HasTrailingComma (word tokens) ∧
      HasTrailingComma ((word tokens).drop (header ++ trailing).length) := by
  intro tok call node header middle trailing tokens
  have h : ofTokens tokens "" = .ok [node] := by
    dsimp only [tokens, header, middle, trailing, tok, node, call, List.cons_append,
      List.nil_append]
    rfl
  have hword : word tokens = tokens := rfl
  refine ⟨h, ?_, ?_⟩
  · rw [hword]
    exact ⟨header, _, _, middle ++ trailing ++ [tok .closeCurly "\x7d"], rfl, rfl, rfl⟩
  · rw [hword]
    exact ⟨middle, _, _, [tok .closeCurly "\x7d"], rfl, rfl, rfl⟩

/-- The comma behind the only argument is left out, and the call stays the same. -/
theorem ofTokens_call_without_comma :
    let tok (kind : Token.Kind) (value : String) : Token := ⟨kind, value, .null, .null⟩
    let call : Node := .call "f" [("a", .reference "b" ⟨.null, .null⟩)] ⟨.null, .null⟩
    let start := [tok .identifier "f", tok .openParen "(", tok .identifier "a", tok .colon ":",
      tok .identifier "b"]
    let tokens := start ++ [tok .comma ",", tok .closeParen ")"]
    ofTokens tokens "" = .ok [call.entry] ∧
      trimmed (word tokens) .eof = start ++ [tok .closeParen ")"] ∧
      ofTokens (start ++ [tok .closeParen ")"]) "" = .ok [call.entry] ∧
      HasTrailingComma (word tokens) := by
  intro tok call start tokens
  have h : ofTokens tokens "" = .ok [call.entry] := rfl
  have htrimmed : trimmed (word tokens) .eof = start ++ [tok .closeParen ")"] := rfl
  obtain ⟨-, -, hsame, -, hiff⟩ := ofTokens_trailing_commas h
  rw [htrimmed] at hsame hiff
  refine ⟨h, htrimmed, hsame, ?_⟩
  by_contra hnone
  exact absurd (congrArg List.length (hiff.mp hnone)) (by decide)

end Program

end ExprLang
