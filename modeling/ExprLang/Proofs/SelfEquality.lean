import ExprLang.Proofs.Lookahead
import ExprLang.Proofs.Numerals
import ExprLang.Proofs.Spans

/-!
Programs are equal to themselves. Trees are compared with their numbers, and what is not a
number differs from itself, so a tree need not be equal to itself. One that was read from a
text is: its numbers come from the numerals of the text, and each numeral is a number. For the
same reason no text that can be scanned fails for one of its numerals.
-/
namespace ExprLang

open Text Grammar

namespace Node

variable {P Q : Binary64 → Prop} {n : Node}

/-- If the node is a number, it has the property. -/
def AtNumber (P : Binary64 → Prop) : Node → Prop
  | .number x _ => P x
  | .reference _ _ | .binary _ _ _ _ | .function _ _ _ _ _ _ | .call _ _ _
  | .conditional _ _ _ _ | .returned _ _ => True

theorem AtNumber.imp (h : n.AtNumber P) (himp : ∀ x, P x → Q x) : n.AtNumber Q := by
  cases n with
  | number x s => exact himp x h
  | _ => trivial

theorem sameArguments_self {values : List (String × Node)}
    (h : ∀ n ∈ values.map Prod.snd, n.same n = true) : sameArguments values values = true := by
  induction values with
  | nil => rfl
  | cons value values ih =>
    obtain ⟨hvalue, hvalues⟩ := List.forall_mem_cons.mp h
    simp [sameArguments, hvalue, ih hvalues]

/-- A tree of numbers only is equal to itself. -/
theorem same_self (h : n.Everywhere (AtNumber fun x => x.isNaN = false)) : n.same n = true := by
  induction n using of_children with
  | h n ih =>
    have hchildren : ∀ child ∈ n.children, child.same child = true :=
      fun child hchild => ih child hchild (h.child hchild)
    cases n with
    | number x s => simp [same, Binary64.same_self h.self]
    | reference => simp [same]
    | call => simp [same, sameArguments_self hchildren]
    | binary | function =>
      simp only [children, List.forall_mem_cons] at hchildren
      simp [same, hchildren]
    | conditional _ _ alternative =>
      simp only [children, List.forall_mem_cons] at hchildren
      cases alternative <;> simp_all [same]
    | returned body =>
      simp only [children] at hchildren
      cases body <;> simp_all [same]

theorem beq_self {nodes : List Node}
    (h : ∀ n ∈ nodes, n.Everywhere (AtNumber fun x => x.isNaN = false)) :
    (nodes == nodes) = true := by
  induction nodes with
  | nil => rfl
  | cons n nodes ih =>
    obtain ⟨hn, hnodes⟩ := List.forall_mem_cons.mp h
    have hself : (n == n) = true := same_self hn
    rw [List.cons_beq_cons, hself, ih hnodes]
    rfl

end Node

/-- The numbers of a tree are those of the numerals in its word. -/
theorem Grammar.Derives.atNumber {P : Binary64 → Prop} {part : Part} {w : List Token}
    {next : Token.Kind} {value : part.Value} (h : Derives part w next value)
    (hw : ∀ t ∈ w, t.kind = .integer ∨ t.kind = .float →
      ∀ x, Binary64.read? t.value = some x → P x) :
    ∀ n ∈ part.nodes value, n.Everywhere (Node.AtNumber P) := by
  have hnode {n : Node} (hn : n.AtNumber P)
      (hchildren : ∀ child ∈ n.children, child.Everywhere (Node.AtNumber P)) :
      ∀ m ∈ [n], m.Everywhere (Node.AtNumber P) :=
    List.forall_mem_singleton.mpr (.of_children hn hchildren)
  induction h with
  | @number t next x hkind hread => exact hnode (hw t (by simp) hkind x hread) nofun
  | reference | returnNothing => exact hnode trivial nofun
  | noArgument | noParameter | lastParameter | parameter | noUnit => exact nofun
  | defined _ ih | chosen _ ih | tighter _ ih => exact ih hw
  | parenthesised _ _ ih | branch _ _ ih | lastArgument _ _ ih =>
    exact ih fun t ht => hw t (by simp [ht])
  | call _ _ ih | returnValue _ _ _ ih | definition _ _ _ _ ih =>
    exact hnode trivial (ih fun t ht => hw t (by simp [ht]))
  | binary _ _ _ _ ih ih' | ifThen _ _ _ ih ih' =>
    have hleft := ih fun t ht => hw t (by simp [ht])
    have hright := ih' fun t ht => hw t (by simp [ht])
    exact hnode trivial (List.forall_mem_append.mpr ⟨hleft, hright⟩)
  | ifThenElse _ _ _ _ ih ih' ih'' | ifThenElseIf _ _ _ _ ih ih' ih'' =>
    have hcondition := ih fun t ht => hw t (by simp [ht])
    have hconsequence := ih' fun t ht => hw t (by simp [ht])
    have halternative := ih'' fun t ht => hw t (by simp [ht])
    exact hnode trivial (List.forall_mem_append.mpr
      ⟨hcondition, List.forall_mem_append.mpr ⟨hconsequence, halternative⟩⟩)
  | argument _ _ _ ih ihrest | definedUnit _ _ ih ihrest =>
    have hn := ih fun t ht => hw t (by simp [ht])
    have hrest := ihrest fun t ht => hw t (by simp [ht])
    exact List.forall_mem_append.mpr ⟨hn, hrest⟩
  | @bareUnit _ _ _ n _ _ _ _ ih ihrest =>
    have hn := ih fun t ht => hw t (by simp [ht])
    have hrest := ihrest fun t ht => hw t (by simp [ht])
    have hentry : ∀ m ∈ [n.entry], m.Everywhere (Node.AtNumber P) := hnode trivial hn
    exact List.forall_mem_append.mpr ⟨hentry, hrest⟩

namespace Program

open Parse

variable {source file file' : String} {tokens : List Token} {nodes : List Node} {failure : Failure}

/-- A program fails at one of its tokens or at the end token behind them. -/
theorem exists_faults_of_ofTokens (h : ofTokens tokens file = .error failure) :
    ∃ (t : Token) (cause : String → Failure.Cause), (t ∈ tokens ∨ t.kind = .eof) ∧
      t.Faults cause ∧ failure = ⟨cause t.value, t.span.start⟩ := by
  obtain ⟨-, added, htokens, hadded⟩ := Cursor.start_eq tokens file
  have hunits : (Cursor.start tokens file).units =
      (.error failure, (Cursor.start tokens file).units.2) := Prod.ext h rfl
  obtain ⟨w, cause, hmoves, hfaults, hfailure⟩ := Cursor.exists_faults_of_units hunits
  refine ⟨_, cause, ?_, hfaults, hfailure⟩
  have hmem : (Cursor.start tokens file).units.2.current ∈ tokens ++ added := by
    rw [← htokens, hmoves.tokens]
    simp
  exact (List.mem_append.mp hmem).imp_right (hadded _)

/-- The numerals of a text are read as numbers that are not negative. -/
theorem read?_of_scan (h : scan source file = .ok tokens) :
    ∀ t ∈ tokens, t.kind = .integer ∨ t.kind = .float →
      ∃ x, Binary64.read? t.value = some x ∧ x.isNegative = false ∧ x.isNaN = false := by
  obtain ⟨words, hspelled, rfl⟩ := exists_spelled_of_scan h
  intro t ht hkind
  have hword : t ∈ words := by
    rcases List.mem_append.mp ht with ht | ht
    · exact ht
    · obtain rfl := List.mem_singleton.mp ht
      simp [Token.endAt] at hkind
  have hfits := hspelled.fits t hword
  apply Binary64.exists_read?_of_fits
  rcases hkind with hkind | hkind <;> rw [hkind] at hfits
  · exact .inl hfits
  · exact .inr hfits

theorem cause_ne_malformedNumber (hscan : scan source file = .ok tokens)
    (h : ofTokens tokens file' = .error failure) (text : String) :
    failure.cause ≠ .malformedNumber text := by
  obtain ⟨t, cause, ht, hfaults, rfl⟩ := exists_faults_of_ofTokens h
  cases hfaults with
  | unexpected | misplaced | notOperator => simp [Token.notOperator]
  | malformedNumber hkind hread =>
    have hmem : t ∈ tokens := ht.resolve_right (by rcases hkind with hkind | hkind <;> simp [hkind])
    obtain ⟨x, hx, -⟩ := read?_of_scan hscan t hmem hkind
    simp [hread] at hx

theorem atNumber_of_ofTokens (hscan : scan source file = .ok tokens)
    (h : ofTokens tokens file' = .ok nodes) :
    ∀ n ∈ nodes, n.Everywhere (Node.AtNumber fun x => x.isNegative = false ∧ x.isNaN = false) := by
  refine (derives_of_ofTokens h).atNumber fun t ht hkind x hx => ?_
  have hmem : t ∈ tokens := (List.takeWhile_prefix _).subset ht
  obtain ⟨y, hy, hnumber⟩ := read?_of_scan hscan t hmem hkind
  obtain rfl : x = y := by simpa using hx.symm.trans hy
  exact hnumber

/-- The name of the text has no effect on the tokens that it was scanned into. -/
theorem ofTokens_of_scan (hscan : scan source file = .ok tokens) (name name' : String) :
    ofTokens tokens name = ofTokens tokens name' := by
  obtain ⟨words, -, rfl⟩ := exists_spelled_of_scan hscan
  have hsame : ofTokens (words ++ [.endAt (.after (bytes source.toList) file)] ++ []) name =
      ofTokens (words ++ [.endAt (.after (bytes source.toList) file)]) name' :=
    ofTokens_append_of_eof rfl
  rwa [List.append_nil] at hsame

/-- A single token of the kind of integers is what its value is read as. -/
theorem ofTokens_integer (value : String) (span : Span) (file : String) :
    ofTokens [⟨.integer, value, span⟩] file =
      match Binary64.read? value with
      | some x => .ok [(Node.number x span).entry]
      | none => .error ⟨.malformedNumber value, span.start⟩ := by
  cases hread : Binary64.read? value with
  | some x =>
    have hnumber : Derives .expression [⟨.integer, value, span⟩] .eof (.number x span) :=
      Derives.of_operand (.number (.inl rfl) hread)
    have hunits : Derives .units ([⟨.integer, value, span⟩] ++ []) .eof
        [(Node.number x span).entry] := .bareUnit hnumber (by simp) .noUnit
    exact ofTokens_of_derives hunits
  | none =>
    let c := Cursor.start [⟨.integer, value, span⟩] file
    have hkind : c.current.kind = .integer := rfl
    have hnumber : Construct.number c = .failed ⟨.malformedNumber value, span.start⟩ c := by
      rw [Construct.number, Body.number, current_bind, if_pos (.inl hkind)]
      rw [show Binary64.read? c.current.value = none from hread]
      rfl
    have hprimary : Construct.primary c.nested c.budget c = _ :=
      current_bind.trans (bind_of_failed hnumber)
    have hchain : Construct.chain c.nested c.budget c = _ := bind_of_failed hprimary
    have hentry : Construct.entry c.nested c.budget c = _ := bind_of_failed hchain
    have hunit : Construct.unit c.nested c.budget c = _ :=
      (ifAt_neg (by simp [hkind])).trans hentry
    have hunits : Construct.units c.nested c.budget c = _ :=
      (ifAt_neg (by simp [hkind])).trans (bind_of_failed hunit)
    have hfailed : c.units = (.error ⟨.malformedNumber value, span.start⟩, c) :=
      Outcome.result_eq_error_iff.mpr hunits
    exact congrArg Prod.fst hfailed

/-- A text that can be scanned does not fail for a numeral. If it is read as a program, all
numbers in that are numbers without a sign, and the program is equal to itself, also if the
text is read again. Neither holds of all tokens, only of those of a text. -/
theorem ofTokens_beq_self :
    (∀ source file tokens, scan source file = .ok tokens →
      (∀ name failure, ofTokens tokens name = .error failure →
        ∀ text, failure.cause ≠ .malformedNumber text) ∧
      ∀ name nodes, ofTokens tokens name = .ok nodes →
        (∀ n ∈ nodes, ∀ x s, Node.Occurs (.number x s) n →
          x.isNegative = false ∧ x.isNaN = false) ∧
        (nodes == nodes) = true ∧
        ∀ name', ∃ nodes', ofTokens tokens name' = .ok nodes' ∧ (nodes == nodes') = true) ∧
    (∀ span file, ∃ nodes, ofTokens [⟨.integer, "nan", span⟩] file = .ok nodes ∧
      (nodes == nodes) = false) ∧
    ∀ value span file, Binary64.read? value = none →
      ofTokens [⟨.integer, value, span⟩] file = .error ⟨.malformedNumber value, span.start⟩ := by
  refine ⟨fun source file tokens hscan => ⟨?_, fun name nodes hnodes => ?_⟩, ?_, ?_⟩
  · intro name failure hfailure
    exact cause_ne_malformedNumber hscan hfailure
  · have hnumbers := atNumber_of_ofTokens hscan hnodes
    have hself : (nodes == nodes) = true :=
      Node.beq_self fun n hn m hm => (hnumbers n hn m hm).imp fun _ hx => hx.2
    refine ⟨fun n hn x s hoccurs => hnumbers n hn _ hoccurs, hself, fun name' => ?_⟩
    exact ⟨nodes, (ofTokens_of_scan hscan name' name).trans hnodes, hself⟩
  · intro span file
    refine ⟨_, ofTokens_integer "nan" span file, ?_⟩
    rfl
  · intro value span file hread
    rw [ofTokens_integer, hread]

set_option maxRecDepth 4000 in
/-- Two numerals are compared, and a token that only looks like one fails. -/
theorem ofTokens_comparison_beq_self :
    ∃ tokens nodes, scan " 0.5 < 7" "" = .ok tokens ∧ ofTokens tokens "" = .ok nodes ∧
      (∃ n ∈ nodes, ∃ x s, Node.Occurs (.number x s) n ∧ x.isNegative = false ∧
        x.isNaN = false) ∧
      (nodes == nodes) = true ∧ Binary64.read? "1x" = none ∧
      ofTokens [⟨.integer, "1x", .between 0 2 ""⟩] "" =
        .error ⟨.malformedNumber "1x", .after 0 ""⟩ := by
  have hscan : scan " 0.5 < 7" "" = .ok (spacedTokens "" 0
      [(.float, "0.5"), (.operator, "<"), (.integer, "7")] ++ [.endAt (.after 8 "")]) := by
    refine scan_spaced ?_ (by decide)
    simp only [List.forall_mem_cons, List.not_mem_nil, IsEmpty.forall_iff, implies_true, and_true]
    refine ⟨⟨['0'], ['5'], rfl, ?_, ?_⟩, ?_, ?_⟩
    all_goals simp [Token.Fits, IsDigits]
  let half : Node := .number ⟨0x3fe0000000000000⟩ (.between 1 4 "")
  let comparison : Node :=
    .binary .lessThan half (.number ⟨0x401c000000000000⟩ (.between 7 8 "")) (.between 1 8 "")
  have hnodes : ofTokens (spacedTokens "" 0
      [(.float, "0.5"), (.operator, "<"), (.integer, "7")] ++ [.endAt (.after 8 "")]) "" =
      .ok [comparison.entry] := rfl
  have hhalf : Node.Occurs half comparison.entry :=
    .inside (List.mem_singleton_self comparison) (.inside List.mem_cons_self .self)
  obtain ⟨htexts, -, hmalformed⟩ := ofTokens_beq_self
  obtain ⟨-, hprograms⟩ := htexts _ _ _ hscan
  obtain ⟨hnumbers, hself, -⟩ := hprograms "" _ hnodes
  have hmem : comparison.entry ∈ [comparison.entry] := List.mem_singleton_self _
  have hread : Binary64.read? "1x" = none := by decide
  exact ⟨_, _, hscan, hnodes, ⟨_, hmem, _, _, hhalf, hnumbers _ hmem _ _ hhalf⟩, hself, hread,
    hmalformed "1x" _ "" hread⟩

end Program

end ExprLang
