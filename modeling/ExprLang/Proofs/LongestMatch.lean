import ExprLang.Proofs.Lexing
import ExprLang.Scan
import Mathlib.Data.List.MinMax

/-!
The table of classes is ordered so that the first class with a text at a place has the
longest one there. Classes that share a first character are compared once: decimals run on
where integers stop, comments and marks of two characters stand before the marks that they
start with. So a scanner that looks at the whole table and takes a longest lexeme finds the
same lexemes, and it does so for the classes in any order.
-/
namespace ExprLang

namespace Lexeme

variable {k k' : Class} {cs w : List Char} {l : Lexeme}

namespace Class

theorem lexeme?_eq_none_iff (hmem : k ∈ classes) : k.lexeme? cs = none ↔ k.lead cs = [] := by
  simp [lexeme?_eq hmem]

theorem lexeme?_eq_some_iff (hmem : k ∈ classes) :
    k.lexeme? cs = some l ↔ k.lead cs ≠ [] ∧ l = ⟨k, k.lead cs⟩ := by
  by_cases h : k.lead cs = []
  · simp [lexeme?_eq hmem, h]
  · simp [lexeme?_eq hmem, h, eq_comm]

theorem match?_eq_some_iff (hmem : k ∈ classes) :
    k.match? cs = some w ↔ k.lead cs = w ∧ w ≠ [] := by
  rw [match?_eq hmem]
  split
  · rename_i hnil
    simp [hnil, eq_comm]
  · rename_i hne
    constructor
    · rintro ⟨⟩
      exact ⟨rfl, hne⟩
    · rintro ⟨rfl, -⟩
      rfl

/-- Wherever the first class has a text, the second has a shorter one or none. -/
def Outruns (k k' : Class) : Prop :=
  ∀ cs, k.lead cs ≠ [] → (k'.lead cs).length < (k.lead cs).length

theorem outruns_of_starts (h : ∀ c, k'.starts c = true → k.starts c = false) :
    k.Outruns k' := by
  intro cs hlead
  cases cs with
  | nil => exact absurd (List.prefix_nil.mp (k.lead_isPrefix [])) hlead
  | cons c cs =>
    have hnot : k'.starts c = false := by
      by_contra hstarts
      exact hlead (lead_of_not_starts (h c (by simpa using hstarts)))
    rw [lead_of_not_starts hnot]
    exact List.length_pos_iff.mpr hlead

theorem outruns_decimal_integer : decimal.Outruns integer := by
  intro cs hlead
  simp only [lead, leadDecimal] at hlead ⊢
  split at hlead
  · split at hlead
    · exact absurd rfl hlead
    · rename_i hne
      rw [if_neg hne, List.length_append, List.length_cons]
      omega
  · exact absurd rfl hlead

/-- A mark is outrun by a class whose texts all start with what the mark does not start
with. -/
theorem outruns_fixed {kind : Token.Kind} {pattern text : String}
    (hk : ∀ cs, k.lead cs ≠ [] → w <+: k.lead cs) (hw : ¬ w <+: pattern.toList) :
    k.Outruns (.fixed kind pattern text) := by
  intro cs hlead
  simp only [lead]
  split
  · rename_i hpattern
    have hpattern := List.isPrefixOf_iff_prefix.mp hpattern
    have hfront := (hk cs hlead).trans (k.lead_isPrefix cs)
    have hshorter : pattern.toList.length < w.length := by
      by_contra hle
      exact hw (List.prefix_of_prefix_length_le hfront hpattern (by omega))
    exact hshorter.trans_le (hk cs hlead).length_le
  · exact List.length_pos_iff.mpr hlead

theorem prefix_lead_comment (h : comment.lead cs ≠ []) : ['/', '/'] <+: comment.lead cs := by
  simp only [lead] at h ⊢
  unfold leadComment at h ⊢
  split at h
  · exact ⟨_, rfl⟩
  · exact absurd rfl h

theorem prefix_lead_fixed {kind : Token.Kind} {pattern text : String}
    (h : (fixed kind pattern text).lead cs ≠ []) :
    pattern.toList <+: (fixed kind pattern text).lead cs := by
  simp only [lead] at h ⊢
  split at h
  · rename_i hpattern
    simp [hpattern]
  · exact absurd rfl h

theorem pairwise_outruns_marks :
    (marks.map fun m => fixed m.1 m.2 m.2).Pairwise Outruns := by
  have hmarks : marks.Pairwise fun m m' => ¬ m.2.toList <+: m'.2.toList := by decide
  rw [List.pairwise_map]
  exact hmarks.imp fun h => outruns_fixed (fun _ => prefix_lead_fixed) h

/-- No mark starts as a word, a number or blanks do. -/
theorem not_starts_of_mark {m : Token.Kind × String} (hm : m ∈ marks)
    (hk : k ∈ [word, decimal, integer, blanks]) {c : Char}
    (hc : (fixed m.1 m.2 m.2).starts c = true) : k.starts c = false := by
  have hall : (marks.all fun m => [word, decimal, integer, blanks].all fun k =>
      m.2.toList.all fun c => !k.starts c) = true := by decide
  have hmem : c ∈ m.2.toList := List.mem_of_mem_head? (by simpa [starts] using hc)
  simpa using List.all_eq_true.mp (List.all_eq_true.mp (List.all_eq_true.mp hall m hm) k hk) c hmem

theorem outruns_mark {m : Token.Kind × String} (hm : m ∈ marks)
    (hk : k ∈ [word, decimal, integer, blanks, comment]) : k.Outruns (fixed m.1 m.2 m.2) := by
  by_cases hcomment : k = comment
  · subst hcomment
    have hmarks : ∀ m ∈ marks, ¬ ['/', '/'] <+: m.2.toList := by decide
    exact outruns_fixed (fun _ => prefix_lead_comment) (hmarks m hm)
  · have hk' : k ∈ [word, decimal, integer, blanks] := by simpa [hcomment] using hk
    exact outruns_of_starts fun c => not_starts_of_mark hm hk'

theorem not_starts_of_comment (hk : k ∈ [word, decimal, integer, blanks]) {c : Char}
    (hc : comment.starts c = true) : k.starts c = false := by
  have hall : ([word, decimal, integer, blanks].all fun k => !k.starts '/') = true := by decide
  obtain rfl : c = '/' := by simpa [starts] using hc
  simpa using List.all_eq_true.mp hall k hk

/-- The classes that are no marks start differently, but for numbers. -/
theorem pairwise_outruns_sorts :
    [word, decimal, integer, blanks, comment].Pairwise Outruns := by
  simp only [List.pairwise_cons, List.forall_mem_cons, List.not_mem_nil, IsEmpty.forall_iff,
    implies_true, and_true, List.Pairwise.nil]
  refine ⟨⟨?_, ?_, ?_, ?_⟩, ⟨outruns_decimal_integer, ?_, ?_⟩, ⟨?_, ?_⟩, ?_⟩
  all_goals apply outruns_of_starts
  · exact fun c => isWordStart_of_isDigit
  · exact fun c => isWordStart_of_isDigit
  · exact fun c => isWordStart_of_isBlank
  · exact fun c => not_starts_of_comment (by simp)
  · exact fun c => isDigit_of_isBlank
  · exact fun c => not_starts_of_comment (by simp)
  · exact fun c => isDigit_of_isBlank
  · exact fun c => not_starts_of_comment (by simp)
  · exact fun c => not_starts_of_comment (by simp)

end Class

theorem pairwise_outruns_classes : classes.Pairwise Class.Outruns := by
  rw [classes_eq_append_marks, List.pairwise_append]
  refine ⟨Class.pairwise_outruns_sorts, Class.pairwise_outruns_marks, fun k hk k' hk' => ?_⟩
  obtain ⟨m, hm, rfl⟩ := List.mem_map.mp hk'
  exact Class.outruns_mark hm hk

/-- The lexeme that is found is the longest text that any class has there, and no other class
has one of its length. -/
theorem length_lt_of_first? (h : first? cs = some l) (hk : k ∈ classes) (hne : k ≠ l.cls) :
    (k.lead cs).length < l.text.length := by
  obtain ⟨before, found, after, hclasses, hfound, hbefore⟩ := List.findSome?_eq_some_iff.mp h
  obtain ⟨hlead, rfl⟩ := (Class.lexeme?_eq_some_iff (by simp [hclasses])).mp hfound
  have hpairwise := pairwise_outruns_classes
  rw [hclasses] at hpairwise
  -- The classes before the one that was found have no text, and it outruns those behind it.
  rcases List.mem_append.mp (hclasses ▸ hk) with hk' | hk'
  · rw [(Class.lexeme?_eq_none_iff hk).mp (hbefore k hk')]
    exact List.length_pos_iff.mpr hlead
  · have hafter : k ∈ after := by simpa [hne] using hk'
    exact List.rel_of_pairwise_cons (List.pairwise_append.mp hpairwise).2.1 hafter cs hlead

/-- A longest lexeme that a class of the table has at the front of the text. -/
def longest? (table : List Class) (cs : List Char) : Option Lexeme :=
  (table.filterMap (·.lexeme? cs)).argmax fun l => l.text.length

/-- The lexemes of the text and what is left of it, where each lexeme is a longest one. It goes on
only while less is left, as a class of some other table may take nothing. -/
def splitLongest (table : List Class) (cs : List Char) : List Lexeme × List Char :=
  match longest? table cs with
  | none => ([], cs)
  | some l =>
    if (cs.drop l.text.length).length < cs.length then
      (splitLongest table (cs.drop l.text.length)).map (l :: ·) id
    else
      ([], cs)
termination_by cs.length
decreasing_by assumption

section

variable {table : List Class} (htable : ∀ k, k ∈ table ↔ k ∈ classes)

include htable

theorem longest?_eq_first? (cs : List Char) : longest? table cs = first? cs := by
  cases hlongest : longest? table cs with
  | none =>
    have hnil := List.argmax_eq_none.mp hlongest
    rw [List.filterMap_eq_nil_iff] at hnil
    symm
    rw [first?, List.findSome?_eq_none_iff]
    exact fun k hk => hnil k ((htable k).mpr hk)
  | some l =>
    obtain ⟨k, hk, hl⟩ := List.mem_filterMap.mp (List.argmax_mem hlongest)
    have hmem := (htable k).mp hk
    obtain ⟨hlead, rfl⟩ := (Class.lexeme?_eq_some_iff hmem).mp hl
    cases hfirst : first? cs with
    | none =>
      have hnone := List.findSome?_eq_none_iff.mp hfirst k hmem
      exact absurd ((Class.lexeme?_eq_none_iff hmem).mp hnone) hlead
    | some l =>
      obtain ⟨k', hmem', hl⟩ := List.exists_of_findSome?_eq_some hfirst
      have hfound : l ∈ table.filterMap (·.lexeme? cs) :=
        List.mem_filterMap.mpr ⟨k', (htable k').mpr hmem', hl⟩
      have hle := List.le_of_mem_argmax hfound hlongest
      have hcls : k = l.cls := by
        by_contra hne
        exact absurd hle (Nat.not_le.mpr (length_lt_of_first? hfirst hmem hne))
      obtain ⟨-, rfl⟩ := (Class.lexeme?_eq_some_iff hmem').mp hl
      subst hcls
      rfl

theorem splitLongest_eq_split (cs : List Char) : splitLongest table cs = split cs := by
  fun_induction splitLongest table cs with
  | case1 cs hnone =>
    rw [longest?_eq_first? htable] at hnone
    rw [split_of_none hnone]
  | case2 cs l hsome _ ih =>
    rw [longest?_eq_first? htable] at hsome
    obtain ⟨-, rest, rfl⟩ := first?_eq_some hsome
    rw [split_of_some hsome, ih, List.drop_left]
    rfl
  | case3 cs l hsome hlength =>
    rw [longest?_eq_first? htable] at hsome
    exact absurd (length_drop_first? hsome) hlength

end

end Lexeme

/-- Scanning with the longest lexeme over a table of classes in place of the first one. -/
def scanLongest (table : List Lexeme.Class) (source file : String) : Except Failure (List Token) :=
  match Lexeme.splitLongest table source.toList with
  | (lexemes, []) => .ok (Lexeme.tokens file 0 lexemes)
  | (lexemes, c :: _) =>
    .error ⟨.unrecognised (String.singleton c), .after (Lexeme.bytes lexemes) file⟩

/-- The first class of the table whose pattern matches at some place takes what it matches, which
is not empty and longer than what any other pattern matches there. So scanning finds the same
tokens and fails in the same way if it takes a longest lexeme over a table that holds the classes
in any order. -/
theorem scanLongest_eq_scan (table : List Lexeme.Class)
    (htable : ∀ k, k ∈ table ↔ k ∈ Lexeme.classes) :
    (∀ cs l, Lexeme.first? cs = some l → l.cls.match? cs = some l.text ∧ l.text ≠ [] ∧
      ∀ k ∈ table, k ≠ l.cls → ∀ w, k.match? cs = some w → w.length < l.text.length) ∧
    ∀ source file, scanLongest table source file = scan source file := by
  constructor
  · intro cs l hfirst
    obtain ⟨hmatch, hne⟩ := Lexeme.match?_of_first? hfirst
    refine ⟨hmatch, hne, fun k hk hother w hw => ?_⟩
    obtain ⟨rfl, -⟩ := (Lexeme.Class.match?_eq_some_iff ((htable k).mp hk)).mp hw
    exact Lexeme.length_lt_of_first? hfirst ((htable k).mp hk) hother
  · intro source file
    rw [scanLongest, Lexeme.splitLongest_eq_split htable]
    rfl

/-- Read backwards, the table has the minus before the arrow. -/
theorem scanLongest_reverse_arrow :
    (∀ k, k ∈ Lexeme.classes.reverse ↔ k ∈ Lexeme.classes) ∧
    Lexeme.first? "->b".toList = some ⟨.fixed .arrow "->" "->", "->".toList⟩ ∧
    (Lexeme.Class.fixed .operator "-" "-").match? "->b".toList = some "-".toList ∧
    "-".toList.length < "->".toList.length ∧
    scanLongest Lexeme.classes.reverse "a->b" "arrow" = scan "a->b" "arrow" := by
  have htable : ∀ k, k ∈ Lexeme.classes.reverse ↔ k ∈ Lexeme.classes := fun k => List.mem_reverse
  obtain ⟨hlongest, hscan⟩ := scanLongest_eq_scan Lexeme.classes.reverse htable
  have hfirst : Lexeme.first? "->b".toList = some ⟨.fixed .arrow "->" "->", "->".toList⟩ := by
    decide
  have hmatch : (Lexeme.Class.fixed .operator "-" "-").match? "->b".toList = some "-".toList := by
    decide
  exact ⟨htable, hfirst, hmatch, (hlongest _ _ hfirst).2.2 _ (by decide) (by decide) _ hmatch,
    hscan "a->b" "arrow"⟩

end ExprLang
