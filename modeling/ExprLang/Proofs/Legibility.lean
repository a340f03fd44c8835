import ExprLang.Proofs.NodeTexts
import ExprLang.Proofs.Spans

/-!
Programs are legible. The names in a tree that was read from a source are names of the source,
its parameters are labelled as they are named, and its numerals have no sign. So the texts of
such trees have one reading, unless a numeral is too large for a finite number.
-/
namespace ExprLang

open Text

namespace Grammar

/-- All names of what a word stands for are names, and no number in it is negative. -/
def Part.Legible : (part : Part) → part.Value → Prop
  | .arguments, values => ∀ value ∈ values, IsName value.1.toList ∧ value.2.Everywhere Node.Legible
  | .parameters, ps => ∀ p ∈ ps, IsName p.name.toList ∧ p.label = p.name
  | .units, ns => ∀ n ∈ ns, n.Everywhere Node.Legible
  | .chain _, n | .definition, n | .conditional, n | .branch, n => n.Everywhere Node.Legible

/-- Tokens whose values are those of a text stand for legible trees. -/
theorem Derives.legible {part : Part} {w : List Token} {next : Token.Kind} {value : part.Value}
    (h : Derives part w next value) (hfits : ∀ t ∈ w, Token.Fits t.kind t.value) :
    part.Legible value := by
  have hname {t : Token} (ht : Token.Fits t.kind t.value) (hkind : t.kind = .identifier) :
      IsName t.value.toList := by
    rw [hkind] at ht
    exact ht.1
  induction h with
  | @number t next x hkind hread =>
    have ht : Token.Fits .integer t.value ∨ Token.Fits .float t.value := by
      have ht := hfits t (by simp)
      rcases hkind with hkind | hkind <;> rw [hkind] at ht
      · exact .inl ht
      · exact .inr ht
    obtain ⟨y, hy, hsign, -⟩ := Binary64.exists_read?_of_fits ht
    rw [hread] at hy
    cases hy
    exact .of_children hsign (by simp [Node.children])
  | reference hkind =>
    exact .of_children (hname (hfits _ (by simp)) hkind) (by simp [Node.children])
  | call hkinds _ ih =>
    simp only [List.map_cons, List.cons.injEq] at hkinds
    have hvalues := ih fun t ht => hfits t (by simp [ht])
    refine .of_children ⟨hname (hfits _ (by simp)) hkinds.1, fun value hv => ?_⟩ ?_
    · exact (hvalues value hv).1
    · simpa only [Node.children, List.forall_mem_map] using fun value hv => (hvalues value hv).2
  | parenthesised _ _ ih | branch _ _ ih => exact ih fun t ht => hfits t (by simp [ht])
  | defined _ ih | chosen _ ih | tighter _ ih => exact ih hfits
  | returnNothing => exact .of_children trivial (by simp [Node.children])
  | returnValue _ _ _ ih =>
    have hn := ih fun t ht => hfits t (by simp [ht])
    exact .of_children trivial (List.forall_mem_singleton.mpr hn)
  | binary _ _ _ _ ih ih' =>
    have hlhs := ih fun t ht => hfits t (by simp [ht])
    have hrhs := ih' fun t ht => hfits t (by simp [ht])
    exact .of_children trivial (by simpa [Node.children] using ⟨hlhs, hrhs⟩)
  | noArgument | noParameter | noUnit => simp [Part.Legible]
  | lastArgument hkinds _ ih =>
    simp only [List.map_cons, List.cons.injEq] at hkinds
    have hn := ih fun t ht => hfits t (by simp [ht])
    exact List.forall_mem_singleton.mpr ⟨hname (hfits _ (by simp)) hkinds.1, hn⟩
  | argument hkinds _ _ ih ihrest =>
    simp only [List.map_cons, List.cons.injEq] at hkinds
    have hn := ih fun t ht => hfits t (by simp [ht])
    have hrest := ihrest fun t ht => hfits t (by simp [ht])
    exact List.forall_mem_cons.mpr ⟨⟨hname (hfits _ (by simp)) hkinds.1, hn⟩, hrest⟩
  | lastParameter hkinds =>
    simp only [List.map_cons, List.cons.injEq] at hkinds
    exact List.forall_mem_singleton.mpr ⟨hname (hfits _ (by simp)) hkinds.1, rfl⟩
  | parameter hkinds _ ih =>
    simp only [List.map_cons, List.cons.injEq] at hkinds
    have hrest := ih fun t ht => hfits t (by simp [ht])
    exact List.forall_mem_cons.mpr ⟨⟨hname (hfits _ (by simp)) hkinds.1, rfl⟩, hrest⟩
  | definition hkinds _ _ ihps ih =>
    simp only [List.map_cons, List.cons.injEq] at hkinds
    have hps := ihps fun t ht => hfits t (by simp [ht])
    have hn := ih fun t ht => hfits t (by simp [ht])
    exact .of_children ⟨hname (hfits _ (by simp)) hkinds.2.1, hps⟩
      (List.forall_mem_singleton.mpr hn)
  | ifThen _ _ _ ih ih' =>
    have hcondition := ih fun t ht => hfits t (by simp [ht])
    have hconsequence := ih' fun t ht => hfits t (by simp [ht])
    exact .of_children trivial (by simpa [Node.children] using ⟨hcondition, hconsequence⟩)
  | ifThenElse _ _ _ _ ih ih' ih'' | ifThenElseIf _ _ _ _ ih ih' ih'' =>
    have hcondition := ih fun t ht => hfits t (by simp [ht])
    have hconsequence := ih' fun t ht => hfits t (by simp [ht])
    have halternative := ih'' fun t ht => hfits t (by simp [ht])
    exact .of_children trivial
      (by simpa [Node.children] using ⟨hcondition, hconsequence, halternative⟩)
  | definedUnit _ _ ih ihrest =>
    have hn := ih fun t ht => hfits t (by simp [ht])
    have hrest := ihrest fun t ht => hfits t (by simp [ht])
    exact List.forall_mem_cons.mpr ⟨hn, hrest⟩
  | bareUnit _ _ _ ih ihrest =>
    have hn := ih fun t ht => hfits t (by simp [ht])
    have hrest := ihrest fun t ht => hfits t (by simp [ht])
    have hmain : IsName Node.entryName.toList := by
      simp [Node.entryName, IsName]
      decide
    exact List.forall_mem_cons.mpr
      ⟨.of_children ⟨hmain, by simp⟩ (List.forall_mem_singleton.mpr hn), hrest⟩

end Grammar

namespace Program

/-- The tree occurs in what the tokens of a source are read into. -/
def Yields (n : Node) : Prop :=
  ∃ source file file' tokens nodes root, scan source file = .ok tokens ∧
    ofTokens tokens file' = .ok nodes ∧ root ∈ nodes ∧ Node.Occurs n root

variable {n m : Node}

theorem Yields.readable (h : Yields n) (hfinite : n.Everywhere Node.HasFiniteValue) :
    n.Readable := by
  obtain ⟨source, file, file', tokens, nodes, root, hscan, hnodes, hroot, hoccurs⟩ := h
  obtain ⟨words, hspelled, hderives⟩ := exists_spelled_of_ofTokens hscan hnodes
  have hlegible : ∀ root ∈ nodes, root.Everywhere Node.Legible := hderives.legible hspelled.fits
  exact ((hlegible root hroot).occurs hoccurs).and hfinite

/-- Trees of programs have the same text exactly if they are the same up to spans and the mark
of bare expressions, unless a number in them is infinite. -/
theorem text_eq_iff_outline_eq (hn : Yields n) (hm : Yields m)
    (hfinite : n.Everywhere Node.HasFiniteValue) (hfinite' : m.Everywhere Node.HasFiniteValue) :
    n.text = m.text ↔ n.outline = m.outline := by
  constructor
  · intro htext
    have heq : n.text.toList ++ [] = m.text.toList ++ [] := by rw [htext]
    exact (n.determined (hn.readable hfinite) (hm.readable hfinite') marked_nil marked_nil heq).1
  · intro houtline
    rw [← n.text_outline, houtline, m.text_outline]

set_option maxRecDepth 4000 in
/-- Neither the parentheses nor the zero in front of the numeral make another text or another
tree. -/
theorem outline_of_parenthesised_difference :
    let place (first last : Nat) : Span := .between first last ""
    let difference (s t : Span) : Node :=
      .binary .sub (.number ⟨0x4000000000000000⟩ s) (.reference "x" t) (s.join t)
    let bare := difference (place 1 2) (place 5 6)
    let parenthesised := difference (place 3 5) (place 10 11)
    ofSource " 2 - x" "" = .ok [bare.entry] ∧
      ofSource " ( 02 - ( x ) )" "" = .ok [parenthesised.entry] ∧
      bare.text = parenthesised.text ∧ bare.outline = parenthesised.outline := by
  intro place difference bare parenthesised
  have hbare : scan " 2 - x" "" = .ok (spacedTokens "" 0
      [(.integer, "2"), (.operator, "-"), (.identifier, "x")] ++ [.endAt (.after 6 "")]) := by
    refine scan_spaced ?_ (by decide)
    simp [Token.Fits, IsName, IsDigits]
    decide
  have hparenthesised : scan " ( 02 - ( x ) )" "" = .ok (spacedTokens "" 0
      [(.openParen, "("), (.integer, "02"), (.operator, "-"), (.openParen, "("),
        (.identifier, "x"), (.closeParen, ")"), (.closeParen, ")")] ++
      [.endAt (.after 15 "")]) := by
    refine scan_spaced ?_ (by decide)
    simp [Token.Fits, IsName, IsDigits]
    decide
  have hyields {source : String} {tokens : List Token} {s t : Span}
      (hscan : scan source "" = .ok tokens)
      (hread : ofTokens tokens "" = .ok [(difference s t).entry]) : Yields (difference s t) := by
    refine ⟨source, "", "", tokens, _, _, hscan, hread, List.mem_singleton_self _, ?_⟩
    exact .inside (List.mem_singleton_self _) .self
  have hfinite (s t : Span) : (difference s t).Everywhere Node.HasFiniteValue := by
    refine .of_children trivial (List.forall_mem_cons.mpr ⟨?_, List.forall_mem_singleton.mpr ?_⟩)
    · exact .of_children rfl (by simp [Node.children])
    · exact .of_children trivial (by simp [Node.children])
  have hread : ofSource " 2 - x" "" = .ok [bare.entry] := by
    rw [ofSource, hbare]
    rfl
  have hread' : ofSource " ( 02 - ( x ) )" "" = .ok [parenthesised.entry] := by
    rw [ofSource, hparenthesised]
    rfl
  refine ⟨hread, hread', rfl, ?_⟩
  exact (text_eq_iff_outline_eq (hyields hbare rfl) (hyields hparenthesised rfl) (hfinite _ _)
    (hfinite _ _)).mp rfl

end Program

end ExprLang
