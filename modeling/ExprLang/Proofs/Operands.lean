import ExprLang.Proofs.Viable

/-!
Where operators stand. In a word of the grammar every operator directly follows an operand: the
left side of an operator is a chain, which ends with one, and no other rule has operators. So a
place of a word where an operator may stand is one behind an operand, but not the other way
round. A name that labels an argument could be an operand by itself, and so could a definition
at the top of a program, but no expression goes on behind them.
-/
namespace ExprLang.Grammar

open Operator (Tier)

variable {part : Part} {tier : Option Tier} {u v w : List Token} {t : Token} {n : Node}

/-- The word ends with an operand. -/
def EndsOperand (w : List Token) : Prop :=
  ∃ u v n, w = u ++ v ∧ Derives .operand v .operator n

theorem EndsOperand.append (h : EndsOperand w) (u : List Token) : EndsOperand (u ++ w) := by
  obtain ⟨u', v, n, rfl, hn⟩ := h
  exact ⟨u ++ u', v, n, by rw [List.append_assoc], hn⟩

theorem not_endsOperand_nil : ¬ EndsOperand [] := by
  rintro ⟨u, v, n, hw, hn⟩
  obtain ⟨rfl, rfl⟩ := List.append_eq_nil_iff.mp hw.symm
  obtain ⟨t, u, hcons, -⟩ := hn.exists_cons trivial
  simp at hcons

theorem Derives.endsOperand_of_above (tier : Tier)
    (habove : ∀ {w n}, Derives (.chain (above tier)) w .operator n → EndsOperand w)
    (h : Derives (.chain (some tier)) w .operator n) : EndsOperand w := by
  cases h with
  | tighter hn => exact habove hn
  | @binary _ _ t u v _ _ _ _ _ _ hrhs =>
    have hends := (habove hrhs).append (u ++ [t])
    simpa using hends

/-- What stands left of an operator ends with an operand. -/
theorem Derives.endsOperand (h : Derives (.chain tier) w .operator n) : EndsOperand w := by
  have hoperand {w : List Token} {n : Node} (h : Derives .operand w .operator n) :
      EndsOperand w := ⟨[], w, n, rfl, h⟩
  have hproduct {w : List Token} {n : Node}
      (h : Derives (.chain (some .multiplicative)) w .operator n) : EndsOperand w :=
    Derives.endsOperand_of_above .multiplicative hoperand h
  have hsum {w : List Token} {n : Node} (h : Derives (.chain (some .additive)) w .operator n) :
      EndsOperand w := Derives.endsOperand_of_above .additive hproduct h
  match tier with
  | none => exact hoperand h
  | some .multiplicative => exact hproduct h
  | some .additive => exact hsum h
  | some .relational => exact Derives.endsOperand_of_above .relational hsum h

/-- Every operator of the word directly follows an operand. -/
def OperatorsFollow (w : List Token) : Prop :=
  ∀ u t v, w = u ++ t :: v → t.kind = .operator → EndsOperand u

namespace OperatorsFollow

theorem nil : OperatorsFollow [] := by
  intro u t v h
  simp at h

theorem cons (ht : t.kind ≠ .operator) (h : OperatorsFollow w) : OperatorsFollow (t :: w) := by
  intro u t' v hsplit hkind
  cases u with
  | nil =>
    obtain ⟨rfl, -⟩ := List.cons.inj hsplit
    exact absurd hkind ht
  | cons t'' u =>
    obtain ⟨rfl, hrest⟩ := List.cons.inj hsplit
    exact (h u t' v hrest hkind).append [t]

theorem append (hu : OperatorsFollow u) (hv : OperatorsFollow v) : OperatorsFollow (u ++ v) := by
  intro u' t v' hsplit hkind
  rcases List.append_eq_append_iff.mp hsplit with ⟨w, rfl, hrest⟩ | ⟨w, rfl, hrest⟩
  · exact (hv w t v' hrest hkind).append u
  · cases w with
    | nil => simpa using (hv [] t v' hrest.symm hkind).append u'
    | cons t' w =>
      obtain ⟨rfl, -⟩ := List.cons.inj hrest
      exact hu u' t w rfl hkind

theorem append_cons (hu : OperatorsFollow u) (hends : EndsOperand u) (hv : OperatorsFollow v) :
    OperatorsFollow (u ++ t :: v) := by
  intro u' t' v' hsplit hkind
  rcases List.append_eq_append_iff.mp hsplit with ⟨w, rfl, hrest⟩ | ⟨w, rfl, hrest⟩
  · cases w with
    | nil => simpa using hends
    | cons t'' w =>
      obtain ⟨rfl, hv'⟩ := List.cons.inj hrest
      simpa using (hv w t' v' hv' hkind).append (u ++ [t])
  · cases w with
    | nil => simpa using hends
    | cons t'' w =>
      obtain ⟨rfl, -⟩ := List.cons.inj hrest
      exact hu u' t' w rfl hkind

end OperatorsFollow

theorem Derives.operatorsFollow {next : Token.Kind} {value : part.Value}
    (h : Derives part w next value) : OperatorsFollow w := by
  induction h with
  | number hkind =>
    refine .cons ?_ .nil
    rcases hkind with hkind | hkind <;> simp [hkind]
  | reference hkind | returnNothing hkind => exact .cons (by simp [hkind]) .nil
  | returnValue hkind _ _ ih => exact .cons (by simp [hkind]) ih
  | call hkinds _ ih =>
    simp only [List.map_cons, List.cons.injEq] at hkinds
    refine .cons (by simp [hkinds]) (.cons (by simp [hkinds]) (.append ih ?_))
    exact .cons (by simp [hkinds]) .nil
  | parenthesised hkinds _ ih | branch hkinds _ ih =>
    simp only [List.map_cons, List.cons.injEq] at hkinds
    exact .cons (by simp [hkinds]) (.append ih (.cons (by simp [hkinds]) .nil))
  | defined _ ih | chosen _ ih | tighter _ ih => exact ih
  | binary _ _ hlhs _ ih ih' => exact .append_cons ih hlhs.endsOperand ih'
  | noArgument | noParameter | noUnit => exact .nil
  | lastArgument hkinds _ ih =>
    simp only [List.map_cons, List.cons.injEq] at hkinds
    exact .cons (by simp [hkinds]) (.cons (by simp [hkinds]) ih)
  | argument hkinds _ _ ih ih' =>
    simp only [List.map_cons, List.cons.injEq] at hkinds
    refine .cons (by simp [hkinds]) (.cons (by simp [hkinds]) (.append ih ?_))
    exact .cons (by simp [hkinds]) ih'
  | lastParameter hkinds =>
    simp only [List.map_cons, List.cons.injEq] at hkinds
    exact .cons (by simp [hkinds]) (.cons (by simp [hkinds]) (.cons (by simp [hkinds]) .nil))
  | parameter hkinds _ ih =>
    simp only [List.map_cons, List.cons.injEq] at hkinds
    refine .cons (by simp [hkinds]) (.cons (by simp [hkinds]) (.cons (by simp [hkinds]) ?_))
    exact .cons (by simp [hkinds]) ih
  | definition hkinds _ _ ih ih' =>
    simp only [List.map_cons, List.cons.injEq] at hkinds
    simp only [List.cons_append, List.append_assoc]
    refine .cons (by simp [hkinds]) (.cons (by simp [hkinds]) (.cons (by simp [hkinds])
      (.append ih (.cons (by simp [hkinds]) (.cons (by simp [hkinds]) ?_)))))
    refine .cons (by simp [hkinds]) (.cons (by simp [hkinds]) (.append ih' ?_))
    exact .cons (by simp [hkinds]) .nil
  | ifThen hkind _ _ ih ih' => exact .cons (by simp [hkind]) (.append ih ih')
  | ifThenElse hkinds _ _ _ ih ih' ih'' | ifThenElseIf hkinds _ _ _ ih ih' ih'' =>
    simp only [List.map_cons, List.cons.injEq] at hkinds
    exact .cons (by simp [hkinds]) (.append (.append ih ih') (.cons (by simp [hkinds]) ih''))
  | definedUnit _ _ ih ih' => exact .append ih ih'
  | bareUnit _ _ _ ih ih' => exact .append ih ih'

/-- The word ends with an operand of an expression, and an operator may follow it there. -/
def AfterOperand (part : Part) (w : List Token) : Prop :=
  EndsOperand w ∧ ∃ t, t.kind = .operator ∧ Viable part (w ++ [t])

theorem Viable.afterOperand (h : Viable part (w ++ [t])) (ht : t.kind = .operator) :
    AfterOperand part w := by
  refine ⟨?_, t, ht, h⟩
  obtain ⟨rest, value, hrest⟩ := h
  have hword := hrest .eof (by decide)
  exact hword.operatorsFollow w t rest (by simp) ht

end ExprLang.Grammar
