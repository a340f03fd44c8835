import ExprLang.Node

/-!
The trees inside a tree. A node has its children in the order of the text, and the trees that
occur in it are itself and those that occur in its children.
-/
namespace ExprLang.Node

variable {P Q : Node → Prop} {m n : Node}

def children : Node → List Node
  | .number _ _ | .reference _ _ => []
  | .binary _ lhs rhs _ => [lhs, rhs]
  | .function _ _ _ body _ _ => [body]
  | .call _ values _ => values.map Prod.snd
  | .conditional condition consequence alternative _ =>
    condition :: consequence :: alternative.toList
  | .returned body _ => body.toList

/-- The first tree is the second one or stands somewhere in it. -/
inductive Occurs : Node → Node → Prop
  | self {n : Node} : Occurs n n
  | inside {m child n : Node} (hchild : child ∈ n.children) (h : Occurs m child) : Occurs m n

/-- The property holds of all trees that occur in the tree. -/
def Everywhere (P : Node → Prop) (n : Node) : Prop := ∀ m, Occurs m n → P m

theorem Everywhere.self (h : n.Everywhere P) : P n := h n .self

theorem Everywhere.of_children (hn : P n) (h : ∀ child ∈ n.children, child.Everywhere P) :
    n.Everywhere P := by
  intro m hm
  cases hm with
  | self => exact hn
  | inside hchild hoccurs => exact h _ hchild m hoccurs

theorem Everywhere.child (h : n.Everywhere P) (hchild : m ∈ n.children) : m.Everywhere P := by
  intro k hk
  exact h k (.inside hchild hk)

theorem Everywhere.and (hP : n.Everywhere P) (hQ : n.Everywhere Q) :
    n.Everywhere fun m => P m ∧ Q m := by
  intro m hm
  exact ⟨hP m hm, hQ m hm⟩

theorem Everywhere.occurs (h : n.Everywhere P) (hm : Occurs m n) : m.Everywhere P := by
  induction hm with
  | self => exact h
  | inside hchild _ ih => exact ih (h.child hchild)

theorem sizeOf_lt_of_mem_children (h : m ∈ n.children) : sizeOf m < sizeOf n := by
  cases n with
  | number | reference => simp [children] at h
  | binary op lhs rhs s =>
    simp only [children, List.mem_cons, List.not_mem_nil, or_false] at h
    rcases h with h | h <;> subst h <;> simp <;> omega
  | function name ps returns body isEntry s =>
    simp only [children, List.mem_singleton] at h
    subst h
    simp
    omega
  | call callee values s =>
    simp only [children, List.mem_map] at h
    obtain ⟨⟨label, value⟩, hmem, hvalue⟩ := h
    have hlt := List.sizeOf_lt_of_mem hmem
    subst hvalue
    simp only [Prod.mk.sizeOf_spec, call.sizeOf_spec] at hlt ⊢
    omega
  | conditional condition consequence alternative s =>
    simp only [children, List.mem_cons, Option.mem_toList] at h
    rcases h with h | h | h <;> subst h <;> simp <;> omega
  | returned body s =>
    simp only [children, Option.mem_toList] at h
    subst h
    simp
    omega

/-- What holds of a tree if it holds of its children holds of all trees. -/
theorem of_children {P : Node → Prop} (h : ∀ n : Node, (∀ child ∈ n.children, P child) → P n)
    (n : Node) : P n :=
  h n fun child _ => of_children h child
termination_by sizeOf n
decreasing_by exact sizeOf_lt_of_mem_children (by assumption)

end ExprLang.Node
