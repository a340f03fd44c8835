import ExprLang.Node

/-!
Trees up to their spans. Relocating a tree moves all positions of its spans and keeps all
else; two trees are the same up to spans if they are equal once all positions are moved to
one place.
-/
namespace ExprLang

/-- The span of what stands in no text. -/
def Span.null : Span := ⟨.null, .null⟩

def Span.relocate (move : Position → Position) (s : Span) : Span := ⟨move s.start, move s.stop⟩

theorem Span.relocate_id (s : Span) : s.relocate id = s := rfl

theorem Span.relocate_join {move : Position → Position} (s s' : Span) :
    (s.join s').relocate move = (s.relocate move).join (s'.relocate move) := rfl

namespace Node

variable (move : Position → Position)

mutual

def relocate : Node → Node
  | .number x s => .number x (s.relocate move)
  | .reference name s => .reference name (s.relocate move)
  | .binary op lhs rhs s => .binary op (relocate lhs) (relocate rhs) (s.relocate move)
  | .function name ps returns body isEntry s =>
    .function name ps returns (relocate body) isEntry (s.relocate move)
  | .call callee values s => .call callee (relocateArguments values) (s.relocate move)
  | .conditional condition consequence none s =>
    .conditional (relocate condition) (relocate consequence) none (s.relocate move)
  | .conditional condition consequence (some alternative) s =>
    .conditional (relocate condition) (relocate consequence) (some (relocate alternative))
      (s.relocate move)
  | .returned none s => .returned none (s.relocate move)
  | .returned (some body) s => .returned (some (relocate body)) (s.relocate move)

def relocateArguments : List (String × Node) → List (String × Node)
  | [] => []
  | (label, value) :: rest => (label, relocate value) :: relocateArguments rest

end

/-- The tree with all positions moved to one place. -/
def bare (n : Node) : Node := n.relocate fun _ => .null

variable {move}

theorem span_relocate (n : Node) : (n.relocate move).span = n.span.relocate move := by
  match n with
  | .number _ _ | .reference _ _ | .binary _ _ _ _ | .function _ _ _ _ _ _ | .call _ _ _
  | .conditional _ _ none _ | .conditional _ _ (some _) _ | .returned none _
  | .returned (some _) _ => simp [relocate, span]

theorem relocate_entry (n : Node) : n.entry.relocate move = (n.relocate move).entry := by
  simp [entry, relocate, span_relocate]

theorem relocate_conditional (condition consequence : Node) (alternative : Option Node) (s : Span) :
    (Node.conditional condition consequence alternative s).relocate move =
      .conditional (condition.relocate move) (consequence.relocate move)
        (alternative.map (relocate move)) (s.relocate move) := by
  cases alternative <;> simp [relocate]

theorem relocate_returned (body : Option Node) (s : Span) :
    (Node.returned body s).relocate move =
      .returned (body.map (relocate move)) (s.relocate move) := by
  cases body <;> simp [relocate]

theorem relocateArguments_eq_map (values : List (String × Node)) :
    relocateArguments move values = values.map fun value => (value.1, value.2.relocate move) := by
  induction values with
  | nil => rfl
  | cons value values ih => rw [relocateArguments, ih, List.map_cons]

mutual

theorem relocate_id : ∀ n : Node, n.relocate id = n
  | .number _ _ | .reference _ _ | .returned none _ => rfl
  | .binary _ lhs rhs _ => by
    rw [relocate, relocate_id lhs, relocate_id rhs, Span.relocate_id]
  | .function _ _ _ body _ _ => by rw [relocate, relocate_id body, Span.relocate_id]
  | .call _ values _ => by rw [relocate, relocateArguments_id values, Span.relocate_id]
  | .conditional condition consequence none _ => by
    rw [relocate, relocate_id condition, relocate_id consequence, Span.relocate_id]
  | .conditional condition consequence (some alternative) _ => by
    rw [relocate, relocate_id condition, relocate_id consequence, relocate_id alternative,
      Span.relocate_id]
  | .returned (some body) _ => by rw [relocate, relocate_id body, Span.relocate_id]

theorem relocateArguments_id : ∀ values : List (String × Node), relocateArguments id values = values
  | [] => rfl
  | (label, value) :: rest => by
    rw [relocateArguments, relocate_id value, relocateArguments_id rest]

end

theorem relocate_id_eq : relocate id = id := funext relocate_id

section Bare

variable {body lhs rhs condition consequence : Node} {s : Span}

@[simp]
theorem bare_binary {op : Operator} :
    (Node.binary op lhs rhs s).bare = .binary op lhs.bare rhs.bare .null := rfl

@[simp]
theorem bare_function {name : String} {ps : List Parameter} {returns : ValueType} {isEntry : Bool} :
    (Node.function name ps returns body isEntry s).bare =
      .function name ps returns body.bare isEntry .null := rfl

@[simp]
theorem bare_call {callee : String} {values : List (String × Node)} :
    (Node.call callee values s).bare =
      .call callee (values.map fun value => (value.1, value.2.bare)) .null :=
  congrArg (Node.call callee · _) (relocateArguments_eq_map values)

@[simp]
theorem bare_conditional {alternative : Option Node} :
    (Node.conditional condition consequence alternative s).bare =
      .conditional condition.bare consequence.bare (alternative.map bare) .null :=
  relocate_conditional condition consequence alternative s

@[simp]
theorem bare_returned {body : Option Node} :
    (Node.returned body s).bare = .returned (body.map bare) .null :=
  relocate_returned body s

end Bare

end Node

end ExprLang
