import ExprLang.Proofs.Lookahead

/-!
Chains of operators as a whole. Operators are read one by one, and a tree is built on the way:
each operator takes its left operand as it finds it and looks one token ahead for its right
one. The same tree comes out if the operators and operands are read first, from left to right
and in one go, and the chain is then cut at the last of the operators that bind most loosely,
and so on in both parts. A reading that fails does so at the first place where one of these
steps fails.
-/
namespace ExprLang

/-- An operator and the operand behind it. -/
structure Link where
  op : Operator
  operand : Node

namespace Link

variable {before after links : List Link} {link : Link}

def power (link : Link) : Int := link.op.power

/-- The link is the last of those that bind most loosely. -/
structure Loosest (before : List Link) (link : Link) (after : List Link) : Prop where
  before_le : ∀ l ∈ before, link.power ≤ l.power
  after_lt : ∀ l ∈ after, link.power < l.power

/-- The links before the last of the loosest ones, that one, and the links behind it. -/
def cut : List Link → Option (List Link × Link × List Link)
  | [] => none
  | link :: rest =>
    match cut rest with
    | none => some ([], link, [])
    | some (before, loosest, after) =>
      if link.power < loosest.power then some ([], link, rest)
      else some (link :: before, loosest, after)

theorem cut_eq_none_iff : cut links = none ↔ links = [] := by
  cases links with
  | nil => simp [cut]
  | cons link rest =>
    simp only [cut]
    split
    · simp
    · split <;> simp

theorem Loosest.of_cut (h : cut links = some (before, link, after)) :
    links = before ++ link :: after ∧ Loosest before link after := by
  induction links generalizing before link after with
  | nil => simp [cut] at h
  | cons first rest ih =>
    simp only [cut] at h
    split at h
    · rename_i hrest
      obtain ⟨rfl, rfl, rfl⟩ : [] = before ∧ first = link ∧ [] = after := by simpa using h
      obtain rfl := cut_eq_none_iff.mp hrest
      exact ⟨rfl, nofun, nofun⟩
    · rename_i before' loosest after' hrest
      obtain ⟨rfl, hbefore, hafter⟩ := ih hrest
      split at h
      · rename_i hlt
        obtain ⟨rfl, rfl, rfl⟩ :
            [] = before ∧ first = link ∧ before' ++ loosest :: after' = after := by simpa using h
        refine ⟨rfl, nofun, fun l hl => ?_⟩
        rcases List.mem_append.mp hl with hl | hl
        · exact Int.lt_of_lt_of_le hlt (hbefore l hl)
        · rcases List.mem_cons.mp hl with rfl | hl
          · exact hlt
          · exact Int.lt_trans hlt (hafter l hl)
      · rename_i hle
        obtain ⟨rfl, rfl, rfl⟩ : first :: before' = before ∧ loosest = link ∧ after' = after := by
          simpa using h
        exact ⟨rfl, by simpa using ⟨by omega, hbefore⟩, hafter⟩

theorem Loosest.cut_eq (h : Loosest before link after) :
    cut (before ++ link :: after) = some (before, link, after) := by
  induction before with
  | nil =>
    simp only [List.nil_append, cut]
    split
    · rename_i hafter
      rw [cut_eq_none_iff.mp hafter]
    · rename_i before' loosest after' hafter
      have hmem : loosest ∈ after := by simp [(Loosest.of_cut hafter).1]
      rw [if_pos (h.after_lt loosest hmem)]
  | cons first before ih =>
    obtain ⟨hfirst, hbefore⟩ := List.forall_mem_cons.mp h.before_le
    simp only [List.cons_append, cut, ih ⟨hbefore, h.after_lt⟩]
    rw [if_neg (by omega)]

/-- The tree of a chain, which is cut at the last of its loosest operators. -/
def tree (lhs : Node) (links : List Link) : Node :=
  match _ : cut links with
  | none => lhs
  | some (before, link, after) =>
    let left := tree lhs before
    let right := tree link.operand after
    .binary link.op left right (left.span.join right.span)
termination_by links.length
decreasing_by
  all_goals
    obtain ⟨rfl, -⟩ := Loosest.of_cut (by assumption)
    simp only [List.length_append, List.length_cons]
    omega

@[simp]
theorem tree_nil (lhs : Node) : tree lhs [] = lhs := by
  rw [tree]
  rfl

theorem Loosest.tree_eq (h : Loosest before link after) (lhs : Node) :
    tree lhs (before ++ link :: after) = .binary link.op (tree lhs before)
      (tree link.operand after)
      ((tree lhs before).span.join (tree link.operand after).span) := by
  rw [tree]
  split
  · rename_i hnone
    exact absurd (hnone.symm.trans h.cut_eq) (by simp)
  · rename_i before' link' after' hsome
    obtain ⟨rfl, rfl, rfl⟩ : before' = before ∧ link' = link ∧ after' = after := by
      simpa using hsome.symm.trans h.cut_eq
    rfl

/-- The first operator of a chain takes the operators behind it that bind tighter, and is then
the left operand of the others. -/
theorem tree_cons_append (link : Link) (lhs : Node) {inner outer : List Link}
    (hinner : ∀ l ∈ inner, link.power < l.power)
    (houter : ∀ l ∈ outer.head?, l.power ≤ link.power) :
    tree lhs (link :: (inner ++ outer)) =
      tree (.binary link.op lhs (tree link.operand inner)
        (lhs.span.join (tree link.operand inner).span)) outer := by
  induction hsize : outer.length using Nat.strongRecOn generalizing outer with
  | ind size ih =>
    cases hcut : cut outer with
    | none =>
      obtain rfl := cut_eq_none_iff.mp hcut
      have hloosest : Loosest [] link inner := ⟨nofun, hinner⟩
      simpa using hloosest.tree_eq lhs
    | some parts =>
      obtain ⟨before, loosest, after⟩ := parts
      obtain ⟨rfl, hloosest⟩ := Loosest.of_cut hcut
      have hlink : loosest.power ≤ link.power := by
        cases before with
        | nil => exact houter loosest rfl
        | cons first before =>
          exact Int.le_trans (hloosest.before_le first (by simp)) (houter first rfl)
      -- The loosest operator of the others is the loosest of the whole chain.
      have hwhole : Loosest (link :: (inner ++ before)) loosest after := by
        refine ⟨fun l hl => ?_, hloosest.after_lt⟩
        rcases List.mem_cons.mp hl with rfl | hl
        · exact hlink
        · rcases List.mem_append.mp hl with hl | hl
          · exact Int.le_trans hlink (Int.le_of_lt (hinner l hl))
          · exact hloosest.before_le l hl
      have hbefore : ∀ l ∈ before.head?, l.power ≤ link.power := by
        intro l hl
        exact houter l (by simp [Option.mem_def.mp hl])
      have hshorter : before.length < size := by
        rw [← hsize, List.length_append, List.length_cons]
        omega
      have htree := hwhole.tree_eq lhs
      rw [ih before.length hshorter hbefore rfl] at htree
      rw [hloosest.tree_eq, ← htree]
      simp

end Link

namespace Reading

variable {α β γ : Type}

def map (f : α → β) (r : Reading α) : Reading β := (r.1.map f, r.2)

/-- Goes on where the reading stops, unless it failed. -/
def andThen (r : Reading α) (f : α → Cursor → Reading β) : Reading β :=
  match r with
  | (.ok value, d) => f value d
  | (.error failure, d) => (.error failure, d)

theorem map_id (r : Reading α) : r.map id = r := by
  obtain ⟨_ | _, d⟩ := r <;> rfl

theorem map_map (f : α → β) (g : β → γ) (r : Reading α) :
    (r.map f).map g = r.map fun value => g (f value) := by
  obtain ⟨_ | _, d⟩ := r <;> rfl

theorem map_andThen (f : α → Cursor → Reading β) (g : β → γ) (r : Reading α) :
    (r.andThen f).map g = r.andThen fun value d => (f value d).map g := by
  obtain ⟨_ | _, d⟩ := r <;> rfl

theorem andThen_map (f : α → β) (g : β → Cursor → Reading γ) (r : Reading α) :
    (r.map f).andThen g = r.andThen fun value => g (f value) := by
  obtain ⟨_ | _, d⟩ := r <;> rfl

theorem map_congr {f g : α → β} {r : Reading α}
    (h : ∀ value d, r = (.ok value, d) → f value = g value) : r.map f = r.map g := by
  obtain ⟨_ | value, d⟩ := r
  · rfl
  · simp only [map, Except.map, h value d rfl]

theorem map_eq_ok {f : α → β} {r : Reading α} {value : β} {d : Cursor}
    (h : r.map f = (.ok value, d)) : ∃ v, r = (.ok v, d) ∧ f v = value := by
  obtain ⟨_ | v, e⟩ := r
  · simp [map, Except.map] at h
  · obtain ⟨hvalue, rfl⟩ : f v = value ∧ e = d := by simpa [map, Except.map] using h
    exact ⟨v, rfl, hvalue⟩

/-- The outcome of a parse that has this reading. -/
def outcome : Reading α → Outcome α
  | (.ok value, next) => .done value next
  | (.error failure, stop) => .failed failure stop

/-- Parses one after the other are readings one after the other. -/
theorem bind_eq_outcome {p : Parse β} {g : β → Parse γ} {c : Cursor} {r : Reading α} {k : α → β}
    {f : α → Cursor → Reading γ} (hp : p c = (r.map k).outcome)
    (hg : ∀ value d, r = (.ok value, d) → g (k value) d = (f value d).outcome) :
    (p >>= g) c = (r.andThen f).outcome := by
  obtain ⟨_ | value, d⟩ := r
  · simp only [bind, hp]
    rfl
  · rw [Parse.bind_of_done hp]
    exact hg value d rfl

theorem outcome_result {outcome : Outcome α} (h : outcome ≠ .spent) :
    Reading.outcome (outcome.result h) = outcome := by
  cases outcome with
  | done | failed => rfl
  | spent => exact absurd rfl h

theorem result_eq_of_outcome {outcome : Outcome α} {r : Reading α} (h : outcome ≠ .spent)
    (hr : outcome = r.outcome) : outcome.result h = r := by
  obtain ⟨result, d⟩ := r
  subst hr
  cases result <;> rfl

end Reading

/-- The value and the stop of a parse do not depend on its budget. -/
theorem Outcome.Mirrors.eq {α : Type} {c : Cursor} {q : Parse α} {outcome : Outcome α}
    (h : outcome.Mirrors id id False c q) (hspent : outcome ≠ .spent) (hspent' : q c ≠ .spent) :
    q c = outcome := by
  obtain ⟨w, hmoves, hsecond⟩ := h.echoes hspent hspent'
  obtain ⟨hstop, hechoes⟩ := hsecond _ ⟨False.elim, rfl, w, hmoves, rfl⟩
  have hresult : (q c).result hspent' = outcome.result hspent :=
    Prod.ext (hechoes.fst_eq (by rw [hstop])) hstop
  rw [← Reading.outcome_result hspent', hresult, Reading.outcome_result]

namespace Cursor

open Construct Parse

variable {c d : Cursor} {threshold : Int} {ls : List Link}

/-- An operand as a budget for more tokens reads it. -/
theorem primary_eq_outcome (hle : d.remaining ≤ c.remaining) :
    Construct.primary c.nested c.budget d = d.primary.outcome := by
  have hmirrors := Request.primary.mirrors id d c d
  rw [Request.view_id] at hmirrors
  have hspent : Construct.primary c.nested c.budget d ≠ .spent :=
    (progresses_primary c.progresses_nested c.remaining_lt_budget d (by omega)).ne_spent
  have hspent' : Construct.primary d.nested d.budget d ≠ .spent :=
    (progresses_primary d.progresses_nested d.remaining_lt_budget d d.remaining_lt_budget).ne_spent
  rw [primary, Reading.outcome_result]
  exact hmirrors.eq hspent' hspent

/-- The operand that is due behind the operator. -/
def operand (c : Cursor) (op : Operator) : Reading Node :=
  match c.primary with
  | (.ok (some n), d) => (.ok n, d)
  | (.ok none, d) =>
    (.error (d.misplaced ("expected an operand after `" ++ op.symbol ++ "`")), d)
  | (.error failure, d) => (.error failure, d)

theorem remaining_of_operand {op : Operator} {n : Node} (h : c.operand op = (.ok n, d)) :
    d.remaining < c.remaining := by
  have hprogress :=
    progresses_primary c.progresses_nested c.remaining_lt_budget c c.remaining_lt_budget
  unfold operand at h
  split at h
  · rename_i n' d' hprimary
    obtain ⟨rfl, rfl⟩ : n' = n ∧ d' = d := by simpa using h
    rw [Outcome.result_eq_ok_iff.mp hprimary] at hprogress
    exact hprogress.2 rfl
  · simp at h
  · simp at h

theorem remaining_of_operator_operand {op : Operator} {n : Node}
    (hop : c.current.operator = .ok (some op)) (h : c.advance.operand op = (.ok n, d)) :
    d.remaining < c.remaining := by
  have hkind := Token.kind_of_operator hop
  have hadvance := remaining_advance (c := c) (by simp [hkind])
  have hlt := remaining_of_operand h
  omega

/-- The operators from the threshold on with their operands, from left to right. They end at a
token that is no operator or binds too loosely. -/
def links (threshold : Int) (c : Cursor) : Reading (List Link) :=
  match _ : c.current.operator with
  | .error failure => (.error failure, c)
  | .ok none => (.ok [], c)
  | .ok (some op) =>
    if op.power < threshold then (.ok [], c)
    else
      match _ : c.advance.operand op with
      | (.error failure, d) => (.error failure, d)
      | (.ok n, d) => (links threshold d).map (⟨op, n⟩ :: ·)
termination_by c.remaining
decreasing_by exact remaining_of_operator_operand (by assumption) (by assumption)

theorem links_of_error {failure : Failure} (h : c.current.operator = .error failure) :
    c.links threshold = (.error failure, c) := by
  rw [links]
  split <;> simp_all

theorem links_of_stops (h : c.current.Stops threshold) : c.links threshold = (.ok [], c) := by
  obtain ⟨op?, hop, hstops⟩ := h
  rw [links]
  split
  · simp_all
  · rfl
  · rename_i op hsome
    obtain rfl : some op = op? := by simpa using hsome.symm.trans hop
    rw [if_pos (hstops op rfl)]

theorem links_of_some {op : Operator} (hop : c.current.operator = .ok (some op))
    (hle : threshold ≤ op.power) :
    c.links threshold =
      (c.advance.operand op).andThen fun n d => (d.links threshold).map (⟨op, n⟩ :: ·) := by
  rw [links]
  split
  · simp_all
  · simp_all
  · rename_i op' hsome
    obtain rfl : op' = op := by simpa using hsome.symm.trans hop
    rw [if_neg (by omega)]
    split <;> rename_i hoperand <;> rw [hoperand] <;> rfl

/-- The links between two cursors have the power that was asked for. The first one is made of
the operator at the first cursor, and they end where no token has the power. -/
structure Linked (threshold : Int) (c : Cursor) (ls : List Link) (d : Cursor) : Prop where
  le_power : ∀ l ∈ ls, threshold ≤ l.power
  operator_eq : ∀ l ∈ ls.head?, c.current.operator = .ok (some l.op)
  stops : d.current.Stops threshold
  remaining_le : d.remaining ≤ c.remaining

theorem linked_of_links (h : c.links threshold = (.ok ls, d)) : Linked threshold c ls d := by
  fun_induction links threshold c generalizing ls with
  | case1 => simp at h
  | case2 c hop =>
    obtain ⟨rfl, rfl⟩ : [] = ls ∧ c = d := by simpa using h
    exact ⟨nofun, nofun, ⟨none, hop, nofun⟩, Nat.le_refl _⟩
  | case3 c op hop hlt =>
    obtain ⟨rfl, rfl⟩ : [] = ls ∧ c = d := by simpa using h
    exact ⟨nofun, nofun, ⟨some op, hop, by simpa using hlt⟩, Nat.le_refl _⟩
  | case4 => simp at h
  | case5 c op hop hnot n e hoperand ih =>
    obtain ⟨rest, hrest, rfl⟩ := Reading.map_eq_ok h
    have hlinked := ih hrest
    have hlt := remaining_of_operator_operand hop hoperand
    exact ⟨List.forall_mem_cons.mpr ⟨Int.not_lt.mp hnot, hlinked.le_power⟩, by simpa using hop,
      hlinked.stops, Nat.le_trans hlinked.remaining_le (Nat.le_of_lt hlt)⟩

/-- Links are read up to a tighter threshold first, and then the others. -/
theorem links_split {tighter : Int} (hle : threshold ≤ tighter) (c : Cursor) :
    c.links threshold =
      (c.links tighter).andThen fun inner d => (d.links threshold).map (inner ++ ·) := by
  fun_induction links tighter c with
  | case1 c failure hop => exact links_of_error hop
  | case2 c hop => exact (Reading.map_id _).symm
  | case3 c op hop hlt => exact (Reading.map_id _).symm
  | case4 c op hop hnot failure d hoperand =>
    rw [links_of_some hop (by omega), hoperand]
    rfl
  | case5 c op hop hnot n e hoperand ih =>
    rw [links_of_some hop (by omega), hoperand, Reading.andThen_map]
    simp only [Reading.andThen]
    rw [ih, Reading.map_andThen]
    exact congrArg _ (funext fun inner => funext fun d => Reading.map_map _ _ _)

/-- An operator that is followed by tighter links and then by others takes the tighter ones. -/
theorem tree_of_links {e stop : Cursor} {op : Operator} {inner outer : List Link}
    (hinner : d.links (op.power + 1) = (.ok inner, e))
    (houter : e.links threshold = (.ok outer, stop)) (lhs first : Node) :
    Link.tree lhs (⟨op, first⟩ :: (inner ++ outer)) =
      Link.tree (.binary op lhs (Link.tree first inner)
        (lhs.span.join (Link.tree first inner).span)) outer := by
  have htighter := linked_of_links hinner
  obtain ⟨op?, hnext, hstops⟩ := htighter.stops
  refine Link.tree_cons_append ⟨op, first⟩ lhs (fun l hl => ?_) (fun l hl => ?_)
  · exact Int.lt_of_add_one_le (htighter.le_power l hl)
  · have hop := (linked_of_links houter).operator_eq l hl
    exact Int.le_of_lt_add_one (hstops l.op (by simpa using hnext.symm.trans hop))

end Cursor

namespace Construct

open Parse Steps

variable {operand : Parse (Option Node)} {bound budget : Nat} {c : Cursor}

theorem dueOperand_eq_outcome (h : operand c = c.primary.outcome) (op : Operator) :
    Body.dueOperand operand op c = (c.operand op).outcome := by
  simp only [Body.dueOperand, required, bind, h, Cursor.operand]
  obtain ⟨_ | _ | n, d⟩ := c.primary <;> rfl

/-- Climbing builds the tree of the links that it passes. -/
theorem operators_eq_outcome
    (hoperand : ∀ d : Cursor, d.remaining ≤ bound → operand d = d.primary.outcome)
    (hbound : c.remaining ≤ bound) (hbudget : c.remaining < budget) (threshold : Int)
    (lhs : Node) :
    operators operand budget threshold lhs c =
      ((c.links threshold).map (Link.tree lhs)).outcome := by
  induction budget generalizing c threshold lhs with
  | zero => omega
  | succ budget ih =>
    cases hop : c.current.operator with
    | error failure =>
      rw [operators_of_error hop, Cursor.links_of_error hop]
      rfl
    | ok op? =>
      rcases Token.stops_or_le threshold hop with hstops | ⟨op, rfl, hle⟩
      · rw [operators_of_stops hstops, Cursor.links_of_stops hstops]
        exact congrArg (Outcome.done · c) (Link.tree_nil lhs).symm
      have hkind := Token.kind_of_operator hop
      have hadvance := Cursor.remaining_advance (c := c) (by simp [hkind])
      obtain ⟨budget, rfl⟩ : ∃ b, budget = b + 1 := ⟨budget - 1, by omega⟩
      have hfirst := dueOperand_eq_outcome (hoperand c.advance (by omega)) op
      rw [← Reading.map_id (c.advance.operand op)] at hfirst
      rw [operators_of_some hop hle, rightOperand_eq, bind_assoc, Cursor.links_of_some hop hle,
        Reading.map_andThen]
      -- The first operand is followed by the tighter links, which are its own, and by the others.
      refine Reading.bind_eq_outcome hfirst fun first d hread => ?_
      have hlt := Cursor.remaining_of_operand hread
      have htight : threshold ≤ op.power + 1 := by omega
      rw [Cursor.links_split htight, Reading.map_andThen, Reading.map_andThen]
      refine Reading.bind_eq_outcome (ih (by omega) (by omega) _ _) fun inner e hinner => ?_
      have hle := (Cursor.linked_of_links hinner).remaining_le
      rw [ih (by omega) (by omega), Reading.map_map, Reading.map_map]
      refine congrArg Reading.outcome (Reading.map_congr fun outer stop houter => ?_)
      exact (Cursor.tree_of_links hinner houter lhs first).symm

end Construct

/-- The operators behind an operand, from any threshold on, make the tree that comes out if
they are first read from left to right with their operands and then cut at the last of the
loosest ones, again and again. If that reading fails, so do they, for the same cause and at the
same place. -/
theorem Cursor.operators_eq_tree (c : Cursor) (threshold : Int) (lhs : Node) :
    c.operators threshold lhs = (c.links threshold).map (Link.tree lhs) := by
  refine Reading.result_eq_of_outcome _ ?_
  exact Construct.operators_eq_outcome (fun d hd => primary_eq_outcome hd) (Nat.le_refl _)
    c.remaining_lt_budget threshold lhs

end ExprLang
