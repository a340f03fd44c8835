import ExprLang.Construct
import ExprLang.Proofs.Runs

/-!
Scripts of readings. A script says what a reading does itself, up to where it is done or fails: it
looks at the current token, passes it, and calls for other readings. It is the body of a construct
with calls as its arguments, so each round of a repetition is a script of its own that calls for the
next one, and no script goes on for long but by its calls. What comes of a script depends on how
these are answered; `Ensures` says which calls it makes and what holds if it is done.
-/
namespace ExprLang

open Cursor (Request)

/-- What is called for: what can be asked for at a cursor, a branch of a conditional, or a round of
a list or of a program. -/
inductive Call : Type → Type 1
  | asked {α : Type} (request : Request α) : Call α
  | branch : Call Node
  | arguments : Call (List (String × Node))
  | parameters : Call (List Parameter)
  | units : Call (List Node)

/-- A call and where it is made. -/
structure Activation where
  {Value : Type}
  call : Call Value
  cursor : Cursor

/-- Of all tokens a script sees the current one only, and where the one before it stops. -/
inductive Script (α : Type) : Type 1
  | give (value : α)
  | fail (failure : Failure)
  | look (rest : Token → Position → Script α)
  | advance (rest : Script α)
  | invoke {β : Type} (call : Call β) (rest : β → Script α)

namespace Script

variable {α β : Type}

def bind : Script α → (α → Script β) → Script β
  | .give value, f => f value
  | .fail failure, _ => .fail failure
  | .look rest, f => .look fun token stop => (rest token stop).bind f
  | .advance rest, f => .advance (rest.bind f)
  | .invoke call rest, f => .invoke call fun value => (rest value).bind f

instance : Monad Script where
  pure := .give
  bind := bind

instance : Steps Script where
  current := .look fun token _ => .give token
  advance := .look fun token _ => .advance (.give token)
  lastEnd := .look fun _ stop => .give stop
  fail := .fail

def ask (call : Call α) : Script α := .invoke call .give

def read (request : Request α) : Script α := ask (.asked request)

/-- A nested expression, which the message asks for. -/
def nested (message : String) : Script Node := read (.required message)

/-- The next round of the operators. -/
def operators (threshold : Int) (lhs : Node) : Script Node := read (.operators threshold lhs)

end Script

open Script in
/-- The body of what is called for. It calls for other constructs and for its next round. -/
def Call.script {α : Type} : Call α → Script α
  | .asked .entry => Body.entry (read .expression)
  | .asked (.required message) => Steps.required (read .expression) message
  | .asked .expression => Body.chain (read .primary) operators
  | .asked .primary =>
    Body.primary (read .named) (read .number) (read .parenthesised) (read .definition)
      (read .returning) (read .conditional)
  | .asked .number => Body.number
  | .asked .named => Body.named (ask .arguments)
  | .asked (.operators threshold lhs) => Body.operators (read .primary) operators threshold lhs
  | .asked .parenthesised => Body.parenthesised nested
  | .asked .conditional => Body.conditional nested (ask .branch) (read .conditional)
  | .asked .returning => Body.returning (read .expression)
  | .asked .definition => Body.definition (ask .parameters) nested
  | .asked .parameter => Body.parameter
  | .branch => Body.branch nested
  | .arguments => Body.arguments nested (ask .arguments)
  | .parameters => Body.parameters (read .parameter) (ask .parameters)
  | .units => Body.units (Body.unit (read .definition) (read .entry)) (ask .units)

namespace Parse

variable {α β : Type} {p q : Parse α} {f g : α → Parse β} {c : Cursor}

theorem bind_pure (p : Parse α) : (p >>= pure) = p := by
  funext c
  simp only [bind]
  cases p c <;> rfl

theorem bind_congr (hp : p c = q c)
    (hf : ∀ value next, q c = .done value next → f value next = g value next) :
    (p >>= f) c = (q >>= g) c := by
  simp only [bind, hp]
  cases hq : q c with
  | done value next => exact hf value next hq
  | failed | spent => rfl

end Parse

namespace Script

open Steps hiding advance

variable {α β : Type}

section Runs

variable (answer : ∀ β : Type, Call β → Parse β)

/-- The parse that comes of the script if its calls are answered so. -/
def run : Script α → Parse α
  | .give value => pure value
  | .fail failure => fun c => .failed failure c
  | .look rest => fun c => (rest c.current c.lastEnd).run c
  | .advance rest => fun c => rest.run c.advance
  | .invoke call rest => answer _ call >>= fun value => (rest value).run

/-- The calls that are made at the cursor, up to the first one that fails. -/
def calls : Script α → Cursor → List Activation
  | .give _, _ | .fail _, _ => []
  | .look rest, c => (rest c.current c.lastEnd).calls c
  | .advance rest, c => rest.calls c.advance
  | .invoke call rest, c => ⟨call, c⟩ ::
    match answer _ call c with
    | .done value next => (rest value).calls next
    | .failed _ _ | .spent => []

variable {answer}

@[simp]
theorem run_pure (value : α) : (pure value : Script α).run answer = pure value := rfl

@[simp]
theorem run_bind (s : Script α) (f : α → Script β) :
    (s >>= f).run answer = s.run answer >>= fun value => (f value).run answer := by
  induction s with
  | give value => rfl
  | fail failure => rfl
  | look rest ih =>
    funext c
    exact congrFun (ih c.current c.lastEnd) c
  | advance rest ih =>
    funext c
    exact congrFun ih c.advance
  | invoke call rest ih =>
    have hrest : (fun value => ((rest value).bind f).run answer) =
        fun value => (rest value).run answer >>= fun value => (f value).run answer := funext ih
    change answer _ call >>= (fun value => ((rest value).bind f).run answer) = _
    rw [hrest, ← Parse.bind_assoc]
    rfl

@[simp]
theorem run_map (s : Script α) (f : α → β) : (f <$> s).run answer = f <$> s.run answer :=
  run_bind s fun value => pure (f value)

@[simp]
theorem run_ite {p : Prop} [Decidable p] (s t : Script α) :
    (if p then s else t).run answer = if p then s.run answer else t.run answer :=
  apply_ite _ _ _ _

@[simp]
theorem run_current : (current : Script Token).run answer = current := rfl

@[simp]
theorem run_advance : (Steps.advance : Script Token).run answer = Steps.advance := rfl

@[simp]
theorem run_lastEnd : (lastEnd : Script Position).run answer = lastEnd := rfl

@[simp]
theorem run_refuse (cause : String → Failure.Cause) :
    (refuse cause : Script α).run answer = refuse cause := rfl

@[simp]
theorem run_misplaced (message : String) :
    (misplaced message : Script α).run answer = misplaced message := rfl

@[simp]
theorem run_ifAt (kind : Token.Kind) (yes no : Script α) :
    (ifAt kind yes no).run answer = ifAt kind (yes.run answer) (no.run answer) := by
  simp [ifAt]

@[simp]
theorem run_expect (kind : Token.Kind) : (expect kind : Script Token).run answer = expect kind :=
  run_ifAt kind _ _

@[simp]
theorem run_expectFor (kind : Token.Kind) (message : String) :
    (expectFor kind message : Script Token).run answer = expectFor kind message :=
  run_ifAt kind _ _

@[simp]
theorem run_inspect (f : Token → Except Failure α) :
    (inspect f : Script α).run answer = inspect f := by
  rw [inspect, run_bind]
  refine congrArg (current >>= ·) (funext fun token => ?_)
  cases f token <;> rfl

@[simp]
theorem run_ask (call : Call α) : (ask call).run answer = answer _ call := Parse.bind_pure _

@[simp]
theorem run_read (request : Request α) : (read request).run answer = answer _ (.asked request) :=
  run_ask _

@[simp]
theorem run_nested (message : String) :
    (nested message).run answer = answer _ (.asked (.required message)) :=
  run_read _

@[simp]
theorem run_operators (threshold : Int) (lhs : Node) :
    (operators threshold lhs).run answer = answer _ (.asked (.operators threshold lhs)) :=
  run_read _

@[simp]
theorem run_required (s : Script (Option α)) (message : String) :
    (required s message).run answer = required (s.run answer) message := by
  rw [required, run_bind]
  refine congrArg (s.run answer >>= ·) (funext fun value => ?_)
  cases value <;> rfl

end Runs

section Ensures

variable (answer : ∀ β : Type, Call β → Parse β) (ok : Activation → Prop)

/-- At the cursor the script makes only calls that are allowed, all of them are answered, and this
holds if it is done. -/
def Ensures (post : α → Cursor → Prop) : Script α → Cursor → Prop
  | .give value, c => post value c
  | .fail _, _ => True
  | .look rest, c => (rest c.current c.lastEnd).Ensures post c
  | .advance rest, c => rest.Ensures post c.advance
  | .invoke call rest, c =>
    ok ⟨call, c⟩ ∧ (answer _ call c).Ensures fun value next => (rest value).Ensures post next

variable {answer ok} {c : Cursor} {post : α → Cursor → Prop}

theorem Ensures.imp {s : Script α} {weaker : α → Cursor → Prop} (h : s.Ensures answer ok post c)
    (himp : ∀ value next, post value next → weaker value next) :
    s.Ensures answer ok weaker c := by
  induction s generalizing c with
  | give value => exact himp value c h
  | fail failure => trivial
  | look rest ih => exact ih _ _ h
  | advance rest ih => exact ih h
  | invoke call rest ih => exact ⟨h.1, h.2.imp fun value next hrest => ih value hrest⟩

theorem ensures_bind {s : Script α} {f : α → Script β} {mid : α → Cursor → Prop}
    {post : β → Cursor → Prop} (hs : s.Ensures answer ok mid c)
    (hf : ∀ value next, mid value next → (f value).Ensures answer ok post next) :
    (s >>= f).Ensures answer ok post c := by
  induction s generalizing c with
  | give value => exact hf value c hs
  | fail failure => trivial
  | look rest ih => exact ih _ _ hs
  | advance rest ih => exact ih hs
  | invoke call rest ih => exact ⟨hs.1, hs.2.imp fun value next hrest => ih value hrest⟩

/-- What follows asks for nothing of what comes before it. -/
theorem ensures_bind_any {s : Script α} {f : α → Script β} {post : β → Cursor → Prop}
    (hs : s.Ensures answer ok (fun _ _ => True) c)
    (hf : ∀ value next, (f value).Ensures answer ok post next) :
    (s >>= f).Ensures answer ok post c :=
  ensures_bind hs fun value next _ => hf value next

theorem ensures_map {s : Script α} {f : α → β} {post : β → Cursor → Prop}
    (hs : s.Ensures answer ok (fun value next => post (f value) next) c) :
    (f <$> s).Ensures answer ok post c :=
  ensures_bind hs fun _ _ h => h

theorem ensures_current {f : Token → Script α} (h : (f c.current).Ensures answer ok post c) :
    (current >>= f).Ensures answer ok post c := h

theorem ensures_ifAt {kind : Token.Kind} {yes no : Script α}
    (hyes : c.current.kind = kind → yes.Ensures answer ok post c)
    (hno : c.current.kind ≠ kind → no.Ensures answer ok post c) :
    (ifAt kind yes no).Ensures answer ok post c := by
  refine ensures_current ?_
  split
  · exact hyes (by assumption)
  · exact hno (by assumption)

theorem ensures_inspect (f : Token → Except Failure α) (c : Cursor) :
    (inspect f : Script α).Ensures answer ok
      (fun value next => next = c ∧ f c.current = .ok value) c := by
  refine ensures_current ?_
  cases f c.current with
  | ok value => exact ⟨rfl, rfl⟩
  | error failure => trivial

theorem ensures_advance (h : c.current.kind ≠ .eof) :
    (Steps.advance : Script Token).Ensures answer ok
      (fun _ next => next.remaining < c.remaining) c := by
  have := Cursor.remaining_advance h
  change c.advance.remaining < c.remaining
  omega

theorem ensures_expectFor {kind : Token.Kind} (hkind : kind ≠ .eof) (message : String)
    (c : Cursor) :
    (expectFor kind message : Script Token).Ensures answer ok
      (fun _ next => next.remaining < c.remaining) c :=
  ensures_ifAt (fun h => ensures_advance (h ▸ hkind)) fun _ => trivial

theorem ensures_expect {kind : Token.Kind} (hkind : kind ≠ .eof) (c : Cursor) :
    (expect kind : Script Token).Ensures answer ok
      (fun _ next => next.remaining < c.remaining) c :=
  ensures_ifAt (fun h => ensures_advance (h ▸ hkind)) fun _ => trivial

theorem Ensures.ok_of_mem {s : Script α} (h : s.Ensures answer ok post c) {b : Activation}
    (hb : b ∈ s.calls answer c) : ok b := by
  induction s generalizing c with
  | give value => simp [calls] at hb
  | fail failure => simp [calls] at hb
  | look rest ih => exact ih _ _ h hb
  | advance rest ih => exact ih h hb
  | invoke call rest ih =>
    obtain ⟨hok, hrest⟩ := h
    rw [calls, List.mem_cons] at hb
    rcases hb with rfl | hb
    · exact hok
    · cases hanswer : answer _ call c with
      | done value next =>
        rw [hanswer] at hb hrest
        exact ih value hrest hb
      | failed failure stop => simp [hanswer] at hb
      | spent => simp [hanswer] at hb

/-- Other answers that agree on all calls that are allowed make no difference. -/
theorem Ensures.run_congr {answer' : ∀ β : Type, Call β → Parse β} {s : Script α}
    (h : s.Ensures answer ok post c)
    (hagree : ∀ b, ok b → answer' _ b.call b.cursor = answer _ b.call b.cursor) :
    s.run answer' c = s.run answer c := by
  induction s generalizing c with
  | give value => rfl
  | fail failure => rfl
  | look rest ih => exact ih _ _ h
  | advance rest ih => exact ih h
  | invoke call rest ih =>
    obtain ⟨hok, hrest⟩ := h
    refine Parse.bind_congr (hagree ⟨call, c⟩ hok) fun value next hanswer => ?_
    rw [hanswer] at hrest
    exact ih value hrest

end Ensures

end Script

end ExprLang
