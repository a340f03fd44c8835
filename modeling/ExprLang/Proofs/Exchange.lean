import ExprLang.Proofs.FirstFault
import ExprLang.Proofs.Lookahead
import ExprLang.Proofs.Operands
import ExprLang.Proofs.Replacement

/-!
Exchanging an operator that is not known. Where a reading fails at one, it is seen by putting a
known operator in its place whether any operator may stand there. A reading that found it out of
place finds the other one so too, hence no word of the grammar goes on like that. One that
refused it as an operator would go past the other one, hence some word does.
-/
namespace ExprLang

open Grammar
open Operator (Tier)

namespace Cursor

variable {c d : Cursor} {ts w : List Token} {t : Token}

/-- The cursor before other tokens, with an end token behind them. -/
def onto (c : Cursor) : List Token → Cursor
  | [] => ⟨c.file, c.passed, sample .eof, [], rfl⟩
  | t :: ts => ⟨c.file, c.passed, t, ts ++ [sample .eof], by simp [List.getLast_cons]⟩

theorem tokens_onto (c : Cursor) (ts : List Token) :
    (c.onto ts).current :: (c.onto ts).ahead = ts ++ [sample .eof] := by
  cases ts <;> rfl

theorem word_onto (c : Cursor) (hts : ∀ t ∈ ts, t.kind ≠ .eof) : (c.onto ts).word = ts := by
  rw [word, tokens_onto, Token.word_concat hts rfl]

theorem remaining_onto_eq {t' : Token} (c : Cursor) (rest : List Token)
    (hw : ∀ t ∈ w, t.kind ≠ .eof) (ht : t.kind ≠ .eof) (ht' : t'.kind ≠ .eof) :
    (c.onto (w ++ t :: rest)).remaining = (c.onto (w ++ t' :: rest)).remaining := by
  simp only [remaining, word, tokens_onto, List.append_assoc, Token.word_append hw]
  simp [Token.word, ht, ht']

theorem follows_onto (c : Cursor) (ts ts' : List Token) {d' : Cursor}
    (h : (c.onto ts').Moves w d') : (c.onto ts).Follows (c.onto ts') w d' := by
  refine ⟨?_, ?_, h⟩ <;> cases ts <;> cases ts' <;> rfl

theorem exists_moves_onto (c : Cursor) (rest : List Token) (hw : ∀ t ∈ w, t.kind ≠ .eof) :
    ∃ d, (c.onto (w ++ t :: rest)).Moves w d ∧ d.current = t := by
  have htokens : (c.onto (w ++ t :: rest)).current :: (c.onto (w ++ t :: rest)).ahead =
      w ++ t :: (rest ++ [sample .eof]) := by
    rw [tokens_onto]
    simp
  exact exists_moves hw htokens

/-- Of two words from the same cursor on the first begins with the second, or the second goes
on behind it. -/
theorem Moves.split_or_prefix {e : Cursor} {w' : List Token} (h : c.Moves w d)
    (h' : c.Moves w' e) :
    (∃ u, w = w' ++ u ∧ e.Moves u d) ∨ w ++ [d.current] <+: w' := by
  have htokens := h.tokens.symm.trans h'.tokens
  rcases List.append_eq_append_iff.mp htokens with ⟨u, hu, hrest⟩ | ⟨u, hu, hrest⟩
  · cases u with
    | nil =>
      rw [List.append_nil] at hu
      subst hu
      exact .inl ⟨[], by simp, h.unique h' ▸ .refl d⟩
    | cons t u =>
      obtain ⟨rfl, -⟩ := List.cons.inj hrest
      exact .inr ⟨u, by simp [hu]⟩
  · subst hu
    obtain ⟨e', he', hd⟩ := h.split
    exact .inl ⟨u, rfl, he'.unique h' ▸ hd⟩

/-- What is read of a part ends before any token that would not be viable behind it. -/
theorem Moves.split_of_not_viable {part : Part} {e : Cursor} {w' : List Token} (h : c.Moves w d)
    (hnot : ¬ Viable part (w ++ [d.current])) (h' : c.Moves w' e)
    (hreads : ∃ u, c.Moves u e ∧ Viable part u) : ∃ u, w = w' ++ u ∧ e.Moves u d := by
  obtain ⟨u, hu, hviable⟩ := hreads
  obtain rfl := hu.word_unique h'
  rcases h.split_or_prefix hu with hsplit | ⟨v, rfl⟩
  · exact hsplit
  · exact absurd hviable.of_append hnot

theorem Request.mirrors_id {α : Type} (request : Request α) (c c' : Cursor) :
    (request.parse c c).Mirrors id id False c (request.parse c') := by
  have hmirrors := request.mirrors id c c' c
  rwa [request.view_id] at hmirrors

end Cursor

/-- A parse for each number of remaining tokens. It reads words of the part, and all of them. -/
structure Reader (part : Part) (α : Type) where
  parse : Nat → Parse α
  ne_spent : ∀ c : Cursor, parse c.remaining c ≠ .spent
  repeats : ∀ count, (parse count).Repeats
  mirrors : ∀ c c' : Cursor,
    (parse c.remaining c).Mirrors id id False c (parse c'.remaining)
  reads : ∀ c : Cursor, (parse c.remaining c).Ends (fun _ d => ∃ w, c.Moves w d ∧ Viable part w)
    fun d => ∃ w, c.Moves w d ∧ Viable part w
  accepts : ∀ (c : Cursor) (value : part.Value), Derives part c.word .eof value →
    ∃ result d, parse c.remaining c = .done result d

namespace Token

variable {t : Token}

theorem not_stops_of_unknown (hkind : t.kind = .operator)
    (hsymbol : Operator.ofSymbol? t.value = none) (threshold : Int) : ¬ t.Stops threshold := by
  rintro ⟨op?, hop, -⟩
  simp [operator, hkind, hsymbol] at hop

theorem Faults.kind_eq {cause : String → Failure.Cause} (h : t.Faults cause) (value : String) :
    (cause value).kind = .syntactic ∨ (cause value).kind = .unimplemented := by
  cases h with
  | unexpected | misplaced | malformedNumber => exact .inl rfl
  | notOperator => exact .inr rfl

end Token

namespace Reader

variable {part : Part} {α : Type} {c d : Cursor} {failure : Failure} {w : List Token} {t : Token}

theorem exists_faults (reader : Reader part α)
    (h : reader.parse c.remaining c = .failed failure d) :
    ∃ cause, d.current.Faults cause ∧ failure = ⟨cause d.current.value, d.current.span.start⟩ := by
  obtain ⟨w, cause, -, hfaults, hfailure⟩ := (reader.mirrors c c).exists_faults h
  exact ⟨cause, hfaults, hfailure⟩

/-- What stands behind the token that is failed at may be exchanged. -/
theorem failed_onto (reader : Reader part α) (h : reader.parse c.remaining c = .failed failure d)
    (hw : c.Moves w d) (rest : List Token) :
    ∃ d', (c.onto (w ++ d.current :: rest)).Moves w d' ∧ d'.current = d.current ∧
      reader.parse (c.onto (w ++ d.current :: rest)).remaining (c.onto (w ++ d.current :: rest)) =
        .failed failure d' := by
  obtain ⟨d', hw', hcurrent⟩ := c.exists_moves_onto (t := d.current) rest hw.kinds
  have hmirrors := reader.mirrors c (c.onto (w ++ d.current :: rest))
  rw [h] at hmirrors
  obtain ⟨u, hu, hsecond⟩ := hmirrors
  obtain rfl := hu.word_unique hw
  obtain ⟨cause, -, hfailure, hfailed⟩ :=
    (hsecond _ d' ⟨False.elim, by rw [hcurrent], u, hw', rfl⟩).resolve_left (reader.ne_spent _)
  refine ⟨d', hw', hcurrent, ?_⟩
  rw [hfailed, hfailure, hcurrent]

/-- An operator that is out of place stands where no operator may stand. -/
theorem not_viable_of_syntactic (reader : Reader part α)
    (h : reader.parse c.remaining c = .failed failure d) (hw : c.Moves w d)
    (hstops : ¬ d.current.Stops Tier.multiplicative.power)
    (hkind : failure.cause.kind = .syntactic) (ht : t.kind = .operator) :
    ¬ Viable part (w ++ [t]) := by
  rintro ⟨rest, value, hrest⟩
  have hword : Derives part (w ++ t :: rest) .eof value := by simpa using hrest .eof (by decide)
  have hkind' : d.current.kind ≠ .eof := by simp [Token.kind_of_not_stops hstops]
  obtain ⟨e, he, hcurrent, hfailed⟩ := reader.failed_onto h hw rest
  obtain ⟨e', he', hcurrent'⟩ := c.exists_moves_onto (t := t) rest hw.kinds
  have hrepeats := reader.repeats (c.onto (w ++ d.current :: rest)).remaining
    (c.onto (w ++ d.current :: rest))
  rw [hfailed] at hrepeats
  obtain ⟨u, hu, hsecond⟩ := hrepeats
  obtain rfl := hu.word_unique he
  obtain ⟨failure', hfailed', -⟩ := hsecond _ e' (c.follows_onto _ _ he')
    (.inr ⟨by rwa [hcurrent], by rwa [hcurrent']⟩) (.inr hkind)
  obtain ⟨result, d', hdone⟩ := reader.accepts (c.onto (u ++ t :: rest)) value
    (by rwa [c.word_onto hword.kind_ne_eof])
  rw [c.remaining_onto_eq rest hw.kinds hkind' (ht ▸ nofun : t.kind ≠ .eof)] at hfailed'
  exact nomatch hfailed'.symm.trans hdone

/-- A known operator of the tightest tier. -/
def times : Token := ⟨.operator, Operator.mul.symbol, ⟨.null, .null⟩⟩

theorem operator_times : times.operator = .ok (some .mul) :=
  Token.operator_eq_some_iff.mpr ⟨rfl, rfl⟩

theorem not_stops_times : ¬ times.Stops Tier.multiplicative.power := by
  rintro ⟨op?, hop, hstops⟩
  rw [operator_times] at hop
  obtain rfl := Except.ok.inj hop
  exact absurd (hstops .mul rfl) (by decide)

theorem kind_of_times (reader : Reader part α)
    (h : reader.parse c.remaining c = .failed failure d) (hd : d.current = times) :
    failure.cause.kind = .syntactic := by
  obtain ⟨cause, hfaults, rfl⟩ := reader.exists_faults h
  cases hfaults with
  | unexpected | misplaced | malformedNumber => rfl
  | notOperator hkind hsymbol =>
    rw [hd] at hsymbol
    exact absurd hsymbol (by decide)

/-- An operator that is refused as one stands where a known operator may stand. -/
theorem viable_of_unimplemented (reader : Reader part α)
    (h : reader.parse c.remaining c = .failed failure d) (hw : c.Moves w d)
    (ht : d.current.kind = .operator) (hkind : failure.cause.kind = .unimplemented) :
    Viable part (w ++ [times]) := by
  obtain ⟨e, he, hcurrent, hfailed⟩ := reader.failed_onto h hw []
  obtain ⟨e', he', hcurrent'⟩ := c.exists_moves_onto (t := times) [] hw.kinds
  rw [c.remaining_onto_eq [] hw.kinds (by simp [ht]) (by decide : times.kind ≠ .eof)] at hfailed
  have hreplaced : e'.current.ReplacedBy e.current := by
    rw [hcurrent', hcurrent]
    exact .inr ⟨not_stops_times, ht⟩
  have hreads := reader.reads (c.onto (w ++ [times]))
  have hrepeats := reader.repeats (c.onto (w ++ [times])).remaining (c.onto (w ++ [times]))
  -- Had the run before the known operator ended there or earlier, so had the other one.
  by_contra hnot
  rw [← hcurrent'] at hnot
  cases hrun : reader.parse (c.onto (w ++ [times])).remaining (c.onto (w ++ [times])) with
  | spent => exact absurd hrun (reader.ne_spent _)
  | done value d' =>
    rw [hrun] at hreads hrepeats
    obtain ⟨u, hu, hsecond⟩ := hrepeats
    obtain ⟨v, rfl, hv⟩ := he'.split_of_not_viable hnot hu hreads
    obtain ⟨e'', hu'', hv''⟩ := he.split
    have hdone := hsecond _ e'' (c.follows_onto _ _ hu'') (hv.replacedBy hv'' hreplaced)
    exact nomatch hfailed.symm.trans hdone
  | failed failure' d' =>
    have hsyntactic : d'.current = times → failure'.cause.kind = .syntactic :=
      reader.kind_of_times hrun
    rw [hrun] at hreads hrepeats
    obtain ⟨u, hu, hsecond⟩ := hrepeats
    obtain ⟨v, rfl, hv⟩ := he'.split_of_not_viable hnot hu hreads
    obtain ⟨e'', hu'', hv''⟩ := he.split
    have hends : e''.current = d'.current ∨ failure'.cause.kind = .syntactic := by
      cases v with
      | nil =>
        rw [← hv.eq_of_nil] at hsyntactic
        exact .inr (hsyntactic hcurrent')
      | cons t v => exact .inl (hv''.current_of_cons.trans hv.current_of_cons.symm)
    obtain ⟨failure'', hfailed', hkind'⟩ :=
      hsecond _ e'' (c.follows_onto _ _ hu'') (hv.replacedBy hv'' hreplaced) hends
    obtain ⟨rfl, rfl⟩ := Outcome.failed.inj (hfailed'.symm.trans hfailed)
    obtain rfl := hv''.word_unique (.refl e'')
    rw [← hv.eq_of_nil] at hsyntactic
    simp [hsyntactic hcurrent', hkind] at hkind'

/-- A reading refuses an unknown operator as one exactly if it stands behind an operand. -/
theorem unimplemented_iff (reader : Reader part α)
    (h : reader.parse c.remaining c = .failed failure d) (hw : c.Moves w d)
    (ht : d.current.kind = .operator) (hsymbol : Operator.ofSymbol? d.current.value = none) :
    failure.cause.kind = .unimplemented ↔ AfterOperand part w := by
  constructor
  · intro hkind
    exact (reader.viable_of_unimplemented h hw ht hkind).afterOperand rfl
  · rintro ⟨-, t, hkind, hviable⟩
    obtain ⟨cause, hfaults, hfailure⟩ := reader.exists_faults h
    have hstops := Token.not_stops_of_unknown ht hsymbol Tier.multiplicative.power
    rw [hfailure]
    refine (hfaults.kind_eq _).resolve_left fun hsyntactic => ?_
    exact reader.not_viable_of_syntactic h hw hstops (by rw [hfailure, hsyntactic]) hkind hviable

end Reader

namespace Construct

open Parse

variable {c : Cursor}

theorem primary_ne_spent (c : Cursor) : primary c.nested c.budget c ≠ .spent :=
  (progresses_primary c.progresses_nested c.remaining_lt_budget c c.remaining_lt_budget).ne_spent

theorem chain_ne_spent (c : Cursor) : chain c.nested c.budget c ≠ .spent :=
  (progresses_chain c.progresses_nested c.remaining_lt_budget c c.remaining_lt_budget).ne_spent

theorem viable_of_readsChain {outcome : Outcome (Option Node)} {tier : Option Tier}
    (h : outcome.ReadsChain tier c) :
    outcome.Ends (fun _ d => ∃ w, c.Moves w d ∧ Viable (.chain tier) w)
      fun d => ∃ w, c.Moves w d ∧ Viable (.chain tier) w := by
  refine h.imp ?_ fun _ h => h
  rintro (_ | n) d h
  · exact ⟨[], h.1 ▸ .refl c, .chain_nil⟩
  · obtain ⟨⟨w, hw, hn⟩, -⟩ := h
    exact ⟨w, hw, hn.viable⟩

theorem viable_of_units (c : Cursor) :
    (units c.nested c.budget c).Ends (fun _ d => ∃ w, c.Moves w d ∧ Viable .units w)
      fun d => ∃ w, c.Moves w d ∧ Viable .units w := by
  refine (ends_units (readsChain_expression _) _).imp ?_ fun _ h => h
  rintro ns d ⟨⟨w, hw, hns⟩, -⟩
  exact ⟨w, hw, hns.viable⟩

theorem primary_of_word {n : Node} (h : Derives .operand c.word .eof n) :
    ∃ d, primary c.nested c.budget c = .done (some n) d := by
  obtain ⟨d, hd, heof⟩ := c.exists_moves_word
  rw [← heof] at h
  exact ⟨d, primary_of_derives (accepts_expression _) (Nat.le_refl _) c.remaining_lt_budget hd h
    (by simp [heof])⟩

theorem chain_of_word {n : Node} (h : Derives .expression c.word .eof n) :
    ∃ d, chain c.nested c.budget c = .done (some n) d := by
  obtain ⟨d, hd, heof⟩ := c.exists_moves_word
  rw [← heof] at h
  exact ⟨d, accepts_chain (accepts_expression _) c.remaining_lt_budget (Nat.lt_succ_self _) hd h
    (by simp [heof]) (by simp [heof])⟩

theorem units_of_word {ns : List Node} (h : Derives .units c.word .eof ns) :
    ∃ d, units c.nested c.budget c = .done ns d := by
  obtain ⟨d, hd, heof⟩ := c.exists_moves_word
  rw [← heof] at h
  exact ⟨d, units_of_derives (accepts_expression _) (Nat.le_refl _) c.remaining_lt_budget hd h
    heof⟩

def operandReader : Reader .operand (Option Node) where
  parse count := primary (expression count) (count + 1)
  ne_spent := primary_ne_spent
  repeats count := repeats_primary (repeats_expression count) (count + 1)
  mirrors := Cursor.Request.primary.mirrors_id
  reads _ := viable_of_readsChain (readsChain_primary (readsChain_expression _) _)
  accepts _ _ h := ⟨_, primary_of_word h⟩

def expressionReader : Reader .expression (Option Node) where
  parse count := chain (expression count) (count + 1)
  ne_spent := chain_ne_spent
  repeats count := repeats_chain (repeats_expression count) (count + 1)
  mirrors := Cursor.Request.expression.mirrors_id
  reads _ := viable_of_readsChain (readsChain_chain (readsChain_expression _) _)
  accepts _ _ h := ⟨_, chain_of_word h⟩

def unitsReader : Reader .units (List Node) where
  parse count := units (expression count) (count + 1)
  ne_spent := Cursor.units_ne_spent
  repeats count := repeats_units (repeats_expression count) (count + 1)
  mirrors := Cursor.mirrors_units
  reads := viable_of_units
  accepts _ _ h := ⟨_, units_of_word h⟩

end Construct

end ExprLang
