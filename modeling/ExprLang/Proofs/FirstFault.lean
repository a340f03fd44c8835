import ExprLang.Proofs.Language
import ExprLang.Proofs.Lockstep
import Mathlib.Data.List.TakeWhile

/-!
The first fault of a program. A failed reading has stopped at a token, and the tokens before
that one are the beginning of some program: no fault was passed over. If it has not stopped
at an end token, then that token is the fault, since all token lists that are the same up to
it fail there for the same cause.
-/
namespace ExprLang

open Grammar

theorem Grammar.Derives.kind_ne_eof {part : Part} {w : List Token} {next : Token.Kind}
    {value : part.Value} (h : Derives part w next value) : ∀ t ∈ w, t.kind ≠ .eof := by
  induction h with
  | number hkind =>
    rcases hkind with hkind | hkind <;> simp [hkind]
  | reference hkind | returnNothing hkind => simp [hkind]
  | _ => simp_all [or_imp]

namespace Cursor

variable {tokens w : List Token} {file : String} {c d c' d' : Cursor} {failure : Failure}

/-- A list without end tokens that begins a list begins it also without end tokens behind. -/
theorem prefix_of_prefix_append {added : List Token} (hw : ∀ t ∈ w, t.kind ≠ .eof)
    (hadded : ∀ t ∈ added, t.kind = .eof) (h : w <+: tokens ++ added) : w <+: tokens := by
  induction w generalizing tokens with
  | nil => exact List.nil_prefix
  | cons t w ih =>
    cases tokens with
    | nil =>
      have ht : t ∈ added := h.subset (by simp)
      exact absurd (hadded t ht) (hw t (by simp))
    | cons t' tokens =>
      obtain ⟨rfl, hrest⟩ := List.cons_prefix_cons.mp h
      exact List.cons_prefix_cons.mpr ⟨rfl, ih (fun t ht => hw t (by simp [ht])) hrest⟩

theorem Moves.prefix_of_start (h : (start tokens file).Moves w d) : w <+: tokens := by
  obtain ⟨-, added, htokens, hadded⟩ := start_eq tokens file
  refine prefix_of_prefix_append h.kinds hadded ?_
  rw [← htokens, h.tokens]
  exact List.prefix_append _ _

theorem Moves.index_of_start (h : (start tokens file).Moves w d) : d.index = w.length := by
  rw [h.index, index_start, Nat.zero_add]

theorem Moves.take_of_start (h : (start tokens file).Moves w d) : tokens.take d.index = w := by
  rw [h.index_of_start, ← List.prefix_iff_eq_take.mp h.prefix_of_start]

theorem exists_moves_start (file : String) {t : Token} (hw : ∀ t ∈ w, t.kind ≠ .eof)
    (h : w ++ [t] <+: tokens) : ∃ d, (start tokens file).Moves w d ∧ d.current = t := by
  obtain ⟨-, added, htokens, -⟩ := start_eq tokens file
  obtain ⟨rest, hrest⟩ := h
  refine exists_moves hw (htokens.trans (?_ : _ = w ++ t :: (rest ++ added)))
  rw [← hrest, List.append_assoc, List.append_assoc]
  rfl

/-- Where one reading fails, every other one fails that sees the same tokens up to there, for
the same cause of its own token. -/
theorem units_eq_error_of_parallel {move : Position → Position}
    (h : c.units = (.error failure, d)) (hmoves : c.Moves w d)
    (hparallel : Parallel move False c w d c' d') :
    ∃ cause : String → Failure.Cause, failure = ⟨cause d.current.value, d.current.span.start⟩ ∧
      c'.units = (.error ⟨cause d'.current.value, d'.current.span.start⟩, d') := by
  have hmirrors : ((Construct.units c.nested c.budget) c).Mirrors move
      (List.map (Node.relocate move)) False c (Construct.units c'.nested c'.budget) :=
    Construct.mirrors_units (fun _ => Construct.mirrors_expression c.remaining c'.remaining)
      c.budget c'.budget
  rw [units, Outcome.result_eq_error_iff] at h
  rw [h] at hmirrors
  obtain ⟨v, hv, hsecond⟩ := hmirrors
  obtain rfl := hv.word_unique hmoves
  rcases hsecond c' d' hparallel with hspent | ⟨cause, -, hfailure, hfailed⟩
  · exact absurd hspent c'.units_ne_spent
  · exact ⟨cause, hfailure, by rw [units, Outcome.result_eq_error_iff, hfailed]⟩

/-- What was passed before a failure can be completed. -/
theorem viable_of_units_eq_error (h : c.units = (.error failure, d)) :
    ∃ w, c.Moves w d ∧ Viable .units w := by
  have hends := Construct.ends_units (c := c) (Construct.readsChain_expression c.remaining) c.budget
  rw [units, Outcome.result_eq_error_iff] at h
  unfold nested at h
  rwa [h] at hends

end Cursor

namespace Program

variable {tokens tokens' w : List Token} {file file' : String} {failure : Failure} {stop : Cursor}

/-- Tokens can be put behind the list such that all of it is a program. -/
def Completable (tokens : List Token) (file : String) : Prop :=
  ∃ rest nodes, ofTokens (tokens ++ rest) file = .ok nodes

theorem completable_of_viable (h : Viable .units w) : Completable w file := by
  obtain ⟨rest, nodes, hnodes⟩ := h
  have hderives := hnodes .eof (by decide)
  refine ⟨rest, nodes, ofTokens_of_derives ?_⟩
  rw [Token.word_eq_self hderives.kind_ne_eof]
  exact hderives

/-- Lists that are the same up to the token at which one of them fails all fail there. -/
theorem ofTokens_eq_error_of_prefix
    (h : (Cursor.start tokens file).units = (.error failure, stop))
    (hmoves : (Cursor.start tokens file).Moves w stop) (hbegins : w ++ [stop.current] <+: tokens') :
    ofTokens tokens' file' = .error failure := by
  obtain ⟨stop', hmoves', hcurrent⟩ := Cursor.exists_moves_start file' hmoves.kinds hbegins
  have hparallel : Cursor.Parallel id False (Cursor.start tokens file) w stop
      (Cursor.start tokens' file') stop' :=
    ⟨False.elim, by rw [hcurrent], w, hmoves', rfl⟩
  obtain ⟨cause, rfl, hunits⟩ := Cursor.units_eq_error_of_parallel h hmoves hparallel
  rw [ofTokens, hunits, hcurrent]

/-- A failure stops at the first token that no program can contain there. If that is the end
token, the tokens are the beginning of a program. -/
theorem ofTokens_eq_error_at_first_fault (tokens : List Token) (file : String) (failure : Failure)
    (h : ofTokens tokens file = .error failure) :
    ∃ stop : Cursor, (Cursor.start tokens file).units = (.error failure, stop) ∧
      Completable (tokens.take stop.index) file ∧
      (stop.current.kind ≠ .eof → tokens[stop.index]? = some stop.current ∧
        ∀ tokens' file', tokens'.take (stop.index + 1) = tokens.take (stop.index + 1) →
          ofTokens tokens' file' = .error failure) ∧
      (stop.current.kind = .eof ↔ Completable (Token.word tokens) file) := by
  have hunits : (Cursor.start tokens file).units =
      (.error failure, (Cursor.start tokens file).units.2) := Prod.ext h rfl
  generalize (Cursor.start tokens file).units.2 = stop at hunits
  obtain ⟨w, hmoves, hviable⟩ := Cursor.viable_of_units_eq_error hunits
  have hword : Token.word tokens = w ++ stop.word := by
    rw [← Cursor.word_start tokens file, hmoves.word_eq]
  refine ⟨stop, hunits, ?_, fun hkind => ?_, fun heof => ?_, fun hcompletable => ?_⟩
  · rw [hmoves.take_of_start]
    exact completable_of_viable hviable
  · have hnext := hmoves.trans (Cursor.moves_advance hkind)
    have hindex : stop.advance.index = stop.index + 1 := by
      simp [hnext.index_of_start, hmoves.index_of_start]
    have htake := hnext.take_of_start
    rw [hindex] at htake
    constructor
    · obtain ⟨rest, hrest⟩ := hnext.prefix_of_start
      simp [← hrest, hmoves.index_of_start]
    · intro tokens' file' hsame
      refine ofTokens_eq_error_of_prefix hunits hmoves ?_
      rw [← htake, ← hsame]
      exact List.take_prefix _ _
  · rw [hword, Cursor.word_of_eof heof, List.append_nil]
    exact completable_of_viable hviable
  · by_contra hkind
    obtain ⟨rest, nodes, hnodes⟩ := hcompletable
    have hnext := Cursor.moves_advance hkind
    have herror : ofTokens (w ++ stop.word ++ rest) file = .error failure := by
      refine ofTokens_eq_error_of_prefix hunits hmoves ?_
      rw [hnext.word_eq]
      exact ⟨stop.advance.word ++ rest, by simp⟩
    rw [hword, herror] at hnodes
    cases hnodes

/-- A call is at fault where an argument has no colon behind its label. -/
theorem ofTokens_unlabelled_argument :
    let tokens := [.identifier, .openParen, .identifier, .integer, .closeParen].map sample
    let failure : Failure := ⟨.misplaced "x" "expected `:` after the argument label", .null⟩
    ofTokens tokens "" = .error failure ∧ Completable (tokens.take 3) "" ∧
      ∀ tokens' file', tokens'.take 4 = tokens.take 4 →
        ofTokens tokens' file' = .error failure := by
  intro tokens failure
  have h : ofTokens tokens "" = .error failure := rfl
  obtain ⟨stop, hunits, hbefore, hfault, -⟩ := ofTokens_eq_error_at_first_fault tokens "" failure h
  obtain rfl : (Cursor.start tokens "").units.2 = stop := by rw [hunits]
  exact ⟨h, hbefore, (hfault (by decide)).2⟩

end Program

end ExprLang
