import ExprLang.Proofs.Lookahead
import Mathlib.Data.List.Forall2

/-!
What the structure of a program depends on. Of a token only its kind counts and, if tokens of
the kind differ in their text, its text. Where the tokens stand, in which text, and how marks
and words of the language are spelled has no effect but on spans and on what a failure cites:
two token lists that are alike in what counts are read as the same trees up to spans, or both
fail at the same index in the same way.
-/
namespace ExprLang

namespace Token

variable {t t' : Token}

/-- The tokens are of one kind, and of one text if the kind has texts of its own. -/
def Alike (t t' : Token) : Prop :=
  t.kind = t'.kind ∧ (t.kind.hasPayload = true → t.value = t'.value)

/-- What a parse sees of the token if it cannot tell positions apart. -/
def face (t : Token) : Token := t.seen fun _ => .null

theorem Alike.face_eq (h : t.Alike t') : t.face = t'.face := by
  obtain ⟨kind, value, span⟩ := t
  obtain ⟨kind', value', span'⟩ := t'
  obtain ⟨rfl, hvalue⟩ : kind = kind' ∧ (kind.hasPayload = true → value = value') := h
  by_cases hpayload : kind.hasPayload = true
  · rw [hvalue hpayload]
    rfl
  · simp only [face, seen, if_neg hpayload]
    rfl

theorem map_face_eq {tokens tokens' : List Token} (h : List.Forall₂ Alike tokens tokens') :
    tokens.map face = tokens'.map face := by
  induction h with
  | nil => rfl
  | cons halike _ ih => rw [List.map_cons, List.map_cons, halike.face_eq, ih]

end Token

namespace Cursor

variable {c c' d : Cursor} {w tokens tokens' : List Token}

theorem map_face_start (file file' : String) (h : tokens.map Token.face = tokens'.map Token.face) :
    ((start tokens file).current :: (start tokens file).ahead).map Token.face =
      ((start tokens' file').current :: (start tokens' file').ahead).map Token.face := by
  have hlast : tokens.getLast?.map Token.kind = tokens'.getLast?.map Token.kind := by
    have hkinds : tokens.map Token.kind = tokens'.map Token.kind := by
      have hfaces := congrArg (List.map Token.kind) h
      rwa [List.map_map, List.map_map] at hfaces
    rw [← List.getLast?_map, hkinds, List.getLast?_map]
  obtain ⟨p, hstart⟩ := exists_start_eq tokens file
  obtain ⟨p', hstart'⟩ := exists_start_eq tokens' file'
  rw [hstart, hstart', hlast]
  split
  · exact h
  · rw [List.map_append, List.map_append, h]
    rfl

/-- A cursor before tokens that look the same moves in parallel. -/
theorem exists_parallel (hmoves : c.Moves w d)
    (h : (c.current :: c.ahead).map Token.face = (c'.current :: c'.ahead).map Token.face) :
    ∃ d', Parallel (fun _ => .null) False c w d c' d' := by
  rw [hmoves.tokens, List.map_append, List.map_cons] at h
  obtain ⟨w', rest', hsplit, hw', hrest'⟩ := List.map_eq_append_iff.mp h.symm
  obtain ⟨t', ts', rfl, ht', -⟩ := List.map_eq_cons_iff.mp hrest'
  have hkinds : ∀ t ∈ w', t.kind ≠ .eof := by
    intro t ht
    have hface : t.face ∈ w.map Token.face := by
      rw [← hw']
      exact List.mem_map_of_mem ht
    obtain ⟨s, hs, hst⟩ := List.mem_map.mp hface
    rw [← Token.kind_of_seen hst]
    exact hmoves.kinds s hs
  obtain ⟨d', hmoves', rfl⟩ := exists_moves hkinds hsplit
  exact ⟨d', False.elim, ht'.symm, w', hmoves', hw'.symm⟩

/-- Programs of tokens that are alike echo each other, at the same index. -/
theorem echoes_units_of_alike (file file' : String) (h : List.Forall₂ Token.Alike tokens tokens') :
    Reading.Echoes (List.map Node.bare) (start tokens file).units (start tokens' file').units ∧
      (start tokens file).units.2.index = (start tokens' file').units.2.index := by
  have hfaces := map_face_start file file' (Token.map_face_eq h)
  have hstart : (start tokens file).index = (start tokens' file').index := by
    rw [index_start, index_start]
  generalize start tokens file = c at hfaces hstart ⊢
  generalize start tokens' file' = c' at hfaces hstart ⊢
  have hmirrors : (Construct.units c.nested c.budget c).Mirrors (fun _ => .null)
      (List.map Node.bare) False c (Construct.units c'.nested c'.budget) :=
    Construct.mirrors_units
      (fun _ => Construct.mirrors_expression c.remaining c'.remaining) c.budget c'.budget
  obtain ⟨w, hmoves, hsecond⟩ := hmirrors.echoes c.units_ne_spent c'.units_ne_spent
  obtain ⟨d', hparallel⟩ := exists_parallel hmoves hfaces
  obtain ⟨hstop, hechoes⟩ := hsecond d' hparallel
  refine ⟨hechoes, ?_⟩
  obtain ⟨-, -, w', hmoves', hw⟩ := hparallel
  have hlength : w.length = w'.length := by simpa using congrArg List.length hw
  have hindex : c.units.2.index = c.index + w.length := hmoves.index
  rw [hindex, hstart, hlength, ← hmoves'.index, ← hstop]
  rfl

end Cursor

namespace Program

/-- Tokens that are alike are read as the same trees up to spans, or they fail at the same index
for a cause of the same name; it is the same cause if it cites the same text. -/
theorem ofTokens_of_alike (tokens tokens' : List Token) (file file' : String)
    (h : List.Forall₂ Token.Alike tokens tokens') :
    (∃ nodes nodes', ofTokens tokens file = .ok nodes ∧ ofTokens tokens' file' = .ok nodes' ∧
        nodes.map Node.bare = nodes'.map Node.bare) ∨
      ∃ failure failure' stop stop',
        (Cursor.start tokens file).units = (.error failure, stop) ∧
          (Cursor.start tokens' file').units = (.error failure', stop') ∧
          stop.index = stop'.index ∧ failure.cause.name = failure'.cause.name ∧
          (stop.current.value = stop'.current.value → failure.cause = failure'.cause) := by
  obtain ⟨hechoes, hindex⟩ := Cursor.echoes_units_of_alike file file' h
  unfold ofTokens
  generalize (Cursor.start tokens file).units = r at hechoes hindex ⊢
  generalize (Cursor.start tokens' file').units = r' at hechoes hindex ⊢
  obtain ⟨result, stop⟩ := r
  obtain ⟨result', stop'⟩ := r'
  cases result with
  | ok nodes =>
    cases result' with
    | ok nodes' => exact .inl ⟨nodes, nodes', rfl, rfl, hechoes⟩
    | error failure' => exact hechoes.elim
  | error failure =>
    cases result' with
    | ok nodes' => exact hechoes.elim
    | error failure' =>
      obtain ⟨cause, hfaults, rfl, rfl⟩ := hechoes
      refine .inr ⟨_, _, stop, stop', rfl, rfl, hindex, ?_, ?_⟩
      · exact hfaults.name_eq stop.current.value stop'.current.value
      · intro hvalue
        exact congrArg cause hvalue

/-- A conditional is read alike from tokens that stand elsewhere and spell its marks otherwise. -/
theorem ofTokens_conditional_respelled :
    let tok (kind : Token.Kind) (value : String) (start : Nat) : Token :=
      ⟨kind, value, .between start (start + 1) "f"⟩
    let tokens := [tok .ifWord "if" 0, tok .identifier "x" 3, tok .openCurly "\x7b" 5,
      tok .identifier "y" 7, tok .closeCurly "\x7d" 9]
    let tokens' := [tok .ifWord "when" 8, tok .identifier "x" 6, tok .openCurly "begin" 0,
      tok .identifier "y" 0, tok .closeCurly "end" 2]
    List.Forall₂ Token.Alike tokens tokens' ∧
      ∃ nodes nodes', ofTokens tokens "f" = .ok nodes ∧ ofTokens tokens' "g" = .ok nodes' ∧
        nodes.map Node.bare = nodes'.map Node.bare := by
  intro tok tokens tokens'
  have halike : List.Forall₂ Token.Alike tokens tokens' := by
    simp [tokens, tokens', tok, Token.Alike, Token.Kind.hasPayload]
  refine ⟨halike, ?_⟩
  rcases ofTokens_of_alike tokens tokens' "f" "g" halike with hnodes | ⟨failure, _, stop, _, h, _⟩
  · exact hnodes
  · have hok : (Cursor.start tokens "f").units.1.isOk = true := rfl
    rw [h] at hok
    cases hok

end Program

end ExprLang
