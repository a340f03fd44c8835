/-!
Patterns of characters, which are matched at the front of a text. A repetition goes on as far
as it can, and it gives characters back only where what follows it would not match otherwise.
So there is one match or none. A match may be the empty text, but not that of a pattern which
consumes.
-/
namespace ExprLang.Text

inductive Pattern where
  | text (chars : List Char)
  /-- One character of the sort. -/
  | one (sort : Char → Bool)
  /-- Characters of the sort, as many as there are, perhaps none. -/
  | many (sort : Char → Bool)
  | seq (first second : Pattern)

namespace Pattern

def oneOrMore (sort : Char → Bool) : Pattern := seq (one sort) (many sort)

/-- The text of a repetition and of what follows it. -/
def matchMany (sort : Char → Bool) (next : List Char → Option (List Char)) :
    List Char → Option (List Char)
  | [] => next []
  | c :: cs =>
    (if sort c then (matchMany sort next cs).map (c :: ·) else none) <|> next (c :: cs)

/-- The text that matches the pattern and then what follows it. -/
def matchThen : Pattern → (List Char → Option (List Char)) → List Char → Option (List Char)
  | text chars, next, cs =>
    if chars.isPrefixOf cs then (next (cs.drop chars.length)).map (chars ++ ·) else none
  | one _, _, [] => none
  | one sort, next, c :: cs => if sort c then (next cs).map (c :: ·) else none
  | many sort, next, cs => matchMany sort next cs
  | seq first second, next, cs => first.matchThen (second.matchThen next) cs

/-- The text at the front that matches. -/
def match? (p : Pattern) (cs : List Char) : Option (List Char) := p.matchThen (fun _ => some []) cs

/-- Whether every match has a character at least. -/
def consumes : Pattern → Bool
  | text chars => !chars.isEmpty
  | one _ => true
  | many _ => false
  | seq first second => first.consumes || second.consumes

variable {p : Pattern} {sort : Char → Bool} {next : List Char → Option (List Char)}
  {cs w : List Char}

theorem prefix_of_matchMany (hnext : ∀ ds v, next ds = some v → v <+: ds)
    (h : matchMany sort next cs = some w) : w <+: cs := by
  induction cs generalizing w with
  | nil => exact hnext [] w h
  | cons c cs ih =>
    rw [matchMany, Option.orElse_eq_orElse, Option.orElse_eq_or, Option.or_eq_some_iff] at h
    rcases h with hlonger | ⟨-, hstop⟩
    · split at hlonger
      · obtain ⟨v, hv, rfl⟩ := Option.map_eq_some_iff.mp hlonger
        exact List.cons_prefix_cons.mpr ⟨rfl, ih hv⟩
      · simp at hlonger
    · exact hnext (c :: cs) w hstop

theorem prefix_of_matchThen (hnext : ∀ ds v, next ds = some v → v <+: ds)
    (h : p.matchThen next cs = some w) : w <+: cs := by
  induction p generalizing next cs w with
  | text chars =>
    rw [matchThen] at h
    split at h
    · rename_i hprefix
      obtain ⟨rest, rfl⟩ := List.isPrefixOf_iff_prefix.mp hprefix
      obtain ⟨v, hv, rfl⟩ := Option.map_eq_some_iff.mp h
      rw [List.drop_left] at hv
      exact (List.prefix_append_right_inj chars).mpr (hnext rest v hv)
    · simp at h
  | one sort =>
    cases cs with
    | nil => simp [matchThen] at h
    | cons c cs =>
      rw [matchThen] at h
      split at h
      · obtain ⟨v, hv, rfl⟩ := Option.map_eq_some_iff.mp h
        exact List.cons_prefix_cons.mpr ⟨rfl, hnext cs v hv⟩
      · simp at h
  | many sort => exact prefix_of_matchMany hnext h
  | seq first second ih ih' => exact ih (fun _ _ => ih' hnext) h

/-- What matches stands at the front of the text. -/
theorem prefix_of_match? (h : p.match? cs = some w) : w <+: cs :=
  prefix_of_matchThen (by simp) h

theorem ne_nil_of_matchMany (hnext : ∀ ds v, next ds = some v → v ≠ [])
    (h : matchMany sort next cs = some w) : w ≠ [] := by
  cases cs with
  | nil => exact hnext [] w h
  | cons c cs =>
    rw [matchMany, Option.orElse_eq_orElse, Option.orElse_eq_or, Option.or_eq_some_iff] at h
    rcases h with hlonger | ⟨-, hstop⟩
    · split at hlonger
      · obtain ⟨v, -, rfl⟩ := Option.map_eq_some_iff.mp hlonger
        exact List.cons_ne_nil c v
      · simp at hlonger
    · exact hnext (c :: cs) w hstop

theorem ne_nil_of_matchThen (hp : p.consumes = true ∨ ∀ ds v, next ds = some v → v ≠ [])
    (h : p.matchThen next cs = some w) : w ≠ [] := by
  induction p generalizing next cs w with
  | text chars =>
    rw [matchThen] at h
    split at h
    · obtain ⟨v, hv, rfl⟩ := Option.map_eq_some_iff.mp h
      rcases hp with hchars | hnext
      · have hne : chars ≠ [] := by simpa [consumes] using hchars
        exact List.append_ne_nil_of_left_ne_nil hne v
      · exact List.append_ne_nil_of_right_ne_nil chars (hnext _ v hv)
    · simp at h
  | one sort =>
    cases cs with
    | nil => simp [matchThen] at h
    | cons c cs =>
      rw [matchThen] at h
      split at h
      · obtain ⟨v, -, rfl⟩ := Option.map_eq_some_iff.mp h
        exact List.cons_ne_nil c v
      · simp at h
  | many sort => exact ne_nil_of_matchMany (hp.resolve_left (by simp [consumes])) h
  | seq first second ih ih' =>
    refine ih ?_ h
    rcases hp with hconsumes | hnext
    · rcases Bool.or_eq_true_iff.mp hconsumes with hfirst | hsecond
      · exact .inl hfirst
      · exact .inr fun _ _ => ih' (.inl hsecond)
    · exact .inr fun _ _ => ih' (.inr hnext)

theorem ne_nil_of_match? (hp : p.consumes = true) (h : p.match? cs = some w) : w ≠ [] :=
  ne_nil_of_matchThen (.inl hp) h

/-- A repetition gives nothing back if what follows matches behind it, or nowhere before that. -/
theorem matchMany_eq (cs : List Char) (h : next (cs.dropWhile sort) ≠ none ∨
    ∀ c ds, sort c = true → next (c :: ds) = none) :
    matchMany sort next cs = (next (cs.dropWhile sort)).map (cs.takeWhile sort ++ ·) := by
  induction cs with
  | nil => simp [matchMany]
  | cons c cs ih =>
    by_cases hc : sort c = true
    · rw [List.dropWhile_cons_of_pos hc] at h ⊢
      rw [matchMany, if_pos hc, ih h, List.takeWhile_cons_of_pos hc]
      cases hnext : next (cs.dropWhile sort) with
      | some v => rfl
      | none => simpa using (h.resolve_left (absurd hnext)) c cs hc
    · rw [matchMany, if_neg hc, List.dropWhile_cons_of_neg hc, List.takeWhile_cons_of_neg hc]
      simp

theorem match?_text (chars cs : List Char) :
    (text chars).match? cs = if chars.isPrefixOf cs then some chars else none := by
  simp [match?, matchThen]

theorem matchThen_many (sort : Char → Bool) (cs : List Char) :
    (many sort).matchThen (fun _ => some []) cs = some (cs.takeWhile sort) := by
  rw [matchThen, matchMany_eq cs (.inl (by simp)), Option.map_some, List.append_nil]

theorem matchThen_oneOrMore (cs : List Char) (h : next (cs.dropWhile sort) ≠ none ∨
    ∀ c ds, sort c = true → next (c :: ds) = none) :
    (oneOrMore sort).matchThen next cs =
      if cs.takeWhile sort = [] then none
      else (next (cs.dropWhile sort)).map (cs.takeWhile sort ++ ·) := by
  cases cs with
  | nil => rfl
  | cons c cs =>
    rw [oneOrMore, matchThen, matchThen]
    by_cases hc : sort c = true
    · rw [List.dropWhile_cons_of_pos hc] at h ⊢
      rw [if_pos hc, matchThen, matchMany_eq cs h, List.takeWhile_cons_of_pos hc]
      simp [Function.comp_def]
    · simp [hc]

theorem match?_oneOrMore (sort : Char → Bool) (cs : List Char) :
    (oneOrMore sort).match? cs =
      if cs.takeWhile sort = [] then none else some (cs.takeWhile sort) := by
  rw [match?, matchThen_oneOrMore cs (.inl (by simp)), Option.map_some, List.append_nil]

end Pattern

end ExprLang.Text
