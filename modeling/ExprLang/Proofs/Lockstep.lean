import ExprLang.Proofs.Reads
import ExprLang.Proofs.Relocation

/-!
Two runs in lockstep. A parse sees of a token its kind, its text if the kind has one of its
own, and its span; and it sees no token but those that it passes and the one that it stops at.
So wherever a second cursor stands before tokens that look the same up to there, the same
parse ends there in the same way, whatever stands before and behind these tokens and whatever
the two budgets are, unless the second budget is spent. How spans look is left open: they
are compared once their positions are moved.
-/
namespace ExprLang

variable {move : Position → Position}

namespace Token

variable {t t' : Token}

/-- What a parse sees of the token, with its positions moved. -/
def seen (move : Position → Position) (t : Token) : Token :=
  ⟨t.kind, if t.kind.hasPayload then t.value else "", t.span.relocate move⟩

theorem kind_of_seen (h : t.seen move = t'.seen move) : t.kind = t'.kind := by
  have hkind : (t.seen move).kind = (t'.seen move).kind := congrArg kind h
  exact hkind

theorem span_of_seen (h : t.seen move = t'.seen move) :
    t.span.relocate move = t'.span.relocate move := by
  have hspan : (t.seen move).span = (t'.seen move).span := congrArg span h
  exact hspan

theorem value_of_seen (h : t.seen move = t'.seen move) (hkind : t.kind.hasPayload = true) :
    t.value = t'.value := by
  have hvalue : (t.seen move).value = (t'.seen move).value := congrArg value h
  simpa [seen, hkind, ← kind_of_seen h] using hvalue

/-- Why a token that is no operator of the language is refused as one. -/
def notOperator (value : String) : Failure.Cause := .unsupported ("operator `" ++ value ++ "`")

/-- Why a parse can fail at the token, each time as a cause that cites the text of a token. -/
inductive Faults (t : Token) : (String → Failure.Cause) → Prop
  | unexpected : Faults t .unexpected
  | misplaced (message : String) : Faults t fun value => .misplaced value message
  | malformedNumber (hkind : t.kind = .integer ∨ t.kind = .float)
      (hread : Binary64.read? t.value = none) : Faults t .malformedNumber
  | notOperator (hkind : t.kind = .operator) (hsymbol : Operator.ofSymbol? t.value = none) :
      Faults t notOperator

/-- The text that is cited does not decide what went wrong. -/
theorem Faults.name_eq {cause : String → Failure.Cause} (h : t.Faults cause)
    (value value' : String) : (cause value).name = (cause value').name := by
  cases h <;> rfl

theorem operator_of_seen (h : t.seen move = t'.seen move) :
    (∃ op?, t.operator = .ok op? ∧ t'.operator = .ok op?) ∨
      t.Faults notOperator ∧ t.operator = .error ⟨notOperator t.value, t.span.start⟩ ∧
        t'.operator = .error ⟨notOperator t'.value, t'.span.start⟩ := by
  have hkind := kind_of_seen h
  unfold operator
  by_cases hop : t.kind = .operator
  · rw [if_pos hop, if_pos (hkind ▸ hop), ← value_of_seen h (by simp [hop, Kind.hasPayload])]
    cases hsymbol : Operator.ofSymbol? t.value with
    | some op => exact .inl ⟨some op, rfl, rfl⟩
    | none => exact .inr ⟨.notOperator hop hsymbol, rfl, rfl⟩
  · rw [if_neg hop, if_neg (hkind ▸ hop)]
    exact .inl ⟨none, rfl, rfl⟩

theorem precedence_of_seen (h : t.seen move = t'.seen move) :
    (∃ power, t.precedence = .ok power ∧ t'.precedence = .ok power) ∨
      t.Faults notOperator ∧ t.precedence = .error ⟨notOperator t.value, t.span.start⟩ ∧
        t'.precedence = .error ⟨notOperator t'.value, t'.span.start⟩ := by
  rcases operator_of_seen h with ⟨op?, hop, hop'⟩ | ⟨hfaults, herror, herror'⟩
  · exact .inl ⟨_, precedence_of_operator hop, precedence_of_operator hop'⟩
  · rw [precedence, precedence, herror, herror']
    exact .inr ⟨hfaults, rfl, rfl⟩

end Token

namespace Cursor

variable {tied : Prop} {c d e c' d' e' : Cursor} {u v w : List Token}

/-- The second cursor moves over a word that looks like the one of the first, up to a token
that looks the same. If they are tied, so do the ends of the tokens before them. -/
def Parallel (move : Position → Position) (tied : Prop) (c : Cursor) (w : List Token)
    (d c' d' : Cursor) : Prop :=
  (tied → move c.lastEnd = move c'.lastEnd) ∧ d.current.seen move = d'.current.seen move ∧
    ∃ w', c'.Moves w' d' ∧ w.map (Token.seen move) = w'.map (Token.seen move)

theorem Parallel.current (h : Parallel move tied c w d c' d') (hmoves : c.Moves w d) :
    c.current.seen move = c'.current.seen move := by
  obtain ⟨-, hcurrent, w', hmoves', hw⟩ := h
  cases w with
  | nil =>
    obtain rfl : w' = [] := by simpa using hw.symm
    rwa [← hmoves.eq_of_nil, ← hmoves'.eq_of_nil]
  | cons t w =>
    cases w' with
    | nil => simp at hw
    | cons t' w' =>
      rw [hmoves.current_of_cons, hmoves'.current_of_cons]
      exact (List.cons.inj hw).1

theorem Parallel.untie (h : Parallel move tied c w d c' d') : Parallel move False c w d c' d' :=
  ⟨False.elim, h.2⟩

theorem Parallel.eq_of_nil (h : Parallel move tied c [] d c' d') : d' = c' := by
  obtain ⟨-, -, w', hmoves', hw⟩ := h
  obtain rfl : w' = [] := by simpa using hw.symm
  exact hmoves'.eq_of_nil

theorem lastEnd_of_seen {u' : List Token} (hu : c.Moves u d) (hu' : c'.Moves u' d')
    (h : u.map (Token.seen move) = u'.map (Token.seen move)) (hne : u ≠ []) :
    move d.lastEnd = move d'.lastEnd := by
  have hne' : u' ≠ [] := by
    rintro rfl
    exact hne (by simpa using h)
  have hlast : (u.getLast hne).seen move = (u'.getLast hne').seen move := by
    have := congrArg List.getLast? h
    simpa [List.getLast?_map, List.getLast?_eq_some_getLast hne,
      List.getLast?_eq_some_getLast hne'] using this
  rw [hu.lastEnd hne, hu'.lastEnd hne']
  exact congrArg Span.stop (Token.span_of_seen hlast)

/-- Runs in parallel can be cut where the first one is cut, and are tied behind the first
token. -/
theorem Parallel.split (h : Parallel move tied c (u ++ v) e c' e') (hu : c.Moves u d)
    (hv : d.Moves v e) :
    ∃ d', Parallel move tied c u d c' d' ∧ Parallel move (tied ∨ u ≠ []) d v e d' e' := by
  obtain ⟨htied, hcurrent, w', hmoves', hw⟩ := h
  obtain ⟨u', v', rfl, hu', hv'⟩ := List.map_eq_append_iff.mp (hw.symm.trans List.map_append)
  obtain ⟨d', mu', mv'⟩ := hmoves'.split
  have hbehind : Parallel move False d v e d' e' := ⟨False.elim, hcurrent, v', mv', hv'.symm⟩
  have hd := hbehind.current hv
  refine ⟨d', ⟨htied, hd, u', mu', hu'.symm⟩, fun hor => ?_, hcurrent, v', mv', hv'.symm⟩
  by_cases hne : u = []
  · subst hne
    obtain rfl : u' = [] := by simpa using hu'
    rw [hu.eq_of_nil, mu'.eq_of_nil]
    exact htied (by simpa using hor)
  · exact lastEnd_of_seen hu mu' hu'.symm hne

end Cursor

section

variable {α β γ δ : Type}

/-- The outcome is repeated by the second parse at every cursor that is parallel to the first:
it is done with a value of the same view, or fails for the same cause of its own token. -/
def Outcome.Mirrors (move : Position → Position) (view : α → γ) (tied : Prop) (c : Cursor)
    (q : Parse α) : Outcome α → Prop
  | .done value d => ∃ w, c.Moves w d ∧ ∀ c' d', Cursor.Parallel move tied c w d c' d' →
      q c' = .spent ∨ ∃ value', q c' = .done value' d' ∧ view value = view value'
  | .failed failure d => ∃ w, c.Moves w d ∧ ∀ c' d', Cursor.Parallel move tied c w d c' d' →
      q c' = .spent ∨ ∃ cause, d.current.Faults cause ∧
        failure = ⟨cause d.current.value, d.current.span.start⟩ ∧
          q c' = .failed ⟨cause d'.current.value, d'.current.span.start⟩ d'
  | .spent => True

/-- A parse that mirrors itself fails at the token that it stops at. -/
theorem Outcome.Mirrors.exists_faults {view : α → γ} {p : Parse α} {c d : Cursor}
    {failure : Failure} (h : (p c).Mirrors id view False c p) (hfailed : p c = .failed failure d) :
    ∃ w cause, c.Moves w d ∧ d.current.Faults cause ∧
      failure = ⟨cause d.current.value, d.current.span.start⟩ := by
  rw [hfailed] at h
  obtain ⟨w, hw, hself⟩ := h
  rcases hself c d ⟨False.elim, rfl, w, hw, rfl⟩ with hspent | ⟨cause, hfaults, hfailure, -⟩
  · simp [hfailed] at hspent
  · exact ⟨w, cause, hw, hfaults, hfailure⟩

namespace Parse

open Outcome Steps

variable {view : α → γ} {view' : β → δ} {tied : Prop} {c : Cursor} {p q : Parse α}
  {f g : α → Parse β}

/-- The second parse may be another one that does the same at all parallel cursors. -/
theorem mirrors_imp {q' : Parse α} {tied' : Prop} (h : (p c).Mirrors move view tied c q)
    (himp : ∀ w d c' d', c.Moves w d → Cursor.Parallel move tied' c w d c' d' →
      Cursor.Parallel move tied c w d c' d' ∧ (q' c' = .spent ∨ q' c' = q c')) :
    (p c).Mirrors move view tied' c q' := by
  cases hpc : p c with
  | spent => trivial
  | done value d =>
    rw [hpc] at h
    obtain ⟨w, hmoves, hsecond⟩ := h
    refine ⟨w, hmoves, fun c' d' hparallel => ?_⟩
    obtain ⟨hparallel, hq | hq⟩ := himp w d c' d' hmoves hparallel
    · exact .inl hq
    · rw [hq]
      exact hsecond c' d' hparallel
  | failed failure d =>
    rw [hpc] at h
    obtain ⟨w, hmoves, hsecond⟩ := h
    refine ⟨w, hmoves, fun c' d' hparallel => ?_⟩
    obtain ⟨hparallel, hq | hq⟩ := himp w d c' d' hmoves hparallel
    · exact .inl hq
    · rw [hq]
      exact hsecond c' d' hparallel

theorem mirrors_tie (h : (p c).Mirrors move view False c q) : (p c).Mirrors move view tied c q :=
  mirrors_imp h fun _ _ _ _ _ hparallel => ⟨hparallel.untie, .inr rfl⟩

/-- A second parse with a budget only has to be looked at where the budget is not spent. -/
theorem mirrors_budget {q : Nat → Parse α} (hzero : q 0 = spent)
    (h : ∀ budget, (p c).Mirrors move view tied c (q (budget + 1))) (budget : Nat) :
    (p c).Mirrors move view tied c (q budget) := by
  cases budget with
  | zero =>
    refine mirrors_imp (h 0) fun _ _ c' _ _ hparallel => ⟨hparallel, .inl ?_⟩
    exact congrFun hzero c'
  | succ budget => exact h budget

/-- Two runs of a sequence stay in lockstep if each step does. They are tied behind the first
step if they were so before or if it passes a token. -/
theorem mirrors_bind_tie (tied' : Prop) (hp : (p c).Mirrors move view tied c q)
    (hpass : ∀ value d w, p c = .done value d → c.Moves w d → tied' → tied ∨ w ≠ [])
    (hf : ∀ value value' d, p c = .done value d → view value = view value' →
      (f value d).Mirrors move view' tied' d (g value')) :
    ((p >>= f) c).Mirrors move view' tied c (q >>= g) := by
  change Outcome.Mirrors move view' tied c (q >>= g) (match p c with
    | .done value next => f value next
    | .failed failure stop => .failed failure stop
    | .spent => .spent)
  cases hpc : p c with
  | spent => trivial
  | failed failure d =>
    rw [hpc] at hp
    obtain ⟨w, hmoves, hsecond⟩ := hp
    refine ⟨w, hmoves, fun c' d' hparallel => ?_⟩
    rcases hsecond c' d' hparallel with hq | ⟨cause, hfaults, hfailure, hq⟩
    · exact .inl (by simp only [bind, hq])
    · exact .inr ⟨cause, hfaults, hfailure, by simp only [bind, hq]⟩
  | done value d =>
    rw [hpc] at hp
    obtain ⟨u, hu, hsecond⟩ := hp
    -- The second run has come to where the first one goes on.
    have hstep : ∀ {v : List Token} {e c' e' : Cursor}, d.Moves v e →
        Cursor.Parallel move tied c (u ++ v) e c' e' →
        (q >>= g) c' = .spent ∨ ∃ value' d', view value = view value' ∧
          (q >>= g) c' = g value' d' ∧ Cursor.Parallel move tied' d v e d' e' := by
      intro v e c' e' hv hparallel
      obtain ⟨d', hfirst, hrest⟩ := hparallel.split hu hv
      rcases hsecond c' d' hfirst with hq | ⟨value', hq, hview⟩
      · exact .inl (by simp only [bind, hq])
      · exact .inr ⟨value', d', hview, by simp only [bind, hq],
          fun htied => hrest.1 (hpass value d u hpc hu htied), hrest.2⟩
    simp only
    have hself := hf value value d hpc rfl
    cases hfd : f value d with
    | spent => trivial
    | done result e =>
      rw [hfd] at hself
      obtain ⟨v, hv, -⟩ := hself
      refine ⟨u ++ v, hu.trans hv, fun c' e' hparallel => ?_⟩
      rcases hstep hv hparallel with hq | ⟨value', d', hview, hq, hrest⟩
      · exact .inl hq
      · have hother := hf value value' d hpc hview
        rw [hfd] at hother
        obtain ⟨v', hv', hother⟩ := hother
        obtain rfl := hv.word_unique hv'
        rw [hq]
        exact hother d' e' hrest
    | failed failure e =>
      rw [hfd] at hself
      obtain ⟨v, hv, -⟩ := hself
      refine ⟨u ++ v, hu.trans hv, fun c' e' hparallel => ?_⟩
      rcases hstep hv hparallel with hq | ⟨value', d', hview, hq, hrest⟩
      · exact .inl hq
      · have hother := hf value value' d hpc hview
        rw [hfd] at hother
        obtain ⟨v', hv', hother⟩ := hother
        obtain rfl := hv.word_unique hv'
        rw [hq]
        exact hother d' e' hrest

theorem mirrors_bind (hp : (p c).Mirrors move view tied c q)
    (hf : ∀ value value' d, p c = .done value d → view value = view value' →
      (f value d).Mirrors move view' tied d (g value')) :
    ((p >>= f) c).Mirrors move view' tied c (q >>= g) :=
  mirrors_bind_tie tied hp (fun _ _ _ _ _ htied => .inl htied) hf

theorem mirrors_pure {value value' : α} (h : view value = view value') :
    ((pure value : Parse α) c).Mirrors move view tied c (pure value') := by
  refine ⟨[], .refl c, fun c' d' hparallel => .inr ⟨value', ?_, h⟩⟩
  rw [hparallel.eq_of_nil]
  rfl

theorem mirrors_map {h : α → β} (hp : (p c).Mirrors move view tied c q)
    (hview : ∀ value value', view value = view value' → view' (h value) = view' (h value')) :
    ((h <$> p) c).Mirrors move view' tied c (h <$> q) :=
  mirrors_bind hp fun value value' _ _ hvalue => mirrors_pure (hview value value' hvalue)

theorem mirrors_some (hp : (p c).Mirrors move view tied c q) :
    ((some <$> p) c).Mirrors move (Option.map view) tied c (some <$> q) :=
  mirrors_map hp fun _ _ hview => congrArg some hview

theorem mirrors_refuse {cause : String → Failure.Cause} (h : c.current.Faults cause) :
    ((refuse cause : Parse α) c).Mirrors move view tied c (refuse cause) := by
  refine ⟨[], .refl c, fun c' d' hparallel => .inr ⟨cause, h, rfl, ?_⟩⟩
  rw [hparallel.eq_of_nil]
  rfl

theorem mirrors_ifAt {kind : Token.Kind} {yes no yes' no' : Parse α}
    (hyes : c.current.kind = kind → (yes c).Mirrors move view tied c yes')
    (hno : c.current.kind ≠ kind → (no c).Mirrors move view tied c no') :
    (ifAt kind yes no c).Mirrors move view tied c (ifAt kind yes' no') := by
  by_cases hkind : c.current.kind = kind
  · rw [ifAt_pos hkind]
    refine mirrors_imp (hyes hkind) fun _ _ _ _ hmoves h' => ⟨h', .inr (ifAt_pos ?_)⟩
    rw [← Token.kind_of_seen (h'.current hmoves), hkind]
  · rw [ifAt_neg hkind]
    refine mirrors_imp (hno hkind) fun _ _ _ _ hmoves h' => ⟨h', .inr (ifAt_neg ?_)⟩
    rwa [← Token.kind_of_seen (h'.current hmoves)]

theorem ifAt_bind {kind : Token.Kind} {yes no : Parse α} :
    (ifAt kind yes no >>= f) = ifAt kind (yes >>= f) (no >>= f) := by
  funext c
  by_cases h : c.current.kind = kind
  · rw [ifAt_pos h, bind_congr_left (ifAt_pos h)]
  · rw [ifAt_neg h, bind_congr_left (ifAt_neg h)]

theorem refuse_bind {cause : String → Failure.Cause} : (refuse cause >>= f) = refuse cause := rfl

theorem mirrors_current :
    ((current : Parse Token) c).Mirrors move (Token.seen move) tied c current := by
  refine ⟨[], .refl c, fun c' d' hparallel => .inr ⟨c'.current, ?_, ?_⟩⟩
  · rw [hparallel.eq_of_nil]
    rfl
  · exact hparallel.current (.refl c)

theorem mirrors_lastEnd : ((lastEnd : Parse Position) c).Mirrors move move True c lastEnd := by
  refine ⟨[], .refl c, fun c' d' hparallel => .inr ⟨c'.lastEnd, ?_, hparallel.1 trivial⟩⟩
  rw [hparallel.eq_of_nil]
  rfl

theorem mirrors_advance (hkind : c.current.kind ≠ .eof) :
    ((advance : Parse Token) c).Mirrors move (Token.seen move) False c advance := by
  refine ⟨[c.current], Cursor.moves_advance hkind, fun c' d' hparallel => .inr ?_⟩
  have hcurrent := hparallel.current (Cursor.moves_advance hkind)
  obtain ⟨-, -, w', hmoves', hw⟩ := hparallel
  obtain ⟨t', rfl⟩ : ∃ t', w' = [t'] := by
    rcases w' with _ | ⟨t', _ | _⟩ <;> simp_all
  refine ⟨c'.current, ?_, hcurrent⟩
  rw [advance_apply, hmoves'.advance_of_cons.eq_of_nil]

theorem mirrors_advance_bind {f g : Token → Parse β} (hkind : c.current.kind ≠ .eof)
    (hf : ∀ t' d, c.current.seen move = t'.seen move →
      (f c.current d).Mirrors move view' True d (g t')) :
    ((advance >>= f) c).Mirrors move view' tied c (advance >>= g) := by
  refine mirrors_bind_tie True (mirrors_tie (mirrors_advance hkind)) ?_ ?_
  · rintro t d w ⟨⟩ hmoves -
    rw [hmoves.word_unique (Cursor.moves_advance hkind)]
    exact .inr (List.cons_ne_nil _ _)
  · rintro t t' d ⟨⟩ hseen
    exact hf t' c.advance hseen

/-- This is for both ways to expect a token. -/
theorem mirrors_token_bind {kind : Token.Kind} {cause : String → Failure.Cause}
    {f g : Token → Parse β} (hkind : kind ≠ .eof) (hcause : c.current.Faults cause)
    (hf : ∀ t t' d, t.kind = kind → t.seen move = t'.seen move →
      (f t d).Mirrors move view' True d (g t')) :
    ((ifAt kind advance (refuse cause) >>= f) c).Mirrors move view' tied c
      (ifAt kind advance (refuse cause) >>= g) := by
  rw [ifAt_bind, ifAt_bind, refuse_bind, refuse_bind]
  refine mirrors_ifAt (fun h => ?_) fun _ => mirrors_refuse hcause
  exact mirrors_advance_bind (h ▸ hkind) fun t' d hseen => hf c.current t' d h hseen

theorem mirrors_expect_bind {kind : Token.Kind} {f g : Token → Parse β} (hkind : kind ≠ .eof)
    (hf : ∀ t t' d, t.kind = kind → t.seen move = t'.seen move →
      (f t d).Mirrors move view' True d (g t')) :
    ((expect kind >>= f) c).Mirrors move view' tied c (expect kind >>= g) :=
  mirrors_token_bind hkind .unexpected hf

theorem mirrors_expectFor_bind {kind : Token.Kind} {message : String} {f g : Token → Parse β}
    (hkind : kind ≠ .eof)
    (hf : ∀ t t' d, t.kind = kind → t.seen move = t'.seen move →
      (f t d).Mirrors move view' True d (g t')) :
    ((expectFor kind message >>= f) c).Mirrors move view' tied c (expectFor kind message >>= g) :=
  mirrors_token_bind hkind (.misplaced message) hf

theorem mirrors_required {p q : Parse (Option α)}
    (hp : (p c).Mirrors move (Option.map view) tied c q) (message : String) :
    (required p message c).Mirrors move view tied c (required q message) := by
  refine mirrors_bind hp ?_
  rintro (_ | value) (_ | value') d hpc hview
  · exact mirrors_refuse (.misplaced message)
  · simp at hview
  · simp at hview
  · exact mirrors_pure (by simpa using hview)

theorem eq_of_inspect {h : Token → Except Failure α} {value : α} {d : Cursor}
    (hdone : (inspect h : Parse α) c = .done value d) : h c.current = .ok value ∧ c = d := by
  rw [inspect_apply] at hdone
  cases hc : h c.current with
  | ok value' => simpa [hc] using hdone
  | error failure => simp [hc] at hdone

theorem mirrors_inspect {h : Token → Except Failure α} (cause : String → Failure.Cause)
    (hseen : ∀ t t', t.seen move = t'.seen move →
      (∃ value, h t = .ok value ∧ h t' = .ok value) ∨
        t.Faults cause ∧ h t = .error ⟨cause t.value, t.span.start⟩ ∧
          h t' = .error ⟨cause t'.value, t'.span.start⟩) :
    ((inspect h : Parse α) c).Mirrors move id tied c (inspect h) := by
  have hstep : ∀ {c' d'}, Cursor.Parallel move tied c [] c c' d' → d' = c' ∧
      c.current.seen move = c'.current.seen move :=
    fun hparallel => ⟨hparallel.eq_of_nil, hparallel.current (.refl c)⟩
  rcases hseen c.current c.current rfl with ⟨value, hc, -⟩ | ⟨hfaults, hc, -⟩
  · simp only [inspect_apply, hc]
    refine ⟨[], .refl c, fun c' d' hparallel => .inr ⟨value, ?_, rfl⟩⟩
    obtain ⟨rfl, hcurrent⟩ := hstep hparallel
    rcases hseen _ _ hcurrent with ⟨value', hc', hsame⟩ | ⟨-, hc', -⟩
    · obtain rfl : value = value' := by simpa [hc] using hc'
      simp only [inspect_apply, hsame]
    · simp [hc] at hc'
  · simp only [inspect_apply, hc]
    refine ⟨[], .refl c, fun c' d' hparallel => .inr ⟨cause, hfaults, rfl, ?_⟩⟩
    obtain ⟨rfl, hcurrent⟩ := hstep hparallel
    rcases hseen _ _ hcurrent with ⟨value', hc', -⟩ | ⟨-, -, hsame⟩
    · simp [hc] at hc'
    · simp only [inspect_apply, hsame]

theorem mirrors_operator :
    ((inspect Token.operator : Parse (Option Operator)) c).Mirrors move id tied c
      (inspect Token.operator) :=
  mirrors_inspect Token.notOperator fun _ _ h => Token.operator_of_seen h

theorem mirrors_precedence :
    ((inspect Token.precedence : Parse Int) c).Mirrors move id tied c (inspect Token.precedence) :=
  mirrors_inspect Token.notOperator fun _ _ h => Token.precedence_of_seen h

end Parse

end

namespace Construct

open Parse Steps

variable {inner inner' : Parse (Option Node)} {c : Cursor} {tied : Prop}

theorem mirrors_number : (number c).Mirrors move (Node.relocate move) tied c number := by
  refine mirrors_bind mirrors_current ?_
  rintro t t' d ⟨⟩ hseen
  have hkinds := Token.kind_of_seen hseen
  by_cases hkind : c.current.kind = .integer ∨ c.current.kind = .float
  · have hpayload : c.current.kind.hasPayload = true := by
      rcases hkind with h | h <;> simp [h, Token.Kind.hasPayload]
    have heof : c.current.kind ≠ .eof := by
      rcases hkind with h | h <;> simp [h]
    simp only [← hkinds, if_pos hkind, ← Token.value_of_seen hseen hpayload]
    cases hread : Binary64.read? c.current.value with
    | none => exact mirrors_refuse (.malformedNumber hkind hread)
    | some x =>
      refine mirrors_advance_bind heof fun _ _ _ => mirrors_pure ?_
      simp [Node.relocate, Token.span_of_seen hseen]
  · simp only [← hkinds, if_neg hkind]
    exact mirrors_refuse (.misplaced _)

section

variable (hinner : ∀ c, (inner c).Mirrors move (Option.map (Node.relocate move)) False c inner')

include hinner

theorem mirrors_arguments (budget budget' : Nat) :
    (arguments inner budget c).Mirrors move (Node.relocateArguments move) tied c
      (arguments inner' budget') := by
  induction budget generalizing c tied budget' with
  | zero => trivial
  | succ budget ih =>
    refine mirrors_budget rfl (fun budget' => ?_) budget'
    refine mirrors_ifAt (fun _ => mirrors_pure rfl) fun _ => ?_
    refine mirrors_expectFor_bind (by decide) fun label label' _ hlabel hseen => ?_
    refine mirrors_expectFor_bind (by decide) fun _ _ _ _ _ => ?_
    refine mirrors_bind (mirrors_required (mirrors_tie (hinner _)) _) fun n n' d _ hn => ?_
    refine mirrors_bind (?_ : Outcome.Mirrors move (Node.relocateArguments move) _ _ _ _)
      fun rest rest' _ _ hrest => ?_
    · refine mirrors_ifAt (fun hcomma => ?_) fun _ => mirrors_pure rfl
      exact mirrors_advance_bind (by simp [hcomma]) fun _ _ _ => ih budget'
    · refine mirrors_pure ?_
      have hvalue := Token.value_of_seen hseen (by simp [hlabel, Token.Kind.hasPayload])
      simp [Node.relocateArguments, hvalue, hn, hrest]

theorem mirrors_named (budget budget' : Nat) :
    (named inner budget c).Mirrors move (Node.relocate move) tied c (named inner' budget') := by
  refine mirrors_expectFor_bind (by decide) fun name name' _ hname hseen => ?_
  have hvalue := Token.value_of_seen hseen (by simp [hname, Token.Kind.hasPayload])
  have hspan := Token.span_of_seen hseen
  refine mirrors_ifAt (fun hopen => ?_) fun _ => mirrors_pure ?_
  · refine mirrors_advance_bind (by simp [hopen]) fun _ _ _ => ?_
    refine mirrors_bind (mirrors_arguments hinner budget budget') fun _ _ _ _ hvalues => ?_
    refine mirrors_expectFor_bind (by decide) fun close close' _ _ hclose => mirrors_pure ?_
    simp [Node.relocate, hvalue, hvalues, Span.relocate_join, hspan, Token.span_of_seen hclose]
  · simp [Node.relocate, hvalue, hspan]

theorem mirrors_parenthesised :
    (parenthesised inner c).Mirrors move (Node.relocate move) tied c (parenthesised inner') := by
  refine mirrors_expect_bind (by decide) fun _ _ _ _ _ => ?_
  refine mirrors_bind (mirrors_required (mirrors_tie (hinner _)) _) fun n n' _ _ hn => ?_
  exact mirrors_expectFor_bind (by decide) fun _ _ _ _ _ => mirrors_pure hn

theorem mirrors_branch :
    (branch inner c).Mirrors move (Node.relocate move) tied c (branch inner') := by
  refine mirrors_expectFor_bind (by decide) fun _ _ _ _ _ => ?_
  refine mirrors_bind (mirrors_required (mirrors_tie (hinner _)) _) fun n n' _ _ hn => ?_
  exact mirrors_expectFor_bind (by decide) fun _ _ _ _ _ => mirrors_pure hn

theorem mirrors_conditional (budget budget' : Nat) :
    (conditional inner budget c).Mirrors move (Node.relocate move) tied c
      (conditional inner' budget') := by
  induction budget generalizing c tied budget' with
  | zero => trivial
  | succ budget ih =>
    refine mirrors_budget rfl (fun budget' => ?_) budget'
    refine mirrors_expect_bind (by decide) fun opening opening' _ _ hopening => ?_
    refine mirrors_bind (mirrors_required (mirrors_tie (hinner _)) _)
      fun condition condition' _ _ hcondition => ?_
    refine mirrors_bind (mirrors_branch hinner) fun consequence consequence' _ _ hconsequence => ?_
    refine mirrors_bind (?_ : Outcome.Mirrors move (Option.map (Node.relocate move)) _ _ _ _)
      fun alternative alternative' _ _ halternative => ?_
    · refine mirrors_ifAt (fun helse => ?_) fun _ => mirrors_pure rfl
      refine mirrors_advance_bind (by simp [helse]) fun _ _ _ => ?_
      exact mirrors_some (mirrors_ifAt (fun _ => ih budget') fun _ => mirrors_branch hinner)
    · refine mirrors_bind mirrors_lastEnd fun stop stop' _ _ hstop => mirrors_pure ?_
      have hstart := congrArg Span.start (Token.span_of_seen hopening)
      simp only [Node.relocate_conditional, hcondition, hconsequence, halternative]
      simp_all [Span.relocate]

end

theorem mirrors_parameter : (parameter c).Mirrors move id tied c parameter := by
  refine mirrors_expectFor_bind (by decide) fun name name' _ hname hseen => ?_
  refine mirrors_expectFor_bind (by decide) fun _ _ _ _ _ => ?_
  refine mirrors_expectFor_bind (by decide) fun _ _ _ _ _ => mirrors_pure ?_
  simp [Token.value_of_seen hseen (by simp [hname, Token.Kind.hasPayload])]

theorem mirrors_parameters (budget budget' : Nat) :
    (parameters budget c).Mirrors move id tied c (parameters budget') := by
  induction budget generalizing c tied budget' with
  | zero => trivial
  | succ budget ih =>
    refine mirrors_budget rfl (fun budget' => ?_) budget'
    refine mirrors_ifAt (fun _ => mirrors_pure rfl) fun _ => ?_
    refine mirrors_bind mirrors_parameter fun p p' _ _ hp => ?_
    refine mirrors_bind (?_ : Outcome.Mirrors move id _ _ _ _) fun rest rest' _ _ hrest => ?_
    · refine mirrors_ifAt (fun hcomma => ?_) fun _ => mirrors_pure rfl
      exact mirrors_advance_bind (by simp [hcomma]) fun _ _ _ => ih budget'
    · obtain rfl : p = p' := hp
      obtain rfl : rest = rest' := hrest
      exact mirrors_pure rfl

section

variable (hinner : ∀ c, (inner c).Mirrors move (Option.map (Node.relocate move)) False c inner')

include hinner

theorem mirrors_definition (budget budget' : Nat) :
    (definition inner budget c).Mirrors move (Node.relocate move) tied c
      (definition inner' budget') := by
  refine mirrors_expectFor_bind (by decide) fun opening opening' _ _ hopening => ?_
  refine mirrors_expectFor_bind (by decide) fun name name' _ hname hnames => ?_
  refine mirrors_expectFor_bind (by decide) fun _ _ _ _ _ => ?_
  refine mirrors_bind (mirrors_parameters budget budget') fun ps ps' _ _ hps => ?_
  refine mirrors_expectFor_bind (by decide) fun _ _ _ _ _ => ?_
  refine mirrors_expectFor_bind (by decide) fun _ _ _ _ _ => ?_
  refine mirrors_expectFor_bind (by decide) fun type type' _ htype htypes => ?_
  refine mirrors_expectFor_bind (by decide) fun _ _ _ _ _ => ?_
  refine mirrors_bind (mirrors_required (mirrors_tie (hinner _)) _) fun body body' _ _ hbody => ?_
  refine mirrors_expectFor_bind (by decide) fun close close' _ _ hclose => mirrors_pure ?_
  have hname := Token.value_of_seen hnames (by simp [hname, Token.Kind.hasPayload])
  have htype := Token.value_of_seen htypes (by simp [htype, Token.Kind.hasPayload])
  obtain rfl : ps = ps' := hps
  simp [Node.relocate, hname, htype, hbody, Span.relocate_join, Token.span_of_seen hopening,
    Token.span_of_seen hclose]

theorem mirrors_returning :
    (returning inner c).Mirrors move (Node.relocate move) tied c (returning inner') := by
  refine mirrors_expect_bind (by decide) fun opening opening' _ _ hopening => ?_
  refine mirrors_bind mirrors_current fun next next' _ _ hnext => ?_
  refine mirrors_bind (?_ : Outcome.Mirrors move (Option.map (Node.relocate move)) _ _ _ _)
    fun body body' _ _ hbody => ?_
  · rw [← Token.kind_of_seen hnext]
    by_cases hstarts : next.kind.startsExpression = true
    · simp only [if_pos hstarts]
      exact mirrors_tie (hinner _)
    · simp only [if_neg hstarts]
      exact mirrors_pure rfl
  · refine mirrors_bind mirrors_lastEnd fun stop stop' _ _ hstop => mirrors_pure ?_
    have hstart := congrArg Span.start (Token.span_of_seen hopening)
    simp only [Node.relocate_returned, hbody]
    simp_all [Span.relocate]

theorem mirrors_primary (budget budget' : Nat) :
    (primary inner budget c).Mirrors move (Option.map (Node.relocate move)) tied c
      (primary inner' budget') := by
  refine mirrors_bind mirrors_current fun t t' _ _ hseen => ?_
  simp only [← Token.kind_of_seen hseen]
  cases t.kind with
  | identifier => exact mirrors_some (mirrors_named hinner budget budget')
  | integer | float => exact mirrors_some mirrors_number
  | openParen => exact mirrors_some (mirrors_parenthesised hinner)
  | funcWord => exact mirrors_some (mirrors_definition hinner budget budget')
  | returnWord => exact mirrors_some (mirrors_returning hinner)
  | ifWord => exact mirrors_some (mirrors_conditional hinner budget budget')
  | eof => exact mirrors_pure rfl
  | _ => exact mirrors_refuse .unexpected

end

section Operators

variable {operand operand' : Parse (Option Node)}
  (hoperand : ∀ c, (operand c).Mirrors move (Option.map (Node.relocate move)) False c operand')

include hoperand

theorem mirrors_rightOperand {budget budget' : Nat} (op : Operator)
    (hoperators : ∀ {c : Cursor} (threshold : Int) {lhs lhs' : Node},
      lhs.relocate move = lhs'.relocate move →
      (operators operand budget threshold lhs c).Mirrors move (Node.relocate move) tied c
        (operators operand' budget' threshold lhs')) :
    (rightOperand operand budget op c).Mirrors move (Node.relocate move) tied c
      (rightOperand operand' budget' op) := by
  refine mirrors_bind (mirrors_required (mirrors_tie (hoperand _)) _)
    fun first first' _ _ hfirst => ?_
  refine mirrors_bind mirrors_precedence ?_
  rintro next _ _ _ rfl
  by_cases htighter : op.power < next
  · simp only [id, if_pos htighter]
    exact hoperators _ hfirst
  · simp only [id, if_neg htighter]
    exact mirrors_pure hfirst

theorem mirrors_operators (budget budget' : Nat) (threshold : Int) {lhs lhs' : Node}
    (hlhs : lhs.relocate move = lhs'.relocate move) :
    (operators operand budget threshold lhs c).Mirrors move (Node.relocate move) tied c
      (operators operand' budget' threshold lhs') := by
  induction budget generalizing c tied budget' threshold lhs lhs' with
  | zero => trivial
  | succ budget ih =>
    refine mirrors_budget (q := (operators operand' · threshold lhs')) rfl ?_ budget'
    intro budget'
    refine mirrors_bind mirrors_operator ?_
    rintro (_ | op) _ d hd rfl
    · exact mirrors_pure hlhs
    obtain ⟨hop, rfl⟩ := eq_of_inspect hd
    by_cases hlt : op.power < threshold
    · simp only [id, if_pos hlt]
      exact mirrors_pure hlhs
    simp only [id, if_neg hlt]
    have heof : c.current.kind ≠ .eof := by simp [Token.kind_of_operator hop]
    refine mirrors_advance_bind heof fun _ _ _ => ?_
    refine mirrors_bind (mirrors_rightOperand hoperand op (ih budget')) fun rhs rhs' _ _ hrhs => ?_
    refine ih budget' threshold ?_
    have hspan := congrArg Node.span hlhs
    have hspan' := congrArg Node.span hrhs
    simp only [Node.span_relocate] at hspan hspan'
    simp [Node.relocate, hlhs, hrhs, Span.relocate_join, hspan, hspan']

end Operators

section

variable (hinner : ∀ c, (inner c).Mirrors move (Option.map (Node.relocate move)) False c inner')

include hinner

theorem mirrors_chain (budget budget' : Nat) :
    (chain inner budget c).Mirrors move (Option.map (Node.relocate move)) tied c
      (chain inner' budget') := by
  refine mirrors_bind (mirrors_primary hinner budget budget') ?_
  rintro (_ | lhs) (_ | lhs') _ _ hlhs
  · exact mirrors_pure rfl
  · simp at hlhs
  · simp at hlhs
  · exact mirrors_some (mirrors_operators (fun _ => mirrors_primary hinner budget budget')
      budget budget' 0 (by simpa using hlhs))

theorem mirrors_entry (budget budget' : Nat) :
    (entry inner budget c).Mirrors move (Option.map (Node.relocate move)) tied c
      (entry inner' budget') := by
  refine mirrors_bind (mirrors_chain hinner budget budget') fun body body' _ _ hbody => ?_
  refine mirrors_pure ?_
  have hentry := congrArg (Option.map Node.entry) hbody
  simpa [Function.comp_def, Node.relocate_entry] using hentry

theorem mirrors_unit (budget budget' : Nat) :
    (unit inner budget c).Mirrors move (Option.map (Node.relocate move)) tied c
      (unit inner' budget') :=
  mirrors_ifAt (fun _ => mirrors_some (mirrors_definition hinner budget budget'))
    fun _ => mirrors_entry hinner budget budget'

theorem mirrors_units (budget budget' : Nat) :
    (units inner budget c).Mirrors move (List.map (Node.relocate move)) tied c
      (units inner' budget') := by
  induction budget generalizing c budget' with
  | zero => trivial
  | succ budget ih =>
    refine mirrors_budget rfl (fun budget' => ?_) budget'
    refine mirrors_ifAt (fun _ => mirrors_pure rfl) fun _ => ?_
    refine mirrors_bind (mirrors_unit hinner (budget + 1) (budget' + 1)) ?_
    rintro (_ | first) (_ | first') _ _ hfirst
    · exact mirrors_pure rfl
    · simp at hfirst
    · simp at hfirst
    · refine mirrors_bind (ih budget') fun rest rest' _ _ hrest => mirrors_pure ?_
      simp_all

end

theorem mirrors_expression (budget budget' : Nat) :
    (expression budget c).Mirrors move (Option.map (Node.relocate move)) tied c
      (expression budget') := by
  induction budget generalizing c tied budget' with
  | zero => trivial
  | succ budget ih =>
    refine mirrors_budget rfl (fun budget' => ?_) budget'
    exact mirrors_chain (fun _ => ih budget') (budget + 1) (budget' + 1)

end Construct

end ExprLang
