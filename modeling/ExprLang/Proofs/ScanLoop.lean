import ExprLang.Proofs.StrayCharacters

/-!
Scanning as a loop over byte offsets. A round looks up the first class of the table whose pattern
matches at the offset and goes on behind the text that this class takes. It cannot read the source
where the offset cuts a character or lies past the end, and nothing but the rounds before it sees
to that. The loop never gets there: all rounds start between two characters, each passes a byte
or more, and the last one gives what `scan` gives.
-/
namespace ExprLang

open Text Lexeme

theorem Text.bytes_pos {cs : List Char} (h : cs ≠ []) : 0 < Text.bytes cs :=
  Nat.lt_of_lt_of_le (List.length_pos_iff.mpr h) (length_le_bytes cs)

namespace Lexeme

/-- What the class makes of the text in front of it. It looks for its pattern again and would take
nothing if there was none. -/
def Class.handled (k : Class) (cs : List Char) : Lexeme := ⟨k, k.taken ((k.match? cs).getD [])⟩

theorem first?_eq_map_find? (cs : List Char) :
    first? cs = (classes.find? fun k => (k.match? cs).isSome).map fun k => k.handled cs := by
  unfold first?
  induction classes with
  | nil => rfl
  | cons k ks ih =>
    rw [List.findSome?_cons, List.find?_cons, ih]
    cases h : k.match? cs <;> simp [Class.lexeme?, Class.handled, h]

end Lexeme

/-- Where the loop stands in the source: so many bytes are behind it, and these tokens. -/
structure Sweep where
  source : String
  file : String
  offset : Nat
  found : List Token

namespace Sweep

/-- What comes of a round: a class has taken its text, the loop has ended, or the source could
not be read. -/
inductive Round where
  | passed (cls : Lexeme.Class) (next : Sweep)
  | ended (result : Except Failure (List Token))
  | stuck

def start (source file : String) : Sweep := ⟨source, file, 0, []⟩

/-- The text from the offset on, unless a character is cut or the end is passed. -/
def rest? (s : Sweep) : Option (List Char) := dropBytes? s.offset s.source.toList

/-- The scanner at the offset, which it counts in a word of its own. -/
def scanner (s : Sweep) : Scanner := ⟨s.source, s.file, UInt64.ofNat s.offset⟩

/-- Goes on behind the text, and keeps it as a token if it becomes one. -/
def pass (s : Sweep) (l : Lexeme) : Sweep :=
  let stop := s.offset + Text.bytes l.text
  let token? : Option Token :=
    l.kind?.map fun kind => ⟨kind, String.ofList l.text, .between s.offset stop s.file⟩
  { s with offset := stop, found := s.found ++ token?.toList }

def round (s : Sweep) : Round :=
  if Text.bytes s.source.toList ≤ s.offset then
    .ended (.ok (s.found ++ [.endAt (.after s.offset s.file)]))
  else
    match s.rest? with
    | none => .stuck
    | some rest =>
      match classes.find? fun k => (k.match? rest).isSome with
      | some k => .passed k (s.pass (k.handled rest))
      | none =>
        let text := (rest.head?.map String.singleton).getD ""
        .ended (.error ⟨.unrecognised text, .after s.offset s.file⟩)

/-- So many rounds lead from the one place to the other. -/
inductive Reaches : Sweep → Nat → Sweep → Prop
  | refl {s : Sweep} : Reaches s 0 s
  | passed {s t next : Sweep} {rounds : Nat} {k : Lexeme.Class} (h : Reaches s rounds t)
      (hround : t.round = .passed k next) : Reaches s (rounds + 1) next

/-- What holds where a round starts: the source is cut between two characters, as many bytes
are passed as rounds or more, and what is still to be found makes up all tokens of the source with
what has been found. -/
structure Sound (source file : String) (rounds : Nat) (s : Sweep) (before rest : List Char) :
    Prop where
  source_eq : s.source = source
  file_eq : s.file = file
  cut_eq : source.toList = before ++ rest
  offset_eq : s.offset = Text.bytes before
  rounds_le : rounds ≤ s.offset
  left_eq : (split source.toList).2 = (split rest).2
  tokens_eq : tokens file 0 (split source.toList).1 = s.found ++ tokens file s.offset (split rest).1

variable {source file : String} {rounds : Nat} {s next : Sweep} {before rest : List Char}
  {k : Lexeme.Class} {l : Lexeme}

theorem sound_start (source file : String) :
    Sound source file 0 (start source file) [] source.toList :=
  ⟨rfl, rfl, rfl, rfl, Nat.le_refl 0, rfl, rfl⟩

namespace Sound

theorem rest?_eq (h : Sound source file rounds s before rest) : s.rest? = some rest := by
  rw [rest?, h.source_eq, h.cut_eq, h.offset_eq, dropBytes?_append]

theorem bytes_source (h : Sound source file rounds s before rest) :
    Text.bytes source.toList = s.offset + Text.bytes rest := by
  rw [h.cut_eq, bytes_append, h.offset_eq]

theorem round_of_nil (h : Sound source file rounds s before []) :
    s.round = .ended (scan source file) := by
  have hbytes := h.bytes_source
  have hnone : split [] = ([], []) := split_of_none rfl
  have hsplit : split source.toList = ((split source.toList).1, []) :=
    Prod.ext rfl (by rw [h.left_eq, hnone])
  have hfound := h.tokens_eq
  rw [hnone] at hfound
  have hscan : scan source file = .ok (tokens file 0 (split source.toList).1) := by
    rw [scan, hsplit]
  rw [round, h.source_eq, h.file_eq, if_pos (by simpa using hbytes.le), hscan, hfound]
  rfl

theorem round_of_none {c : Char} (h : Sound source file rounds s before (c :: rest))
    (hfirst : first? (c :: rest) = none) : s.round = .ended (scan source file) := by
  have hbytes := h.bytes_source
  have hpos := bytes_pos (List.cons_ne_nil c rest)
  have hsplit : split source.toList = ((split source.toList).1, c :: rest) :=
    Prod.ext rfl (by rw [h.left_eq, split_of_none hfirst])
  have hlexemes := flatMap_text_split source.toList
  rw [h.left_eq, split_of_none hfirst, h.cut_eq, List.append_cancel_right_eq] at hlexemes
  have hscan : scan source file =
      .error ⟨.unrecognised (String.singleton c), .after s.offset file⟩ := by
    rw [scan, hsplit]
    simp only [Lexeme.bytes, h.cut_eq, hlexemes, h.offset_eq]
  rw [first?_eq_map_find?, Option.map_eq_none_iff] at hfirst
  simp only [round, h.source_eq, h.file_eq, h.rest?_eq, hfirst, hscan]
  rw [if_neg (by omega)]
  rfl

theorem round_of_some (h : Sound source file rounds s before rest) (hfirst : first? rest = some l) :
    s.round = .passed l.cls (s.pass l) := by
  have hbytes := h.bytes_source
  obtain ⟨hne, rest', hrest⟩ := first?_eq_some hfirst
  have hpos : 0 < Text.bytes rest := by
    apply bytes_pos
    rw [← hrest]
    exact List.append_ne_nil_of_left_ne_nil hne rest'
  rw [first?_eq_map_find?] at hfirst
  obtain ⟨k, hfind, rfl⟩ := Option.map_eq_some_iff.mp hfirst
  simp only [round, h.source_eq, h.rest?_eq, hfind]
  rw [if_neg (by omega)]
  rfl

/-- A round ends the loop with what is scanned, or the first lexeme of the rest is passed. -/
theorem round_eq (h : Sound source file rounds s before rest) :
    s.round = .ended (scan source file) ∨
      ∃ l, first? rest = some l ∧ s.round = .passed l.cls (s.pass l) := by
  cases hfirst : first? rest with
  | some l => exact .inr ⟨l, rfl, h.round_of_some hfirst⟩
  | none =>
    cases rest with
    | nil => exact .inl h.round_of_nil
    | cons c rest => exact .inl (h.round_of_none hfirst)

theorem exists_of_passed (h : Sound source file rounds s before rest)
    (hround : s.round = .passed k next) :
    ∃ l, first? rest = some l ∧ l.cls = k ∧ s.pass l = next := by
  rcases h.round_eq with hended | ⟨l, hl, hpassed⟩
  · simp [hended] at hround
  · exact ⟨l, hl, Round.passed.inj (hpassed.symm.trans hround)⟩

/-- One round keeps it so. -/
theorem pass (h : Sound source file rounds s before rest) (hfirst : first? rest = some l) :
    ∃ rest', rest = l.text ++ rest' ∧
      Sound source file (rounds + 1) (s.pass l) (before ++ l.text) rest' := by
  obtain ⟨hne, rest', hrest⟩ := first?_eq_some hfirst
  subst hrest
  have hpos := bytes_pos hne
  have hfound := h.tokens_eq
  have hleft := h.left_eq
  rw [split_of_some hfirst] at hfound hleft
  refine ⟨rest', rfl, h.source_eq, h.file_eq, ?_, ?_, ?_, hleft, ?_⟩
  · rw [h.cut_eq, List.append_assoc]
  · simp only [Sweep.pass, h.offset_eq, bytes_append]
  · have hle := h.rounds_le
    simp only [Sweep.pass]
    omega
  · rw [hfound]
    cases hkind : l.kind? with
    | none => simp [Sweep.pass, tokens, hkind]
    | some kind => simp [Sweep.pass, tokens, hkind, h.file_eq]

end Sound

/-- All rounds start so. -/
theorem Reaches.sound (h : (start source file).Reaches rounds s) :
    ∃ before rest, Sound source file rounds s before rest := by
  induction h with
  | refl => exact ⟨[], source.toList, sound_start source file⟩
  | passed _ hround ih =>
    obtain ⟨before, rest, hsound⟩ := ih
    obtain ⟨l, hl, -, rfl⟩ := hsound.exists_of_passed hround
    obtain ⟨rest', -, hnext⟩ := hsound.pass hl
    exact ⟨before ++ l.text, rest', hnext⟩

/-- From every round on the loop comes to its end, as each round leaves a shorter rest. -/
theorem Sound.exists_ended (h : Sound source file rounds s before rest)
    (hreaches : (start source file).Reaches rounds s) :
    ∃ last t, (start source file).Reaches last t ∧ t.round = .ended (scan source file) := by
  induction hsize : rest.length using Nat.strongRecOn generalizing rounds s before rest with
  | ind size ih =>
    rcases h.round_eq with hended | ⟨l, hl, hpassed⟩
    · exact ⟨rounds, s, hreaches, hended⟩
    · obtain ⟨rest', hrest, hnext⟩ := h.pass hl
      have hshorter : rest'.length < size := by
        have hpos := List.length_pos_iff.mpr (first?_eq_some hl).1
        rw [← hsize, hrest, List.length_append]
        omega
      exact ih _ hshorter hnext (hreaches.passed hpassed) rfl

/-- The scanner with its offset in a word reads what the loop reads and moves as it does, if its
word can count the bytes of the source. -/
structure Followed (s : Sweep) : Prop where
  offset_eq : s.scanner.offset.toNat = s.offset
  rest?_eq : s.scanner.rest? = s.rest?
  next?_ne_none : s.scanner.next? ≠ none
  atEnd_eq : s.scanner.atEnd = decide (Text.bytes s.source.toList ≤ s.offset)
  advance_eq : ∀ k next rest, s.round = .passed k next → s.rest? = some rest →
    ∃ text, k.match? rest = some text ∧
      s.scanner.advance (UInt64.ofNat (Text.bytes text)) = next.scanner

theorem Sound.followed (h : Sound source file rounds s before rest)
    (hsize : Text.bytes source.toList < UInt64.size) : s.Followed := by
  have hbytes := h.bytes_source
  have hoffset : s.scanner.offset.toNat = s.offset := by
    simp only [scanner, UInt64.toNat_ofNat']
    exact Nat.mod_eq_of_lt (Nat.lt_of_le_of_lt (by omega) hsize)
  have hrest : s.scanner.rest? = s.rest? := by
    rw [Scanner.rest?, hoffset, rest?]
    rfl
  refine ⟨hoffset, hrest, ?_, ?_, ?_⟩
  · rw [Scanner.next?, hrest, h.rest?_eq]
    simp
  · rw [Scanner.atEnd, hoffset]
    rfl
  · intro k next rest' hround hrest'
    obtain rfl : rest = rest' := Option.some.inj (h.rest?_eq.symm.trans hrest')
    obtain ⟨l, hl, rfl, rfl⟩ := h.exists_of_passed hround
    refine ⟨l.text, (match?_of_first? hl).1, ?_⟩
    simp [Scanner.advance, scanner, Sweep.pass]

/-- Every round of scanning starts between two characters of the source and can read it there. A
class that takes a text goes on by exactly the bytes of what its pattern matches at that place,
which are not none, so there are at most as many rounds as bytes. The loop ends with what is
scanned. -/
theorem scanning_ends (source file : String) :
    (∀ rounds s, (start source file).Reaches rounds s →
      s.offset ≤ Text.bytes source.toList ∧ s.round ≠ .stuck ∧
      (s.offset < Text.bytes source.toList → rounds < Text.bytes source.toList) ∧
      (∃ before rest, source.toList = before ++ rest ∧ s.offset = Text.bytes before ∧
        s.rest? = some rest ∧ ∀ k next, s.round = .passed k next →
          ∃ text, k.match? rest = some text ∧ text ≠ [] ∧
            next.offset = s.offset + Text.bytes text) ∧
      (Text.bytes source.toList < UInt64.size → s.Followed)) ∧
    ∃ rounds s, (start source file).Reaches rounds s ∧ rounds ≤ Text.bytes source.toList ∧
      s.round = .ended (scan source file) := by
  constructor
  · intro rounds s hreaches
    obtain ⟨before, rest, hsound⟩ := hreaches.sound
    have hbytes := hsound.bytes_source
    have hrounds := hsound.rounds_le
    refine ⟨by omega, ?_, by omega, ⟨before, rest, hsound.cut_eq, hsound.offset_eq,
      hsound.rest?_eq, ?_⟩, hsound.followed⟩
    · rcases hsound.round_eq with hended | ⟨l, -, hpassed⟩
      · simp [hended]
      · simp [hpassed]
    · intro k next hround
      obtain ⟨l, hl, rfl, rfl⟩ := hsound.exists_of_passed hround
      obtain ⟨hmatch, hne⟩ := match?_of_first? hl
      exact ⟨l.text, hmatch, hne, rfl⟩
  · obtain ⟨rounds, s, hreaches, hended⟩ := (sound_start source file).exists_ended .refl
    obtain ⟨before, rest, hsound⟩ := hreaches.sound
    have hbytes := hsound.bytes_source
    have hrounds := hsound.rounds_le
    exact ⟨rounds, s, hreaches, by omega, hended⟩

end Sweep

end ExprLang
