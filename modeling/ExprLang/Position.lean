/-!
A position is a byte offset into a named text, and a span runs from one position
to another. Offsets are words of 32 bits: a text may be longer than they reach,
and then they count modulo 2^32.
-/
namespace ExprLang

structure Position where
  offset : UInt32
  file : String
  deriving DecidableEq, Repr, Inhabited

namespace Position

/-- The position after so many bytes of the text. -/
def after (bytes : Nat) (file : String) : Position :=
  ⟨UInt32.ofNat bytes, file⟩

/-- The position of what stands in no text. -/
def null : Position := ⟨0, "<null>"⟩

theorem toNat_offset_after (bytes : Nat) (file : String) :
    (after bytes file).offset.toNat = bytes % UInt32.size := rfl

end Position

structure Span where
  start : Position
  stop : Position
  deriving DecidableEq, Repr, Inhabited

namespace Span

/-- The bytes of the text from the first count up to the second. -/
def between (first last : Nat) (file : String) : Span :=
  ⟨.after first file, .after last file⟩

/-- The smallest span over two spans of which the first comes first. -/
def join (first last : Span) : Span := ⟨first.start, last.stop⟩

end Span

end ExprLang
