/-! # Spans and positions

A span is a half-open range of byte offsets. A position is what a reader sees: a line and a
column, both counted from one, with columns in bytes. -/
namespace Tidymark

structure Position where
  line : Nat
  column : Nat
  deriving DecidableEq, Repr

/-- What words of 32 bits hold of a position. -/
def Position.cut (p : Position) : Position := ⟨p.line % UInt32.size, p.column % UInt32.size⟩

structure Location where
  start : Position
  stop : Position
  deriving DecidableEq, Repr

structure Span where
  start : Nat
  stop : Nat
  deriving DecidableEq, Repr

namespace Span

def empty (offset : Nat) : Span := ⟨offset, offset⟩

def length (s : Span) : Nat := s.stop - s.start

def isEmpty (s : Span) : Bool := s.start == s.stop

def contains (s : Span) (offset : Nat) : Bool := s.start ≤ offset && offset < s.stop

/-- Whether `t` lies inside `s`. -/
def encloses (s t : Span) : Bool := s.start ≤ t.start && t.stop ≤ s.stop

/-- Spans overlap when each starts before the other stops: touching spans do not, and an empty
span overlaps another only strictly inside it. -/
def overlaps (s t : Span) : Bool := s.start < t.stop && t.start < s.stop

/-- The smallest span that covers both. -/
def merge (s t : Span) : Span := ⟨min s.start t.start, max s.stop t.stop⟩

/-- The order by start, then by stop. -/
def before (s t : Span) : Bool := s.start < t.start || (s.start == t.start && s.stop < t.stop)

@[simp] theorem contains_eq_true {s : Span} {offset : Nat} :
    s.contains offset = true ↔ s.start ≤ offset ∧ offset < s.stop := by
  simp [contains]

theorem overlaps_comm (s t : Span) : s.overlaps t = t.overlaps s := by
  simp [overlaps, Bool.and_comm]

@[simp] theorem overlaps_eq_true {s t : Span} :
    s.overlaps t = true ↔ s.start < t.stop ∧ t.start < s.stop := by
  simp [overlaps]

theorem before_iff {s t : Span} :
    s.before t = true ↔ s.start < t.start ∨ s.start = t.start ∧ s.stop < t.stop := by
  simp [before]

end Span
end Tidymark
