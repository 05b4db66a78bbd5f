/-
# Formula.Span — where a piece of the source stands

Positions are byte offsets into the UTF-8 text of a formula. A span runs from
its first byte to the byte after its last. `Span.hull` is the smallest span
that covers two others; it is a least upper bound for `Span.Covers`.
-/

namespace Formula

set_option autoImplicit false

/-- A stretch of the source: the offset of its first byte, and the offset just
past its last. -/
structure Span where
  start : Nat
  stop : Nat
deriving DecidableEq, Repr

namespace Span

/-- How many bytes the span holds, none when it stops before it starts. -/
def length (s : Span) : Nat := s.stop - s.start

/-- The smallest span that covers both. -/
def hull (s t : Span) : Span := ⟨min s.start t.start, max s.stop t.stop⟩

/-- `s` covers `t` when it starts no later and stops no earlier. -/
def Covers (s t : Span) : Prop := s.start ≤ t.start ∧ t.stop ≤ s.stop

theorem hull_covers_left (s t : Span) : (s.hull t).Covers s :=
  ⟨Nat.min_le_left _ _, Nat.le_max_left _ _⟩

theorem hull_covers_right (s t : Span) : (s.hull t).Covers t :=
  ⟨Nat.min_le_right _ _, Nat.le_max_right _ _⟩

theorem covers_hull {s t u : Span} (hs : u.Covers s) (ht : u.Covers t) :
    u.Covers (s.hull t) :=
  ⟨Nat.le_min.mpr ⟨hs.1, ht.1⟩, Nat.max_le.mpr ⟨hs.2, ht.2⟩⟩

end Span

end Formula
