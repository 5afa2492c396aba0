/-!
# Spans of code points

A class of characters is a list of spans of code points, each with both ends included. A
character is in the class when one of the spans covers its code point.
-/

namespace TermWindow.Text

/-- The code points from `first` to `last`, both included. -/
structure Span where
  first : Nat
  last : Nat

def Span.covers (s : Span) (n : Nat) : Bool := s.first ≤ n && n ≤ s.last

theorem Span.covers_iff (s : Span) (n : Nat) : s.covers n = true ↔ s.first ≤ n ∧ n ≤ s.last := by
  simp [Span.covers]

def inSpans (spans : List Span) (c : Char) : Bool := spans.any (·.covers c.toNat)

theorem inSpans_iff (spans : List Span) (c : Char) :
    inSpans spans c = true ↔ ∃ s ∈ spans, s.first ≤ c.toNat ∧ c.toNat ≤ s.last := by
  simp [inSpans, Span.covers_iff]

end TermWindow.Text
