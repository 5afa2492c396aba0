import TermWindow.Text.Span

/-!
# Blanks

The white space that may surround the parts of a query: spaces of every width, tabulators, line
and paragraph ends, and the four information separators.
-/

namespace TermWindow.Text

/-- The spans of the blanks, in ascending order. -/
def blankSpans : List Span :=
  [⟨0x9, 0xd⟩, ⟨0x1c, 0x20⟩, ⟨0x85, 0x85⟩, ⟨0xa0, 0xa0⟩, ⟨0x1680, 0x1680⟩, ⟨0x2000, 0x200a⟩,
   ⟨0x2028, 0x2029⟩, ⟨0x202f, 0x202f⟩, ⟨0x205f, 0x205f⟩, ⟨0x3000, 0x3000⟩]

def isBlank (c : Char) : Bool := inSpans blankSpans c

def dropBlanks (cs : List Char) : List Char := cs.dropWhile isBlank

theorem dropBlanks_length_le (cs : List Char) : (dropBlanks cs).length ≤ cs.length :=
  (List.dropWhile_suffix isBlank).length_le

def trimEnd (cs : List Char) : List Char := (cs.reverse.dropWhile isBlank).reverse

end TermWindow.Text
