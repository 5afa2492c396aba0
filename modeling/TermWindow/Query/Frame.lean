import TermWindow.Text.Blank

/-!
# The frame of a query

A query reads `within(…)` or `content: within(…)`. The two words may be written in any case, and
blanks may stand before, between and behind the parts of the frame.
-/

namespace TermWindow.Query.Frame

open Text

/-- Whether `c` is the lower-case letter `letter` in some case. The letter i has two more forms,
with a dot in upper case and without one in lower case. -/
def isForm (letter c : Char) : Bool :=
  c = letter || c = letter.toUpper || (letter = 'i' && (c = '\u0130' || c = '\u0131'))

def afterWord? : List Char → List Char → Option (List Char)
  | [], cs => some cs
  | _ :: _, [] => none
  | letter :: word, c :: cs => if isForm letter c then afterWord? word cs else none

def afterMark? (mark : Char) (cs : List Char) : Option (List Char) :=
  match dropBlanks cs with
  | [] => none
  | c :: rest => if c = mark then some rest else none

/-- What follows the words in front of the query proper. -/
def afterPreamble? (cs : List Char) : Option (List Char) := do
  let rest ← afterMark? ':' (← afterWord? "content".toList cs)
  return dropBlanks rest

/-- The text before the closing bracket, behind which only blanks may stand. -/
def beforeClosing? (cs : List Char) : Option (List Char) :=
  match cs.reverse.dropWhile isBlank with
  | ')' :: rest => some rest.reverse
  | _ => none

def arguments? (cs : List Char) : Option (List Char) := do
  let start := dropBlanks cs
  let rest ← afterWord? "within".toList ((afterPreamble? start).getD start)
  beforeClosing? (← afterMark? '(' rest)

end TermWindow.Query.Frame
