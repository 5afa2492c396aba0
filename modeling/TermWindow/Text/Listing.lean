/-!
# Displayed sequences

Items stand one after the other with a comma and a space between them, inside the brackets of
their kind of sequence.
-/

namespace TermWindow.Text

def listed (items : List String) : String := ", ".intercalate items

def bracketed (items : List String) : String := "[" ++ listed items ++ "]"

/-- A tuple in round brackets; one item alone is followed by a comma. -/
def parenthesized : List String → String
  | [item] => "(" ++ item ++ ",)"
  | items => "(" ++ listed items ++ ")"

/-- A set or a mapping in curly brackets. -/
def braced (items : List String) : String := "\x7b" ++ listed items ++ "\x7d"

/-- The display of the absent value. -/
def absent : String := "None"

def orAbsent : Option Int → String
  | some n => toString n
  | none => absent

end TermWindow.Text
