import TermWindow.Matcher
import TermWindow.Query.Arguments
import TermWindow.Query.Frame
import TermWindow.Text.DecimalDigit
import TermWindow.Text.Word

/-!
# Queries

A query asks for terms within a distance of each other, in certain fields or in those that its
caller chooses. As a text it gives a field if there is one, the distance, the word `termOffsetMap`
if it is wanted, and the terms in quotes: `within(body, 2, termOffsetMap, "quick", "brown")`.
-/

namespace TermWindow

open Text

/-- A query with its fields in ascending order. Its distance is checked when a matcher is made. -/
structure Query where
  distance : Value
  terms : List String
  fields : List String

namespace Query

def make (distance : Value) (terms fields : List String) : Query :=
  ⟨distance, terms, Matcher.fieldSet fields⟩

/-- A matcher for the query. A query without fields takes the given ones. -/
def matcher (q : Query) (document : Document) (otherFields : List String) (shared : Bool) :
    Except Fault Matcher :=
  Matcher.make (if q.fields.isEmpty then otherFields else q.fields) q.distance document q.terms
    shared

def describe (q : Query) : String :=
  let fields := if q.fields.isEmpty then "" else braced (q.fields.map quoted)
  s!"WithinPredicate(distance={q.distance.describe}, " ++
    s!"terms={parenthesized (q.terms.map quoted)}, fields=frozenset({fields}))"

/-! ### The parts of the arguments -/

def mapWord : List Char := "termOffsetMap".toList

def isNameStart (c : Char) : Bool := c.isAlpha || c = '_'

def isFieldName : List Char → Bool
  | [] => false
  | c :: rest => isNameStart c && rest.all (fun d => isWord d || d = '.') && c :: rest ≠ mapWord

/-- The name of a field in front of the arguments, and the arguments behind it. -/
def takeField : List (List Char) → List String × List (List Char)
  | [] => ([], [])
  | item :: rest => if isFieldName item then ([String.ofList item], rest) else ([], item :: rest)

def maxDigits : Nat := 4300

/-- The distance in front of the arguments, and the arguments behind it. -/
def takeDistance (text : String) : List (List Char) → Except Fault (Nat × List (List Char))
  | [] => .error (.distanceExpected text)
  | item :: rest =>
    if item.isEmpty || !item.all isDigit then .error (.distanceExpected text)
    else if maxDigits < item.length then .error (.tooManyDigits maxDigits item.length)
    else .ok (digitsValue item, rest)

/-- The arguments without the word that may stand in front of them. -/
def dropMapWord : List (List Char) → List (List Char)
  | [] => []
  | item :: rest => if item = mapWord then rest else item :: rest

def ofArguments (text : String) (items : List (List Char)) : Except Fault Query := do
  let (fields, rest) := takeField items
  let (distance, rest) ← takeDistance text rest
  let terms ← (dropMapWord rest).mapM Literal.unquote
  if terms.isEmpty then throw (.termsExpected text)
  return make (.whole distance) (terms.map String.ofList) fields

/-! ### Reading -/

def ofText (text : String) : Except Fault Query :=
  match Frame.arguments? text.toList with
  | none => .error (.notQuery text)
  | some inner => do ofArguments text (← Arguments.split inner)

/-- The arguments in the text between the brackets of a query. -/
def argumentsOf (text : String) : Except Fault (List String) := do
  return (← Arguments.split text.toList).map String.ofList

def termOf (argument : String) : Except Fault String := do
  return String.ofList (← Literal.unquote argument.toList)

end Query

end TermWindow
