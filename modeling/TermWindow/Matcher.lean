import TermWindow.Postings
import TermWindow.Search

/-!
# Matchers

A matcher answers for one document whether the terms of a query occur within a distance of each
other. Every field is looked at on its own: positions in different fields have no distance.
-/

namespace TermWindow

/-- A matcher with its fields in ascending order. -/
structure Matcher where
  fields : List String
  distance : Nat
  document : Document
  terms : List String
  shared : Bool

namespace Matcher

/-- Each of the fields once, in ascending order. -/
def fieldSet (fields : List String) : List String := (Demand.distinct fields).mergeSort

def make (fields : List String) (distance : Value) (document : Document) (terms : List String)
    (shared : Bool) : Except Fault Matcher := do
  let distance ← Distance.ofValue distance
  if terms.isEmpty then throw .noTerms
  return ⟨fieldSet fields, distance, document, terms, shared⟩

/-- Whether there is a window for the terms with the positions in the given slots. -/
def evaluateSlots (m : Matcher) (slots : List Value) : Except Fault Bool := do
  return (← Search.start m.distance m.terms slots m.shared).found

def evaluate (m : Matcher) (slots : Value) : Except Fault Bool := do
  m.evaluateSlots (← slots.elements)

def fieldSlots (m : Matcher) (field : String) : List (Option Positions) :=
  m.terms.map fun term => (m.document.get? term).bind (·.positions? field)

def slotOf : Option Positions → Value
  | some positions => Value.ofInts positions.toList
  | none => .missing

/-- Whether there is a window in one of the given fields. Fields behind the first with a window are
not looked at. -/
def matchesAny (m : Matcher) : List String → Except Fault Bool
  | [] => .ok false
  | field :: rest => do
    if ← m.evaluateSlots ((m.fieldSlots field).map slotOf) then return true
    m.matchesAny rest

def evaluateFields (m : Matcher) : Except Fault Bool := m.matchesAny m.fields

/-- The matcher after positions are added to a field of a term, with the postings of the term; an
unknown term gets empty postings first. When the positions are refused, the matcher still has the
postings it had, or those empty ones. -/
def add (m : Matcher) (term field : String) (v : Value) : Matcher × Except Fault Postings :=
  let present := (m.document.get? term).getD Postings.empty
  let result := present.add field v
  let kept := match result with
    | .ok postings => postings
    | .error _ => present
  ({ m with document := m.document.insert term kept }, result)

def describe (m : Matcher) : String :=
  s!"UnorderedEvaluator(fields={Text.bracketed (m.fields.map Text.quoted)}, " ++
    s!"distance={m.distance}, terms={Text.bracketed (m.terms.map Text.quoted)})"

end Matcher

end TermWindow
