import TermWindow.Positions
import TermWindow.Table

/-!
# Postings

The postings of a term are its positions in each field of a document. A document holds the postings
of its terms. Positions may be added to a field at any time; when they are refused, nothing changes.
-/

namespace TermWindow

/-- The positions of a term by field. -/
structure Postings where
  byField : Table Positions

/-- The postings of the terms of a document. -/
abbrev Document := Table Postings

namespace Postings

def empty : Postings := ⟨Table.empty⟩

def positions? (p : Postings) (field : String) : Option Positions := p.byField.get? field

/-- The positions in a field, none where the field is missing. -/
def listed (p : Postings) (field : String) : List Int :=
  ((p.positions? field).getD Positions.empty).toList

def fields (p : Postings) : List String := p.byField.keys.mergeSort

def add (p : Postings) (field : String) (v : Value) : Except Fault Postings := do
  let elements ← v.elements
  let merged ← Positions.ofElements ((p.listed field).map Value.whole ++ elements)
  return ⟨p.byField.insert field merged⟩

/-- An addition to postings that are changed in place. A refusal ends it where it occurs, with
whatever was changed before. -/
def record (field : String) (v : Value) : ExceptT Fault (StateM Postings) Unit := do
  let present := (← get).listed field
  let elements ← ofExcept v.elements
  let merged ← ofExcept (Positions.ofElements (present.map Value.whole ++ elements))
  modify fun p => ⟨p.byField.insert field merged⟩

theorem positions?_insert (p : Postings) (field other : String) (merged : Positions) :
    positions? ⟨p.byField.insert field merged⟩ other =
      if other = field then some merged else p.positions? other :=
  Table.get?_insert p.byField field other merged

theorem listed_insert (p : Postings) (field other : String) (merged : Positions) :
    listed ⟨p.byField.insert field merged⟩ other =
      if other = field then merged.toList else p.listed other := by
  rw [listed, positions?_insert]
  split <;> rfl

/-- The postings made of one value for each field. -/
def ofTable (fields : Table Value) : Except Fault Postings :=
  fields.entries.foldlM (fun p (field, v) => p.add field v) empty

def describe (p : Postings) : String :=
  let entries := p.byField.entries.map fun (field, positions) =>
    Text.quoted field ++ ": " ++ Text.bracketed (positions.toList.map toString)
  s!"TermFrequencyList({Text.braced entries})"

end Postings

namespace Document

/-- The document made of one table of values for each term. -/
def ofList (terms : List (String × Table Value)) : Except Fault Document := do
  return Table.ofList (← terms.mapM fun (term, fields) => return (term, ← Postings.ofTable fields))

end Document

end TermWindow
