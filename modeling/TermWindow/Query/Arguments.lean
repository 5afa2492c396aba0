import TermWindow.Query.Literal
import TermWindow.Text.Blank

/-!
# Arguments

The arguments of a query stand between commas, with blanks around them. An argument is a quoted
literal, which may hold commas, or any other text without commas and quote marks. Blanks alone are
an argument too: the last one of them. Nothing need follow a comma at the very end.
-/

namespace TermWindow.Query.Arguments

open Text

/-- What follows the comma after an argument, or the end; nothing where something else follows. -/
def afterComma? (cs : List Char) : Option (List Char) :=
  match dropBlanks cs with
  | [] => some []
  | ',' :: rest => some rest
  | _ => none

def literal? (cs : List Char) : Option (List Char × List Char) := do
  let (literal, rest) ← Literal.split? cs
  return (literal, ← afterComma? rest)

/-- The text up to the next comma, without the blanks at its beginning. -/
def segment (cs : List Char) : List Char := (dropBlanks cs).takeWhile (· ≠ ',')

def afterSegment (cs : List Char) : List Char := ((dropBlanks cs).dropWhile (· ≠ ',')).drop 1

/-- The first argument when it reaches to the next comma, and what follows the comma. -/
def plain? (cs : List Char) : Option (List Char × List Char) :=
  if (segment cs).isEmpty then
    (cs.takeWhile isBlank).getLast?.map fun c => ([c], afterSegment cs)
  else some (trimEnd (segment cs), afterSegment cs)

def next? (cs : List Char) : Option (List Char × List Char) :=
  (literal? (dropBlanks cs)).or (plain? cs)

/-! ### Every argument takes some of the text -/

theorem afterComma?_length_le {cs after : List Char} (h : afterComma? cs = some after) :
    after.length ≤ cs.length := by
  have hb := dropBlanks_length_le cs
  unfold afterComma? at h
  split at h <;> simp_all
  omega

theorem literal?_length_lt {cs item after : List Char} (h : literal? cs = some (item, after)) :
    after.length < cs.length := by
  simp only [literal?, Option.bind_eq_bind, Option.bind_eq_some_iff] at h
  obtain ⟨⟨literal, rest⟩, hf, tail, hc, h⟩ := h
  obtain ⟨rfl, rfl⟩ := h
  have hb := afterComma?_length_le hc
  have hp := List.length_pos_iff.2 (Literal.split?_ne_nil hf)
  rw [Literal.split?_append hf, List.length_append]
  simp only at hb hp
  omega

theorem segment_length_add (cs : List Char) :
    (segment cs).length + (afterSegment cs).length ≤ (dropBlanks cs).length := by
  have hp := congrArg List.length
    (List.takeWhile_append_dropWhile (p := (· ≠ ',')) (l := dropBlanks cs))
  rw [List.length_append] at hp
  rw [segment, afterSegment, List.length_drop]
  omega

theorem plain?_length_lt {cs item after : List Char} (h : plain? cs = some (item, after)) :
    after.length < cs.length := by
  have hb := congrArg List.length
    (List.takeWhile_append_dropWhile (p := isBlank) (l := cs))
  rw [List.length_append, ← dropBlanks] at hb
  have hp := segment_length_add cs
  unfold plain? at h
  split at h
  · obtain ⟨c, hl, h⟩ := Option.map_eq_some_iff.1 h
    obtain ⟨rfl, rfl⟩ := h
    have ht : 0 < (cs.takeWhile isBlank).length :=
      List.length_pos_iff.2 fun e => by simp [e] at hl
    omega
  · rename_i hf
    obtain ⟨rfl, rfl⟩ := h
    have ht : 0 < (segment cs).length :=
      List.length_pos_iff.2 fun e => hf (by rw [e]; rfl)
    omega

theorem next?_length_lt {cs item after : List Char} (h : next? cs = some (item, after)) :
    after.length < cs.length := by
  unfold next? at h
  rcases Option.or_eq_some_iff.1 h with h | ⟨_, h⟩
  · exact Nat.lt_of_lt_of_le (literal?_length_lt h) (dropBlanks_length_le cs)
  · exact plain?_length_lt h

/-! ### All arguments -/

/-- Whether an argument has quote marks in a place where they may not be. -/
def isMalformed (item : List Char) : Bool := item.any isQuote && !Literal.isLiteral item

/-- The arguments of the rest of a text. -/
def splitRest (whole rest : List Char) : Except Fault (List (List Char)) :=
  if rest.isEmpty then .ok []
  else match _h : next? rest with
    | none => .error (.unreadableArguments (String.ofList whole))
    | some (item, after) =>
      if isMalformed item then .error (.malformedArgument (String.ofList item))
      else do return item :: (← splitRest whole after)
termination_by rest.length
decreasing_by exact next?_length_lt _h

def split (cs : List Char) : Except Fault (List (List Char)) := splitRest cs cs

end TermWindow.Query.Arguments
