import TermWindow.Fault

/-!
# Quoted literals

A literal stands between two equal quote marks. Inside it a backslash with the character after it
is one unit, which stands for that character; the enclosing mark and the backslash can be written
only so. A line end cannot follow a backslash.
-/

namespace TermWindow.Query.Literal

open Text

/-! ### Finding a literal -/

/-- The rest of a literal up to its closing mark, with the mark, and what follows it. -/
def close? (mark : Char) : List Char → Option (List Char × List Char)
  | [] => none
  | c :: rest =>
    if c = mark then some ([c], rest)
    else if c = backslash then
      match rest with
      | [] => none
      | d :: rest =>
        if d = '\n' then none
        else (close? mark rest).map fun (body, after) => (c :: d :: body, after)
    else (close? mark rest).map fun (body, after) => (c :: body, after)

def split? : List Char → Option (List Char × List Char)
  | [] => none
  | mark :: rest =>
    if isQuote mark then (close? mark rest).map fun (body, after) => (mark :: body, after)
    else none

def isLiteral (cs : List Char) : Bool :=
  match split? cs with
  | some (_, []) => true
  | _ => false

theorem close?_append {mark : Char} {cs body after : List Char}
    (h : close? mark cs = some (body, after)) : cs = body ++ after := by
  fun_induction close? mark cs generalizing body after with
  | case1 => simp at h
  | case2 rest =>
    obtain ⟨rfl, rfl⟩ := h
    rfl
  | case3 => simp at h
  | case4 => simp at h
  | case5 d rest _ _ ih =>
    obtain ⟨⟨inner, tail⟩, hf, h⟩ := Option.map_eq_some_iff.1 h
    obtain ⟨rfl, rfl⟩ := h
    simp [ih hf]
  | case6 c rest _ _ ih =>
    obtain ⟨⟨inner, tail⟩, hf, h⟩ := Option.map_eq_some_iff.1 h
    obtain ⟨rfl, rfl⟩ := h
    simp [ih hf]

theorem split?_append {cs literal after : List Char} (h : split? cs = some (literal, after)) :
    cs = literal ++ after := by
  match cs with
  | [] => simp [split?] at h
  | mark :: rest =>
    rw [split?] at h
    split at h
    · obtain ⟨⟨inner, tail⟩, hf, h⟩ := Option.map_eq_some_iff.1 h
      obtain ⟨rfl, rfl⟩ := h
      simp [close?_append hf]
    · simp at h

theorem split?_ne_nil {cs literal after : List Char} (h : split? cs = some (literal, after)) :
    literal ≠ [] := by
  match cs with
  | [] => simp [split?] at h
  | mark :: rest =>
    rw [split?] at h
    split at h
    · obtain ⟨⟨inner, tail⟩, _, h⟩ := Option.map_eq_some_iff.1 h
      obtain ⟨rfl, rfl⟩ := h
      simp
    · simp at h

/-! ### The text of a literal -/

/-- The text with each unit of a backslash and a character replaced by the character. A backslash
that begins no unit stays. -/
def unescape : List Char → List Char
  | [] => []
  | c :: rest =>
    if c = backslash then
      match rest with
      | [] => [c]
      | d :: rest => if d = '\n' then c :: d :: unescape rest else d :: unescape rest
    else c :: unescape rest

/-- The text between the marks of a literal. Only the first and the last character are looked at to
tell whether it is one. -/
def unquote (cs : List Char) : Except Fault (List Char) :=
  match cs with
  | [] => .error (.quotedExpected (String.ofList cs))
  | mark :: rest =>
    if isQuote mark && rest.getLast? = some mark then .ok (unescape rest.dropLast)
    else .error (.quotedExpected (String.ofList cs))

end TermWindow.Query.Literal
