import TermWindow.Text.Printable

/-!
# Displayed texts

A text is displayed between quote marks, and so that its display is one printable line: the mark
and the backslash are written with a backslash before them, line ends and tabulators by their
letter, and every other character that is not printable by the hexadecimal digits of its code
point.
-/

namespace TermWindow.Text

def singleQuote : Char := '\x27'

def doubleQuote : Char := '\x22'

def backslash : Char := '\\'

def isQuote (c : Char) : Bool := c = singleQuote || c = doubleQuote

/-- The mark around a displayed text: the double one only where the text holds a single mark and
no double one. -/
def markFor (cs : List Char) : Char :=
  if cs.contains singleQuote && !cs.contains doubleQuote then doubleQuote else singleQuote

theorem isQuote_markFor (cs : List Char) : isQuote (markFor cs) = true := by
  unfold markFor
  split <;> decide

/-- The lower-case hexadecimal digits of `n`, with zeros before them up to `width` digits. -/
def hexadecimal (width n : Nat) : List Char := (Nat.toDigits 16 n).leftpad width '0'

/-- A character by its code point, with two, four or eight digits. -/
def codePointEscape (c : Char) : List Char :=
  if c.toNat < 0x100 then backslash :: 'x' :: hexadecimal 2 c.toNat
  else if c.toNat < 0x10000 then backslash :: 'u' :: hexadecimal 4 c.toNat
  else backslash :: 'U' :: hexadecimal 8 c.toNat

def displayChar (mark c : Char) : List Char :=
  if c = mark || c = backslash then [backslash, c]
  else if c = '\n' then [backslash, 'n']
  else if c = '\r' then [backslash, 'r']
  else if c = '\t' then [backslash, 't']
  else if isPrintable c then [c]
  else codePointEscape c

def quoted (s : String) : String :=
  let mark := markFor s.toList
  String.ofList (mark :: s.toList.flatMap (displayChar mark) ++ [mark])

end TermWindow.Text
