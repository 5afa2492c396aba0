import TermWindow.Value

/-!
# The common kind of several values

Values that are stored together are stored as one kind. Truth values give way to numbers, signed
and unsigned numbers meet in the reals, and everything becomes text beside a text wide enough to
write it; what is none of these makes the whole a collection of objects.
-/

namespace TermWindow

/-- A kind of stored values. -/
inductive Kind where
  | truth
  | signed
  | unsigned
  | real
  | text (width : Nat)
  | object
  deriving DecidableEq

namespace Kind

def signedEnd : Int := 0x8000000000000000

/-- The first number beyond 64 bits. -/
def unsignedEnd : Int := 0x10000000000000000

def isSigned (n : Int) : Bool := -signedEnd ≤ n && n < signedEnd

def isUnsigned (n : Int) : Bool := signedEnd ≤ n && n < unsignedEnd

def ofValue : Value → Kind
  | .truth _ => truth
  | .whole n => if isSigned n then signed else if isUnsigned n then unsigned else object
  | .real _ => real
  | .text s => text s.length
  | .missing => object
  | .list _ => object

/-- The number of characters that the values of a kind need beside texts. -/
def width : Kind → Nat
  | truth => 5
  | unsigned => 20
  | signed => 21
  | real => 32
  | text n => n
  | object => 0

/-- The kind that stores the values of two kinds. -/
def join : Kind → Kind → Kind
  | object, _ => object
  | _, object => object
  | text n, k => text (max n k.width)
  | k, text n => text (max k.width n)
  | truth, k => k
  | k, truth => k
  | signed, signed => signed
  | unsigned, unsigned => unsigned
  | _, _ => real

def ofValues (first : Value) (others : List Value) : Kind :=
  others.foldl (fun kind v => kind.join (ofValue v)) (ofValue first)

def isWhole : Kind → Bool
  | signed => true
  | unsigned => true
  | _ => false

/-- The name of a kind in messages. A text has at least one character. -/
def name : Kind → String
  | truth => "bool"
  | signed => "int64"
  | unsigned => "uint64"
  | real => "float64"
  | text n => s!"<U{max n 1}"
  | object => "object"

/-! ### Laws of joining -/

theorem join_self (k : Kind) : k.join k = k := by
  cases k <;> simp [join, width]

theorem object_join (k : Kind) : object.join k = object := by
  cases k <;> rfl

theorem join_object (k : Kind) : k.join object = object := by
  cases k <;> rfl

theorem join_comm (a b : Kind) : a.join b = b.join a := by
  cases a <;> cases b <;> simp [join, width, Nat.max_comm]

end Kind

end TermWindow
