import ItemStore.Binary64.Reader
import ItemStore.Binary64.Text
import ItemStore.Json.Basic
import ItemStore.Text

/-!
Numbers. An integer keeps its integer form, so that its decimal text never gains a fraction. A
float that was read is finite; one that was built may not be, and has no text on the wire.
-/
namespace ItemStore

attribute [local instance (high)] instPowNat

inductive Number where
  | int (n : Int64)
  | uint (n : UInt64)
  | float (x : Binary64)

namespace Number

def ofBinary64? (x : Binary64) : Option Number := if x.isFinite then some (.float x) else none

/-- The integer `z` as a signed number, else as an unsigned one, if it fits 64 bits. -/
def ofInt? (z : Int) : Option Number :=
  if -2 ^ (63 : Nat) ≤ z ∧ z < 2 ^ (63 : Nat) then some (.int (Int64.ofInt z))
  else if 0 ≤ z ∧ z < 2 ^ (64 : Nat) then some (.uint (UInt64.ofNat z.toNat))
  else none

/-- The number that a text denotes, without the white space around it: an integer where one is
written that fits 64 bits, and otherwise the nearest double, which has to be finite. -/
def ofText? (s : String) : Option Number :=
  let cs := Text.trim s.toList
  match (Digits.int? cs).bind ofInt? with
  | some n => some n
  | none => (Binary64.ofText? cs).bind ofBinary64?

def toInt? : Number → Option Int
  | .int n => some n.toInt
  | .uint n => some n.toNat
  | .float _ => none

def toBinary64 : Number → Binary64
  | .int n => .ofInt n.toInt
  | .uint n => .ofInt n.toNat
  | .float x => x

def isFinite : Number → Bool
  | .float x => x.isFinite
  | _ => true

def isZero : Number → Bool
  | .int n => n == 0
  | .uint n => n == 0
  | .float x => x.isZero

/-- Integers are compared exactly, and any other two numbers as doubles. -/
def same (a b : Number) : Bool :=
  match a.toInt?, b.toInt? with
  | some m, some n => m == n
  | _, _ => a.toBinary64.same b.toBinary64

instance : BEq Number := ⟨same⟩

def text : Number → String
  | .int n => String.ofList (Digits.ofInt n.toInt)
  | .uint n => String.ofList (Digits.ofNat n.toNat)
  | .float x => String.ofList x.text

/-- A whole float below `2^63` becomes an integer, as its text is one. -/
def toJson : Number → Json
  | .int n => .ofInt64 n
  | .uint n => .ofUInt64 n
  | .float (.finite x) =>
    match x.toInt? with
    | some z => if z.natAbs < 2 ^ (63 : Nat) then .ofInt64 (Int64.ofInt z) else .number (.float x)
    | none => .number (.float x)
  | .float _ => .null

/-- An integer is signed where it can be. -/
def ofJson : Json.Number → Number
  | .integer n _ =>
    if n < 2 ^ (63 : Nat) then .int (Int64.ofInt n) else .uint (UInt64.ofNat n.toNat)
  | .float x => .float (.finite x)

end Number

/-- Whether a text is digits, and then optionally a point and more digits. -/
def isUnsignedLiteral (cs : List Char) : Bool :=
  let fraction := cs.dropWhile Char.isDigit
  !(cs.takeWhile Char.isDigit).isEmpty &&
    (fraction.isEmpty || fraction.head? == some '.' && fraction.tail.all Char.isDigit)

def isNumericLiteral (s : String) : Bool :=
  match s.toList with
  | '-' :: cs => isUnsignedLiteral cs
  | cs => isUnsignedLiteral cs

end ItemStore
