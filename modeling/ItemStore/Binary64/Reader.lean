import ItemStore.Binary64.Basic
import ItemStore.Digits

/-! Decimal text read as the nearest double. -/
namespace ItemStore.Binary64

structure Numeral where
  whole : List Char
  fraction : List Char
  exponent : Int

namespace Numeral

def digits (t : Numeral) : List Char := t.whole ++ t.fraction

/-- The exponent of the last digit. Beyond these bounds the number overflows or is zero whatever
its digits are, and within them its power of ten is small. -/
def lastExponent (t : Numeral) : Int :=
  max (-(t.digits.length + 400 : Nat)) (min 400 (t.exponent - t.fraction.length))

def toBinary64 (t : Numeral) (negative : Bool) : Binary64 :=
  ofDecimal negative (Digits.value t.digits) t.lastExponent

/-- Digits with an optional point among or beside them, then an optional exponent. -/
def ofText? (cs : List Char) : Option Numeral :=
  let whole := cs.takeWhile Char.isDigit
  let (fraction, rest) :=
    match cs.dropWhile Char.isDigit with
    | '.' :: r => (r.takeWhile Char.isDigit, r.dropWhile Char.isDigit)
    | r => ([], r)
  if whole.isEmpty && fraction.isEmpty then none
  else
    match rest with
    | [] => some ⟨whole, fraction, 0⟩
    | c :: r => if c == 'e' || c == 'E' then (Digits.int? r).map (⟨whole, fraction, ·⟩) else none

end Numeral

/-- A number without its sign; the names of the numbers that are not finite in any case. -/
def ofUnsignedText? (negative : Bool) (cs : List Char) : Option Binary64 :=
  match Numeral.ofText? cs with
  | some t => some (t.toBinary64 negative)
  | none =>
    let name := String.ofList (cs.map Char.toLower)
    if name == "inf" || name == "infinity" then some (.infinity negative)
    else if name == "nan" then some .nan
    else none

def ofText? : List Char → Option Binary64
  | '-' :: cs => ofUnsignedText? true cs
  | '+' :: cs => ofUnsignedText? false cs
  | cs => ofUnsignedText? false cs

end ItemStore.Binary64
