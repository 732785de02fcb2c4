import ItemStore.Binary64.Shortest

/-! Decimal text of doubles, positional and with an exponent. -/
namespace ItemStore

namespace Decimal

/-- Positional notation, padded with zeros on either side; a point only before a fraction. -/
def positional (d : Decimal) : List Char :=
  let ds := Digits.ofNat d.coefficient
  match d.exponent with
  | .ofNat x => ds ++ List.replicate x '0'
  | .negSucc x =>
    if x + 1 < ds.length then ds.take (ds.length - (x + 1)) ++ '.' :: ds.drop (ds.length - (x + 1))
    else '0' :: '.' :: (List.replicate (x + 1 - ds.length) '0' ++ ds)

def magnitude (d : Decimal) : Int := d.exponent + Digits.count d.coefficient - 1

/-- One digit, the others as its fraction, and the exponent with its sign. -/
def scientific (d : Decimal) : List Char :=
  let fraction := (Digits.ofNat d.coefficient).tail
  (Digits.ofNat d.coefficient).take 1 ++ (if fraction.isEmpty then [] else '.' :: fraction) ++
    'e' :: (if d.magnitude < 0 then '-' else '+') :: Digits.ofNat d.magnitude.natAbs

end Decimal

namespace Binary64

def signed (negative : Bool) (text : List Char) : List Char := if negative then '-' :: text else text

/-- Positional text with the fewest digits that read back; of two equally near the upper is taken.
It never has an exponent, and whole numbers have no fraction. -/
def text : Binary64 → List Char
  | .nan => "NaN".toList
  | .infinity negative => signed negative "inf".toList
  | .finite x => signed x.negative (shortest .upper x.units).positional

end Binary64
end ItemStore
