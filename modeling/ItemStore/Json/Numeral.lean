import ItemStore.Digits
import ItemStore.Json.Basic

/-!
Numbers in JSON text. A number without point and exponent that fits 64 bits is an integer. Any
other is a float: of its digits as many as fit 64 bits are kept, and their number is multiplied
or divided once by the double nearest to a power of ten.
-/
namespace ItemStore.Json.Numeral

attribute [local instance (high)] instPowNat

open Binary64

/-- The digits after `s` are taken up while the number fits 64 bits; the others are left over. -/
def takeUp (s : Nat) : List Char → Nat × List Char
  | [] => (s, [])
  | c :: cs =>
    if 10 * s + Digits.digit c < 2 ^ (64 : Nat) then takeUp (10 * s + Digits.digit c) cs
    else (s, c :: cs)

/-- The units of the double nearest to `10^e`. -/
def powerOfTen (e : Nat) : Nat := roundUnits (10 ^ e * one) 1

/-- `u` units divided by `10^e`, of which one division takes at most `10^308`. -/
def divided (u e : Nat) : Nat :=
  if e ≤ 308 then roundUnits (u * one) (powerOfTen e)
  else if u = 0 then 0
  else divided (roundUnits (u * one) (powerOfTen 308)) (e - 308)
termination_by e
decreasing_by omega

def scaled (s : Nat) : Int → Nat
  | .ofNat e =>
    if e ≤ 308 then roundUnits (roundUnits (s * one) 1 * powerOfTen e) one
    else if s = 0 then 0
    else limit
  | .negSucc e => divided (roundUnits (s * one) 1) (e + 1)

def float? (negative : Bool) (u : Nat) : Option Number :=
  if h : u < limit ∧ spacing u ∣ u then some (.float ⟨negative, u, h.1, h.2⟩) else none

/-- Further digits before the point count as zeros, and after it they are dropped. -/
def ofFloat? (negative : Bool) (whole fraction : List Char) (exponent : Int) : Option Number :=
  let (s, wholeRest) := takeUp 0 whole
  let (t, fractionRest) := takeUp s fraction
  float? negative (scaled t (wholeRest.length - (fraction.length - fractionRest.length) + exponent))

/-- Minus zero is not an integer, because an integer has one zero. -/
def ofInteger? (negative : Bool) (whole : List Char) : Option Number :=
  let n : Int := if negative then -Digits.value whole else Digits.value whole
  if h : (-2 ^ (63 : Nat) ≤ n ∧ n < 2 ^ (64 : Nat)) ∧ ¬(negative ∧ n = 0) then
    some (.integer n h.1)
  else ofFloat? negative whole [] 0

def exponent? : List Char → Option (Option Int)
  | [] => some none
  | c :: cs => if c == 'e' || c == 'E' then (Digits.int? cs).map some else none

/-- Digits without a leading zero, then a point with digits and an exponent, or only one of them. -/
def ofUnsigned? (negative : Bool) (cs : List Char) : Option Number := do
  let whole := cs.takeWhile Char.isDigit
  guard (whole.length = 1 ∨ 1 < whole.length ∧ whole.head? ≠ some '0')
  match cs.dropWhile Char.isDigit with
  | '.' :: cs =>
    let fraction := cs.takeWhile Char.isDigit
    guard (fraction ≠ [])
    ofFloat? negative whole fraction ((← exponent? (cs.dropWhile Char.isDigit)).getD 0)
  | cs =>
    match ← exponent? cs with
    | some exponent => ofFloat? negative whole [] exponent
    | none => ofInteger? negative whole

def ofText? : List Char → Option Number
  | '-' :: cs => ofUnsigned? true cs
  | cs => ofUnsigned? false cs

end ItemStore.Json.Numeral
